import Breadboard.Subscribers
import Mathlib.Data.List.Nodup

set_option autoImplicit false

/-!
Subscribers and what they hear. Main statement: as no number is in use twice, every subscriber hears
of every piece of news once, and in order.
-/
namespace Breadboard.Subscribers

-- Every number in use has been given out, and none of them twice.
structure Distinct (s : Subscribers) : Prop where
  nodup : s.active.Nodup
  given : ∀ id ∈ s.active, id < s.next

theorem distinct_none : none.Distinct := ⟨List.nodup_nil, by simp [none]⟩

theorem Distinct.add {s : Subscribers} (distinct : s.Distinct) : s.add.2.Distinct where
  nodup := by
    have fresh : s.next ∉ s.active := fun active => Nat.lt_irrefl _ (distinct.given _ active)
    exact distinct.nodup.append (List.nodup_singleton _) (List.disjoint_singleton.2 fresh)
  given := by
    intro id active
    obtain active | rfl : id ∈ s.active ∨ id = s.next := by simpa [Subscribers.add] using active
    · exact Nat.lt_succ_of_lt (distinct.given id active)
    · exact Nat.lt_succ_self _

theorem Distinct.remove {s : Subscribers} (distinct : s.Distinct) (id : Nat) :
    (s.remove id).2.Distinct where
  nodup := distinct.nodup.filter _
  given := fun other active => distinct.given other (List.mem_filter.1 active).1

-- What one subscriber hears, of all that is heard.
def heardBy {α : Type} (id : Nat) (heard : List (Nat × α)) : List α :=
  (heard.filter (·.1 == id)).map Prod.snd

@[simp] theorem heardBy_append {α : Type} (id : Nat) (a b : List (Nat × α)) :
    heardBy id (a ++ b) = heardBy id a ++ heardBy id b := by
  simp [heardBy]

theorem heardBy_deliver {α : Type} {s : Subscribers} (distinct : s.Distinct) (id : Nat) (news : List α) :
    heardBy id (s.deliver news) = if id ∈ s.active then news else [] := by
  have once (a : α) : heardBy id (s.active.map fun i => (i, a)) = if id ∈ s.active then [a] else [] := by
    have found : s.active.filter (· == id) = if id ∈ s.active then [id] else [] := by
      rw [List.filter_beq]
      split
      · rename_i active
        rw [List.count_eq_one_of_mem distinct.nodup active]
        rfl
      · rename_i absent
        rw [List.count_eq_zero_of_not_mem absent]
        rfl
    simp only [heardBy, List.filter_map, Function.comp_def, found]
    split <;> rfl
  induction news with
  | nil => simp [heardBy]
  | cons a news ih =>
    have first : s.deliver (a :: news) = (s.active.map fun i => (i, a)) ++ s.deliver news := rfl
    rw [first, heardBy_append, once, ih]
    split <;> rfl

end Breadboard.Subscribers
