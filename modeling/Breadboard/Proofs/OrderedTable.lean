import Breadboard.Table
import Mathlib.Data.List.Induction

set_option autoImplicit false

/-!
Tables are kept in order. Main statements: putting an entry into a table keeps it in order, and entries in
order with the same look-ups are the same.
-/
namespace Breadboard.Table

variable {α : Type}

def Ordered (entries : List (String × α)) : Prop := entries.Pairwise fun e f => e.1 < f.1

theorem mem_insertInto {name : String} {a : α} {entries : List (String × α)} {e : String × α}
    (listed : e ∈ insertInto name a entries) : e = (name, a) ∨ e ∈ entries := by
  induction entries with
  | nil => exact .inl (List.mem_singleton.1 listed)
  | cons f entries ih =>
    obtain ⟨n, b⟩ := f
    unfold insertInto at listed
    split at listed
    · exact List.mem_cons.1 listed
    · split at listed
      · exact (List.mem_cons.1 listed).imp_right (List.mem_cons_of_mem _)
      · obtain rfl | later := List.mem_cons.1 listed
        · exact .inr List.mem_cons_self
        · exact (ih later).imp_right (List.mem_cons_of_mem _)

theorem ordered_insertInto (name : String) (a : α) {entries : List (String × α)} (ordered : Ordered entries) :
    Ordered (insertInto name a entries) := by
  induction entries with
  | nil => exact List.pairwise_singleton _ _
  | cons f entries ih =>
    obtain ⟨n, b⟩ := f
    obtain ⟨first, others⟩ := List.pairwise_cons.1 ordered
    unfold insertInto
    split
    · rename_i before
      refine List.pairwise_cons.2 ⟨?_, ordered⟩
      intro e listed
      obtain rfl | later := List.mem_cons.1 listed
      · exact before
      · exact String.lt_trans before (first e later)
    · rename_i notBefore
      split
      · rename_i same
        exact List.pairwise_cons.2 ⟨fun e later => same ▸ first e later, others⟩
      · rename_i other
        refine List.pairwise_cons.2 ⟨?_, ih others⟩
        intro e listed
        obtain rfl | later := mem_insertInto listed
        · exact Std.lt_of_le_of_ne (String.not_lt.1 notBefore) (Ne.symm other)
        · exact first e later

-- What is larger than all names goes to the end.
theorem insertInto_of_above {name : String} (a : α) {entries : List (String × α)}
    (above : ∀ e ∈ entries, e.1 < name) : insertInto name a entries = entries ++ [(name, a)] := by
  induction entries with
  | nil => rfl
  | cons f entries ih =>
    obtain ⟨n, b⟩ := f
    obtain ⟨first, others⟩ := List.forall_mem_cons.1 above
    have other : name ≠ n := by
      rintro rfl
      exact String.lt_irrefl name first
    rw [insertInto, if_neg (String.lt_asymm first), if_neg other, ih others, List.cons_append]

theorem lookup_insertInto (name other : String) (a : α) (entries : List (String × α)) :
    (insertInto name a entries).lookup other = if other = name then some a else entries.lookup other := by
  split
  · rename_i same
    rw [same]
    exact find?_insert_self ⟨entries⟩ name a
  · rename_i other
    exact find?_insert_of_ne ⟨entries⟩ a other

theorem lookup_cons_of_ne {name n : String} (a : α) (entries : List (String × α)) (other : name ≠ n) :
    ((n, a) :: entries).lookup name = entries.lookup name := by
  have behind : (name == n) = false := beq_false_of_ne other
  rw [List.lookup_cons, behind]

theorem lookup_of_below {name : String} {entries : List (String × α)} (below : ∀ e ∈ entries, name < e.1) :
    entries.lookup name = none := by
  rw [List.lookup_eq_none_iff]
  intro e listed
  have smaller := below e listed
  rw [bne_iff_ne]
  intro same
  rw [same] at smaller
  exact String.lt_irrefl _ smaller

theorem Ordered.lookup_of_lt {name m : String} {b : α} {entries : List (String × α)}
    (ordered : Ordered ((m, b) :: entries)) (smaller : name < m) : ((m, b) :: entries).lookup name = none := by
  obtain ⟨first, -⟩ := List.pairwise_cons.1 ordered
  apply lookup_of_below
  intro e listed
  obtain rfl | later := List.mem_cons.1 listed
  · exact smaller
  · exact String.lt_trans smaller (first e later)

theorem Ordered.ext {entries others : List (String × α)} (ordered : Ordered entries) (ordered' : Ordered others)
    (same : ∀ name, entries.lookup name = others.lookup name) : entries = others := by
  induction entries generalizing others with
  | nil =>
    cases others with
    | nil => rfl
    | cons f others =>
      obtain ⟨m, b⟩ := f
      have found := same m
      rw [List.lookup_nil, List.lookup_cons_self] at found
      cases found
  | cons e entries ih =>
    obtain ⟨n, a⟩ := e
    cases others with
    | nil =>
      have found := same n
      rw [List.lookup_nil, List.lookup_cons_self] at found
      cases found
    | cons f others =>
      obtain ⟨m, b⟩ := f
      -- The smaller of the two first names is not found on the other side.
      have names : n = m := by
        obtain smaller | same' | larger := Std.lt_trichotomy n m
        · have found := same n
          rw [ordered'.lookup_of_lt smaller, List.lookup_cons_self] at found
          cases found
        · exact same'
        · have found := same m
          rw [ordered.lookup_of_lt larger, List.lookup_cons_self] at found
          cases found
      subst names
      have values := same n
      rw [List.lookup_cons_self, List.lookup_cons_self] at values
      obtain rfl := Option.some.inj values
      obtain ⟨first, later⟩ := List.pairwise_cons.1 ordered
      obtain ⟨first', later'⟩ := List.pairwise_cons.1 ordered'
      congr 1
      apply ih later later'
      intro name
      by_cases opens : name = n
      · rw [opens, lookup_of_below first, lookup_of_below first']
      · simpa only [lookup_cons_of_ne _ _ opens] using same name

theorem ofList_append (entries : List (String × α)) (name : String) (a : α) :
    ofList (entries ++ [(name, a)]) = (ofList entries).insert name a := by
  simp [ofList, insertAll]

theorem ordered_ofList (entries : List (String × α)) : Ordered (ofList entries).entries := by
  induction entries using List.reverseRecOn with
  | nil => exact List.Pairwise.nil
  | append_singleton entries e ih =>
    rw [ofList_append]
    exact ordered_insertInto e.1 e.2 ih

theorem mem_ofList {entries : List (String × α)} {e : String × α} (listed : e ∈ (ofList entries).entries) :
    e ∈ entries := by
  induction entries using List.reverseRecOn with
  | nil => exact listed
  | append_singleton entries last ih =>
    rw [ofList_append] at listed
    obtain rfl | earlier := mem_insertInto listed
    · exact List.mem_append_right _ List.mem_cons_self
    · exact List.mem_append_left _ (ih earlier)

section Mapping

variable {β : Type} (f : α → β)

theorem map_insertInto (name : String) (a : α) (entries : List (String × α)) :
    (insertInto name a entries).map (fun e => (e.1, f e.2)) =
      insertInto name (f a) (entries.map fun e => (e.1, f e.2)) := by
  induction entries with
  | nil => rfl
  | cons entry entries ih =>
    obtain ⟨n, b⟩ := entry
    simp only [insertInto, List.map_cons]
    split
    · rfl
    · split
      · rfl
      · rw [List.map_cons, ih]

theorem map_insertAll (t : Table α) (entries : List (String × α)) :
    (t.insertAll entries).entries.map (fun e => (e.1, f e.2)) =
      ((Table.mk (t.entries.map fun e => (e.1, f e.2))).insertAll
        (entries.map fun e => (e.1, f e.2))).entries := by
  induction entries generalizing t with
  | nil => rfl
  | cons entry entries ih =>
    have step := ih (t.insert entry.1 entry.2)
    rw [insert, map_insertInto] at step
    exact step

-- What is done to every entry may be done before the entries are put into a table.
theorem map_ofList (entries : List (String × α)) :
    Table.mk ((ofList entries).entries.map fun e => (e.1, f e.2)) =
      .ofList (entries.map fun e => (e.1, f e.2)) := by
  rw [ofList, map_insertAll]
  rfl

end Mapping

end Breadboard.Table
