set_option autoImplicit false

/-!
Tables from names to things, kept in the order of their names.
-/
namespace Breadboard

structure Table (α : Type) where
  entries : List (String × α)
  deriving DecidableEq, Repr

namespace Table

variable {α : Type}

def empty : Table α := ⟨[]⟩

instance : Inhabited (Table α) := ⟨empty⟩

def find? (t : Table α) (name : String) : Option α := t.entries.lookup name

/-- Puts an entry in front of the first larger name, in place of one of the same name. -/
def insertInto (name : String) (a : α) : List (String × α) → List (String × α)
  | [] => [(name, a)]
  | (n, b) :: rest =>
    if name < n then (name, a) :: (n, b) :: rest
    else if name = n then (name, a) :: rest
    else (n, b) :: insertInto name a rest

def insert (t : Table α) (name : String) (a : α) : Table α := ⟨insertInto name a t.entries⟩

/-- Inserts entries one after the other, so that of two of the same name the later one wins. -/
def insertAll (t : Table α) (entries : List (String × α)) : Table α :=
  entries.foldl (fun t e => t.insert e.1 e.2) t

def ofList (entries : List (String × α)) : Table α := empty.insertAll entries

def size (t : Table α) : Nat := t.entries.length

def isEmpty (t : Table α) : Bool := t.entries.isEmpty

@[simp] theorem find?_empty (name : String) : (empty : Table α).find? name = none := rfl

@[simp] theorem find?_insert_self (t : Table α) (name : String) (a : α) :
    (t.insert name a).find? name = some a := by
  obtain ⟨es⟩ := t
  simp only [insert, find?]
  induction es with
  | nil => simp [insertInto]
  | cons e es ih =>
    obtain ⟨n, b⟩ := e
    unfold insertInto
    split
    · simp
    · split
      · simp
      · rename_i h
        have hb : (name == n) = false := by simp [h]
        simp [List.lookup_cons, hb, ih]

theorem find?_insert_of_ne (t : Table α) {name other : String} (a : α) (h : other ≠ name) :
    (t.insert name a).find? other = t.find? other := by
  obtain ⟨es⟩ := t
  have hb : (other == name) = false := by simp [h]
  simp only [insert, find?]
  induction es with
  | nil => simp [insertInto, List.lookup_cons, hb]
  | cons e es ih =>
    obtain ⟨n, b⟩ := e
    unfold insertInto
    split
    · simp [List.lookup_cons, hb]
    · split
      · rename_i hn
        subst hn
        simp [List.lookup_cons, hb]
      · simp only [List.lookup_cons, ih]

theorem mem_entries_of_find? {t : Table α} {name : String} {a : α} (h : t.find? name = some a) :
    (name, a) ∈ t.entries := by
  obtain ⟨es⟩ := t
  simp only [find?] at h ⊢
  induction es with
  | nil => simp at h
  | cons e es ih =>
    obtain ⟨n, b⟩ := e
    rw [List.lookup_cons] at h
    split at h
    · rename_i hn
      cases h
      simp [eq_of_beq hn]
    · exact List.mem_cons_of_mem _ (ih h)

end Table

end Breadboard
