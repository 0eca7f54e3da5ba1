import Mathlib.Data.List.Nodup

structure PySet (α : Type) where
  elems : List α
  nodup : elems.Nodup

namespace PySet

variable {α : Type}

def empty : PySet α := ⟨[], List.nodup_nil⟩

def isEmpty (s : PySet α) : Bool := s.elems.isEmpty

instance : Membership α (PySet α) := ⟨fun s a => a ∈ s.elems⟩

theorem mem_def {a : α} {s : PySet α} : a ∈ s ↔ a ∈ s.elems := Iff.rfl

@[simp] theorem not_mem_empty (a : α) : a ∉ (empty : PySet α) := by simp [mem_def, empty]

variable [DecidableEq α]

instance (a : α) (s : PySet α) : Decidable (a ∈ s) := inferInstanceAs (Decidable (a ∈ s.elems))

def add (s : PySet α) (a : α) : PySet α :=
  if h : a ∈ s.elems then s else ⟨a :: s.elems, List.nodup_cons.mpr ⟨h, s.nodup⟩⟩

@[simp] theorem mem_add {a b : α} {s : PySet α} : b ∈ s.add a ↔ b = a ∨ b ∈ s := by
  unfold add
  split
  · rename_i h
    constructor
    · exact Or.inr
    · rintro (rfl | hb)
      · exact h
      · exact hb
  · simp [mem_def]

def ofList (l : List α) : PySet α := l.foldr (fun a s => s.add a) empty

@[simp] theorem mem_ofList {a : α} {l : List α} : a ∈ ofList l ↔ a ∈ l := by
  induction l with
  | nil => simp [ofList]
  | cons b l ih =>
    rw [ofList, List.foldr_cons, mem_add, ← ofList, ih, List.mem_cons]

def remove (s : PySet α) (a : α) : PySet α := ⟨s.elems.erase a, s.nodup.erase a⟩

@[simp] theorem mem_remove {a b : α} {s : PySet α} : b ∈ s.remove a ↔ b ≠ a ∧ b ∈ s := by
  simp [mem_def, remove, s.nodup.mem_erase_iff]

-- set.pop() removes an arbitrary element: i is the interpreter's choice
def pop (i : ℕ) (s : PySet α) : Option (α × PySet α) :=
  (s.elems[i % s.elems.length]?).map fun a => (a, s.remove a)

theorem pop_eq_none {i : ℕ} {s : PySet α} : s.pop i = none ↔ s.elems = [] := by
  simp only [pop, Option.map_eq_none_iff, List.getElem?_eq_none_iff]
  constructor
  · intro h
    by_contra hne
    have := Nat.mod_lt i (List.length_pos_of_ne_nil hne)
    omega
  · rintro h
    simp [h]

theorem pop_mem {i : ℕ} {s t : PySet α} {a : α} (h : s.pop i = some (a, t)) :
    a ∈ s ∧ t = s.remove a := by
  simp only [pop, Option.map_eq_some_iff, Prod.mk.injEq] at h
  obtain ⟨b, hb, rfl, rfl⟩ := h
  exact ⟨List.mem_of_getElem? hb, rfl⟩

theorem pop_length {i : ℕ} {s t : PySet α} {a : α} (h : s.pop i = some (a, t)) :
    t.elems.length + 1 = s.elems.length := by
  obtain ⟨ha, rfl⟩ := pop_mem h
  have := List.length_pos_of_mem ha
  simp only [remove, List.length_erase_of_mem ha]
  omega

end PySet
