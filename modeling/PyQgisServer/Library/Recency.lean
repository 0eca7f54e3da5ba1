import Mathlib.Data.List.Nodup
import PyQgisServer.Library.Transition

namespace Recency

inductive Op (K V : Type) where
  | getItem (k : K)
  | setItem (k : K) (v : V)
  | delItem (k : K)
  | peek (k : K)
  | contains (k : K)
  | clear
  | size (n : Option ℕ)
  | len
  | iter
  | keys
  | items
  | values

inductive Answer (K V : Type) where
  | keyError
  | assertionError
  | done
  | value (v : V)
  | found (v : Option V)
  | held (b : Bool)
  | number (n : ℕ)
  | keys (l : List K)
  | items (l : List (K × V))
  | values (l : List V)
  deriving DecidableEq

@[ext] structure Recents (K V : Type) where
  entries : List (K × V)
  capacity : ℕ

namespace Recents

variable {K V : Type} [DecidableEq K]

def init (capacity : ℕ) : Recents K V := ⟨[], capacity⟩

def keys (r : Recents K V) : List K := r.entries.map Prod.fst

def find (r : Recents K V) (k : K) : Option V := (r.entries.find? fun x => x.1 = k).map Prod.snd

def forget (r : Recents K V) (k : K) : Recents K V := { r with entries := r.entries.filter fun x => x.1 ≠ k }

def use (r : Recents K V) (k : K) (v : V) : Recents K V := { r with entries := (k, v) :: (r.forget k).entries }

def put (r : Recents K V) (k : K) (v : V) : Recents K V :=
  { r with entries := (r.use k v).entries.take r.capacity }

def resize (r : Recents K V) (n : ℕ) : Recents K V := ⟨r.entries.take n, n⟩

def apply (r : Recents K V) : Op K V → Answer K V × Recents K V
  | .getItem k =>
    match r.find k with
    | none => (.keyError, r)
    | some v => (.value v, r.use k v)
  | .setItem k v => (.done, r.put k v)
  | .delItem k => if k ∈ r.keys then (.done, r.forget k) else (.keyError, r)
  | .peek k => (.found (r.find k), r)
  | .contains k => (.held (k ∈ r.keys), r)
  | .clear => (.done, { r with entries := [] })
  | .size none => (.number r.capacity, r)
  | .size (some n) => if 0 < n then (.number n, r.resize n) else (.assertionError, r)
  | .len => (.number r.entries.length, r)
  | .iter => (.keys r.keys, r)
  | .keys => (.keys r.keys, r)
  | .items => (.items r.entries, r)
  | .values => (.values (r.entries.map Prod.snd), r)

end Recents

section history

variable {K V : Type} [DecidableEq K]

-- the different keys of a history whose last key comes first
def recent : List K → List K
  | [] => []
  | k :: history => k :: (recent history).filter (· ≠ k)

def used : Op K V → Answer K V → List K
  | .setItem k _, _ => [k]
  | .getItem k, .value _ => [k]
  | _, _ => []

def uses : Recents K V → List (Op K V) → List K
  | _, [] => []
  | r, op :: ops => uses (r.apply op).2 ops ++ used op (r.apply op).1

end history

namespace Recents

variable {K V : Type} [DecidableEq K]

theorem keys_forget (r : Recents K V) (k : K) : (r.forget k).keys = r.keys.filter (· ≠ k) := by
  rw [keys, keys, List.filter_map]
  rfl

theorem keys_use (r : Recents K V) (k : K) (v : V) : (r.use k v).keys = k :: r.keys.filter (· ≠ k) := by
  rw [← keys_forget]
  rfl

theorem keys_put (r : Recents K V) (k : K) (v : V) :
    (r.put k v).keys = (k :: r.keys.filter (· ≠ k)).take r.capacity := by
  rw [← keys_use r k v]
  exact List.map_take.symm ▸ rfl

theorem apply_recent {r : Recents K V} {history : List K} (h : r.keys.Sublist (recent history)) (op : Op K V) :
    (r.apply op).2.keys.Sublist (recent (used op (r.apply op).1 ++ history)) := by
  have huse : ∀ k, (k :: r.keys.filter (· ≠ k)).Sublist (recent (k :: history)) := fun k =>
    (h.filter _).cons_cons k
  cases op with
  | getItem k =>
    simp only [apply]
    split
    · exact h
    · rw [keys_use]
      exact huse k
  | setItem k v =>
    rw [show (r.apply (.setItem k v)).2 = r.put k v from rfl, keys_put]
    exact (List.take_sublist _ _).trans (huse k)
  | delItem k =>
    simp only [apply]
    split
    · rw [keys_forget]
      exact List.filter_sublist.trans h
    · exact h
  | size n =>
    cases n with
    | none => exact h
    | some n =>
      simp only [apply]
      split
      · exact ((List.take_sublist _ _).map _).trans h
      · exact h
  | clear => exact List.nil_sublist _
  | peek k => exact h
  | contains k => exact h
  | len => exact h
  | iter => exact h
  | keys => exact h
  | items => exact h
  | values => exact h

theorem run_recent (r : Recents K V) {history : List K} (h : r.keys.Sublist (recent history)) (ops : List (Op K V)) :
    (Transition.answers apply r ops).2.keys.Sublist (recent (uses r ops ++ history)) := by
  induction ops generalizing r history with
  | nil => exact h
  | cons op ops ih =>
    rw [uses, List.append_assoc]
    exact ih (r.apply op).2 (apply_recent h op)

end Recents

end Recency
