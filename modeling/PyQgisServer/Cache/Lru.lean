import Mathlib.Logic.Function.Basic
import PyQgisServer.Library.PyDict

namespace QgsCache

-- the table lists the entries from the least to the most recently used
structure Lru (K V : Type) where
  table : PyDict K V
  capacity : ℕ
  pos : 0 < capacity
  bounded : table.items.length ≤ capacity

def popitems {α : Type} (capacity : ℕ) : List α → List α
  | [] => []
  | x :: table => if capacity ≤ (x :: table).length then popitems capacity table else x :: table

theorem popitems_suffix {α : Type} (capacity : ℕ) (l : List α) : popitems capacity l <:+ l := by
  induction l with
  | nil => exact List.suffix_rfl
  | cons x l ih =>
    rw [popitems]
    split
    · exact ih.trans (List.suffix_cons _ _)
    · exact List.suffix_rfl

theorem popitems_length {α : Type} {capacity : ℕ} (h : 0 < capacity) (l : List α) :
    (popitems capacity l).length < capacity := by
  induction l with
  | nil => exact h
  | cons x l ih =>
    rw [popitems]
    split
    · exact ih
    · omega

theorem popitems_eq_self {α : Type} {capacity : ℕ} {l : List α} (h : l.length < capacity) :
    popitems capacity l = l := by
  cases l with
  | nil => rfl
  | cons x l => rw [popitems, if_neg (by omega)]

theorem popitems_eq_tail {α : Type} {capacity : ℕ} {l : List α}
    (h : l.length ≤ capacity) : popitems capacity l = l ∨ popitems capacity l = l.tail := by
  cases l with
  | nil => exact .inl rfl
  | cons x l =>
    rw [popitems]
    split
    · exact .inr (popitems_eq_self (Nat.lt_of_succ_le h))
    · exact .inl rfl

theorem popitems_eq_drop {α : Type} {capacity : ℕ} (h : 0 < capacity) (l : List α) :
    popitems capacity l = l.drop (l.length - (capacity - 1)) := by
  induction l with
  | nil => exact List.drop_nil.symm
  | cons x l ih =>
    rw [popitems]
    split
    · rename_i hle
      have hlen : (x :: l).length - (capacity - 1) = l.length - (capacity - 1) + 1 := by
        rw [List.length_cons] at hle ⊢
        omega
      rw [ih, hlen, List.drop_succ_cons]
    · rename_i hgt
      have hlen : (x :: l).length - (capacity - 1) = 0 := by omega
      rw [hlen, List.drop_zero]

theorem popitems_map {α β : Type} (f : α → β) (capacity : ℕ) (l : List α) :
    (popitems capacity l).map f = popitems capacity (l.map f) := by
  induction l with
  | nil => rfl
  | cons x l ih =>
    rw [popitems, List.map_cons, popitems, List.length_cons, List.length_cons, List.length_map]
    split
    · exact ih
    · rfl

namespace Lru

variable {K V : Type}

def init (capacity : ℕ) (pos : 0 < capacity) : Lru K V := ⟨.empty, capacity, pos, Nat.zero_le _⟩

def tableKeys (c : Lru K V) : List K := c.table.keys

theorem nodup_tableKeys (c : Lru K V) : c.tableKeys.Nodup := c.table.nodup_keys

variable [DecidableEq K]

def peek (c : Lru K V) (k : K) : Option V := c.table.get? k

-- none stands for KeyError
def getItem (c : Lru K V) (k : K) : Option (V × Lru K V) :=
  match h : c.table.get? k with
  | none => none
  | some v => some (v, { c with
      table := c.table.append k v
      bounded := by
        have hmem : k ∈ c.table.keys := by
          by_contra hc
          rw [PyDict.get?_eq_none.mpr hc] at h
          cases h
        have hlen : (c.table.keys.filter (· ≠ k)).length < c.table.keys.length :=
          List.length_filter_lt_length_iff_exists.mpr ⟨k, hmem, by simp⟩
        have hkeys := congrArg List.length (c.table.keys_append k v)
        have hb := c.bounded
        simp only [PyDict.keys, List.length_map, List.length_append, List.length_singleton] at *
        omega })

def setItem (c : Lru K V) (k : K) (v : V) : Lru K V where
  table :=
    ⟨popitems c.capacity (c.table.erase k).items ++ [(k, v)],
      (c.table.append k v).nodup.sublist
        (((popitems_suffix _ _).sublist.append (.refl _)).map Prod.fst)⟩
  capacity := c.capacity
  pos := c.pos
  bounded := by
    have := popitems_length c.pos (c.table.erase k).items
    simp only [List.length_append, List.length_singleton]
    omega

-- none stands for KeyError
def delItem (c : Lru K V) (k : K) : Option (Lru K V) :=
  if k ∈ c.table.keys then
    some { c with
      table := c.table.erase k
      bounded := Nat.le_trans List.filter_sublist.length_le c.bounded }
  else none

def contains (c : Lru K V) (k : K) : Bool := k ∈ c.table.keys

def clear (c : Lru K V) : Lru K V := { c with table := .empty, bounded := Nat.zero_le _ }

def len (c : Lru K V) : ℕ := c.table.items.length

def items (c : Lru K V) : List (K × V) := c.table.items.reverse

def keys (c : Lru K V) : List K := c.tableKeys.reverse

def values (c : Lru K V) : List V := c.table.values.reverse

def iter (c : Lru K V) : List K := c.tableKeys.reverse

-- the loop of a smaller size ends when size items are left
def resize (c : Lru K V) (n : ℕ) (pos : 0 < n) : Lru K V :=
  if h : n < c.capacity then
    { table := ⟨popitems (n + 1) c.table.items,
        c.table.nodup.sublist ((popitems_suffix _ _).sublist.map Prod.fst)⟩
      capacity := n
      pos := pos
      bounded := Nat.le_of_lt_succ (popitems_length n.succ_pos _) }
  else { c with capacity := n, pos := pos, bounded := Nat.le_trans c.bounded (Nat.not_lt.mp h) }

-- none stands for AssertionError
def size (c : Lru K V) : Option ℕ → Option (ℕ × Lru K V)
  | none => some (c.capacity, c)
  | some n => if pos : 0 < n then some (n, c.resize n pos) else none

theorem tableKeys_setItem (c : Lru K V) (k : K) (v : V) :
    (c.setItem k v).tableKeys = popitems c.capacity (c.tableKeys.filter (· ≠ k)) ++ [k] := by
  unfold tableKeys
  rw [← PyDict.keys_erase]
  simp [setItem, PyDict.keys, popitems_map]

theorem length_filter_lt {c : Lru K V} {k : K} (h : k ∈ c.tableKeys) :
    (c.tableKeys.filter (· ≠ k)).length < c.capacity := by
  have hlen : (c.tableKeys.filter (· ≠ k)).length < c.tableKeys.length :=
    List.length_filter_lt_length_iff_exists.mpr ⟨k, h, by simp⟩
  have hb := c.bounded
  simp only [tableKeys, PyDict.keys, List.length_map] at *
  omega

theorem peek_setItem_self (c : Lru K V) (k : K) (v : V) : (c.setItem k v).peek k = some v := by
  rw [peek, PyDict.get?_eq_some]
  simp [setItem]

theorem peek_setItem_ne {c : Lru K V} {k l : K} {v : V} (hk : k ∈ c.tableKeys) (h : l ≠ k) :
    (c.setItem k v).peek l = c.peek l := by
  have hpop : popitems c.capacity (c.table.erase k).items = (c.table.erase k).items := by
    refine popitems_eq_self ?_
    have hlt := length_filter_lt hk
    rw [tableKeys, ← PyDict.keys_erase] at hlt
    simpa [PyDict.keys] using hlt
  refine Option.ext fun w => ?_
  rw [peek, peek, PyDict.get?_eq_some, PyDict.get?_eq_some]
  simp only [setItem, hpop]
  simp [PyDict.erase, h]

theorem peek_of_setItem {c : Lru K V} {k l : K} {v w : V} (h : l ≠ k) (hl : (c.setItem k v).peek l = some w) :
    c.peek l = some w := by
  rw [peek, PyDict.get?_eq_some] at hl ⊢
  rcases List.mem_append.mp hl with hl | hl
  · exact (List.mem_filter.mp ((popitems_suffix _ _).subset hl)).1
  · exact absurd (congrArg Prod.fst (List.mem_singleton.mp hl)) h

theorem peek_setItem {c : Lru K V} {k : K} (v : V) (hk : k ∈ c.tableKeys) :
    (c.setItem k v).peek = Function.update c.peek k (some v) := by
  funext l
  by_cases hl : l = k
  · rw [hl, peek_setItem_self, Function.update_self]
  · rw [peek_setItem_ne hk hl, Function.update_of_ne hl]

theorem getItem_setItem (c : Lru K V) (k : K) (v : V) :
    (c.setItem k v).getItem k = some (v, c.setItem k v) := by
  have hget : (c.setItem k v).table.get? k = some v := peek_setItem_self c k v
  have hitems : ((c.setItem k v).table.append k v).items = (c.setItem k v).table.items := by
    have hpop : ∀ x ∈ popitems c.capacity (c.table.erase k).items, x.1 ≠ k := by
      intro x hx
      have := (popitems_suffix _ _).subset hx
      simpa [PyDict.erase] using (List.mem_filter.mp this).2
    simp only [setItem, PyDict.append, PyDict.erase, List.filter_append]
    rw [List.filter_eq_self.mpr]
    · simp
    · simpa [PyDict.erase] using hpop
  have htable : (c.setItem k v).table.append k v = (c.setItem k v).table := PyDict.ext hitems
  unfold getItem
  split
  · rename_i h
    rw [hget] at h
    cases h
  · rename_i w h
    obtain rfl := Option.some.inj (h.symm.trans hget)
    simp only [htable]

theorem evicted_head {c : Lru K V} {k e : K} {v : V} (he : e ∈ c.tableKeys)
    (hgone : e ∉ (c.setItem k v).tableKeys) : c.tableKeys.head? = some e := by
  rw [tableKeys_setItem, List.mem_append, List.mem_singleton, not_or] at hgone
  obtain ⟨hgone, hne⟩ := hgone
  have hmem : e ∈ c.tableKeys.filter (· ≠ k) := List.mem_filter.mpr ⟨he, by simpa using hne⟩
  have hb : c.tableKeys.length ≤ c.capacity := by simpa [tableKeys, PyDict.keys] using c.bounded
  by_cases hk : k ∈ c.tableKeys
  · rw [popitems_eq_self (length_filter_lt hk)] at hgone
    exact absurd hmem hgone
  · have hfilter : c.tableKeys.filter (· ≠ k) = c.tableKeys := by
      refine List.filter_eq_self.mpr fun x hx => ?_
      rw [decide_eq_true_eq]
      rintro rfl
      exact hk hx
    rw [hfilter] at hgone
    rcases popitems_eq_tail hb with heq | heq
    · rw [heq] at hgone
      exact absurd he hgone
    · rw [heq] at hgone
      cases hkeys : c.tableKeys with
      | nil =>
        rw [hkeys] at he
        cases he
      | cons x l =>
        rw [hkeys] at he hgone
        rcases List.mem_cons.mp he with rfl | hl
        · rfl
        · exact absurd hl hgone

theorem mem_tableKeys_iff {c : Lru K V} {k : K} : k ∈ c.tableKeys ↔ c.peek k ≠ none := by
  rw [peek, ne_eq, PyDict.get?_eq_none, not_not]
  rfl

end Lru

end QgsCache
