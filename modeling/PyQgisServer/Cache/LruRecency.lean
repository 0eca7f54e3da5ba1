import PyQgisServer.Library.Recency
import PyQgisServer.Cache.Lru

namespace QgsCache

open Recency

namespace Lru

variable {K V : Type}

def recents (c : Lru K V) : Recents K V := ⟨c.items, c.capacity⟩

theorem map_fst_items (c : Lru K V) : c.items.map Prod.fst = c.keys := List.map_reverse

theorem map_snd_items (c : Lru K V) : c.items.map Prod.snd = c.values := List.map_reverse

theorem keys_recents (c : Lru K V) : c.recents.keys = c.keys := c.map_fst_items

theorem length_items (c : Lru K V) : c.items.length = c.len := List.length_reverse

theorem mem_keys {c : Lru K V} {k : K} : k ∈ c.keys ↔ k ∈ c.table.keys := List.mem_reverse

theorem recents_resize (c : Lru K V) {n : ℕ} (pos : 0 < n) : (c.resize n pos).recents = c.recents.resize n := by
  unfold resize
  split
  · refine Recents.ext ?_ rfl
    simp only [recents, items, Recents.resize]
    rw [popitems_eq_drop n.succ_pos, List.take_reverse, Nat.succ_sub_one]
  · rename_i h
    refine Recents.ext ?_ rfl
    have hb := c.bounded
    simp only [recents, items, Recents.resize]
    rw [List.take_of_length_le (by rw [List.length_reverse]; omega)]

variable [DecidableEq K]

def apply (c : Lru K V) : Op K V → Answer K V × Lru K V
  | .getItem k =>
    match c.getItem k with
    | none => (.keyError, c)
    | some (v, c) => (.value v, c)
  | .setItem k v => (.done, c.setItem k v)
  | .delItem k =>
    match c.delItem k with
    | none => (.keyError, c)
    | some c => (.done, c)
  | .peek k => (.found (c.peek k), c)
  | .contains k => (.held (c.contains k), c)
  | .clear => (.done, c.clear)
  | .size n =>
    match c.size n with
    | none => (.assertionError, c)
    | some (n, c) => (.number n, c)
  | .len => (.number c.len, c)
  | .iter => (.keys c.iter, c)
  | .keys => (.keys c.keys, c)
  | .items => (.items c.items, c)
  | .values => (.values c.values, c)

-- keys are different, so that both ends of the table give the same entry
theorem find_recents (c : Lru K V) (k : K) : c.recents.find k = c.peek k := by
  have hnodup : (c.items.map Prod.fst).Nodup := by
    rw [map_fst_items]
    exact List.nodup_reverse.mpr c.nodup_tableKeys
  have hget : (⟨c.items, hnodup⟩ : PyDict K V).get? k = c.table.get? k := by
    apply Option.ext
    intro v
    rw [PyDict.get?_eq_some, PyDict.get?_eq_some]
    exact List.mem_reverse
  exact hget

theorem items_erase (c : Lru K V) (k : K) :
    (c.table.erase k).items.reverse = (c.recents.forget k).entries := by
  simp only [PyDict.erase, Recents.forget, recents, items, List.filter_reverse]

theorem recents_getItem {c d : Lru K V} {k : K} {v : V} (h : c.getItem k = some (v, d)) :
    c.peek k = some v ∧ d.recents = c.recents.use k v := by
  unfold getItem at h
  split at h
  · cases h
  · rename_i w hw
    cases h
    refine ⟨hw, Recents.ext ?_ rfl⟩
    simp only [recents, items, PyDict.append, List.reverse_append, List.reverse_singleton, List.singleton_append,
      Recents.use]
    rw [items_erase]
    rfl

theorem getItem_eq_none {c : Lru K V} {k : K} : c.getItem k = none ↔ c.peek k = none := by
  unfold getItem
  split
  · rename_i h
    exact iff_of_true rfl h
  · rename_i w h
    refine iff_of_false (by simp) ?_
    rw [peek, h]
    simp

theorem recents_setItem (c : Lru K V) (k : K) (v : V) : (c.setItem k v).recents = c.recents.put k v := by
  obtain ⟨n, hn⟩ : ∃ n, c.capacity = n + 1 := ⟨c.capacity - 1, by have := c.pos; omega⟩
  refine Recents.ext ?_ rfl
  have hpop : (popitems c.capacity (c.table.erase k).items).reverse =
      (c.table.erase k).items.reverse.take n := by
    rw [popitems_eq_drop c.pos, List.take_reverse, hn, Nat.add_sub_cancel]
  simp only [recents, items, setItem, List.reverse_append, List.reverse_singleton, List.singleton_append, hpop,
    Recents.put, Recents.use]
  rw [hn, List.take_succ_cons, items_erase]
  rfl

theorem recents_delItem {c d : Lru K V} {k : K} (h : c.delItem k = some d) :
    k ∈ c.keys ∧ d.recents = c.recents.forget k := by
  unfold delItem at h
  split at h
  · rename_i hk
    cases h
    exact ⟨mem_keys.mpr hk, Recents.ext (items_erase c k) rfl⟩
  · cases h

theorem delItem_eq_none {c : Lru K V} {k : K} : c.delItem k = none ↔ k ∉ c.keys := by
  unfold delItem
  rw [mem_keys]
  split
  · rename_i hk
    exact iff_of_false (by simp) (not_not.mpr hk)
  · rename_i hk
    exact iff_of_true rfl hk

theorem apply_recents (c : Lru K V) (op : Op K V) :
    c.recents.apply op = ((c.apply op).1, (c.apply op).2.recents) := by
  cases op with
  | getItem k =>
    simp only [apply, Recents.apply, find_recents]
    cases hg : c.getItem k with
    | none => simp [getItem_eq_none.mp hg]
    | some r =>
      obtain ⟨hv, hd⟩ := recents_getItem hg
      simp [hv, hd]
  | setItem k v =>
    simp only [apply, Recents.apply, recents_setItem]
  | delItem k =>
    simp only [apply, Recents.apply, keys_recents]
    cases hd : c.delItem k with
    | none => rw [if_neg (delItem_eq_none.mp hd)]
    | some d =>
      obtain ⟨hk, heq⟩ := recents_delItem hd
      rw [if_pos hk, heq]
  | peek k => simp only [apply, Recents.apply, find_recents]
  | contains k => simp only [apply, Recents.apply, keys_recents, mem_keys, contains]
  | clear => rfl
  | size n =>
    cases n with
    | none => rfl
    | some n =>
      simp only [apply, Recents.apply, size]
      split
      · rw [recents_resize]
      · rfl
  | len => simp only [apply, Recents.apply, recents, items, len, List.length_reverse]
  | iter => simp only [apply, Recents.apply, keys_recents, keys, iter]
  | keys => simp only [apply, Recents.apply, keys_recents]
  | items => rfl
  | values => simp only [apply, Recents.apply, recents, map_snd_items]

structure Bounded (c : Lru K V) (history : List K) : Prop where
  len_le : c.len ≤ c.capacity
  recent : c.keys.Sublist (recent history)
  iter : c.iter = c.keys
  items : c.items.map Prod.fst = c.keys ∧ c.items.map Prod.snd = c.values
  peek : ∀ k, (c.apply (.peek k)).2 = c ∧ (c.apply (.contains k)).2 = c
  missing : ∀ k, k ∉ c.keys → c.apply (.getItem k) = (.keyError, c) ∧ c.apply (.delItem k) = (.keyError, c)
  overwrite : ∀ k v, k ∈ c.keys →
    (c.apply (.setItem k v)).2.items = (k, v) :: c.items.filter fun x => x.1 ≠ k
  insert : ∀ k v, k ∉ c.keys →
    (c.apply (.setItem k v)).2.items = (k, v) :: c.items.take (c.capacity - 1)
  resize : ∀ n, 0 < n → (c.apply (.size (some n))).2.items = c.items.take n ∧
    (c.apply (.size (some n))).2.capacity = n

theorem items_setItem (c : Lru K V) (k : K) (v : V) :
    (c.setItem k v).items = (k, v) :: (c.items.filter fun x => x.1 ≠ k).take (c.capacity - 1) := by
  have hput := congrArg Recents.entries (recents_setItem c k v)
  obtain ⟨n, hn⟩ : ∃ n, c.capacity = n + 1 := ⟨c.capacity - 1, by have := c.pos; omega⟩
  simp only [Recents.put, Recents.use, Recents.forget, recents, hn, List.take_succ_cons] at hput
  rw [hput, hn, Nat.add_sub_cancel]

theorem bounded_of_recent {c : Lru K V} {history : List K} (h : c.keys.Sublist (Recency.recent history)) :
    c.Bounded history where
  len_le := c.bounded
  recent := h
  iter := rfl
  items := ⟨c.map_fst_items, c.map_snd_items⟩
  peek _ := ⟨rfl, rfl⟩
  missing k hk := by
    have hnone : c.getItem k = none := by
      rw [getItem_eq_none, Lru.peek, PyDict.get?_eq_none]
      exact mt mem_keys.mpr hk
    simp only [apply, hnone, delItem_eq_none.mpr hk, and_self]
  overwrite k v hk := by
    have hlt : (c.items.filter fun x => x.1 ≠ k).length ≤ c.capacity - 1 := by
      obtain ⟨x, hx, hxk⟩ := List.mem_map.mp (c.map_fst_items ▸ hk)
      have hlen := List.length_filter_lt_length_iff_exists (p := fun x : K × V => decide (x.1 ≠ k)).mpr
        ⟨x, hx, by simp [hxk]⟩
      have hb := c.bounded
      rw [← len, ← length_items] at hb
      omega
    rw [show (c.apply (.setItem k v)).2 = c.setItem k v from rfl, items_setItem, List.take_of_length_le hlt]
  insert k v hk := by
    have hfilter : (c.items.filter fun x => x.1 ≠ k) = c.items := by
      refine List.filter_eq_self.mpr fun x hx => ?_
      rw [decide_eq_true_eq]
      rintro rfl
      exact hk (c.map_fst_items ▸ List.mem_map_of_mem hx)
    rw [show (c.apply (.setItem k v)).2 = c.setItem k v from rfl, items_setItem, hfilter]
  resize n pos := by
    have happly : (c.apply (.size (some n))).2 = c.resize n pos := by simp only [apply, size, dif_pos pos]
    have hsize := recents_resize c pos
    rw [happly]
    exact ⟨congrArg Recents.entries hsize, congrArg Recents.capacity hsize⟩

theorem refines_recents {n : ℕ} (pos : 0 < n) (ops : List (Op K V)) :
    let r := Transition.answers apply (init n pos) ops
    Transition.answers Recents.apply (Recents.init n) ops = (r.1, r.2.recents) ∧
      r.2.Bounded (uses (Recents.init n) ops) := by
  have hrun : Transition.answers Recents.apply (Recents.init n) ops = _ :=
    Transition.answers_simulated apply_recents (init n pos : Lru K V) ops
  refine ⟨hrun, bounded_of_recent ?_⟩
  have hrecent := @Recents.run_recent _ _ _ (Recents.init n) [] (List.nil_sublist _) ops
  rw [hrun, keys_recents, List.append_nil] at hrecent
  exact hrecent

def orderingOps : List (Op ℕ Unit) :=
  [.setItem 1 (), .setItem 2 (), .setItem 3 (), .getItem 1, .size (some 2), .peek 3, .setItem 4 (), .keys]

theorem refines_recents_ordering :
    let r := Transition.answers apply (init 3 (by decide)) orderingOps
    r.1 = [.done, .done, .done, .value (), .number 2, .found (some ()), .done, .keys [4, 1]] ∧
      Transition.answers Recents.apply (Recents.init 3) orderingOps = (r.1, r.2.recents) ∧
      r.2.Bounded [4, 1, 3, 2, 1] :=
  ⟨by decide, refines_recents (by decide) orderingOps⟩

end Lru

end QgsCache
