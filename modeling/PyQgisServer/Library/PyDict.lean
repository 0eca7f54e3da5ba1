import Mathlib.Data.List.Nodup
import Mathlib.Data.List.Basic

@[ext] structure PyDict (K V : Type) where
  items : List (K × V)
  nodup : (items.map Prod.fst).Nodup

namespace PyDict

variable {K V : Type}

def empty : PyDict K V := ⟨[], .nil⟩

def keys (d : PyDict K V) : List K := d.items.map Prod.fst

theorem nodup_keys (d : PyDict K V) : d.keys.Nodup := d.nodup

def values (d : PyDict K V) : List V := d.items.map Prod.snd

@[simp] theorem keys_empty : (empty : PyDict K V).keys = [] := rfl

variable [DecidableEq K]

def get? (d : PyDict K V) (k : K) : Option V := (d.items.find? fun x => x.1 = k).map Prod.snd

theorem get?_eq_some {d : PyDict K V} {k : K} {v : V} : d.get? k = some v ↔ (k, v) ∈ d.items := by
  simp only [get?, Option.map_eq_some_iff]
  constructor
  · rintro ⟨x, hx, rfl⟩
    have hk : x.1 = k := by simpa using List.find?_some hx
    exact hk ▸ List.mem_of_find?_eq_some hx
  · intro h
    cases hf : d.items.find? fun x => x.1 = k with
    | none =>
      have hk := List.find?_eq_none.mp hf (k, v) h
      simp at hk
    | some x =>
      have hk : x.1 = k := by simpa using List.find?_some hf
      have heq : x = (k, v) := List.inj_on_of_nodup_map d.nodup (List.mem_of_find?_eq_some hf) h hk
      exact ⟨x, rfl, by rw [heq]⟩

theorem get?_eq_none {d : PyDict K V} {k : K} : d.get? k = none ↔ k ∉ d.keys := by
  simp only [get?, keys, Option.map_eq_none_iff, List.find?_eq_none, List.mem_map, decide_eq_true_eq]
  constructor
  · rintro h ⟨x, hx, rfl⟩
    exact h x hx rfl
  · intro h x hx hk
    exact h ⟨x, hx, hk⟩

def erase (d : PyDict K V) (k : K) : PyDict K V where
  items := d.items.filter fun x => x.1 ≠ k
  nodup := d.nodup.sublist ((List.filter_sublist).map _)

theorem keys_erase (d : PyDict K V) (k : K) : (d.erase k).keys = d.keys.filter (· ≠ k) := by
  simp only [erase, keys, List.filter_map]
  rfl

def append (d : PyDict K V) (k : K) (v : V) : PyDict K V where
  items := (d.erase k).items ++ [(k, v)]
  nodup := by
    rw [List.map_append]
    refine (d.erase k).nodup.append (List.nodup_singleton _) (List.disjoint_singleton.mpr ?_)
    intro h
    have hk : k ∈ d.keys.filter (· ≠ k) := by rw [← keys_erase]; exact h
    simpa using (List.mem_filter.mp hk).2

theorem keys_append (d : PyDict K V) (k : K) (v : V) :
    (d.append k v).keys = d.keys.filter (· ≠ k) ++ [k] := by
  rw [← keys_erase]
  simp [append, keys]

-- assignment: a known key keeps its place
def set (d : PyDict K V) (k : K) (v : V) : PyDict K V :=
  if h : k ∈ d.keys then
    ⟨d.items.map fun x => if x.1 = k then (k, v) else x, by
      have hkeys : (d.items.map fun x => if x.1 = k then (k, v) else x).map Prod.fst =
          d.items.map Prod.fst := by
        rw [List.map_map]
        refine List.map_congr_left fun x _ => ?_
        simp only [Function.comp_apply]
        split
        · rename_i hx
          exact hx.symm
        · rfl
      exact hkeys ▸ d.nodup⟩
  else ⟨d.items ++ [(k, v)], by
    rw [List.map_append]
    exact d.nodup.append (List.nodup_singleton _) (List.disjoint_singleton.mpr h)⟩

theorem keys_set {d : PyDict K V} {k : K} (v : V) (h : k ∈ d.keys) : (d.set k v).keys = d.keys := by
  rw [set, dif_pos h, keys, keys, List.map_map]
  refine List.map_congr_left fun x _ => ?_
  simp only [Function.comp_apply]
  split
  · rename_i hx
    exact hx.symm
  · rfl

theorem get?_set (d : PyDict K V) (k l : K) (v : V) :
    (d.set k v).get? l = if l = k then some v else d.get? l := by
  apply Option.ext
  intro w
  rw [get?_eq_some]
  have hmem : (l, w) ∈ (d.set k v).items ↔ l = k ∧ w = v ∨ l ≠ k ∧ (l, w) ∈ d.items := by
    unfold set
    split
    · rename_i h
      obtain ⟨x, hx, hk⟩ := List.mem_map.mp h
      simp only [List.mem_map]
      constructor
      · rintro ⟨y, hy, he⟩
        split at he
        · cases he
          exact .inl ⟨rfl, rfl⟩
        · rename_i hne
          subst he
          exact .inr ⟨hne, hy⟩
      · rintro (⟨rfl, rfl⟩ | ⟨hne, hl⟩)
        · exact ⟨x, hx, by rw [if_pos hk]⟩
        · exact ⟨(l, w), hl, by rw [if_neg hne]⟩
    · rename_i h
      simp only [List.mem_append, List.mem_singleton, Prod.mk.injEq]
      constructor
      · rintro (hl | hl)
        · refine .inr ⟨?_, hl⟩
          rintro rfl
          exact h (List.mem_map.mpr ⟨(l, w), hl, rfl⟩)
        · exact .inl hl
      · rintro (hl | hl)
        · exact .inr hl
        · exact .inl hl.2
  rw [hmem]
  split
  · rename_i hl
    simp [hl, eq_comm]
  · rename_i hl
    simp [hl, get?_eq_some]

theorem get?_erase (d : PyDict K V) (k l : K) : (d.erase k).get? l = if l = k then none else d.get? l := by
  apply Option.ext
  intro v
  rw [get?_eq_some, erase, List.mem_filter]
  split
  · rename_i hl
    simp [hl]
  · rename_i hl
    simp [hl, get?_eq_some]

theorem mem_keys {d : PyDict K V} {k : K} : k ∈ d.keys ↔ ∃ v, d.get? k = some v := by
  rw [← Option.ne_none_iff_exists', ne_eq, get?_eq_none, not_not]

theorem mem_keys_set {d : PyDict K V} {k l : K} {v : V} : l ∈ (d.set k v).keys ↔ l = k ∨ l ∈ d.keys := by
  rw [mem_keys, mem_keys, get?_set]
  split
  · rename_i hl
    exact iff_of_true ⟨v, rfl⟩ (.inl hl)
  · rename_i hl
    exact (or_iff_right hl).symm

theorem erase_set (d : PyDict K V) (k : K) (v : V) : (d.set k v).erase k = d.erase k := by
  refine PyDict.ext ?_
  unfold set
  split
  · rw [erase, erase]
    change List.filter _ (List.map _ d.items) = _
    rw [List.filter_map]
    have hsame : (fun x => decide (x.1 ≠ k)) ∘ (fun x : K × V => if x.1 = k then (k, v) else x) = fun x => decide (x.1 ≠ k) := by
      funext x
      simp only [Function.comp_apply]
      split
      · rename_i hx
        simp [hx]
      · rfl
    rw [hsame]
    refine (List.map_congr_left fun x hx => ?_).trans (List.map_id _)
    exact if_neg (by simpa using (List.mem_filter.mp hx).2)
  · rw [erase, erase]
    change List.filter _ (d.items ++ [(k, v)]) = _
    rw [List.filter_append, List.filter_singleton]
    simp

theorem set_of_get? {d : PyDict K V} {k : K} {v : V} (h : d.get? k = some v) : d.set k v = d := by
  refine PyDict.ext ?_
  rw [set, dif_pos (mem_keys.mpr ⟨v, h⟩)]
  refine (List.map_congr_left fun x hx => ?_).trans (List.map_id _)
  split
  · rename_i hk
    have hx' : d.get? x.1 = some x.2 := get?_eq_some.mpr hx
    rw [hk, h] at hx'
    exact Prod.ext hk.symm (Option.some.inj hx')
  · rfl

theorem mem_values {d : PyDict K V} {v : V} : v ∈ d.values ↔ ∃ k, d.get? k = some v := by
  simp only [values, List.mem_map, get?_eq_some, Prod.exists, exists_eq_right]

theorem items_set_of_notMem {d : PyDict K V} {k : K} (v : V) (h : k ∉ d.keys) :
    (d.set k v).items = d.items ++ [(k, v)] := by
  rw [set, dif_neg h]

theorem items_of_keys {d : PyDict K V} {k : K} (h : ∀ l ∈ d.keys, l = k) :
    d.items = (d.get? k).toList.map fun v => (k, v) := by
  obtain ⟨items, hnodup⟩ := d
  cases items with
  | nil => rfl
  | cons x xs =>
    have hx : x.1 = k := h x.1 List.mem_cons_self
    cases xs with
    | nil => simp [get?, ← hx]
    | cons y ys =>
      have hy : y.1 = k := h y.1 (List.mem_cons_of_mem _ List.mem_cons_self)
      simp [hx, hy] at hnodup

section views

variable {W : Type}

def mapValues (d : PyDict K V) (f : V → W) : PyDict K W where
  items := d.items.map fun x => (x.1, f x.2)
  nodup := by
    rw [List.map_map]
    exact d.nodup

omit [DecidableEq K] in
theorem keys_mapValues (d : PyDict K V) (f : V → W) : (d.mapValues f).keys = d.keys := by
  rw [mapValues, keys, keys, List.map_map]
  rfl

theorem get?_mapValues (d : PyDict K V) (f : V → W) (k : K) : (d.mapValues f).get? k = (d.get? k).map f := by
  simp only [get?, mapValues, List.find?_map, Option.map_map]
  rfl

def filterKeys (d : PyDict K V) (p : K → Bool) : PyDict K V where
  items := d.items.filter fun x => p x.1
  nodup := d.nodup.sublist (List.filter_sublist.map _)

omit [DecidableEq K] in
theorem keys_filterKeys (d : PyDict K V) (p : K → Bool) : (d.filterKeys p).keys = d.keys.filter p := by
  simp only [filterKeys, keys, List.filter_map]
  rfl

theorem get?_filterKeys (d : PyDict K V) (p : K → Bool) (k : K) :
    (d.filterKeys p).get? k = if p k then d.get? k else none := by
  apply Option.ext
  intro v
  rw [get?_eq_some, filterKeys, List.mem_filter]
  split
  · rename_i hp
    simp [hp, get?_eq_some]
  · rename_i hp
    simp [hp]

theorem items_filterKeys_eq_singleton {d : PyDict K V} {p : K → Bool} {k : K} {v : V} :
    (d.filterKeys p).items = [(k, v)] ↔ p k = true ∧ d.get? k = some v ∧ ∀ l ∈ d.keys, p l = true → l = k := by
  have hget := get?_filterKeys d p k
  have hkeys : ∀ l, l ∈ (d.filterKeys p).keys ↔ l ∈ d.keys ∧ p l = true := by
    intro l
    rw [keys_filterKeys, List.mem_filter]
  constructor
  · intro h
    have hsome : (d.filterKeys p).get? k = some v := get?_eq_some.mpr (h ▸ List.mem_cons_self)
    rw [hget] at hsome
    split at hsome
    · rename_i hp
      refine ⟨hp, hsome, fun l hl hpl => ?_⟩
      have hmem := (hkeys l).mpr ⟨hl, hpl⟩
      rw [keys, h] at hmem
      simpa using hmem
    · cases hsome
  · rintro ⟨hp, hsome, hall⟩
    have hitems := items_of_keys (d := d.filterKeys p) (k := k) fun l hl =>
      hall l ((hkeys l).mp hl).1 ((hkeys l).mp hl).2
    rw [hitems, hget, if_pos hp, hsome]
    rfl

end views

def update (d e : PyDict K V) : PyDict K V := e.items.foldl (fun d x => d.set x.1 x.2) d

theorem get?_update (d e : PyDict K V) (k : K) : (d.update e).get? k = (e.get? k).or (d.get? k) := by
  suffices h : ∀ (items : List (K × V)) (hn : (items.map Prod.fst).Nodup) (d : PyDict K V),
      (items.foldl (fun d x => d.set x.1 x.2) d).get? k = ((⟨items, hn⟩ : PyDict K V).get? k).or (d.get? k) from
    h e.items e.nodup d
  intro items
  induction items with
  | nil =>
    intro _ d
    rfl
  | cons x xs ih =>
    intro hn d
    obtain ⟨hx, hxs⟩ := List.nodup_cons.mp hn
    rw [List.foldl_cons, ih hxs, get?_set]
    by_cases hk : k = x.1
    · subst hk
      have hnone : (⟨xs, hxs⟩ : PyDict K V).get? x.1 = none := get?_eq_none.mpr hx
      rw [hnone, if_pos rfl]
      simp [get?]
    · rw [if_neg hk]
      simp [get?, Ne.symm hk]

section values

variable {p : V → Prop} {d : PyDict K V}

theorem forall_values_set (hd : ∀ w ∈ d.values, p w) (k : K) {v : V} (hv : p v) : ∀ w ∈ (d.set k v).values, p w := by
  intro w hw
  obtain ⟨l, hl⟩ := mem_values.mp hw
  rw [get?_set] at hl
  split at hl
  · rw [← Option.some.inj hl]
    exact hv
  · exact hd w (mem_values.mpr ⟨l, hl⟩)

theorem forall_values_update (hd : ∀ w ∈ d.values, p w) (e : PyDict K V) :
    (∀ w ∈ (d.update e).values, p w) ↔ ∀ w ∈ e.values, p w := by
  constructor
  · intro h w hw
    obtain ⟨k, hk⟩ := mem_values.mp hw
    exact h w (mem_values.mpr ⟨k, by rw [get?_update, hk, Option.some_or]⟩)
  · intro h w hw
    obtain ⟨k, hk⟩ := mem_values.mp hw
    rw [get?_update] at hk
    rcases Option.or_eq_some_iff.mp hk with he | ⟨-, hd'⟩
    · exact h w (mem_values.mpr ⟨k, he⟩)
    · exact hd w (mem_values.mpr ⟨k, hd'⟩)

end values

end PyDict
