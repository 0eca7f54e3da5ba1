import PyQgisServer.Cache.Alias

namespace QgsCache

open Urllib

def coerced (query1 query2 key : Str) : Option Str := (firstValue query1 key).or (firstValue query2 key)

def AliasPrecedence (query1 query2 : Str) : Prop :=
  ∀ key, firstValue (mergeQs query1 query2) key = coerced query1 query2 key

def coercedParams (query1 query2 : Str) : PyDict Str (List Str) := (parseQs query2).update (parseQs query1)

def coercedPairs (query1 query2 : Str) : List (Str × Str) :=
  (coercedParams query1 query2).items.map fun x => (x.1, x.2.headD [])

theorem mergeQs_eq (query1 query2 : Str) :
    mergeQs query1 query2 = ['&'].intercalate ((coercedPairs query1 query2).map pair) := by
  rw [coercedPairs, List.map_map]
  rfl

theorem coercedParams_ne_nil {query1 query2 key : Str} {values : List Str}
    (h : (coercedParams query1 query2).get? key = some values) : values ≠ [] := by
  rw [coercedParams, PyDict.get?_update] at h
  rcases Option.or_eq_some_iff.mp h with h | ⟨_, h⟩
  · exact parseQs_ne_nil h
  · exact parseQs_ne_nil h

theorem coerced_eq (query1 query2 key : Str) :
    coerced query1 query2 key = ((coercedParams query1 query2).get? key).bind List.head? := by
  rw [coercedParams, PyDict.get?_update, coerced, firstValue, firstValue]
  cases h : (parseQs query1).get? key with
  | none => rfl
  | some values =>
    obtain ⟨v, vs, rfl⟩ := List.exists_cons_of_ne_nil (parseQs_ne_nil h)
    rfl

theorem mem_coercedPairs {query1 query2 key value : Str} :
    (key, value) ∈ coercedPairs query1 query2 ↔ coerced query1 query2 key = some value := by
  rw [coerced_eq, Option.bind_eq_some_iff]
  simp only [coercedPairs, List.mem_map, Prod.mk.injEq, Prod.exists]
  constructor
  · rintro ⟨k, values, hmem, rfl, rfl⟩
    have hget := PyDict.get?_eq_some.mpr hmem
    obtain ⟨v, vs, rfl⟩ := List.exists_cons_of_ne_nil (coercedParams_ne_nil hget)
    exact ⟨v :: vs, hget, rfl⟩
  · rintro ⟨values, hget, hhead⟩
    refine ⟨key, values, PyDict.get?_eq_some.mp hget, rfl, ?_⟩
    rw [List.headD_eq_head?_getD, hhead, Option.getD_some]

theorem nodup_coercedPairs (query1 query2 : Str) : ((coercedPairs query1 query2).map Prod.fst).Nodup := by
  rw [coercedPairs, List.map_map]
  exact (coercedParams query1 query2).nodup

theorem coerced_ne_nil {query1 query2 key value : Str} (h : coerced query1 query2 key = some value) :
    value ≠ [] := by
  rcases Option.or_eq_some_iff.mp h with h | ⟨_, h⟩
  · exact firstValue_ne_nil h
  · exact firstValue_ne_nil h

theorem mergeQs_of_unescaped {query1 query2 : Str}
    (h : ∀ x ∈ coercedPairs query1 query2, Unescaped x) : AliasPrecedence query1 query2 := by
  have hread : parseQsl (mergeQs query1 query2) = coercedPairs query1 query2 := by
    rw [mergeQs_eq]
    exact parseQsl_pairs fun x hx => ⟨h x hx, coerced_ne_nil (mem_coercedPairs.mp hx)⟩
  intro key
  apply Option.ext
  intro value
  have hfind := PyDict.get?_eq_some (d := ⟨coercedPairs query1 query2, nodup_coercedPairs query1 query2⟩)
    (k := key) (v := value)
  rw [firstValue_eq, hread, ← mem_coercedPairs]
  exact hfind

theorem unescaped_of_mergeQs {query1 query2 : Str} (h : AliasPrecedence query1 query2) :
    ∀ x ∈ coercedPairs query1 query2, Unescaped x := by
  refine unescaped_of_subset (List.Nodup.of_map _ (nodup_coercedPairs query1 query2)) ?_
  rw [← mergeQs_eq]
  rintro ⟨key, value⟩ hmem
  have hfirst := h key
  rw [mem_coercedPairs.mp hmem, firstValue_eq] at hfirst
  obtain ⟨x, hx, hvalue⟩ := Option.map_eq_some_iff.mp hfirst
  have hkey : x.1 = key := by simpa using List.find?_some hx
  have hpair : x = (key, value) := Prod.ext hkey hvalue
  exact hpair ▸ List.mem_of_find?_eq_some hx

theorem alias_precedence_iff (query1 query2 : Str) :
    AliasPrecedence query1 query2 ↔
      ∀ key value, coerced query1 query2 key = some value → Unescaped (key, value) := by
  constructor
  · intro h key value hvalue
    exact unescaped_of_mergeQs h _ (mem_coercedPairs.mpr hvalue)
  · intro h
    exact mergeQs_of_unescaped fun x hx => h x.1 x.2 (mem_coercedPairs.mp hx)

theorem escaped_value_overrides_alias : ¬ AliasPrecedence "service=my".toList "a=1%26service%3Devil".toList := by
  intro h
  have hservice := h "service".toList
  exact absurd hservice (by decide)

end QgsCache
