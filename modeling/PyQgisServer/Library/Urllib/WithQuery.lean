import PyQgisServer.Library.Urllib.Qsl

namespace Urllib

def dropUnsafe (s : Str) : Str := s.filter (!isUnsafe ·)

@[simp] theorem dropUnsafe_append (s t : Str) : dropUnsafe (s ++ t) = dropUnsafe s ++ dropUnsafe t :=
  List.filter_append s t

theorem dropUnsafe_cons {c : Char} (h : isUnsafe c = false) (s : Str) : dropUnsafe (c :: s) = c :: dropUnsafe s := by
  rw [dropUnsafe, List.filter_cons_of_pos (by simp [h])]
  rfl

theorem dropUnsafe_subset (s : Str) : dropUnsafe s ⊆ s := List.filter_subset_self s

theorem clean_subset (url : Str) : clean url ⊆ url :=
  fun _ hc => (List.dropWhile_suffix _).subset (List.mem_filter.mp hc).1

theorem clean_query (base query : Str) :
    clean (base ++ '?' :: query) = clean base ++ '?' :: dropUnsafe query := by
  have hdrop : (base ++ '?' :: query).dropWhile isC0ControlOrSpace =
      base.dropWhile isC0ControlOrSpace ++ '?' :: query := by
    rw [List.dropWhile_append]
    split
    · rename_i hnil
      rw [List.isEmpty_iff.mp hnil]
      rfl
    · rfl
  rw [clean, hdrop, List.filter_append]
  rfl

theorem before_append_of_mem {c : Char} {s : Str} (t : Str) (h : c ∈ s) :
    before c (s ++ t) = before c s ∧ after c (s ++ t) = after c s ++ t := by
  obtain ⟨a, b, rfl, ha⟩ := List.eq_append_cons_of_mem h
  rw [List.append_assoc, List.cons_append, before_append_cons ha, before_append_cons ha,
    after_append_cons ha, after_append_cons ha]
  exact ⟨rfl, rfl⟩

theorem splitScheme_query (base query d : Str) :
    splitScheme (base ++ '?' :: query) d =
      ((splitScheme base d).1, (splitScheme base d).2 ++ '?' :: query) := by
  unfold splitScheme
  by_cases hcolon : ':' ∈ base
  · obtain ⟨hbefore, hafter⟩ := before_append_of_mem ('?' :: query) hcolon
    rw [hbefore, hafter]
    by_cases hs : isScheme (before ':' base) = true
    · rw [if_pos ⟨List.mem_append_left _ hcolon, hs⟩, if_pos ⟨hcolon, hs⟩]
    · rw [if_neg fun h => hs h.2, if_neg fun h => hs h.2]
  · have hnot : ¬ isScheme (before ':' (base ++ '?' :: query)) = true := by
      rw [before_append_of_notMem _ hcolon]
      intro hs
      have hmark := isScheme_all hs '?' (by simp [before])
      exact absurd hmark (by decide)
    rw [if_neg fun h => hnot h.2, if_neg fun h => hcolon h.1]

theorem splitNetloc_query (base query : Str) :
    splitNetloc (base ++ '?' :: query) = ((splitNetloc base).1, (splitNetloc base).2 ++ '?' :: query) := by
  have hcut : ∀ rest : Str, (rest ++ '?' :: query).takeWhile (!isNetlocEnd ·) = rest.takeWhile (!isNetlocEnd ·) ∧
      (rest ++ '?' :: query).dropWhile (!isNetlocEnd ·) =
        rest.dropWhile (!isNetlocEnd ·) ++ '?' :: query := by
    intro rest
    induction rest with
    | nil => exact ⟨rfl, rfl⟩
    | cons c rest ih =>
      by_cases hc : isNetlocEnd c = true
      · simp [hc]
      · simp [hc, ih]
  match base with
  | [] => rfl
  | ['/'] => rfl
  | '/' :: '/' :: rest => exact Prod.ext (hcut rest).1 (hcut rest).2
  | c :: rest =>
    by_cases hslash : ∃ t, c :: rest = '/' :: '/' :: t
    · obtain ⟨t, ht⟩ := hslash
      rw [ht]
      exact Prod.ext (hcut t).1 (hcut t).2
    · have htake : ∀ s : Str, (∀ t, s ≠ '/' :: '/' :: t) → splitNetloc s = ([], s) := by
        intro s hs
        unfold splitNetloc
        split
        · exact absurd rfl (hs _)
        · rfl
      rw [htake (c :: rest) fun t ht => hslash ⟨t, ht⟩, htake]
      rintro t ht
      cases rest with
      | nil => simp at ht
      | cons d rest =>
        simp only [List.cons_append, List.cons.injEq] at ht
        exact hslash ⟨rest, by rw [ht.1, ht.2.1]⟩

theorem urlsplit_query {env : Tables} {base query : Str} (hquery : '?' ∉ base) (hfragment : '#' ∉ base) :
    urlsplit env (base ++ '?' :: query) [] = (urlsplit env base []).map fun r =>
      { r with query := before '#' (dropUnsafe query), fragment := after '#' (dropUnsafe query) } := by
  have hsub : (splitNetloc (splitScheme (clean base) []).2).2 ⊆ base := by
    intro c hc
    refine clean_subset base ((splitScheme_proper (.inl rfl) (clean base)).2 ?_)
    exact (splitNetloc_spec _).subset (List.mem_append_right _ hc)
  have hq : '?' ∉ (splitNetloc (splitScheme (clean base) []).2).2 := fun h => hquery (hsub h)
  have hf : '#' ∉ (splitNetloc (splitScheme (clean base) []).2).2 := fun h => hfragment (hsub h)
  unfold urlsplit
  simp only [clean_query, splitScheme_query, splitNetloc_query]
  generalize splitNetloc (splitScheme (clean base) []).2 = n at hq hf ⊢
  have hmark : '#' ∉ n.2 ++ ['?'] := by simp [hf]
  have hbefore : before '#' (n.2 ++ '?' :: dropUnsafe query) = n.2 ++ '?' :: before '#' (dropUnsafe query) := by
    rw [List.append_cons, before_append_of_notMem _ hmark, ← List.append_cons]
  have hafter : after '#' (n.2 ++ '?' :: dropUnsafe query) = after '#' (dropUnsafe query) := by
    rw [List.append_cons, after_append_of_notMem _ hmark]
  rw [hbefore, hafter, before_append_cons hq, after_append_cons hq, before_eq_self hf, before_eq_self hq]
  split
  · rfl
  · rfl

def ParseResult.withQuery (r : ParseResult) (query : Str) : ParseResult :=
  { r with query := before '#' query, fragment := after '#' query }

theorem urlparse_query {env : Tables} {base query : Str} (hquery : '?' ∉ base) (hfragment : '#' ∉ base) :
    urlparse env (base ++ '?' :: query) [] =
      (urlparse env base []).map (ParseResult.withQuery · (dropUnsafe query)) := by
  rw [urlparse, urlsplit_query hquery hfragment, urlparse, Option.map_map, Option.map_map]
  congr 1
  funext r
  simp only [Function.comp_apply]
  split
  · rfl
  · rfl

end Urllib
