import PyQgisServer.Library.Urllib.Join
import PyQgisServer.Library.Urllib.WithQuery

namespace Urllib

section weight

theorem weight_sublist {s t : Str} (h : s.Sublist t) : weight s ≤ weight t ∧ (weight s = weight t → s = t) := by
  induction h with
  | slnil => simp
  | @cons s t c _ ih =>
    have hc := charWeight_pos c
    rw [weight_cons]
    exact ⟨by omega, fun heq => absurd heq (by omega)⟩
  | @cons_cons s t c _ ih =>
    rw [weight_cons, weight_cons]
    exact ⟨by omega, fun heq => by rw [ih.2 (by omega)]⟩

def withoutAmp (s : Str) : Str := s.filter (· != '&')

theorem withoutAmp_append_amp (s t : Str) : withoutAmp (s ++ '&' :: t) = withoutAmp s ++ withoutAmp t := by
  rw [withoutAmp, List.filter_append, List.filter_cons_of_neg (by simp)]
  rfl

theorem pairsWeight_parseQsl_le (s : Str) : pairsWeight (parseQsl s) ≤ weight (withoutAmp s) := by
  induction s using cut_induction (c := '&') with
  | piece s h =>
    have hself : withoutAmp s = s := List.filter_eq_self.mpr (cut_off h)
    rw [hself]
    exact (weight_parseQsl s).1
  | cut t u ht hu =>
    rw [parseQsl_append, pairsWeight_append, withoutAmp_append_amp, weight_append]
    omega

def joinPairs (l : List (Str × Str)) : Str := ['&'].intercalate (l.map pair)

theorem joinPairs_cons_cons (x y : Str × Str) (l : List (Str × Str)) :
    joinPairs (x :: y :: l) = pair x ++ '&' :: joinPairs (y :: l) := by
  rw [joinPairs, List.map_cons, List.map_cons, List.intercalate_cons_cons, List.append_assoc]
  rfl

theorem joinPairs_singleton (x : Str × Str) : joinPairs [x] = pair x := by simp [joinPairs]

theorem weight_joinPairs_le (l : List (Str × Str)) : weight (withoutAmp (joinPairs l)) ≤ pairsWeight l := by
  induction l with
  | nil => exact Nat.le_refl 0
  | cons x xs ih =>
    have hpair : weight (withoutAmp (pair x)) ≤ pairWeight x := by
      rw [← weight_pair]
      exact (weight_sublist List.filter_sublist).1
    have hcons : pairsWeight (x :: xs) = pairWeight x + pairsWeight xs := by simp [pairsWeight]
    rw [hcons]
    cases xs with
    | nil =>
      rw [joinPairs_singleton]
      omega
    | cons y ys =>
      rw [joinPairs_cons_cons, withoutAmp_append_amp, weight_append]
      omega

theorem pair_subset_joinPairs {l : List (Str × Str)} {x : Str × Str} (h : x ∈ l) : pair x ⊆ joinPairs l := by
  induction l with
  | nil => cases h
  | cons y ys ih =>
    cases ys with
    | nil =>
      obtain rfl := List.mem_singleton.mp h
      rw [joinPairs_singleton]
      exact List.Subset.refl _
    | cons z zs =>
      rw [joinPairs_cons_cons]
      rcases List.mem_cons.mp h with rfl | h
      · exact List.subset_append_left _ _
      · exact fun c hc => List.mem_append_right _ (List.mem_cons_of_mem _ (ih h hc))

end weight

section readBack

def keptQuery (query : Str) : Str := before '#' (dropUnsafe query)

theorem keptQuery_sublist (query : Str) : (keptQuery query).Sublist query :=
  (List.takeWhile_prefix _).sublist.trans List.filter_sublist

theorem mem_keptQuery {query : Str} {c : Char} (h : c ∈ keptQuery query) : isUnsafe c = false ∧ c ≠ '#' := by
  refine ⟨?_, ?_⟩
  · have hmem : c ∈ query.filter (!isUnsafe ·) := before_subset '#' _ h
    simpa using (List.mem_filter.mp hmem).2
  · rintro rfl
    exact not_mem_before '#' _ h

theorem keptQuery_eq_self {query : Str} (h : ∀ c ∈ query, isUnsafe c = false ∧ c ≠ '#') : keptQuery query = query := by
  have hdrop : dropUnsafe query = query := by
    refine List.filter_eq_self.mpr fun c hc => ?_
    rw [(h c hc).1]
    rfl
  rw [keptQuery, hdrop, before_eq_self fun hmem => (h _ hmem).2 rfl]

structure Carried (x : Str × Str) : Prop extends Unescaped x where
  plain : ∀ c ∈ pair x, isUnsafe c = false ∧ c ≠ '#'

theorem plain_of_subset {l : List (Str × Str)} (hnodup : l.Nodup)
    (h : l ⊆ parseQsl (keptQuery (joinPairs l))) : ∀ c ∈ joinPairs l, isUnsafe c = false ∧ c ≠ '#' := by
  obtain ⟨m, hm, hsub⟩ := hnodup.subperm h
  obtain ⟨rest, hrest⟩ := hsub.exists_perm_append
  have hperm := pairsWeight_perm (hrest.trans (hm.append_right rest))
  rw [pairsWeight_append] at hperm
  have hread := pairsWeight_parseQsl_le (keptQuery (joinPairs l))
  have hkept := weight_sublist ((keptQuery_sublist (joinPairs l)).filter (· != '&'))
  have hjoin := weight_joinPairs_le l
  simp only [withoutAmp] at hread hjoin
  have heq := hkept.2 (by omega)
  intro c hc
  by_cases hamp : c = '&'
  · subst hamp
    decide
  · have hmem : c ∈ (joinPairs l).filter (· != '&') := List.mem_filter.mpr ⟨hc, by simpa using hamp⟩
    rw [← heq] at hmem
    exact mem_keptQuery (List.mem_filter.mp hmem).1

theorem firstValue_of_parseQsl {query : Str} {d : PyDict Str Str} (h : parseQsl query = d.items) (name : Str) :
    firstValue query name = d.get? name := by
  rw [firstValue_eq, h, PyDict.get?]

theorem reads_back_iff {d : PyDict Str Str} (hvalues : ∀ x ∈ d.items, x.2 ≠ []) :
    (∀ name, firstValue (keptQuery (joinPairs d.items)) name = d.get? name) ↔ ∀ x ∈ d.items, Carried x := by
  constructor
  · intro h
    have hsub : d.items ⊆ parseQsl (keptQuery (joinPairs d.items)) := by
      intro x hx
      have hget := h x.1
      rw [PyDict.get?_eq_some.mpr hx, firstValue_eq, Option.map_eq_some_iff] at hget
      obtain ⟨y, hy, hvalue⟩ := hget
      have hname : y.1 = x.1 := by simpa using List.find?_some hy
      have hyx : y = x := Prod.ext hname hvalue
      exact hyx ▸ List.mem_of_find?_eq_some hy
    have hnodup : d.items.Nodup := List.Nodup.of_map _ d.nodup
    have hplain := plain_of_subset hnodup hsub
    rw [keptQuery_eq_self hplain] at hsub
    have hunescaped := unescaped_of_subset hnodup hsub
    exact fun x hx => ⟨hunescaped x hx, fun c hc => hplain c (pair_subset_joinPairs hx hc)⟩
  · intro h name
    have hplain : ∀ c ∈ joinPairs d.items, isUnsafe c = false ∧ c ≠ '#' := by
      intro c hc
      rcases mem_intercalate hc with rfl | ⟨s, hs, hmem⟩
      · decide
      · obtain ⟨x, hx, rfl⟩ := List.mem_map.mp hs
        exact (h x hx).plain c hmem
    have hread : parseQsl (joinPairs d.items) = d.items :=
      parseQsl_pairs fun x hx => ⟨(h x hx).toUnescaped, hvalues x hx⟩
    rw [keptQuery_eq_self hplain]
    exact firstValue_of_parseQsl hread name

end readBack

end Urllib
