import PyQgisServer.Library.Urllib.Parse

namespace Urllib

section cut

variable {c : Char} {s t : Str}

theorem cut_off (h : c ∉ s) : ∀ x ∈ s, (x != c) = true := by
  intro x hx
  rw [bne_iff_ne]
  rintro rfl
  exact h hx

theorem before_append_of_notMem (t : Str) (h : c ∉ s) : before c (s ++ t) = s ++ before c t :=
  List.takeWhile_append_of_pos (cut_off h)

theorem after_append_of_notMem (t : Str) (h : c ∉ s) : after c (s ++ t) = after c t := by
  rw [after, List.dropWhile_append_of_pos (cut_off h)]
  rfl

theorem before_append_cons (h : c ∉ s) : before c (s ++ c :: t) = s := by
  rw [before_append_of_notMem _ h]
  simp [before]

theorem after_append_cons (h : c ∉ s) : after c (s ++ c :: t) = t := by
  rw [after_append_of_notMem _ h]
  simp [after]

theorem before_eq_self (h : c ∉ s) : before c s = s :=
  List.takeWhile_eq_self_iff.mpr (cut_off h)

theorem after_eq_nil (h : c ∉ s) : after c s = [] := by
  rw [after, List.dropWhile_eq_nil_iff.mpr (cut_off h)]
  rfl

theorem before_append_after (h : c ∈ s) : before c s ++ c :: after c s = s := by
  obtain ⟨a, b, rfl, ha⟩ := List.eq_append_cons_of_mem h
  rw [before_append_cons ha, after_append_cons ha]

theorem not_mem_before (c : Char) (s : Str) : c ∉ before c s := by
  intro h
  simpa using List.mem_takeWhile_imp h

theorem before_subset (c : Char) (s : Str) : before c s ⊆ s :=
  (List.takeWhile_prefix _).subset

theorem after_subset (c : Char) (s : Str) : after c s ⊆ s :=
  fun _ hx => (List.dropWhile_suffix _).subset (List.mem_of_mem_tail hx)

@[elab_as_elim]
theorem cut_induction {motive : Str → Prop} (piece : ∀ s, c ∉ s → motive s)
    (cut : ∀ s t, motive s → motive t → motive (s ++ c :: t)) (s : Str) : motive s := by
  induction hn : s.length using Nat.strong_induction_on generalizing s with
  | _ n ih =>
    by_cases h : c ∈ s
    · obtain ⟨t, u, rfl⟩ := List.append_of_mem h
      rw [List.length_append, List.length_cons] at hn
      exact cut t u (ih t.length (by omega) t rfl) (ih u.length (by omega) u rfl)
    · exact piece s h

end cut

def ProperScheme (s : Str) : Prop := s = [] ∨ isScheme s = true ∧ s.map Char.toLower = s

structure SplitResult.Clean (env : Tables) (r : SplitResult) : Prop where
  scheme : ProperScheme r.scheme
  netloc : ∀ c ∈ r.netloc, isNetlocEnd c = false
  allowed : allowedNetloc env r.netloc = true
  rooted : r.netloc = [] ∨ r.path = [] ∨ isAbsolute r.path = true
  path : '?' ∉ r.path ∧ '#' ∉ r.path
  query : '#' ∉ r.query
  safe : ∀ c ∈ r.netloc ++ r.path ++ r.query ++ r.fragment, isUnsafe c = false

theorem schemeChar_bounds {c : Char} (h : schemeChar c = true) : 0x20 < c.toNat ∧ c.toNat < 128 := by
  simp only [schemeChar, isAsciiAlpha, Bool.or_eq_true, Bool.and_eq_true, decide_eq_true_eq,
    beq_iff_eq, Char.le_def, UInt32.le_iff_toNat_le] at h
  simp only [Char.toNat]
  rcases h with ((((h | h) | h) | rfl) | rfl) | rfl
  · exact ⟨lt_of_lt_of_le (by decide) h.1, lt_of_le_of_lt h.2 (by decide)⟩
  · exact ⟨lt_of_lt_of_le (by decide) h.1, lt_of_le_of_lt h.2 (by decide)⟩
  · exact ⟨lt_of_lt_of_le (by decide) h.1, lt_of_le_of_lt h.2 (by decide)⟩
  · decide
  · decide
  · decide

theorem isUnsafe_of_lt {c : Char} (h : 0x20 < c.toNat) : isUnsafe c = false := by
  by_contra hc
  simp only [isUnsafe, Bool.not_eq_false, Bool.or_eq_true, beq_iff_eq] at hc
  rcases hc with (rfl | rfl) | rfl <;> exact absurd h (by decide)

theorem not_schemeChar_colon : schemeChar ':' = false := by decide

theorem isScheme_cons {s : Str} (h : isScheme s = true) :
    ∃ c t, s = c :: t ∧ isAsciiAlpha c = true := by
  cases s with
  | nil => simp [isScheme] at h
  | cons c t =>
    simp only [isScheme, List.head?_cons, Option.any_some, Bool.and_eq_true] at h
    exact ⟨c, t, rfl, h.1⟩

theorem isScheme_all {s : Str} (h : isScheme s = true) : ∀ c ∈ s, schemeChar c = true := by
  simp only [isScheme, Bool.and_eq_true, List.all_eq_true] at h
  exact h.2

theorem colon_not_mem {s : Str} (h : isScheme s = true) : ':' ∉ s := fun hc => by
  simpa [not_schemeChar_colon] using isScheme_all h _ hc

namespace SplitResult

def queryFragment (r : SplitResult) : Str :=
  (if r.query = [] then [] else '?' :: r.query) ++ if r.fragment = [] then [] else '#' :: r.fragment

def slashed (r : SplitResult) : Prop :=
  r.netloc ≠ [] ∨ r.path.take 2 = ['/', '/'] ∨
    r.scheme ≠ [] ∧ r.scheme ∈ usesNetloc ∧ (r.path = [] ∨ isAbsolute r.path = true)

theorem authority_slashed {r : SplitResult} (hr : r.netloc = [] ∨ r.path = [] ∨ isAbsolute r.path = true)
    (h : r.slashed) : r.authority = '/' :: '/' :: r.netloc ++ r.path := by
  unfold authority
  by_cases hn : r.netloc = []
  · have h : r.path.take 2 = ['/', '/'] ∨
        r.scheme ≠ [] ∧ r.scheme ∈ usesNetloc ∧ (r.path = [] ∨ isAbsolute r.path = true) :=
      h.resolve_left (fun hc => hc hn)
    rw [if_neg (not_not.mpr hn), hn]
    split
    · rfl
    · rename_i hp
      rw [if_pos (h.resolve_left hp)]
      rfl
  · rw [if_pos hn, if_pos (hr.resolve_left hn)]

theorem authority_bare {r : SplitResult} (h : ¬ r.slashed) : r.authority = r.path := by
  simp only [slashed, not_or, not_not] at h
  unfold authority
  rw [if_neg (not_not.mpr h.1), if_neg h.2.1, if_neg h.2.2]

end SplitResult

theorem splitNetloc_slashes {n t : Str} (hn : ∀ c ∈ n, isNetlocEnd c = false)
    (ht : ∀ c, t.head? = some c → isNetlocEnd c = true) : splitNetloc ('/' :: '/' :: n ++ t) = (n, t) := by
  have hn' : ∀ c ∈ n, (!isNetlocEnd c) = true := fun c hc => by rw [hn c hc]; rfl
  have htake : t.takeWhile (!isNetlocEnd ·) = [] := by
    cases t with
    | nil => rfl
    | cons c t => simp [ht c rfl]
  have hdrop : t.dropWhile (!isNetlocEnd ·) = t := by
    cases t with
    | nil => rfl
    | cons c t => simp [ht c rfl]
  simp only [splitNetloc, List.cons_append]
  rw [List.takeWhile_append_of_pos hn', List.dropWhile_append_of_pos hn', htake, hdrop, List.append_nil]

theorem splitNetloc_bare {s : Str} (h : s.take 2 ≠ ['/', '/']) : splitNetloc s = ([], s) := by
  unfold splitNetloc
  split
  · exact absurd rfl h
  · rfl

namespace SplitResult

theorem queryFragment_head (r : SplitResult) :
    ∀ c, r.queryFragment.head? = some c → c = '?' ∨ c = '#' := by
  intro c hc
  unfold queryFragment at hc
  by_cases hq : r.query = []
  · by_cases hf : r.fragment = []
    · simp [hq, hf] at hc
    · simp only [hq, hf, if_true, if_false, List.nil_append, List.head?_cons, Option.some.injEq] at hc
      exact .inr hc.symm
  · simp only [hq, if_false, List.cons_append, List.head?_cons, Option.some.injEq] at hc
    exact .inl hc.symm

theorem path_queryFragment_head {r : SplitResult} (h : r.path = [] ∨ isAbsolute r.path = true) :
    ∀ c, (r.path ++ r.queryFragment).head? = some c → isNetlocEnd c = true := by
  intro c hc
  cases hp : r.path with
  | nil =>
    rw [hp, List.nil_append] at hc
    rcases r.queryFragment_head c hc with rfl | rfl <;> decide
  | cons x s =>
    rw [hp, List.cons_append, List.head?_cons] at hc
    have hx : isAbsolute r.path = true := h.resolve_left (by simp [hp])
    rw [hp] at hx
    obtain rfl := Option.some.inj hc
    simp only [isAbsolute, List.head?_cons, beq_iff_eq, Option.some.injEq] at hx
    subst hx
    decide

theorem path_queryFragment_take {r : SplitResult} (h : r.path.take 2 ≠ ['/', '/']) :
    (r.path ++ r.queryFragment).take 2 ≠ ['/', '/'] := by
  intro hc
  match hp : r.path, hq : r.queryFragment with
  | x :: y :: s, t => simp_all
  | [x], c :: t =>
    have := r.queryFragment_head c (by rw [hq]; rfl)
    rw [hp, hq] at hc
    simp only [List.cons_append, List.nil_append, List.take_succ_cons, List.take_zero, List.cons.injEq,
      and_true] at hc
    obtain ⟨-, rfl⟩ := hc
    simp at this
  | [x], [] => simp [hp, hq] at hc
  | [], c :: t =>
    have := r.queryFragment_head c (by rw [hq]; rfl)
    rw [hp, hq] at hc
    simp only [List.nil_append, List.take_succ_cons, List.cons.injEq] at hc
    obtain ⟨rfl, -⟩ := hc
    simp at this
  | [], [] => simp [hp, hq] at hc

theorem slashed_rooted {r : SplitResult} (hr : r.netloc = [] ∨ r.path = [] ∨ isAbsolute r.path = true)
    (h : r.slashed) : r.path = [] ∨ isAbsolute r.path = true := by
  rcases h with h | h | h
  · exact hr.resolve_left h
  · right
    cases hp : r.path with
    | nil => simp [hp] at h
    | cons x s =>
      rw [hp, List.take_succ_cons, List.cons.injEq] at h
      simp [isAbsolute, h.1]
  · exact h.2.2

theorem splitNetloc_authority {env : Tables} {r : SplitResult} (h : r.Clean env) :
    splitNetloc (r.authority ++ r.queryFragment) = (r.netloc, r.path ++ r.queryFragment) := by
  by_cases hs : r.slashed
  · rw [authority_slashed h.rooted hs, List.append_assoc]
    exact splitNetloc_slashes h.netloc (path_queryFragment_head (slashed_rooted h.rooted hs))
  · rw [authority_bare hs]
    simp only [slashed, not_or, not_not] at hs
    rw [splitNetloc_bare (path_queryFragment_take hs.2.1), hs.1]

theorem fragment_queryFragment {env : Tables} {r : SplitResult} (h : r.Clean env) :
    before '#' (r.path ++ r.queryFragment) = r.path ++ (if r.query = [] then [] else '?' :: r.query) ∧
      after '#' (r.path ++ r.queryFragment) = r.fragment := by
  have hclean : '#' ∉ r.path ++ (if r.query = [] then [] else '?' :: r.query) := by
    rw [List.mem_append, not_or]
    refine ⟨h.path.2, ?_⟩
    split
    · simp
    · simpa using h.query
  unfold queryFragment
  rw [← List.append_assoc]
  by_cases hf : r.fragment = []
  · rw [if_pos hf, List.append_nil]
    exact ⟨before_eq_self hclean, by rw [after_eq_nil hclean, hf]⟩
  · rw [if_neg hf]
    exact ⟨before_append_cons hclean, after_append_cons hclean⟩

theorem query_path {env : Tables} {r : SplitResult} (h : r.Clean env) :
    before '?' (r.path ++ (if r.query = [] then [] else '?' :: r.query)) = r.path ∧
      after '?' (r.path ++ (if r.query = [] then [] else '?' :: r.query)) = r.query := by
  by_cases hq : r.query = []
  · rw [if_pos hq, List.append_nil]
    exact ⟨before_eq_self h.path.1, by rw [after_eq_nil h.path.1, hq]⟩
  · rw [if_neg hq]
    exact ⟨before_append_cons h.path.1, after_append_cons h.path.1⟩

end SplitResult

theorem urlunsplit_eq (r : SplitResult) :
    urlunsplit r =
      (if r.scheme = [] then [] else r.scheme ++ [':']) ++ (r.authority ++ r.queryFragment) := by
  unfold urlunsplit SplitResult.queryFragment
  by_cases hs : r.scheme = [] <;> by_cases hq : r.query = [] <;> by_cases hf : r.fragment = [] <;>
    simp [hs, hq, hf]

theorem splitScheme_scheme {s t d : Str} (h : isScheme s = true) :
    splitScheme (s ++ ':' :: t) d = (s.map Char.toLower, t) := by
  have hc := colon_not_mem h
  unfold splitScheme
  rw [before_append_cons hc, after_append_cons hc, if_pos ⟨by simp, h⟩]

theorem splitScheme_slash (t d : Str) : splitScheme ('/' :: t) d = (d, '/' :: t) := by
  unfold splitScheme
  rw [if_neg]
  rintro ⟨-, hs⟩
  rw [before, List.takeWhile_cons, if_pos (by decide)] at hs
  simp [isScheme, isAsciiAlpha] at hs

theorem clean_eq_self {s : Str} (hs : ∀ c, s.head? = some c → isC0ControlOrSpace c = false)
    (h : ∀ c ∈ s, isUnsafe c = false) : clean s = s := by
  have hdrop : s.dropWhile isC0ControlOrSpace = s := by
    cases s with
    | nil => rfl
    | cons c s => rw [List.dropWhile_cons_of_neg (by simp [hs c rfl])]
  unfold clean
  rw [hdrop, List.filter_eq_self]
  intro c hc
  rw [h c hc]
  rfl

namespace SplitResult

theorem authority_subset {env : Tables} {r : SplitResult} (h : r.Clean env) :
    ∀ c ∈ r.authority, c = '/' ∨ c ∈ r.netloc ∨ c ∈ r.path := by
  intro c hc
  by_cases hs : r.slashed
  · rw [authority_slashed h.rooted hs] at hc
    simp only [List.cons_append, List.mem_cons, List.mem_append] at hc
    tauto
  · rw [authority_bare hs] at hc
    exact .inr (.inr hc)

theorem authority_cons {env : Tables} {r : SplitResult} (h : r.Clean env)
    (hs : r.netloc ≠ [] ∨ isAbsolute r.path = true) : ∃ t, r.authority = '/' :: t := by
  by_cases hsl : r.slashed
  · exact ⟨_, authority_slashed h.rooted hsl⟩
  · rw [authority_bare hsl]
    simp only [slashed, not_or, not_not] at hsl
    have hp := hs.resolve_left (fun hc => hc hsl.1)
    cases hpath : r.path with
    | nil => simp [hpath, isAbsolute] at hp
    | cons x s =>
      simp only [hpath, isAbsolute, List.head?_cons, beq_iff_eq, Option.some.injEq] at hp
      exact ⟨s, by rw [hp]⟩

theorem queryFragment_safe {env : Tables} {r : SplitResult} (h : r.Clean env) :
    ∀ c ∈ r.queryFragment, isUnsafe c = false := by
  intro c hc
  unfold queryFragment at hc
  have hmem : c = '?' ∨ c = '#' ∨ c ∈ r.query ∨ c ∈ r.fragment := by
    rcases List.mem_append.mp hc with hc | hc
    · split at hc
      · cases hc
      · rcases List.mem_cons.mp hc with hc | hc <;> tauto
    · split at hc
      · cases hc
      · rcases List.mem_cons.mp hc with hc | hc <;> tauto
  rcases hmem with rfl | rfl | hc | hc
  · decide
  · decide
  · exact h.safe c (by simp [hc])
  · exact h.safe c (by simp [hc])

end SplitResult

theorem clean_urlunsplit {env : Tables} {r : SplitResult} (h : r.Clean env)
    (hs : r.scheme ≠ [] ∨ r.netloc ≠ [] ∨ isAbsolute r.path = true) :
    clean (urlunsplit r) = urlunsplit r := by
  rw [urlunsplit_eq]
  have hbody : ∀ c ∈ r.authority ++ r.queryFragment, isUnsafe c = false := by
    intro c hc
    rcases List.mem_append.mp hc with hc | hc
    · rcases SplitResult.authority_subset h c hc with rfl | hc | hc
      · decide
      · exact h.safe c (by simp [hc])
      · exact h.safe c (by simp [hc])
    · exact SplitResult.queryFragment_safe h c hc
  by_cases hsc : r.scheme = []
  · obtain ⟨t, ht⟩ := SplitResult.authority_cons h (hs.resolve_left (fun hc => hc hsc))
    rw [if_pos hsc, List.nil_append]
    refine clean_eq_self (fun c hc => ?_) hbody
    rw [ht, List.cons_append, List.head?_cons] at hc
    obtain rfl := Option.some.inj hc
    decide
  · have hscheme := (h.scheme.resolve_left hsc).1
    obtain ⟨x, s, hx, hxa⟩ := isScheme_cons hscheme
    rw [if_neg hsc]
    refine clean_eq_self (fun c hc => ?_) fun c hc => ?_
    · rw [hx, List.cons_append, List.cons_append, List.head?_cons] at hc
      obtain rfl := Option.some.inj hc
      have hlt := (schemeChar_bounds (isScheme_all hscheme x (by rw [hx]; exact List.mem_cons_self))).1
      simpa [isC0ControlOrSpace] using hlt
    · rcases List.mem_append.mp hc with hc | hc
      · rcases List.mem_append.mp hc with hc | hc
        · exact isUnsafe_of_lt (schemeChar_bounds (isScheme_all hscheme c hc)).1
        · obtain rfl := List.mem_singleton.mp hc
          decide
      · exact hbody c hc

theorem splitScheme_urlunsplit {env : Tables} {r : SplitResult} (h : r.Clean env)
    (hs : r.scheme ≠ [] ∨ r.netloc ≠ [] ∨ isAbsolute r.path = true) :
    splitScheme (urlunsplit r) [] = (r.scheme, r.authority ++ r.queryFragment) := by
  rw [urlunsplit_eq]
  by_cases hsc : r.scheme = []
  · obtain ⟨t, ht⟩ := SplitResult.authority_cons h (hs.resolve_left (fun hc => hc hsc))
    rw [if_pos hsc, List.nil_append, ht, List.cons_append, splitScheme_slash, hsc]
  · obtain ⟨hscheme, hlower⟩ := h.scheme.resolve_left hsc
    rw [if_neg hsc, List.append_assoc, List.singleton_append, splitScheme_scheme hscheme, hlower]

theorem urlsplit_urlunsplit {env : Tables} {r : SplitResult} (h : r.Clean env)
    (hs : r.scheme ≠ [] ∨ r.netloc ≠ [] ∨ isAbsolute r.path = true) :
    urlsplit env (urlunsplit r) [] = some r := by
  obtain ⟨hf1, hf2⟩ := SplitResult.fragment_queryFragment h
  obtain ⟨hq1, hq2⟩ := SplitResult.query_path h
  simp only [urlsplit, clean_urlunsplit h hs, splitScheme_urlunsplit h hs,
    SplitResult.splitNetloc_authority h, h.allowed, hf1, hf2, hq1, hq2, if_true]

theorem toLower_schemeChar {c : Char} (h : schemeChar c = true) :
    schemeChar c.toLower = true ∧ c.toLower.toLower = c.toLower ∧
      (isAsciiAlpha c = true → isAsciiAlpha c.toLower = true) := by
  have hall : ∀ n < 128, schemeChar (Char.ofNat n) = true →
      schemeChar (Char.ofNat n).toLower = true ∧
        (Char.ofNat n).toLower.toLower = (Char.ofNat n).toLower ∧
        (isAsciiAlpha (Char.ofNat n) = true → isAsciiAlpha (Char.ofNat n).toLower = true) := by
    decide
  simpa [Char.ofNat_toNat] using hall c.toNat (schemeChar_bounds h).2 (by rwa [Char.ofNat_toNat])

theorem properScheme_lower {s : Str} (h : isScheme s = true) : ProperScheme (s.map Char.toLower) := by
  right
  obtain ⟨c, t, rfl, hc⟩ := isScheme_cons h
  have hall := isScheme_all h
  constructor
  · simp only [isScheme, List.map_cons, List.head?_cons, Option.any_some, Bool.and_eq_true,
      List.all_eq_true]
    refine ⟨(toLower_schemeChar (hall c List.mem_cons_self)).2.2 hc, fun x hx => ?_⟩
    rw [← List.map_cons] at hx
    obtain ⟨y, hy, rfl⟩ := List.mem_map.mp hx
    exact (toLower_schemeChar (hall y hy)).1
  · rw [List.map_map]
    exact List.map_congr_left fun x hx => (toLower_schemeChar (hall x hx)).2.1

theorem splitScheme_proper {d : Str} (hd : ProperScheme d) (url : Str) :
    ProperScheme (splitScheme url d).1 ∧ (splitScheme url d).2 ⊆ url := by
  unfold splitScheme
  split
  · rename_i h
    exact ⟨properScheme_lower h.2, after_subset _ _⟩
  · exact ⟨hd, fun _ hx => hx⟩

structure SplitNetloc (url : Str) : Prop where
  subset : (splitNetloc url).1 ++ (splitNetloc url).2 ⊆ url
  netloc : ∀ c ∈ (splitNetloc url).1, isNetlocEnd c = false
  rest : (splitNetloc url).1 = [] ∨
    ∀ c, (splitNetloc url).2.head? = some c → isNetlocEnd c = true

theorem splitNetloc_spec (url : Str) : SplitNetloc url := by
  constructor <;> unfold splitNetloc
  · split
    · rename_i rest
      rw [List.takeWhile_append_dropWhile]
      exact fun x hx => List.mem_cons_of_mem _ (List.mem_cons_of_mem _ hx)
    · exact fun _ hx => hx
  · split
    · intro c hc
      simpa using List.mem_takeWhile_imp hc
    · simp
  · split
    · right
      intro c hc
      have := List.head?_dropWhile_not (p := (!isNetlocEnd ·)) (l := ‹Str›)
      rw [hc] at this
      simpa using this
    · exact .inl rfl

theorem path_rooted {t : Str} (ht : ∀ c, t.head? = some c → isNetlocEnd c = true) :
    before '?' (before '#' t) = [] ∨ isAbsolute (before '?' (before '#' t)) = true := by
  cases t with
  | nil => exact .inl rfl
  | cons c t =>
    have hc := ht c rfl
    simp only [isNetlocEnd, Bool.or_eq_true, beq_iff_eq] at hc
    rcases hc with (rfl | rfl) | rfl
    · right
      simp [before, isAbsolute]
    · left
      simp [before]
    · left
      simp [before]

theorem clean_safe (url : Str) : ∀ c ∈ clean url, isUnsafe c = false := by
  intro c hc
  simpa using (List.mem_filter.mp hc).2

theorem urlsplit_clean {env : Tables} {url d : Str} {r : SplitResult} (hd : ProperScheme d)
    (h : urlsplit env url d = some r) : r.Clean env := by
  unfold urlsplit at h
  obtain ⟨hscheme, hsub⟩ := splitScheme_proper hd (clean url)
  have hn := splitNetloc_spec (splitScheme (clean url) d).2
  have hsafe : ∀ c ∈ (splitScheme (clean url) d).2, isUnsafe c = false :=
    fun c hc => clean_safe url c (hsub hc)
  generalize splitScheme (clean url) d = s at h hscheme hsub hn hsafe
  obtain ⟨hnsub, hnetloc, hrest⟩ := hn
  simp only at h
  split at h
  · rename_i hallowed
    obtain rfl := Option.some.inj h
    refine ⟨hscheme, hnetloc, hallowed, hrest.imp id path_rooted, ⟨not_mem_before _ _, ?_⟩, ?_, ?_⟩
    · exact fun hc => not_mem_before '#' _ (before_subset '?' _ hc)
    · exact fun hc => not_mem_before '#' _ (after_subset '?' _ hc)
    · intro c hc
      refine hsafe c (hnsub ?_)
      simp only [List.mem_append] at hc ⊢
      rcases hc with ((hc | hc) | hc) | hc
      · exact .inl hc
      · exact .inr (before_subset _ _ (before_subset _ _ hc))
      · exact .inr (before_subset _ _ (after_subset _ _ hc))
      · exact .inr (after_subset _ _ hc)
  · cases h

def lastName (p : Str) : Str := p.rtakeWhile (· != '/')

def directory (p : Str) : Str := p.rdropWhile (· != '/')

theorem directory_append_lastName (p : Str) : directory p ++ lastName p = p :=
  List.rdropWhile_append_rtakeWhile

theorem slash_not_mem_lastName (p : Str) : '/' ∉ lastName p := by
  intro h
  rw [lastName, List.rtakeWhile, List.mem_reverse] at h
  simpa using List.mem_takeWhile_imp h

theorem lastName_append {s t : Str} (h : '/' ∉ t) :
    lastName (s ++ t) = lastName s ++ t ∧ directory (s ++ t) = directory s := by
  have ht := cut_off (mt List.mem_reverse.mp h)
  unfold lastName directory List.rtakeWhile List.rdropWhile
  rw [List.reverse_append, List.takeWhile_append_of_pos ht, List.dropWhile_append_of_pos ht]
  simp

theorem lastName_directory (p : Str) : lastName (directory p) = [] ∧ directory (directory p) = directory p := by
  have h : (p.reverse.dropWhile (· != '/')).takeWhile (· != '/') = [] := by
    have := List.head?_dropWhile_not (· != '/') p.reverse
    cases hd : p.reverse.dropWhile (· != '/') with
    | nil => rfl
    | cons c t =>
      rw [hd] at this
      simp only [List.head?_cons] at this
      rw [List.takeWhile_cons, this]
      rfl
  constructor
  · simp only [lastName, directory, List.rtakeWhile, List.rdropWhile, List.reverse_reverse, h,
      List.reverse_nil]
  · unfold directory List.rdropWhile
    rw [List.reverse_reverse, List.dropWhile_idempotent]

theorem splitParams_eq (p : Str) :
    splitParams p = (directory p ++ before ';' (lastName p), after ';' (lastName p)) := rfl

theorem splitParams_clean (p : Str) :
    ';' ∉ lastName (splitParams p).1 ∧ '/' ∉ (splitParams p).2 := by
  rw [splitParams_eq]
  have hb : '/' ∉ before ';' (lastName p) :=
    fun h => slash_not_mem_lastName p (before_subset _ _ h)
  constructor
  · rw [(lastName_append hb).1, (lastName_directory p).1]
    exact not_mem_before _ _
  · exact fun h => slash_not_mem_lastName p (after_subset _ _ h)

theorem splitParams_join {a b : Str} (ha : ';' ∉ lastName a) (hb : '/' ∉ b) :
    splitParams (if b = [] then a else a ++ ';' :: b) = (a, b) := by
  split
  · rename_i h
    rw [splitParams_eq, before_eq_self ha, after_eq_nil ha, directory_append_lastName, h]
  · have hb' : '/' ∉ ';' :: b := by simpa using hb
    obtain ⟨hl, hd⟩ := lastName_append (s := a) hb'
    rw [splitParams_eq, hl, hd, before_append_cons ha, after_append_cons ha,
      directory_append_lastName]

theorem join_splitParams (p : Str) :
    (if (splitParams p).2 = [] then (splitParams p).1
      else (splitParams p).1 ++ ';' :: (splitParams p).2) <+: p := by
  have hp := directory_append_lastName p
  rw [splitParams_eq]
  split
  · conv_rhs => rw [← hp]
    exact (List.prefix_append_right_inj _).mpr (List.takeWhile_prefix _)
  · rename_i h
    have hmem : ';' ∈ lastName p := by
      by_contra hc
      exact h (after_eq_nil hc)
    rw [List.append_assoc, before_append_after hmem]
    exact ⟨[], by rw [List.append_nil, hp]⟩

structure ParseResult.Clean (env : Tables) (r : ParseResult) : Prop where
  split : SplitResult.Clean env { r.toSplitResult with path := r.pathParams }
  name : r.scheme ∈ usesParams → ';' ∉ lastName r.path ∧ '/' ∉ r.params
  bare : r.scheme ∉ usesParams → r.params = []

theorem urlparse_urlunparse {env : Tables} {r : ParseResult} (h : r.Clean env)
    (hs : r.scheme ≠ [] ∨ r.netloc ≠ [] ∨ isAbsolute r.pathParams = true) :
    urlparse env (urlunparse r) [] = some r := by
  unfold urlparse urlunparse
  rw [urlsplit_urlunsplit h.split hs, Option.map_some]
  congr 1
  by_cases hp : r.scheme ∈ usesParams
  · obtain ⟨ha, hb⟩ := h.name hp
    have hsplit : splitParams r.pathParams = (r.path, r.params) := splitParams_join ha hb
    simp only [if_pos hp, hsplit]
  · simp only [if_neg hp]
    have hparams := h.bare hp
    obtain ⟨s, params⟩ := r
    simp only at hparams
    subst hparams
    rfl

theorem SplitResult.Clean.of_prefix {env : Tables} {r : SplitResult} {p : Str} (h : r.Clean env)
    (hp : p <+: r.path) : SplitResult.Clean env { r with path := p } := by
  refine ⟨h.scheme, h.netloc, h.allowed, h.rooted.imp id fun hr => ?_, ?_, h.query, fun c hc => ?_⟩
  · rcases hr with hr | hr
    · rw [hr] at hp
      exact .inl (List.prefix_nil.mp hp)
    · cases p with
      | nil => exact .inl rfl
      | cons x p =>
        right
        obtain ⟨t, ht⟩ := hp
        rw [← ht] at hr
        exact hr
  · exact ⟨fun hc => h.path.1 (hp.subset hc), fun hc => h.path.2 (hp.subset hc)⟩
  · refine h.safe c ?_
    simp only [List.mem_append] at hc ⊢
    rcases hc with ((hc | hc) | hc) | hc
    · exact .inl (.inl (.inl hc))
    · exact .inl (.inl (.inr (hp.subset hc)))
    · exact .inl (.inr hc)
    · exact .inr hc

theorem urlparse_clean {env : Tables} {url d : Str} {r : ParseResult} (hd : ProperScheme d)
    (h : urlparse env url d = some r) : r.Clean env := by
  obtain ⟨s, hs, rfl⟩ := Option.map_eq_some_iff.mp h
  have hclean := urlsplit_clean hd hs
  split
  · rename_i hp
    refine ⟨hclean.of_prefix (join_splitParams s.path), fun _ => splitParams_clean s.path, ?_⟩
    exact fun hc => absurd hp hc
  · rename_i hp
    exact ⟨hclean, fun hc => absurd hc hp, fun _ => rfl⟩

end Urllib
