import PyQgisServer.Library.Urllib.RoundTrip

namespace Urllib

theorem mem_intercalate {x c : Char} {l : List Str} (h : c ∈ [x].intercalate l) :
    c = x ∨ ∃ s ∈ l, c ∈ s := by
  induction l with
  | nil => simp at h
  | cons s l ih =>
    cases l with
    | nil =>
      rw [List.intercalate_singleton] at h
      exact .inr ⟨s, List.mem_cons_self, h⟩
    | cons t l =>
      rw [List.intercalate_cons_cons] at h
      rcases List.mem_append.mp h with h | h
      · rcases List.mem_append.mp h with h | h
        · exact .inr ⟨s, List.mem_cons_self, h⟩
        · exact .inl (List.mem_singleton.mp h)
      · rcases ih h with rfl | ⟨u, hu, hc⟩
        · exact .inl rfl
        · exact .inr ⟨u, List.mem_cons_of_mem _ hu, hc⟩

theorem mem_splitOn {x : Char} {s p : Str} (h : s ∈ p.splitOn x) : ∀ c ∈ s, c ≠ x ∧ c ∈ p := by
  induction p generalizing s with
  | nil =>
    rw [List.splitOn_nil, List.mem_singleton] at h
    simp [h]
  | cons y p ih =>
    rw [List.splitOn_cons_eq_if_modifyHead] at h
    split at h
    · rcases List.mem_cons.mp h with rfl | h
      · simp
      · exact fun c hc => ⟨(ih h c hc).1, List.mem_cons_of_mem _ (ih h c hc).2⟩
    · rename_i hy
      have hy : y ≠ x := by simpa using hy
      cases hp : p.splitOn x with
      | nil => exact absurd hp (List.splitOn_ne_nil x p)
      | cons t l =>
        rw [hp] at h ih
        rcases List.mem_cons.mp h with rfl | h
        · intro c hc
          rcases List.mem_cons.mp hc with rfl | hc
          · exact ⟨hy, List.mem_cons_self⟩
          · have := ih List.mem_cons_self c hc
            exact ⟨this.1, List.mem_cons_of_mem _ this.2⟩
        · intro c hc
          have := ih (List.mem_cons_of_mem _ h) c hc
          exact ⟨this.1, List.mem_cons_of_mem _ this.2⟩

theorem directory_eq_nil_or (p : Str) : directory p = [] ∨ ∃ d, directory p = d ++ ['/'] := by
  rcases List.eq_nil_or_concat (directory p) with h | ⟨d, c, h⟩
  · exact .inl h
  · right
    have hne : p.rdropWhile (· != '/') ≠ [] := by
      intro hc
      rw [directory, hc] at h
      simp at h
    have hlast := List.rdropWhile_last_not (· != '/') p hne
    have heq : p.rdropWhile (· != '/') = d ++ [c] := by simpa [directory] using h
    simp only [heq, List.getLast_append_singleton, bne_iff_ne, not_not] at hlast
    exact ⟨d, by rw [directory, heq, hlast]⟩

theorem getLast?_splitOn (p : Str) : (p.splitOn '/').getLast? = some (lastName p) := by
  have hname := slash_not_mem_lastName p
  conv_lhs => rw [← directory_append_lastName p]
  rcases directory_eq_nil_or p with h | ⟨d, h⟩
  · rw [h, List.nil_append, List.splitOn_eq_singleton hname]
    rfl
  · rw [h, List.append_assoc, List.singleton_append, List.splitOn_append_cons_self,
      List.splitOn_eq_singleton hname]
    simp

def dots : List Str := [['.'], ['.', '.']]

theorem resolveDots_mem {acc segs : List Str} :
    ∀ s ∈ resolveDots acc segs, s ∈ acc ∨ s ∈ segs ∧ s ∉ dots := by
  induction segs generalizing acc with
  | nil => exact fun s hs => .inl hs
  | cons seg segs ih =>
    intro s hs
    rw [resolveDots] at hs
    split at hs
    · rcases ih s hs with h | h
      · exact .inl (List.dropLast_subset _ h)
      · exact .inr ⟨List.mem_cons_of_mem _ h.1, h.2⟩
    · split at hs
      · rcases ih s hs with h | h
        · exact .inl h
        · exact .inr ⟨List.mem_cons_of_mem _ h.1, h.2⟩
      · rename_i h2 h1
        rcases ih s hs with h | h
        · rcases List.mem_append.mp h with h | h
          · exact .inl h
          · obtain rfl := List.mem_singleton.mp h
            exact .inr ⟨List.mem_cons_self, by simp [dots, h1, h2]⟩
        · exact .inr ⟨List.mem_cons_of_mem _ h.1, h.2⟩

theorem resolveDots_append (acc segs : List Str) {s : Str} (hs : s ∉ dots) :
    resolveDots acc (segs ++ [s]) = resolveDots acc segs ++ [s] := by
  simp only [dots, List.mem_cons, List.not_mem_nil, or_false, not_or] at hs
  induction segs generalizing acc with
  | nil => simp [resolveDots, hs.1, hs.2]
  | cons seg segs ih =>
    simp only [List.cons_append, resolveDots]
    split
    · exact ih _
    · split
      · exact ih _
      · exact ih _

theorem resolvedPath_mem {segs : List Str} :
    ∀ s ∈ resolvedPath segs, s ∉ dots ∧ (s = [] ∨ s ∈ segs) := by
  intro s hs
  have h : s ∈ resolveDots [] segs ∨ s = [] := by
    unfold resolvedPath at hs
    split at hs
    · simpa using hs
    · exact .inl hs
  rcases h with h | rfl
  · rcases resolveDots_mem s h with h | h
    · cases h
    · exact ⟨h.2, .inr h.1⟩
  · exact ⟨by decide, .inl rfl⟩

theorem resolvedPath_getLast? {segs : List Str} {n : Str} (h : segs.getLast? = some n) :
    (resolvedPath segs).getLast? = some (if n ∈ dots then [] else n) := by
  unfold resolvedPath
  rw [h]
  by_cases hn : n ∈ dots
  · have : some n = some ['.'] ∨ some n = some ['.', '.'] := by simpa [dots] using hn
    rw [if_pos this, if_pos hn]
    simp
  · have : ¬(some n = some ['.'] ∨ some n = some ['.', '.']) := by simpa [dots] using hn
    obtain ⟨l, rfl⟩ := List.getLast?_eq_some_iff.mp h
    rw [if_neg this, if_neg hn, resolveDots_append _ _ hn]
    simp

theorem squeeze_mem {l : List Str} {s : Str} (h : s ∈ squeeze l) : s ∈ l := by
  unfold squeeze at h
  split at h
  · exact h
  · exact h
  · rename_i x rest _
    rcases List.mem_cons.mp h with rfl | h
    · exact List.mem_cons_self
    · rcases List.mem_append.mp h with h | h
      · exact List.mem_cons_of_mem _ (List.dropLast_subset _ (List.mem_filter.mp h).1)
      · exact List.mem_cons_of_mem _ (List.mem_of_getLast? (Option.mem_toList.mp h))

theorem squeeze_getLast? (l : List Str) : (squeeze l).getLast? = l.getLast? := by
  unfold squeeze
  split
  · rfl
  · rfl
  · rename_i x rest hne
    cases hr : rest.getLast? with
    | none =>
      rw [List.getLast?_eq_none_iff] at hr
      exact absurd hr hne
    | some n => simp [List.getLast?_cons, hr]

theorem segments_mem {b p s : Str} (h : s ∈ segments b p) :
    s ∈ b.splitOn '/' ∨ s ∈ p.splitOn '/' := by
  unfold segments at h
  split at h
  · exact .inr h
  · rcases List.mem_append.mp (squeeze_mem h) with h | h
    · left
      split at h
      · exact h
      · exact List.dropLast_subset _ h
    · exact .inr h

theorem segments_getLast? (b p : Str) : (segments b p).getLast? = some (lastName p) := by
  unfold segments
  split
  · exact getLast?_splitOn p
  · rw [squeeze_getLast?, List.getLast?_append, getLast?_splitOn]
    rfl

structure Merged (b p m : Str) : Prop where
  ne_nil : m ≠ []
  subset : ∀ c ∈ m, c = '/' ∨ c ∈ b ∨ c ∈ p
  names : ∀ s ∈ m.splitOn '/', s ∉ dots
  last : lastName m = [] ∨ lastName m = lastName p

theorem mergePath_merged (b p : Str) : Merged b p (mergePath b p) := by
  have hlast := resolvedPath_getLast? (segments_getLast? b p)
  have hmem : ∀ s ∈ resolvedPath (segments b p), s ∉ dots ∧ ∀ c ∈ s, c ≠ '/' ∧ (c ∈ b ∨ c ∈ p) := by
    intro s hs
    obtain ⟨hd, rfl | hs⟩ := resolvedPath_mem s hs
    · exact ⟨hd, by simp⟩
    · refine ⟨hd, fun c hc => ?_⟩
      rcases segments_mem hs with hs | hs
      · exact ⟨(mem_splitOn hs c hc).1, .inl (mem_splitOn hs c hc).2⟩
      · exact ⟨(mem_splitOn hs c hc).1, .inr (mem_splitOn hs c hc).2⟩
  have hne : resolvedPath (segments b p) ≠ [] := by
    intro hc
    rw [hc] at hlast
    cases hlast
  have hsplit : (['/'].intercalate (resolvedPath (segments b p))).splitOn '/' =
      resolvedPath (segments b p) :=
    List.splitOn_intercalate '/' (fun s hs hc => ((hmem s hs).2 '/' hc).1 rfl) hne
  unfold mergePath
  by_cases hj : ['/'].intercalate (resolvedPath (segments b p)) = []
  · rw [if_pos hj]
    refine ⟨by simp, by simp, by decide, .inl (by decide)⟩
  · rw [if_neg hj]
    refine ⟨hj, fun c hc => ?_, fun s hs => ?_, ?_⟩
    · rcases mem_intercalate hc with rfl | ⟨s, hs, hc⟩
      · exact .inl rfl
      · exact .inr ((hmem s hs).2 c hc).2
    · rw [hsplit] at hs
      exact (hmem s hs).1
    · have hname := getLast?_splitOn (['/'].intercalate (resolvedPath (segments b p)))
      rw [hsplit, hlast] at hname
      split at hname
      · exact .inl (Option.some.inj hname).symm
      · exact .inr (Option.some.inj hname).symm

theorem usesRelative_usesNetloc : ∀ s ∈ usesRelative, s ∈ usesNetloc := by decide

namespace ParseResult

-- urlunsplit writes a slash between a network location and a relative path
def rooted (r : ParseResult) : ParseResult :=
  if r.netloc ≠ [] ∧ isAbsolute r.path = false then { r with path := '/' :: r.path } else r

theorem mem_pathParams {r : ParseResult} {c : Char} (h : c ∈ r.pathParams) :
    c = ';' ∨ c ∈ r.path ∨ c ∈ r.params := by
  unfold pathParams at h
  split at h
  · exact .inr (.inl h)
  · rcases List.mem_append.mp h with h | h
    · exact .inr (.inl h)
    · exact (List.mem_cons.mp h).imp id .inr

theorem path_subset (r : ParseResult) : r.path ⊆ r.pathParams := by
  unfold pathParams
  split
  · exact fun _ h => h
  · exact fun _ h => List.mem_append_left _ h

theorem params_subset (r : ParseResult) : r.params ⊆ r.pathParams := by
  unfold pathParams
  split
  · rename_i h
    simp [h]
  · exact fun _ h => List.mem_append_right _ (List.mem_cons_of_mem _ h)

theorem isAbsolute_pathParams {r : ParseResult} (h : r.path ≠ []) :
    isAbsolute r.pathParams = isAbsolute r.path := by
  unfold pathParams isAbsolute
  split
  · rfl
  · rw [List.head?_append_of_ne_nil _ h]

theorem rooted_absolute (r : ParseResult) : r.rooted.netloc = [] ∨ isAbsolute r.rooted.path = true := by
  unfold rooted
  by_cases hn : r.netloc = []
  · simp [hn]
  · by_cases hp : isAbsolute r.path = true
    · simp [hp]
    · right
      rw [if_pos ⟨hn, by simpa using hp⟩]
      rfl

theorem urlunparse_rooted {r : ParseResult} (h : r.path ≠ []) : urlunparse r.rooted = urlunparse r := by
  unfold rooted
  split
  · rename_i hr
    obtain ⟨hn, hp⟩ := hr
    have habs := isAbsolute_pathParams h
    have hcons : pathParams { r with path := '/' :: r.path } = '/' :: r.pathParams := by
      unfold pathParams
      split <;> rfl
    have hne : r.pathParams ≠ [] := by
      obtain ⟨x, s, hx⟩ := List.exists_cons_of_ne_nil h
      exact List.ne_nil_of_mem (r.path_subset (hx ▸ List.mem_cons_self : x ∈ r.path))
    unfold urlunparse
    rw [urlunsplit_eq, urlunsplit_eq, hcons]
    have hslash : isAbsolute ('/' :: r.pathParams) = true := rfl
    simp [SplitResult.authority, hn, habs, hp, hne, hslash, SplitResult.queryFragment]
  · rfl

end ParseResult

theorem lastName_slash (p : Str) : lastName ('/' :: p) = lastName p := by
  have hdir : lastName ('/' :: directory p) = [] := by
    rcases directory_eq_nil_or p with h | ⟨d, h⟩
    · rw [h]
      decide
    · rw [h, ← List.cons_append]
      exact List.rtakeWhile_concat_neg _ _ _ (by simp)
  conv_lhs => rw [← directory_append_lastName p, ← List.cons_append,
    (lastName_append (slash_not_mem_lastName p)).1, hdir, List.nil_append]

structure Joins (b r m : ParseResult) : Prop where
  scheme : m.scheme = b.scheme
  netloc : m.netloc = b.netloc
  path : ∀ c ∈ m.path, c = '/' ∨ c ∈ b.path ∨ c ∈ r.path
  params : m.params = b.params ∨ m.params = r.params
  query : m.query = b.query ∨ m.query = r.query
  fragment : m.fragment = r.fragment
  rooted : m.netloc = [] ∨ isAbsolute m.path = true
  last : lastName m.path = [] ∨ lastName m.path = lastName r.path ∨ lastName m.path = lastName b.path

theorem Joins.rooted_of {b r m : ParseResult} (hscheme : m.scheme = b.scheme)
    (hnetloc : m.netloc = b.netloc) (hpath : ∀ c ∈ m.path, c = '/' ∨ c ∈ b.path ∨ c ∈ r.path)
    (hparams : m.params = b.params ∨ m.params = r.params)
    (hquery : m.query = b.query ∨ m.query = r.query) (hfragment : m.fragment = r.fragment)
    (hlast : lastName m.path = [] ∨ lastName m.path = lastName r.path ∨
      lastName m.path = lastName b.path) : Joins b r m.rooted := by
  have habs := m.rooted_absolute
  unfold ParseResult.rooted at habs ⊢
  split at habs
  · rename_i hm
    rw [if_pos hm]
    refine ⟨hscheme, hnetloc, fun c hc => ?_, hparams, hquery, hfragment, habs, ?_⟩
    · rcases List.mem_cons.mp hc with hc | hc
      · exact .inl hc
      · exact hpath c hc
    · simpa only [lastName_slash] using hlast
  · rename_i hm
    rw [if_neg hm]
    exact ⟨hscheme, hnetloc, hpath, hparams, hquery, hfragment, habs, hlast⟩

theorem merge_joins {b r : ParseResult} (hs : r.scheme = b.scheme) (hu : r.scheme ∈ usesRelative) :
    Joins b r (merge b r).rooted := by
  have hnet := usesRelative_usesNetloc _ hu
  unfold merge
  simp only [if_pos hnet]
  split
  · refine Joins.rooted_of hs rfl (fun c hc => .inr (.inl hc)) (.inl rfl) ?_ rfl (.inr (.inr rfl))
    by_cases hq : r.query = []
    · left
      simp [hq]
    · right
      simp [hq]
  · have hm := mergePath_merged b.path r.path
    exact Joins.rooted_of hs rfl hm.subset (.inr rfl) (.inr rfl) rfl (hm.last.imp id .inl)

theorem Joins.mem_params {b r m : ParseResult} (h : Joins b r m) :
    ∀ c ∈ m.params, c ∈ b.pathParams ∨ c ∈ r.pathParams := by
  intro c hc
  rcases h.params with hp | hp
  · exact .inl (b.params_subset (hp ▸ hc))
  · exact .inr (r.params_subset (hp ▸ hc))

theorem Joins.mem_pathParams {b r m : ParseResult} (h : Joins b r m) :
    ∀ c ∈ m.pathParams, c = '/' ∨ c = ';' ∨ c ∈ b.pathParams ∨ c ∈ r.pathParams := by
  intro c hc
  rcases ParseResult.mem_pathParams hc with hc | hc | hc
  · exact .inr (.inl hc)
  · rcases h.path c hc with hc | hc | hc
    · exact .inl hc
    · exact .inr (.inr (.inl (b.path_subset hc)))
    · exact .inr (.inr (.inr (r.path_subset hc)))
  · exact .inr (.inr (h.mem_params c hc))

theorem Joins.notMem_pathParams {b r m : ParseResult} (h : Joins b r m) {c : Char} (hc : c ≠ '/' ∧ c ≠ ';')
    (hb : c ∉ b.pathParams) (hr : c ∉ r.pathParams) : c ∉ m.pathParams := by
  intro hm
  rcases h.mem_pathParams c hm with hm | hm | hm | hm
  · exact hc.1 hm
  · exact hc.2 hm
  · exact hb hm
  · exact hr hm

theorem Joins.safe {b r m : ParseResult} (h : Joins b r m)
    (hb : ∀ c ∈ b.netloc ++ b.pathParams ++ b.query ++ b.fragment, isUnsafe c = false)
    (hr : ∀ c ∈ r.netloc ++ r.pathParams ++ r.query ++ r.fragment, isUnsafe c = false) :
    ∀ c ∈ m.netloc ++ m.pathParams ++ m.query ++ m.fragment, isUnsafe c = false := by
  intro c hc
  simp only [List.mem_append] at hc
  rcases hc with ((hc | hc) | hc) | hc
  · exact hb c (by simp [h.netloc ▸ hc])
  · rcases h.mem_pathParams c hc with rfl | rfl | hc | hc
    · decide
    · decide
    · exact hb c (by simp [hc])
    · exact hr c (by simp [hc])
  · rcases h.query with hq | hq
    · exact hb c (by simp [hq ▸ hc])
    · exact hr c (by simp [hq ▸ hc])
  · exact hr c (by simp [h.fragment ▸ hc])

theorem Joins.clean {env : Tables} {b r m : ParseResult} (h : Joins b r m) (hb : b.Clean env)
    (hr : r.Clean env) (hs : r.scheme = b.scheme) : m.Clean env := by
  refine ⟨⟨?_, ?_, ?_, ?_, ⟨?_, ?_⟩, fun hc => ?_, h.safe hb.split.safe hr.split.safe⟩, fun hu => ?_,
    fun hu => ?_⟩
  · exact h.scheme ▸ hb.split.scheme
  · exact h.netloc ▸ hb.split.netloc
  · exact h.netloc ▸ hb.split.allowed
  · refine h.rooted.imp id fun ha => .inr ?_
    rw [ParseResult.isAbsolute_pathParams]
    · exact ha
    · rintro hc
      rw [hc] at ha
      cases ha
  · exact h.notMem_pathParams (by decide) hb.split.path.1 hr.split.path.1
  · exact h.notMem_pathParams (by decide) hb.split.path.2 hr.split.path.2
  · rcases h.query with hq | hq
    · exact hb.split.query (hq ▸ hc)
    · exact hr.split.query (hq ▸ hc)
  · have hbn := hb.name (h.scheme ▸ hu)
    have hrn := hr.name (by rw [hs, ← h.scheme]; exact hu)
    constructor
    · rcases h.last with hl | hl | hl
      · simp [hl]
      · exact hl ▸ hrn.1
      · exact hl ▸ hbn.1
    · rcases h.params with hp | hp
      · exact hp ▸ hbn.2
      · exact hp ▸ hrn.2
  · have hbn := hb.bare (h.scheme ▸ hu)
    have hrn := hr.bare (by rw [hs, ← h.scheme]; exact hu)
    rcases h.params with hp | hp
    · exact hp.trans hbn
    · exact hp.trans hrn

inductive Reading where
  | own (url : ParseResult)
  | merged (url : ParseResult)
  deriving DecidableEq

def Reading.url : Reading → ParseResult
  | own url => url
  | merged url => url

def reading (env : Tables) (base : ParseResult) (ref : Str) : Option Reading :=
  (urlparse env ref base.scheme).bind fun r =>
    if r.scheme ≠ base.scheme ∨ r.scheme ∉ usesRelative then (urlparse env ref []).map .own
    else if r.netloc ≠ [] then some (.own r)
    else if base.scheme = [] ∧ base.netloc = [] ∧ isAbsolute (merge base r).path = false then
      (urlparse env (urlunparse (merge base r)) []).map .own
    else some (.merged (merge base r).rooted)

theorem path_ne_nil {p : Str} (h : isAbsolute p = true) : p ≠ [] := by
  rintro rfl
  cases h

theorem merge_path (b r : ParseResult) : (merge b r).path =
    if r.path = [] ∧ r.params = [] then b.path else mergePath b.path r.path := by
  unfold merge
  by_cases h : r.path = [] ∧ r.params = []
  · rw [if_pos h, if_pos h]
  · rw [if_neg h, if_neg h]

theorem merge_path_ne_nil {b r : ParseResult} (hb : isAbsolute b.path = true) :
    (merge b r).path ≠ [] := by
  rw [merge_path]
  split
  · exact path_ne_nil hb
  · exact (mergePath_merged b.path r.path).ne_nil

theorem urlparse_merge {env : Tables} {b r : ParseResult} (hb : b.Clean env)
    (hbp : isAbsolute b.path = true) (hr : r.Clean env) (hs : r.scheme = b.scheme)
    (hu : r.scheme ∈ usesRelative)
    (hown : ¬(b.scheme = [] ∧ b.netloc = [] ∧ isAbsolute (merge b r).path = false)) :
    urlparse env (urlunparse (merge b r)) [] = some (merge b r).rooted := by
  have hne := merge_path_ne_nil (r := r) hbp
  have hj := merge_joins hs hu
  rw [← ParseResult.urlunparse_rooted hne]
  refine urlparse_urlunparse (hj.clean hb hr hs) ?_
  by_cases hsc : b.scheme = []
  · by_cases hn : b.netloc = []
    · have habs : isAbsolute (merge b r).path = true := by
        by_contra hc
        exact hown ⟨hsc, hn, by simpa using hc⟩
      have hrooted : (merge b r).rooted = merge b r := by
        unfold ParseResult.rooted
        rw [if_neg (by simp [habs])]
      rw [hrooted, ParseResult.isAbsolute_pathParams hne]
      exact .inr (.inr habs)
    · exact .inr (.inl (hj.netloc ▸ hn))
  · exact .inl (hj.scheme ▸ hsc)

theorem urlparse_urljoin {env : Tables} {b : ParseResult} {ref : Str} (hb : b.Clean env)
    (hbp : isAbsolute b.path = true) (href : ref ≠ []) :
    ((urljoin env (urlunparse b) ref).bind fun s => urlparse env s []) =
      (reading env b ref).map Reading.url := by
  have hread : urlparse env (urlunparse b) [] = some b :=
    urlparse_urlunparse hb (.inr (.inr (by rwa [ParseResult.isAbsolute_pathParams (path_ne_nil hbp)])))
  have hne : urlunparse b ≠ [] := by
    intro hc
    rw [hc] at hread
    have hpath : (urlparse env [] []).map (·.path) = some b.path := by rw [hread]; rfl
    cases hn : allowedNetloc env [] with
    | false => simp [urlparse, urlsplit, clean, splitScheme, splitNetloc, hn] at hpath
    | true =>
      simp [urlparse, urlsplit, clean, splitScheme, splitNetloc, hn, before, usesParams, splitParams] at hpath
      exact path_ne_nil hbp hpath
  unfold urljoin reading
  rw [if_neg hne, if_neg href, hread, Option.bind_some]
  cases hr : urlparse env ref b.scheme with
  | none => rfl
  | some r =>
    have hclean := urlparse_clean hb.split.scheme hr
    simp only [Option.map_some, Option.bind_some]
    by_cases hv : r.scheme ≠ b.scheme ∨ r.scheme ∉ usesRelative
    · rw [if_pos hv, if_pos hv, Option.map_map]
      cases urlparse env ref [] <;> rfl
    · rw [if_neg hv, if_neg hv]
      simp only [not_or, not_not] at hv
      by_cases hn : r.netloc = []
      · rw [if_neg (fun hc => hc.2 hn), if_neg (not_not.mpr hn)]
        split
        · cases urlparse env (urlunparse (merge b r)) [] <;> rfl
        · rename_i hown
          rw [urlparse_merge hb hbp hclean hv.1 hv.2 hown]
          rfl
      · rw [if_pos ⟨usesRelative_usesNetloc _ hv.2, hn⟩, if_pos hn]
        rw [urlparse_urlunparse hclean (.inr (.inl hn))]
        rfl

theorem reading_merged {env : Tables} {b u : ParseResult} {ref : Str}
    (hbp : isAbsolute b.path = true) (h : reading env b ref = some (.merged u)) :
    u.scheme = b.scheme ∧ u.netloc = b.netloc ∧
      (u.path = b.path ∨ ∀ s ∈ u.path.splitOn '/', s ∉ dots) := by
  obtain ⟨r, hr, h⟩ := Option.bind_eq_some_iff.mp h
  split at h
  · simp at h
  · rename_i hv
    simp only [not_or, not_not] at hv
    split at h
    · simp at h
    · split at h
      · simp at h
      · simp only [Option.some.injEq, Reading.merged.injEq] at h
        subst h
        have hj := merge_joins hv.1 hv.2
        refine ⟨hj.scheme, hj.netloc, ?_⟩
        have hpath := merge_path b r
        unfold ParseResult.rooted
        split at hpath
        · rw [if_neg (by simp [hpath, hbp]), hpath]
          exact .inl rfl
        · have hm := mergePath_merged b.path r.path
          rw [← hpath] at hm
          right
          split
          · intro s hs
            rw [List.splitOn_cons_eq_if_modifyHead, if_pos (by decide)] at hs
            rcases List.mem_cons.mp hs with rfl | hs
            · decide
            · exact hm.names s hs
          · exact hm.names

end Urllib
