import PyQgisServer.Cache.Alias
import PyQgisServer.Library.Urllib.WithQuery

namespace QgsCache

open Urllib

-- a target that has '{path}' inside the value of one query parameter; the parts are those of the
-- text that str.format gives
structure HoledTarget (target : Str) where
  base : Str
  params : Str
  name : Str
  value : Str
  rest : Str
  format_target : ∀ path, format path target =
    (format path value).map fun v => base ++ '?' :: (params ++ name ++ '=' :: v ++ rest)
  hole : pathField <:+: target
  base_query : '?' ∉ base
  base_fragment : '#' ∉ base
  params_end : params = [] ∨ ∃ p, params = p ++ ['&']
  params_fragment : '#' ∉ params
  name_plain : '&' ∉ name ∧ '=' ∉ name ∧ '#' ∉ name
  value_hole : pathField <:+: value
  value_plain : '&' ∉ value ∧ '#' ∉ value
  rest_start : rest = [] ∨ ∃ c r, rest = c :: r ∧ (c = '&' ∨ c = '#')

def templateUrl (env : Tables) (target : Str) : Option ParseResult :=
  (format pathField target).bind fun s => urlparse env s []

structure KeepsTarget (t u : ParseResult) (parameter : Str) : Prop where
  scheme : u.scheme = t.scheme
  netloc : u.netloc = t.netloc
  path : u.path = t.path
  names : ∀ name, name ∈ (parseQs u.query).keys ↔ name ∈ (parseQs t.query).keys
  others : ∀ name, name ≠ parameter → (parseQs u.query).get? name = (parseQs t.query).get? name

section format

variable {path : Str}

theorem mem_piece {s rest u : Str} (piece : Str) (hrest : rest ⊆ s) (hpiece : ∀ c ∈ piece, c ∈ s ∨ c ∈ path)
    (ih : ∀ c ∈ u, c ∈ rest ∨ c ∈ path) : ∀ c ∈ piece ++ u, c ∈ s ∨ c ∈ path := by
  intro c hc
  rcases List.mem_append.mp hc with hc | hc
  · exact hpiece c hc
  · exact (ih c hc).imp_left fun hmem => hrest hmem

theorem mem_format {s t : Str} (h : format path s = some t) : ∀ c ∈ t, c ∈ s ∨ c ∈ path := by
  fun_induction format path s generalizing t with
  | case1 =>
    obtain rfl := Option.some.inj h
    simp
  | case2 rest ih =>
    obtain ⟨u, hu, rfl⟩ := Option.map_eq_some_iff.mp h
    exact mem_piece ['\x7b'] (by simp) (by simp) (ih hu)
  | case3 rest ih =>
    obtain ⟨u, hu, rfl⟩ := Option.map_eq_some_iff.mp h
    exact mem_piece path (fun c hc => by simp [hc]) (fun c hc => .inr hc) (ih hu)
  | case4 rest ih =>
    obtain ⟨u, hu, rfl⟩ := Option.map_eq_some_iff.mp h
    exact mem_piece ['\x7d'] (by simp) (by simp) (ih hu)
  | case5 => cases h
  | case6 => cases h
  | case7 d rest _ _ _ _ _ ih =>
    obtain ⟨u, hu, rfl⟩ := Option.map_eq_some_iff.mp h
    exact mem_piece [d] (by simp) (by simp) (ih hu)

theorem brace_mem_format {s t : Str} (h : format pathField s = some t) (hs : '\x7b' ∈ s) : '\x7b' ∈ t := by
  fun_induction format pathField s generalizing t with
  | case1 => cases hs
  | case2 rest _ =>
    obtain ⟨u, _, rfl⟩ := Option.map_eq_some_iff.mp h
    exact List.mem_cons_self
  | case3 rest _ =>
    obtain ⟨u, _, rfl⟩ := Option.map_eq_some_iff.mp h
    exact List.mem_append_left _ (by decide)
  | case4 rest ih =>
    obtain ⟨u, hu, rfl⟩ := Option.map_eq_some_iff.mp h
    have hrest : '\x7b' ∈ rest := by simpa using hs
    exact List.mem_cons_of_mem _ (ih hu hrest)
  | case5 => cases h
  | case6 => cases h
  | case7 d rest _ _ _ hopen _ ih =>
    obtain ⟨u, hu, rfl⟩ := Option.map_eq_some_iff.mp h
    rcases List.mem_cons.mp hs with hd | hrest
    · exact absurd hd.symm hopen
    · exact List.mem_cons_of_mem _ (ih hu hrest)

theorem format_append {s s' : Str} (t : Str) (h : format path s = some s') :
    format path (s ++ t) = (format path t).map (s' ++ ·) := by
  fun_induction format path s generalizing s' with
  | case1 =>
    obtain rfl := Option.some.inj h
    simp
  | case2 rest ih =>
    obtain ⟨u, hu, rfl⟩ := Option.map_eq_some_iff.mp h
    simp [format, ih hu, Function.comp_def]
  | case3 rest ih =>
    obtain ⟨u, hu, rfl⟩ := Option.map_eq_some_iff.mp h
    simp [format, ih hu, Function.comp_def]
  | case4 rest ih =>
    obtain ⟨u, hu, rfl⟩ := Option.map_eq_some_iff.mp h
    simp [format, ih hu, Function.comp_def]
  | case5 => cases h
  | case6 => cases h
  | case7 d rest _ _ _ hopen hclose ih =>
    obtain ⟨u, hu, rfl⟩ := Option.map_eq_some_iff.mp h
    rw [List.cons_append, format, ih hu, Option.map_map]
    · rfl
    all_goals simp_all

theorem format_plain {s : Str} (h : '\x7b' ∉ s ∧ '\x7d' ∉ s) : format path s = some s := by
  induction s with
  | nil => rfl
  | cons c s ih =>
    simp only [List.mem_cons, not_or] at h
    rw [format, ih ⟨h.1.2, h.2.2⟩]
    · rfl
    · rintro _ rfl
      simp at h
    · rintro _ rfl
      simp at h
    · rintro _ rfl
      simp at h
    · rintro rfl
      simp at h
    · rintro rfl
      simp at h

theorem format_of_some {s t : Str} (path' : Str) (h : format path s = some t) :
    ∃ t', format path' s = some t' := by
  fun_induction format path s generalizing t with
  | case1 => exact ⟨[], rfl⟩
  | case2 rest ih =>
    obtain ⟨u, hu, -⟩ := Option.map_eq_some_iff.mp h
    obtain ⟨u', hu'⟩ := ih hu
    exact ⟨_, by rw [format, hu', Option.map_some]⟩
  | case3 rest ih =>
    obtain ⟨u, hu, -⟩ := Option.map_eq_some_iff.mp h
    obtain ⟨u', hu'⟩ := ih hu
    exact ⟨_, by rw [format, hu', Option.map_some]⟩
  | case4 rest ih =>
    obtain ⟨u, hu, -⟩ := Option.map_eq_some_iff.mp h
    obtain ⟨u', hu'⟩ := ih hu
    exact ⟨_, by rw [format, hu', Option.map_some]⟩
  | case5 => cases h
  | case6 => cases h
  | case7 d rest _ _ _ _ _ ih =>
    obtain ⟨u, hu, -⟩ := Option.map_eq_some_iff.mp h
    obtain ⟨u', hu'⟩ := ih hu
    refine ⟨d :: u', ?_⟩
    rw [format, hu', Option.map_some]
    all_goals assumption

end format

namespace HoledTarget

def ofParts (base params name value rest : Str)
    (hplain : ∀ part ∈ [base, params, name, rest], '\x7b' ∉ part ∧ '\x7d' ∉ part)
    (hvalue : ∀ path, ∃ v, format path value = some v) (hhole : pathField <:+: value)
    (hbase : '?' ∉ base ∧ '#' ∉ base) (hparams : (params = [] ∨ ∃ p, params = p ++ ['&']) ∧ '#' ∉ params)
    (hname : '&' ∉ name ∧ '=' ∉ name ∧ '#' ∉ name) (hplainValue : '&' ∉ value ∧ '#' ∉ value)
    (hrest : rest = [] ∨ ∃ c r, rest = c :: r ∧ (c = '&' ∨ c = '#')) :
    HoledTarget (base ++ '?' :: (params ++ name ++ '=' :: value ++ rest)) where
  base := base
  params := params
  name := name
  value := value
  rest := rest
  format_target path := by
    obtain ⟨v, hv⟩ := hvalue path
    have hopen : '\x7b' ∉ base ++ '?' :: (params ++ name ++ ['=']) := by
      simp [hplain base (by simp), hplain params (by simp), hplain name (by simp)]
    have hclose : '\x7d' ∉ base ++ '?' :: (params ++ name ++ ['=']) := by
      simp [hplain base (by simp), hplain params (by simp), hplain name (by simp)]
    have hsplit : base ++ '?' :: (params ++ name ++ '=' :: value ++ rest) =
        (base ++ '?' :: (params ++ name ++ ['='])) ++ (value ++ rest) := by simp
    rw [hsplit, format_append _ (format_plain ⟨hopen, hclose⟩), format_append _ hv,
      format_plain (hplain rest (by simp)), hv]
    simp
  hole := (hhole.trans (List.infix_append' (params ++ name ++ ['=']) value rest)).trans
    ⟨base ++ ['?'], [], by simp⟩
  base_query := hbase.1
  base_fragment := hbase.2
  params_end := hparams.1
  params_fragment := hparams.2
  name_plain := hname
  value_hole := hhole
  value_plain := hplainValue
  rest_start := hrest

variable {target : Str} (h : HoledTarget target)

def parameter : Str := unquotePlus (dropUnsafe h.name)

def spelled : List (Str × Str) := parseQsl (dropUnsafe h.params) ++ parseQsl (before '#' (dropUnsafe h.rest))

def filled (path : Str) : Str := dropUnsafe ((format path h.value).getD [])

def carried (path : Str) : List (Str × Str) := parseQsl (after '&' (h.filled path))

structure Harmless (path : Str) : Prop where
  carried : ∀ x ∈ h.carried path, x.1 = h.parameter
  present : before '&' (h.filled path) ≠ [] ∨ ∃ x ∈ h.carried path ++ h.spelled, x.1 = h.parameter

def query (v : Str) : Str := before '#' (dropUnsafe (h.params ++ h.name ++ '=' :: v ++ h.rest))

theorem parseQsl_query {v : Str} (hv : '#' ∉ v) :
    parseQsl (h.query v) = parseQsl (dropUnsafe h.params) ++
      ((if before '&' (dropUnsafe v) = [] then []
        else [(h.parameter, unquotePlus (before '&' (dropUnsafe v)))]) ++ parseQsl (after '&' (dropUnsafe v))) ++
      parseQsl (before '#' (dropUnsafe h.rest)) := by
  have hnot : ∀ {c : Char} {s : Str}, c ∉ s → c ∉ dropUnsafe s := fun hs hc => hs (dropUnsafe_subset _ hc)
  have hfragment : '#' ∉ dropUnsafe h.params ++ (dropUnsafe h.name ++ '=' :: dropUnsafe v) := by
    simp [hnot h.params_fragment, hnot h.name_plain.2.2, hnot hv]
  have hcut : h.query v = dropUnsafe h.params ++ (dropUnsafe h.name ++ '=' :: dropUnsafe v) ++
      before '#' (dropUnsafe h.rest) := by
    rw [query, dropUnsafe_append, dropUnsafe_append, dropUnsafe_append, dropUnsafe_cons (by decide),
      ← before_append_of_notMem _ hfragment]
    simp only [List.append_assoc]
  have hrest : before '#' (dropUnsafe h.rest) = [] ∨ ∃ u, before '#' (dropUnsafe h.rest) = '&' :: u := by
    rcases h.rest_start with hnil | ⟨c, r, hc, rfl | rfl⟩
    · rw [hnil]
      exact .inl rfl
    · rw [hc, dropUnsafe_cons (by decide)]
      exact .inr ⟨_, rfl⟩
    · rw [hc, dropUnsafe_cons (by decide)]
      exact .inl rfl
  have hparams : dropUnsafe h.params = [] ∨ ∃ u, dropUnsafe h.params = u ++ ['&'] := by
    rcases h.params_end with hnil | ⟨p, hp⟩
    · rw [hnil]
      exact .inl rfl
    · rw [hp, dropUnsafe_append]
      exact .inr ⟨_, rfl⟩
  rw [hcut, parseQsl_append_amp _ hrest, parseQsl_amp_append _ hparams,
    parseQsl_named _ (hnot h.name_plain.1) (hnot h.name_plain.2.1)]
  rfl

theorem fragment_value {path v : Str} (hpath : '#' ∉ path) (hv : format path h.value = some v) : '#' ∉ v := by
  intro hmem
  exact (mem_format hv '#' hmem).elim h.value_plain.2 hpath

theorem template_value {v : Str} (hv : format pathField h.value = some v) :
    before '&' (dropUnsafe v) ≠ [] ∧ after '&' (dropUnsafe v) = [] := by
  have hamp : '&' ∉ dropUnsafe v := by
    intro hmem
    exact (mem_format hv '&' (dropUnsafe_subset _ hmem)).elim h.value_plain.1 (by decide)
  have hbrace : '\x7b' ∈ dropUnsafe v := by
    refine List.mem_filter.mpr ⟨brace_mem_format hv ?_, by decide⟩
    exact h.value_hole.subset (by decide)
  rw [before_eq_self hamp, after_eq_nil hamp]
  exact ⟨List.ne_nil_of_mem hbrace, rfl⟩

theorem values_query {v name : Str} (hv : '#' ∉ v) (hname : name ≠ h.parameter) :
    values (h.query v) name = values (dropUnsafe h.params) name ++ values (after '&' (dropUnsafe v)) name ++
      values (before '#' (dropUnsafe h.rest)) name := by
  simp only [values, h.parseQsl_query hv]
  split
  · simp
  · simp [Ne.symm hname]

theorem parameter_mem_keys {v : Str} (hv : '#' ∉ v) :
    h.parameter ∈ (parseQs (h.query v)).keys ↔ before '&' (dropUnsafe v) ≠ [] ∨
      ∃ x ∈ parseQsl (after '&' (dropUnsafe v)) ++ h.spelled, x.1 = h.parameter := by
  rw [mem_keys_iff, h.parseQsl_query hv, spelled]
  by_cases hblank : before '&' (dropUnsafe v) = []
  · rw [if_pos hblank]
    constructor
    · rintro ⟨value, hmem⟩
      refine .inr ⟨(h.parameter, value), ?_, rfl⟩
      simp only [List.nil_append, List.mem_append] at hmem ⊢
      tauto
    · rintro (hne | ⟨x, hmem, hx⟩)
      · exact absurd hblank hne
      · refine ⟨x.2, ?_⟩
        rw [← hx, Prod.mk.eta]
        simp only [List.nil_append, List.mem_append] at hmem ⊢
        tauto
  · rw [if_neg hblank]
    refine iff_of_true ⟨unquotePlus (before '&' (dropUnsafe v)), ?_⟩ (.inl hblank)
    simp

theorem others_iff {v v₀ : Str} (hv : '#' ∉ v) (hv₀ : '#' ∉ v₀) (hsingle : after '&' (dropUnsafe v₀) = []) :
    (∀ name, name ≠ h.parameter → (parseQs (h.query v)).get? name = (parseQs (h.query v₀)).get? name) ↔
      ∀ x ∈ parseQsl (after '&' (dropUnsafe v)), x.1 = h.parameter := by
  have hvalues : ∀ name, name ≠ h.parameter →
      ((parseQs (h.query v)).get? name = (parseQs (h.query v₀)).get? name ↔
        values (after '&' (dropUnsafe v)) name = []) := by
    intro name hname
    rw [parseQs_get?_eq_iff, h.values_query hv hname, h.values_query hv₀ hname, hsingle]
    have hnil : values [] name = [] := rfl
    rw [hnil, List.append_nil, List.append_left_inj, List.append_right_eq_self]
  constructor
  · intro hall x hx
    by_contra hne
    have hnil := (hvalues x.1 hne).mp (hall x.1 hne)
    rw [values, List.map_eq_nil_iff, List.filter_eq_nil_iff] at hnil
    exact hnil x hx (by simp)
  · intro hall name hname
    rw [hvalues name hname, values, List.map_eq_nil_iff, List.filter_eq_nil_iff]
    intro x hx
    rw [hall x hx]
    simpa using Ne.symm hname

theorem names_iff {path v v₀ : Str} (hpath : '#' ∉ path) (hv : format path h.value = some v)
    (hv₀ : format pathField h.value = some v₀) :
    ((∀ name, name ∈ (parseQs (h.query v)).keys ↔ name ∈ (parseQs (h.query v₀)).keys) ∧
      ∀ name, name ≠ h.parameter → (parseQs (h.query v)).get? name = (parseQs (h.query v₀)).get? name) ↔
      h.Harmless path := by
  have hfragment := h.fragment_value hpath hv
  have hfragment₀ := h.fragment_value (by decide : '#' ∉ pathField) hv₀
  obtain ⟨hvalue, hsingle⟩ := h.template_value hv₀
  have hfilled : h.filled path = dropUnsafe v := by rw [filled, hv, Option.getD_some]
  have hothers := h.others_iff hfragment hfragment₀ hsingle
  have hparameter := h.parameter_mem_keys hfragment
  have hparameter₀ : h.parameter ∈ (parseQs (h.query v₀)).keys :=
    (h.parameter_mem_keys hfragment₀).mpr (.inl hvalue)
  rw [hothers]
  constructor
  · rintro ⟨hnames, hcarried⟩
    constructor
    · rwa [carried, hfilled]
    · rw [carried, hfilled]
      exact hparameter.mp ((hnames _).mpr hparameter₀)
  · rintro ⟨hcarried, hpresent⟩
    rw [carried, hfilled] at hcarried hpresent
    refine ⟨fun name => ?_, hcarried⟩
    by_cases hname : name = h.parameter
    · subst hname
      exact iff_of_true (hparameter.mpr hpresent) hparameter₀
    · rw [← not_iff_not, ← PyDict.get?_eq_none, ← PyDict.get?_eq_none, hothers.mpr hcarried name hname]

end HoledTarget

theorem path_alias_keeps_target_iff {env : Tables} {m : AliasTable} {key target : Str} {url u : ParseResult}
    (h : HoledTarget target) (ha : aliased env m key = some (url, target))
    (hu : (resolveAlias env m key).1 = .ok u) :
    (∃ t, templateUrl env target = some t ∧ KeepsTarget t u h.parameter) ↔ h.Harmless url.path := by
  have hpath : '#' ∉ url.path := by
    obtain ⟨url', hurl, hsome⟩ := Option.bind_eq_some_iff.mp ha
    simp only at hsome
    split at hsome
    · cases hsome
    · obtain ⟨rfl, -⟩ := Prod.mk.inj (Option.some.inj hsome)
      have hclean := (urlparse_clean (.inl rfl) hurl).split.path.2
      exact fun hmem => hclean (ParseResult.path_subset _ hmem)
  rw [resolveAlias_aliased ha, resolve, if_pos h.hole, h.format_target] at hu
  cases hv : format url.path h.value with
  | none =>
    rw [hv] at hu
    cases hu
  | some v =>
    obtain ⟨v₀, hv₀⟩ := format_of_some pathField hv
    rw [hv, Option.map_some] at hu
    simp only [urlparse_query h.base_query h.base_fragment] at hu
    cases hr : urlparse env h.base [] with
    | none =>
      rw [hr] at hu
      cases hu
    | some r =>
      rw [hr] at hu
      obtain rfl := Except.ok.inj hu
      have ht : templateUrl env target =
          some (r.withQuery (dropUnsafe (h.params ++ h.name ++ '=' :: v₀ ++ h.rest))) := by
        rw [templateUrl, h.format_target, hv₀, Option.map_some, Option.bind_some,
          urlparse_query h.base_query h.base_fragment, hr, Option.map_some]
      rw [ht, ← h.names_iff hpath hv hv₀]
      constructor
      · rintro ⟨t, htt, hkeeps⟩
        obtain rfl := Option.some.inj htt
        exact ⟨hkeeps.names, hkeeps.others⟩
      · rintro ⟨hnames, hothers⟩
        exact ⟨_, rfl, rfl, rfl, rfl, hnames, hothers⟩

def serviceTarget : Str := "postgres:///?service=myservice&project=\x7bpath\x7d".toList

def serviceHole : HoledTarget serviceTarget :=
  .ofParts "postgres:///".toList "service=myservice&".toList "project".toList pathField []
    (by decide) (fun path => ⟨path, by simp [pathField, format]⟩) (List.infix_refl _) (by decide)
    ⟨.inr ⟨"service=myservice".toList, by decide⟩, by decide⟩ (by decide) (by decide) (.inl rfl)

def serviceTable : AliasTable :=
  .init "/srv".toList "file".toList ['*'] fun s => if s = "postgres".toList then some serviceTarget else none

theorem path_alias_keeps_target_of_name :
    ∃ u t, (resolveAlias asciiTables serviceTable "postgres:x".toList).1 = .ok u ∧
      templateUrl asciiTables serviceTarget = some t ∧ KeepsTarget t u "project".toList := by
  have ha : aliased asciiTables serviceTable "postgres:x".toList =
      some (⟨⟨"postgres".toList, [], "x".toList, [], []⟩, []⟩, serviceTarget) := by decide
  have hu : (resolveAlias asciiTables serviceTable "postgres:x".toList).1 =
      .ok ⟨⟨"postgres".toList, [], "/".toList, "service=myservice&project=x".toList, []⟩, []⟩ := by
    decide
  have hharmless : serviceHole.Harmless "x".toList := ⟨by decide, .inl (by decide)⟩
  obtain ⟨t, ht, hkeeps⟩ := (path_alias_keeps_target_iff serviceHole ha hu).mpr hharmless
  exact ⟨_, t, hu, ht, hkeeps⟩

theorem path_injects_parameter :
    ∃ u t, (resolveAlias asciiTables serviceTable "postgres:x&host=evil".toList).1 = .ok u ∧
      templateUrl asciiTables serviceTarget = some t ∧ ¬ KeepsTarget t u "project".toList := by
  refine ⟨⟨⟨"postgres".toList, [], "/".toList, "service=myservice&project=x&host=evil".toList, []⟩, []⟩,
    ⟨⟨"postgres".toList, [], "/".toList, "service=myservice&project=\x7bpath\x7d".toList, []⟩, []⟩,
    by decide, by decide, fun h => ?_⟩
  have hhost := (h.names "host".toList).mp (by decide)
  exact absurd hhost (by decide)

end QgsCache
