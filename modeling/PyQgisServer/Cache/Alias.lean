import Mathlib.Data.List.Infix
import PyQgisServer.Library.Pathlib
import PyQgisServer.Library.Urllib.Qsl

namespace QgsCache

open Urllib Pathlib

-- allowedSchemes is none for '*'; schemes is the section projects.schemes
structure AliasTable where
  aliases : PyDict Str Str
  defaultScheme : Str
  allowedSchemes : Option (List Str)
  schemes : Str → Option Str

-- the exceptions a lookup may end with; formatError is any exception of str.format, osError one of stat that
-- is_file() does not take for a missing file
inductive CacheError where
  | pathNotAllowed
  | strictChecking
  | unreadableResource
  | fileNotFound
  | osError
  | valueError
  | formatError
  | typeError
  | keyError
  | attributeError
  | runtimeError
  deriving DecidableEq

inductive ProtocolHandler where
  | file
  | postgres
  | qgisStorage
  deriving DecidableEq

def mergeQs (query1 query2 : Str) : Str :=
  let params := (parseQs query1).items.foldl (fun d x => d.set x.1 x.2) (parseQs query2)
  ['&'].intercalate (params.items.map fun x => x.1 ++ '=' :: x.2.headD [])

def pathField : Str := "\x7bpath\x7d".toList

-- str.format with the single argument path
def format (path : Str) : Str → Option Str
  | [] => some []
  | '\x7b' :: '\x7b' :: rest => (format path rest).map ('\x7b' :: ·)
  | '\x7b' :: 'p' :: 'a' :: 't' :: 'h' :: '\x7d' :: rest => (format path rest).map (path ++ ·)
  | '\x7d' :: '\x7d' :: rest => (format path rest).map ('\x7d' :: ·)
  | '\x7b' :: _ => none
  | '\x7d' :: _ => none
  | c :: rest => (format path rest).map (c :: ·)

def stripSlashes (s : Str) : Str := (s.dropWhile (· == '/')).rdropWhile (· == '/')

def rootAlias (rootdir : Str) : Str := "file:///".toList ++ stripSlashes rootdir ++ ['/']

namespace AliasTable

def init (rootdir defaultScheme allowed : Str) (schemes : Str → Option Str) : AliasTable where
  aliases := PyDict.empty.set "file".toList (rootAlias rootdir)
  defaultScheme := defaultScheme
  allowedSchemes := if allowed = ['*'] then none else some ((allowed.splitOn ',').map fun s =>
    (s.dropWhile Char.isWhitespace).rdropWhile Char.isWhitespace)
  schemes := schemes

def optionName (scheme : Str) : Str := scheme.map fun c => (if c = '-' then '_' else c).toLower

-- the alias of a scheme, with the table it leaves behind; [] when there is none
def baseurl (m : AliasTable) (scheme : Str) : Str × AliasTable :=
  match m.aliases.get? scheme with
  | some (c :: target) => (c :: target, m)
  | _ =>
    match m.schemes (optionName scheme) with
    | some target => (target, { m with aliases := m.aliases.set scheme target })
    | none => ([], m)

def schemeOf (m : AliasTable) (url : ParseResult) : Str :=
  if url.scheme = [] then m.defaultScheme else url.scheme

end AliasTable

def absolute (base : ParseResult) : ParseResult :=
  if isAbsolute base.path then base else { base with path := '/' :: base.path }

def reference (base url : ParseResult) : Str := url.path ++ '?' :: mergeQs base.query url.query

def basePath (base : ParseResult) : PurePath := (path ['/']).joinpath (absolute base).path

def resolve (env : Tables) (target : Str) (url : ParseResult) : Except CacheError ParseResult :=
  if pathField <:+: target then
    match format url.path target with
    | none => .error .formatError
    | some s =>
      match urlparse env s [] with
      | none => .error .valueError
      | some url => .ok url
  else
    match urlparse env target [] with
    | none => .error .valueError
    | some base =>
      match (urljoin env (urlunparse (absolute base)) (reference base url)).bind
        fun s => urlparse env s [] with
      | none => .error .valueError
      | some url =>
        if (path url.path).isRelativeTo (basePath base) then .ok url
        else .error .pathNotAllowed

def resolveAlias (env : Tables) (m : AliasTable) (key : Str) :
    Except CacheError ParseResult × AliasTable :=
  match urlparse env key [] with
  | none => (.error .valueError, m)
  | some url =>
    let r := m.baseurl (m.schemeOf url)
    (if r.1 = [] then .ok url else resolve env r.1 url, r.2)

def getProtocolHandler (m : AliasTable) (scheme : Str) : Except CacheError ProtocolHandler :=
  let scheme := if scheme = [] then m.defaultScheme else scheme
  if m.allowedSchemes.all (scheme ∈ ·) then
    .ok (if scheme = "file".toList then .file
      else if scheme = "postgres".toList then .postgres
      else .qgisStorage)
  else .error .pathNotAllowed

structure AliasTable.Same (m n : AliasTable) : Prop where
  defaultScheme : n.defaultScheme = m.defaultScheme
  allowedSchemes : n.allowedSchemes = m.allowedSchemes
  target : ∀ scheme, (n.baseurl scheme).1 = (m.baseurl scheme).1

namespace AliasTable

theorem Same.refl (m : AliasTable) : m.Same m := ⟨rfl, rfl, fun _ => rfl⟩

theorem Same.trans {m n o : AliasTable} (h : m.Same n) (h' : n.Same o) : m.Same o :=
  ⟨h'.defaultScheme.trans h.defaultScheme, h'.allowedSchemes.trans h.allowedSchemes,
    fun scheme => (h'.target scheme).trans (h.target scheme)⟩

theorem same_baseurl (m : AliasTable) (scheme : Str) : m.Same (m.baseurl scheme).2 := by
  unfold baseurl
  split
  · exact .refl m
  · rename_i hnone
    split
    · rename_i target htarget
      refine ⟨rfl, rfl, fun other => ?_⟩
      by_cases hother : other = scheme
      · subst hother
        cases target with
        | nil => simp [baseurl, PyDict.get?_set, htarget]
        | cons c target =>
          simp only [baseurl, PyDict.get?_set, if_true, htarget]
      · simp only [baseurl, PyDict.get?_set, if_neg hother]
        split
        · rfl
        · split <;> rfl
    · exact .refl m

end AliasTable

theorem resolveAlias_same (env : Tables) (m : AliasTable) (key : Str) :
    m.Same (resolveAlias env m key).2 := by
  unfold resolveAlias
  split
  · exact .refl m
  · exact m.same_baseurl _

theorem resolveAlias_congr {env : Tables} {m n : AliasTable} (h : m.Same n) (key : Str) :
    (resolveAlias env n key).1 = (resolveAlias env m key).1 := by
  unfold resolveAlias
  split
  · rfl
  · simp only [AliasTable.schemeOf, h.defaultScheme, h.target]
    rfl

theorem getProtocolHandler_congr {m n : AliasTable} (h : m.Same n) (scheme : Str) :
    getProtocolHandler n scheme = getProtocolHandler m scheme := by
  unfold getProtocolHandler
  rw [h.defaultScheme, h.allowedSchemes]

def aliased (env : Tables) (m : AliasTable) (key : Str) : Option (ParseResult × Str) :=
  (urlparse env key []).bind fun url =>
    let target := (m.baseurl (m.schemeOf url)).1
    if target = [] then none else some (url, target)

theorem resolveAlias_aliased {env : Tables} {m : AliasTable} {key target : Str} {url : ParseResult}
    (h : aliased env m key = some (url, target)) :
    (resolveAlias env m key).1 = resolve env target url := by
  obtain ⟨u, hu, h⟩ := Option.bind_eq_some_iff.mp h
  simp only at h
  split at h
  · cases h
  · rename_i hne
    simp only [Option.some.injEq, Prod.mk.injEq] at h
    obtain ⟨rfl, rfl⟩ := h
    simp only [resolveAlias, hu]
    rw [if_neg hne]

theorem absolute_path (base : ParseResult) : isAbsolute (absolute base).path = true := by
  unfold absolute
  split
  · assumption
  · rfl

theorem absolute_eq (base : ParseResult) :
    (absolute base).scheme = base.scheme ∧ (absolute base).netloc = base.netloc := by
  unfold absolute
  split <;> exact ⟨rfl, rfl⟩

theorem absolute_clean {env : Tables} {base : ParseResult} (h : base.Clean env) :
    (absolute base).Clean env := by
  refine Joins.clean (b := base) (r := base) ?_ h h rfl
  have habs := absolute_path base
  unfold absolute at habs ⊢
  split at habs
  · rename_i hp
    rw [if_pos hp]
    exact ⟨rfl, rfl, fun c hc => .inr (.inl hc), .inl rfl, .inl rfl, rfl, .inr habs, .inr (.inl rfl)⟩
  · rename_i hp
    rw [if_neg hp]
    refine ⟨rfl, rfl, fun c hc => ?_, .inl rfl, .inl rfl, rfl, .inr habs, .inr (.inl (lastName_slash _))⟩
    exact (List.mem_cons.mp hc).imp id .inl

theorem resolve_ok {env : Tables} {target : Str} {url u : ParseResult}
    (hp : ¬ pathField <:+: target) :
    resolve env target url = .ok u ↔
      ∃ base r, urlparse env target [] = some base ∧
        reading env (absolute base) (reference base url) = some r ∧ r.url = u ∧
        (path u.path).isRelativeTo (basePath base) = true := by
  unfold resolve
  rw [if_neg hp]
  cases hb : urlparse env target [] with
  | none => simp
  | some base =>
    have hclean := absolute_clean (urlparse_clean (.inl rfl) hb)
    have href : reference base url ≠ [] := by simp [reference]
    have hjoin := urlparse_urljoin hclean (absolute_path base) href
    simp only [hjoin, Option.some.injEq, exists_and_left, exists_eq_left']
    cases reading env (absolute base) (reference base url) with
    | none => simp
    | some r =>
      simp only [Option.map_some, Option.some.injEq, exists_eq_left']
      split
      · rename_i hrel
        constructor
        · intro h
          obtain rfl := Except.ok.inj h
          exact ⟨rfl, hrel⟩
        · rintro ⟨rfl, -⟩
          rfl
      · rename_i hrel
        constructor
        · intro h
          cases h
        · rintro ⟨rfl, h⟩
          exact absurd h hrel

section control

variable (env : Tables) (m : AliasTable) (key : Str)

def KeepsControl : Prop :=
  ∀ url target base u, aliased env m key = some (url, target) → urlparse env target [] = some base →
    (resolveAlias env m key).1 = .ok u →
    u.scheme = base.scheme ∧ u.netloc = base.netloc ∧
      getProtocolHandler m u.scheme = getProtocolHandler m base.scheme

def ForeignUrlOutside : Prop :=
  ∀ url target base u, aliased env m key = some (url, target) → urlparse env target [] = some base →
    reading env (absolute base) (reference base url) = some (.own u) →
    u.scheme ≠ base.scheme ∨ u.netloc ≠ base.netloc →
    (path u.path).isRelativeTo (basePath base) = false

end control

theorem alias_keeps_control_iff {env : Tables} {m : AliasTable} {key : Str} {url : ParseResult}
    {target : Str} (ht : aliased env m key = some (url, target)) (hp : ¬ pathField <:+: target) :
    KeepsControl env m key ↔ ForeignUrlOutside env m key := by
  constructor
  · intro h url' target' base u ha hb hr hforeign
    obtain ⟨rfl, rfl⟩ := Prod.mk.inj (Option.some.inj (ht.symm.trans ha))
    by_contra hrel
    have hok : (resolveAlias env m key).1 = .ok u := by
      rw [resolveAlias_aliased ht, resolve_ok hp]
      exact ⟨base, .own u, hb, hr, rfl, by simpa using hrel⟩
    obtain ⟨hs, hn, -⟩ := h url target base u ht hb hok
    exact hforeign.elim (fun hc => hc hs) fun hc => hc hn
  · intro h url' target' base u ha hb hok
    obtain ⟨rfl, rfl⟩ := Prod.mk.inj (Option.some.inj (ht.symm.trans ha))
    rw [resolveAlias_aliased ht, resolve_ok hp] at hok
    obtain ⟨base', r, hb', hr, rfl, hrel⟩ := hok
    obtain rfl := Option.some.inj (hb.symm.trans hb')
    have hsn : r.url.scheme = base.scheme ∧ r.url.netloc = base.netloc := by
      cases r with
      | own u =>
        by_contra hc
        have hout := h url target base u ht hb hr (not_and_or.mp hc)
        rw [show (path (Reading.own u).url.path).isRelativeTo (basePath base) = false from hout] at hrel
        cases hrel
      | merged u =>
        obtain ⟨hs, hn, -⟩ := reading_merged (absolute_path base) hr
        exact ⟨hs.trans (absolute_eq base).1, hn.trans (absolute_eq base).2⟩
    exact ⟨hsn.1, hsn.2, by rw [hsn.1]⟩

def asciiTables : Tables := ⟨id, fun _ => false, List.map Char.toLower⟩

def srvTable : AliasTable := .init "/srv".toList "file".toList ['*'] fun _ => none

def srvTarget : Str := "file:///srv/".toList

def srvBase : ParseResult := ⟨⟨"file".toList, [], "/srv/".toList, [], []⟩, []⟩

theorem srvTarget_base : urlparse asciiTables srvTarget [] = some srvBase := by decide

theorem aliased_sub :
    aliased asciiTables srvTable "sub/x".toList = some (⟨⟨[], [], "sub/x".toList, [], []⟩, []⟩, srvTarget) := by
  decide

theorem reading_sub :
    reading asciiTables (absolute srvBase) (reference srvBase ⟨⟨[], [], "sub/x".toList, [], []⟩, []⟩) =
      some (.merged { srvBase with path := "/srv/sub/x".toList }) := by
  decide

theorem alias_keeps_control_of_name : KeepsControl asciiTables srvTable "sub/x".toList := by
  refine (alias_keeps_control_iff aliased_sub (by decide)).mpr ?_
  intro url target base u ha hb hr _
  obtain ⟨rfl, rfl⟩ := Prod.mk.inj (Option.some.inj (aliased_sub.symm.trans ha))
  obtain rfl := Option.some.inj (srvTarget_base.symm.trans hb)
  rw [reading_sub] at hr
  cases hr

theorem key_selects_scheme :
    ¬ ∀ (env : Tables) (m : AliasTable) (key : Str) (url : ParseResult) (target : Str),
      aliased env m key = some (url, target) → ¬ pathField <:+: target → KeepsControl env m key := by
  intro h
  have ht : aliased asciiTables srvTable "file:http://evil/srv/x".toList =
      some (⟨⟨"file".toList, [], "http://evil/srv/x".toList, [], []⟩, []⟩, srvTarget) := by
    decide
  have hok : (resolveAlias asciiTables srvTable "file:http://evil/srv/x".toList).1 =
      .ok ⟨⟨"http".toList, "evil".toList, "/srv/x".toList, [], []⟩, []⟩ := by decide
  have hc := h asciiTables srvTable _ _ _ ht (by decide) _ _ srvBase _ ht
    (by decide) hok
  exact absurd hc.1 (by decide)

end QgsCache
