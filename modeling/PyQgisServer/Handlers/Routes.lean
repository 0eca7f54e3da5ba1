import Mathlib.Data.Char
import PyQgisServer.Handlers.Router
import PyQgisServer.Library.PyStr

namespace Runtime

open Urllib (Str)
open Regex (seqs alts opt char)
open RegexMatch (Denotes compile denotes_one denotes_two)
open Routing (Router)

section configureHandlers

inductive Handler where
  | landingPage
  | pingHandler
  | statusHandler
  | owsHandler
  | oapiHandler (service : Str)
  | notFoundHandler
  deriving DecidableEq

-- the section api.endpoints, and what getboolean makes of the section api.enabled
structure Config where
  statusPage : Bool
  endpoints : List (Str × Str)
  enabled : Str → Bool

def qgisApiEndpoints (cfg : Config) : List (Str × Str) := cfg.endpoints.filter fun x => cfg.enabled x.1

def pageEnd : String := "(?:\\.html|\\.json|/?)"

def collectionEnd : String := "(?:\\.html|\\.json|\\.geojson|/?)"

def wfs3ApiEndpoints : List String :=
  [pageEnd,
   "/collections(?:/[^/]+(?:/items)?(?:/[0-9]+)?)?" ++ collectionEnd,
   "/conformance" ++ pageEnd,
   "/api" ++ pageEnd,
   "/static/.*"]

def wfs3 : Handler := .oapiHandler "WFS3".toList

def ownHandlers (statusPage : Bool) : List (String × Handler) :=
  [("/", .landingPage), ("/ping", .pingHandler)] ++
    (if statusPage then [("/status/?.*", .statusHandler)] else []) ++
    [("/ows/?", .owsHandler)] ++
    wfs3ApiEndpoints.flatMap fun endpoint => [("/ogcapi" ++ endpoint, wfs3), ("/wfs3" ++ endpoint, wfs3)]

def stripSlash (s : Str) : Str := PyStr.strip (· = '/') s

def apiHandlers (endpoints : List (Str × Str)) : List (Str × Handler) :=
  endpoints.map fun x => ('/' :: stripSlash x.2 ++ "/.*".toList, .oapiHandler x.1)

def configureHandlers (cfg : Config) : List (Str × Handler) :=
  (ownHandlers cfg.statusPage).map (fun x => (x.1.toList, x.2)) ++ apiHandlers (qgisApiEndpoints cfg)

def findHandler (t : Router Handler) (cfg : Config) (path : Str) : Handler :=
  t.findHandler (configureHandlers cfg) .notFoundHandler path

end configureHandlers

section segments

variable {A : Type} [DecidableEq A]

theorem splitOn_cases (x : A) (p : List A) :
    (x ∉ p ∧ p.splitOn x = [p]) ∨ ∃ s q, x ∉ s ∧ p = s ++ x :: q ∧ p.splitOn x = s :: q.splitOn x := by
  by_cases hmem : x ∈ p
  · obtain ⟨s, q, rfl, hs⟩ := List.eq_append_cons_of_mem hmem
    exact .inr ⟨s, q, hs, rfl, List.splitOn_append_cons_self_of_not_mem hs q⟩
  · exact .inl ⟨hmem, List.splitOn_eq_singleton hmem⟩

theorem splitOn_eq_one (x : A) (p s : List A) : p.splitOn x = [s] ↔ p = s ∧ x ∉ s := by
  rcases splitOn_cases x p with ⟨hx, hsplit⟩ | ⟨u, q, hu, hp, hsplit⟩
  · rw [hsplit]
    constructor
    · intro h
      obtain rfl := List.singleton_inj.mp h
      exact ⟨rfl, hx⟩
    · rintro ⟨rfl, -⟩
      rfl
  · rw [hsplit]
    refine iff_of_false (fun h => List.splitOn_ne_nil x q (List.cons.inj h).2) ?_
    rintro ⟨rfl, hs⟩
    exact hs (by simp [hp])

theorem splitOn_eq_cons (x : A) (p s : List A) {l : List (List A)} (hl : l ≠ []) :
    p.splitOn x = s :: l ↔ x ∉ s ∧ ∃ q, p = s ++ x :: q ∧ q.splitOn x = l := by
  constructor
  · intro h
    rcases splitOn_cases x p with ⟨hx, hsplit⟩ | ⟨u, q, hu, hp, hsplit⟩
    · exact absurd (List.cons.inj (hsplit.symm.trans h)).2.symm hl
    · obtain ⟨rfl, hrest⟩ := List.cons.inj (hsplit.symm.trans h)
      exact ⟨hu, q, hp, hrest⟩
  · rintro ⟨hs, q, rfl, hq⟩
    rw [List.splitOn_append_cons_self_of_not_mem hs, hq]

end segments

section resources

def pages : List Str := ["".toList, ".html".toList, ".json".toList]

def collectionPages : List Str := ["".toList, ".html".toList, ".json".toList, ".geojson".toList]

def Ends (pages : List Str) (name : Str) (segments : List Str) : Prop :=
  segments = [name, []] ∨ ∃ page ∈ pages, segments = [name ++ page]

def Wfs3Root (name : Str) : Prop := name = "ogcapi".toList ∨ name = "wfs3".toList

inductive Resource (root : Str) : List Str → Prop
  | root {end_ : List Str} (h : Ends pages root end_) : Resource root end_
  | page {name : Str} {end_ : List Str} (hname : name = "conformance".toList ∨ name = "api".toList)
      (h : Ends pages name end_) : Resource root (root :: end_)
  | static (first : Str) (rest : List Str) : Resource root (root :: "static".toList :: first :: rest)
  | collections {end_ : List Str} (h : Ends collectionPages "collections".toList end_) : Resource root (root :: end_)
  | collection {id : Str} {end_ : List Str} (hid : id ≠ []) (hslash : '/' ∉ id) (h : Ends collectionPages id end_) :
      Resource root (root :: "collections".toList :: end_)
  | items {id : Str} {end_ : List Str} (hid : id ≠ []) (h : Ends collectionPages "items".toList end_) :
      Resource root (root :: "collections".toList :: id :: end_)
  | feature {id number : Str} (between : List Str) {end_ : List Str} (hid : id ≠ [])
      (hnumber : number ≠ [] ∧ ∀ c ∈ number, c.isDigit = true) (hbetween : between = [] ∨ between = ["items".toList])
      (h : Ends collectionPages number end_) : Resource root (root :: "collections".toList :: id :: (between ++ end_))

end resources

section wfs3

def endRegex : Regex Char :=
  alts [seqs (".html".toList.map char), seqs (".json".toList.map char), seqs [opt (char '/')]]

def collectionEndRegex : Regex Char :=
  alts [seqs (".html".toList.map char), seqs (".json".toList.map char), seqs (".geojson".toList.map char),
    seqs [opt (char '/')]]

def idRegex : Regex Char := .plus (Regex.classOf true [('/', '/')])

def numberRegex : Regex Char := .plus (Regex.classOf false [('0', '9')])

def itemRegex : Regex Char :=
  alts [seqs (char '/' :: [idRegex, opt (alts [seqs ("/items".toList.map char)]),
    opt (alts [seqs (char '/' :: [numberRegex])])])]

variable {s : Str}

theorem mem_end : s ∈ endRegex.lang ↔ s = ['/'] ∨ s ∈ pages := by
  simp only [endRegex, Regex.mem_alts, List.mem_cons, List.not_mem_nil, or_false, exists_eq_or_imp, exists_eq_left,
    Regex.mem_word, Regex.mem_seqs_singleton, Regex.mem_opt, Regex.mem_char, pages]
  tauto

theorem mem_collectionEnd : s ∈ collectionEndRegex.lang ↔ s = ['/'] ∨ s ∈ collectionPages := by
  simp only [collectionEndRegex, Regex.mem_alts, List.mem_cons, List.not_mem_nil, or_false, exists_eq_or_imp,
    exists_eq_left, Regex.mem_word, Regex.mem_seqs_singleton, Regex.mem_opt, Regex.mem_char, collectionPages]
  tauto

theorem mem_id : s ∈ idRegex.lang ↔ s ≠ [] ∧ '/' ∉ s := by
  have hclass (c : Char) :
      (true != [('/', '/')].any fun r => decide (r.1 ≤ c) && decide (c ≤ r.2)) = true ↔ c ≠ '/' := by
    simp [lt_or_lt_iff_ne]
  rw [idRegex, Regex.classOf, Regex.mem_plus_chars]
  simp only [hclass]
  exact and_congr_right fun _ => ⟨fun h hmem => h _ hmem rfl, fun h c hc hslash => h (hslash ▸ hc)⟩

theorem mem_number : s ∈ numberRegex.lang ↔ s ≠ [] ∧ ∀ c ∈ s, c.isDigit = true := by
  have hclass (c : Char) : (false != [('0', '9')].any fun r => decide (r.1 ≤ c) && decide (c ≤ r.2)) = c.isDigit := by
    simp [Char.isDigit, Char.le_def]
  rw [numberRegex, Regex.classOf, Regex.mem_plus_chars]
  simp only [hclass]

theorem mem_item : s ∈ itemRegex.lang ↔ ∃ id items number, s = '/' :: (id ++ items ++ number) ∧
    (id ≠ [] ∧ '/' ∉ id) ∧ (items = [] ∨ items = "/items".toList) ∧
    (number = [] ∨ ∃ n, number = '/' :: n ∧ n ≠ [] ∧ ∀ c ∈ n, c.isDigit = true) := by
  simp only [itemRegex, Regex.mem_alts, List.mem_singleton, exists_eq_left, Regex.mem_seqs_cons, Regex.mem_char,
    Regex.mem_opt, Regex.mem_word, Regex.mem_seqs_nil, mem_id, mem_number]
  constructor
  · rintro ⟨-, -, rfl, rfl, id, -, rfl, hid, items, -, rfl, hitems, number, -, rfl, hnumber, rfl⟩
    refine ⟨id, items, number, by simp, hid, hitems.symm, ?_⟩
    rcases hnumber with ⟨-, -, rfl, rfl, n, -, rfl, hn, rfl⟩ | rfl
    · exact .inr ⟨n, by simp, hn⟩
    · exact .inl rfl
  · rintro ⟨id, items, number, rfl, hid, hitems, hnumber⟩
    refine ⟨['/'], id ++ items ++ number, rfl, rfl, id, items ++ number, by simp, hid, items, number, rfl,
      hitems.symm, number, [], by simp, ?_, rfl⟩
    rcases hnumber with rfl | ⟨n, rfl, hn⟩
    · exact .inr rfl
    · exact .inl ⟨['/'], n, rfl, rfl, n, [], (List.append_nil n).symm, hn, rfl⟩

theorem ends_iff {r : Regex Char} {pages : List Str} (hr : ∀ s, s ∈ r.lang ↔ s = ['/'] ∨ s ∈ pages)
    (hpages : ∀ page ∈ pages, '/' ∉ page) {name : Str} (hname : '/' ∉ name) (q : Str) :
    Ends pages name (q.splitOn '/') ↔ ∃ y, q = name ++ y ∧ y ∈ r.lang := by
  constructor
  · rintro (hslash | ⟨page, hpage, hsegments⟩)
    · obtain ⟨-, q', rfl, hq'⟩ := (splitOn_eq_cons '/' q name (List.cons_ne_nil _ _)).mp hslash
      obtain ⟨rfl, -⟩ := (splitOn_eq_one '/' q' []).mp hq'
      exact ⟨['/'], rfl, (hr _).mpr (.inl rfl)⟩
    · obtain ⟨rfl, -⟩ := (splitOn_eq_one '/' q _).mp hsegments
      exact ⟨page, rfl, (hr _).mpr (.inr hpage)⟩
  · rintro ⟨y, rfl, hy⟩
    rcases (hr y).mp hy with rfl | hpage
    · exact .inl (List.splitOn_append_cons_self_of_not_mem hname [])
    · refine .inr ⟨y, hpage, (splitOn_eq_one '/' _ _).mpr ⟨rfl, fun hmem => ?_⟩⟩
      rcases List.mem_append.mp hmem with hmem | hmem
      · exact hname hmem
      · exact hpages y hpage hmem

variable {name q : Str}

theorem below (hname : '/' ∉ name) (q : Str) : (name ++ '/' :: q).splitOn '/' = name :: q.splitOn '/' :=
  List.splitOn_append_cons_self_of_not_mem hname q

theorem number_slash {number : Str} (hnumber : ∀ c ∈ number, c.isDigit = true) : '/' ∉ number :=
  fun hmem => absurd (hnumber '/' hmem) (by decide)

theorem page_slash {word : Str} (hword : word = "conformance".toList ∨ word = "api".toList) : '/' ∉ word := by
  rcases hword with rfl | rfl
  · decide
  · decide

theorem ends_page (hname : '/' ∉ name) (q : Str) :
    Ends pages name (q.splitOn '/') ↔ ∃ y, q = name ++ y ∧ y ∈ endRegex.lang :=
  ends_iff (fun _ => mem_end) (by decide) hname q

theorem ends_collectionPage (hname : '/' ∉ name) (q : Str) :
    Ends collectionPages name (q.splitOn '/') ↔ ∃ y, q = name ++ y ∧ y ∈ collectionEndRegex.lang :=
  ends_iff (fun _ => mem_collectionEnd) (by decide) hname q

theorem Ends.ne_nil {pages l : List Str} (h : Ends pages name l) : l ≠ [] := by
  rcases h with rfl | ⟨page, -, rfl⟩
  · exact List.cons_ne_nil _ _
  · exact List.cons_ne_nil _ _

theorem resource_item (hname : '/' ∉ name) {m e : Str} (hm : m ∈ itemRegex.lang) (he : e ∈ collectionEndRegex.lang) :
    Resource name ((name ++ '/' :: ("collections".toList ++ m ++ e)).splitOn '/') := by
  have hcollections : '/' ∉ "collections".toList := by decide
  have hitems : '/' ∉ "items".toList := by decide
  obtain ⟨id, items, number, rfl, ⟨hid, hslash⟩, hbetween, hnumber⟩ := mem_item.mp hm
  have hsplit : (name ++ '/' :: ("collections".toList ++ '/' :: (id ++ items ++ number) ++ e)).splitOn '/' =
      name :: "collections".toList :: (id ++ items ++ number ++ e).splitOn '/' := by
    rw [below hname, List.append_assoc, List.cons_append, below hcollections]
  rw [hsplit]
  rcases hbetween with rfl | rfl
  · rw [List.append_nil]
    rcases hnumber with rfl | ⟨n, rfl, hn⟩
    · rw [List.append_nil]
      exact .collection hid hslash ((ends_collectionPage hslash _).mpr ⟨e, rfl, he⟩)
    · rw [List.append_assoc, List.cons_append, below hslash]
      exact .feature [] hid hn (.inl rfl) ((ends_collectionPage (number_slash hn.2) _).mpr ⟨e, rfl, he⟩)
  · have hbelow (y : Str) : (id ++ "/items".toList ++ y).splitOn '/' = id :: ("items".toList ++ y).splitOn '/' := by
      rw [List.append_assoc]
      exact below hslash _
    rw [List.append_assoc, hbelow]
    rcases hnumber with rfl | ⟨n, rfl, hn⟩
    · exact .items hid ((ends_collectionPage hitems _).mpr ⟨e, rfl, he⟩)
    · rw [List.cons_append, below hitems]
      exact .feature ["items".toList] hid hn (.inr rfl)
        ((ends_collectionPage (number_slash hn.2) _).mpr ⟨e, rfl, he⟩)

theorem item_collection {id : Str} (hid : id ≠ []) (hslash : '/' ∉ id) : '/' :: id ∈ itemRegex.lang :=
  mem_item.mpr ⟨id, [], [], by simp, ⟨hid, hslash⟩, .inl rfl, .inl rfl⟩

theorem item_items {id : Str} (hid : id ≠ []) (hslash : '/' ∉ id) : '/' :: (id ++ "/items".toList) ∈ itemRegex.lang :=
  mem_item.mpr ⟨id, "/items".toList, [], by simp, ⟨hid, hslash⟩, .inr rfl, .inl rfl⟩

theorem item_feature {id items n : Str} (hid : id ≠ []) (hslash : '/' ∉ id)
    (hitems : items = [] ∨ items = "/items".toList) (hn : n ≠ [] ∧ ∀ c ∈ n, c.isDigit = true) :
    '/' :: (id ++ items ++ '/' :: n) ∈ itemRegex.lang :=
  mem_item.mpr ⟨id, items, '/' :: n, rfl, ⟨hid, hslash⟩, hitems, .inr ⟨n, rfl, hn⟩⟩

inductive Endpoint (name : Str) : Str → Prop
  | root {y : Str} (h : y ∈ endRegex.lang) : Endpoint name (name ++ y)
  | page {word y : Str} (hword : word = "conformance".toList ∨ word = "api".toList) (h : y ∈ endRegex.lang) :
      Endpoint name (name ++ '/' :: (word ++ y))
  | static (y : Str) : Endpoint name (name ++ '/' :: ("static".toList ++ '/' :: y))
  | collections {m y : Str} (hm : m = [] ∨ m ∈ itemRegex.lang) (h : y ∈ collectionEndRegex.lang) :
      Endpoint name (name ++ '/' :: ("collections".toList ++ m ++ y))

theorem endpoint_iff (hname : '/' ∉ name) (q : Str) : Endpoint name q ↔ Resource name (q.splitOn '/') := by
  constructor
  · intro h
    cases h with
    | root hy => exact .root ((ends_page hname _).mpr ⟨_, rfl, hy⟩)
    | page hword hy =>
      rw [below hname]
      exact .page hword ((ends_page (page_slash hword) _).mpr ⟨_, rfl, hy⟩)
    | static y =>
      obtain ⟨first, rest, hrest⟩ := List.exists_cons_of_ne_nil (List.splitOn_ne_nil '/' y)
      rw [below hname, below (by decide), hrest]
      exact .static first rest
    | collections hm hy =>
      rcases hm with rfl | hm
      · rw [List.append_nil, below hname]
        exact .collections ((ends_collectionPage (by decide) _).mpr ⟨_, rfl, hy⟩)
      · exact resource_item hname hm hy
  · generalize hl : q.splitOn '/' = l
    intro h
    cases h with
    | root h =>
      obtain ⟨y, rfl, hy⟩ := (ends_page hname q).mp (hl ▸ h)
      exact .root hy
    | page hword h =>
      obtain ⟨-, q, rfl, rfl⟩ := (splitOn_eq_cons '/' _ _ h.ne_nil).mp hl
      obtain ⟨y, rfl, hy⟩ := (ends_page (page_slash hword) q).mp h
      exact .page hword hy
    | static first rest =>
      obtain ⟨-, q, rfl, hq⟩ := (splitOn_eq_cons '/' _ _ (List.cons_ne_nil _ _)).mp hl
      obtain ⟨-, q, rfl, -⟩ := (splitOn_eq_cons '/' _ _ (List.cons_ne_nil _ _)).mp hq
      exact .static q
    | collections h =>
      obtain ⟨-, q, rfl, rfl⟩ := (splitOn_eq_cons '/' _ _ h.ne_nil).mp hl
      obtain ⟨y, rfl, hy⟩ := (ends_collectionPage (by decide) q).mp h
      have hpath : Endpoint name _ := .collections (.inl rfl) hy
      rwa [List.append_nil] at hpath
    | collection hid hslash h =>
      obtain ⟨-, q, rfl, hq⟩ := (splitOn_eq_cons '/' _ _ (List.cons_ne_nil _ _)).mp hl
      obtain ⟨-, q, rfl, rfl⟩ := (splitOn_eq_cons '/' _ _ h.ne_nil).mp hq
      obtain ⟨y, rfl, hy⟩ := (ends_collectionPage hslash q).mp h
      have hpath : Endpoint name _ := .collections (.inr (item_collection hid hslash)) hy
      rwa [List.append_assoc, List.cons_append] at hpath
    | items hne h =>
      obtain ⟨-, q, rfl, hq⟩ := (splitOn_eq_cons '/' _ _ (List.cons_ne_nil _ _)).mp hl
      obtain ⟨-, q, rfl, hid⟩ := (splitOn_eq_cons '/' _ _ (List.cons_ne_nil _ _)).mp hq
      obtain ⟨hslash, q, rfl, rfl⟩ := (splitOn_eq_cons '/' _ _ h.ne_nil).mp hid
      obtain ⟨y, rfl, hy⟩ := (ends_collectionPage (by decide) q).mp h
      have hpath : Endpoint name _ := .collections (.inr (item_items hne hslash)) hy
      rwa [List.append_assoc, List.cons_append, List.append_assoc] at hpath
    | feature between hne hn hbetween h =>
      have hlast : between ++ _ ≠ [] := List.append_ne_nil_of_right_ne_nil between h.ne_nil
      obtain ⟨-, q, rfl, hq⟩ := (splitOn_eq_cons '/' _ _ (List.cons_ne_nil _ _)).mp hl
      obtain ⟨-, q, rfl, hid⟩ := (splitOn_eq_cons '/' _ _ (List.cons_ne_nil _ _)).mp hq
      obtain ⟨hslash, q, rfl, hrest⟩ := (splitOn_eq_cons '/' _ _ hlast).mp hid
      rcases hbetween with rfl | rfl
      · obtain ⟨y, rfl, hy⟩ := (ends_collectionPage (number_slash hn.2) q).mp (hrest ▸ h)
        have hpath : Endpoint name _ := .collections (.inr (item_feature hne hslash (.inl rfl) hn)) hy
        rwa [List.append_nil, List.append_assoc, List.cons_append, List.append_assoc] at hpath
      · obtain ⟨-, q, rfl, rfl⟩ := (splitOn_eq_cons '/' _ _ h.ne_nil).mp hrest
        obtain ⟨y, rfl, hy⟩ := (ends_collectionPage (number_slash hn.2) q).mp h
        have hpath : Endpoint name _ := .collections (.inr (item_feature hne hslash (.inr rfl) hn)) hy
        rwa [List.append_assoc, List.cons_append, List.append_assoc, List.append_assoc] at hpath

theorem Wfs3Root.slash (hname : Wfs3Root name) : '/' ∉ name := by
  rcases hname with rfl | rfl
  · decide
  · decide

theorem compile_root (hname : Wfs3Root name) :
    compile ('/' :: name ++ pageEnd.toList) = some (seqs (('/' :: name).map char ++ [endRegex])) := by
  rcases hname with rfl | rfl
  · rfl
  · rfl

theorem compile_conformance (hname : Wfs3Root name) : compile ('/' :: name ++ ("/conformance" ++ pageEnd).toList) =
    some (seqs (('/' :: (name ++ "/conformance".toList)).map char ++ [endRegex])) := by
  rcases hname with rfl | rfl
  · rfl
  · rfl

theorem compile_api (hname : Wfs3Root name) : compile ('/' :: name ++ ("/api" ++ pageEnd).toList) =
    some (seqs (('/' :: (name ++ "/api".toList)).map char ++ [endRegex])) := by
  rcases hname with rfl | rfl
  · rfl
  · rfl

theorem compile_static (hname : Wfs3Root name) : compile ('/' :: name ++ "/static/.*".toList) =
    some (seqs (('/' :: (name ++ "/static/".toList)).map char ++ [.star Regex.dot])) := by
  rcases hname with rfl | rfl
  · rfl
  · rfl

theorem compile_collections (hname : Wfs3Root name) :
    compile ('/' :: name ++ ("/collections(?:/[^/]+(?:/items)?(?:/[0-9]+)?)?" ++ collectionEnd).toList) =
      some (seqs (('/' :: (name ++ "/collections".toList)).map char ++ [opt itemRegex, collectionEndRegex])) := by
  rcases hname with rfl | rfl
  · rfl
  · rfl

theorem denotes_wfs3 (hname : Wfs3Root name) {path : Str} (hpath : '\n' ∉ path) :
    (∃ endpoint ∈ wfs3ApiEndpoints, Denotes ('/' :: name ++ endpoint.toList) path) ↔
      ∃ q, path = '/' :: q ∧ Endpoint name q := by
  simp only [wfs3ApiEndpoints, List.mem_cons, List.not_mem_nil, or_false, exists_eq_or_imp, exists_eq_left,
    denotes_one (compile_root hname), denotes_two (compile_collections hname), denotes_one (compile_conformance hname),
    denotes_one (compile_api hname), denotes_one (compile_static hname), Regex.mem_opt, Regex.mem_star_dot]
  constructor
  · rintro (⟨y, rfl, hy⟩ | ⟨m, y, rfl, hm, hy⟩ | ⟨y, rfl, hy⟩ | ⟨y, rfl, hy⟩ | ⟨y, rfl, -⟩)
    · exact ⟨name ++ y, rfl, .root hy⟩
    · exact ⟨name ++ '/' :: ("collections".toList ++ m ++ y), by simp, .collections hm.symm hy⟩
    · exact ⟨name ++ '/' :: ("conformance".toList ++ y), by simp, .page (.inl rfl) hy⟩
    · exact ⟨name ++ '/' :: ("api".toList ++ y), by simp, .page (.inr rfl) hy⟩
    · exact ⟨name ++ '/' :: ("static".toList ++ '/' :: y), by simp, .static y⟩
  · rintro ⟨q, rfl, hq⟩
    cases hq with
    | root hy => exact .inl ⟨_, rfl, hy⟩
    | page hword hy =>
      rcases hword with rfl | rfl
      · exact .inr (.inr (.inl ⟨_, by simp, hy⟩))
      · exact .inr (.inr (.inr (.inl ⟨_, by simp, hy⟩)))
    | static y =>
      refine .inr (.inr (.inr (.inr ⟨y, by simp, fun hmem => hpath ?_⟩)))
      simp [hmem]
    | collections hm hy => exact .inr (.inl ⟨_, _, by simp, hm.symm, hy⟩)

end wfs3

end Runtime
