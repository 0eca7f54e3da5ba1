import PyQgisServer.Handlers.Router
import PyQgisServer.Management.CacheLink

namespace Management

open Urllib (Str)
open Regex (seqs alts opt char)
open RegexMatch (Denotes First compile)
open Routing (Router)

section patterns

-- the patterns of the handlers, with the route that each one stands for
def patterns : List (String × (Str → Route)) :=
  [("/", fun _ => .root),
   ("/status/?.*", fun _ => .status),
   ("/pool/(restart)", fun _ => .restart),
   ("/pool/?", fun _ => .report),
   ("/cache/content/(?P<key>.+)", fun path => .cache (some (path.drop "/cache/content/".toList.length))),
   ("/cache/?", fun _ => .cache none),
   ("/.+", fun _ => .qgis)]

def handlers : List (Str × (Str → Route)) := patterns.map fun x => (x.1.toList, x.2)

variable {path : Str}

structure Agree (path : Str) (x : Str × (Str → Route)) (f : Str → Option Route) : Prop where
  yes : Denotes x.1 path → f path = some (x.2 path)
  no : ¬ Denotes x.1 path → f path = none

theorem first_agree {handlers : List (Str × (Str → Route))} {fs : List (Str → Option Route)}
    (h : List.Forall₂ (Agree path) handlers fs) {found : Option (Str → Route)}
    (hfirst : First (Denotes · path) handlers found) : found.map (· path) = fs.findSome? (· path) := by
  induction h generalizing found with
  | nil =>
    cases hfirst
    rfl
  | cons hx _ ih =>
    rw [List.findSome?_cons]
    cases hfirst with
    | here hdenotes =>
      rw [hx.yes hdenotes]
      rfl
    | later hnot hrest =>
      rw [hx.no hnot]
      exact ih hrest

theorem agree_literal {pattern : Str} {paths : List String} {route : Route}
    (h : Denotes pattern path ↔ path ∈ paths.map String.toList) :
    Agree path (pattern, fun _ => route) (literal paths route) :=
  ⟨fun hdenotes => if_pos (h.mp hdenotes), fun hnot => if_neg fun hmem => hnot (h.mpr hmem)⟩

theorem agree_below {pattern : Str} (start : String) (f : Str → Route)
    (h : Denotes pattern path ↔ ∃ y, path = start.toList ++ y ∧ y ≠ []) :
    Agree path (pattern, fun path => f (path.drop start.toList.length)) (below start f) := by
  have hiff : Denotes pattern path ↔ start.toList.isPrefixOf path = true ∧ path ≠ start.toList := by
    rw [h, List.isPrefixOf_iff_prefix]
    constructor
    · rintro ⟨y, rfl, hy⟩
      exact ⟨List.prefix_append _ _, fun heq => hy (List.append_right_eq_self.mp heq)⟩
    · rintro ⟨⟨y, rfl⟩, hne⟩
      exact ⟨y, rfl, fun hy => hne (by rw [hy, List.append_nil])⟩
  exact ⟨fun hdenotes => if_pos (hiff.mp hdenotes), fun hnot => if_neg fun hmem => hnot (hiff.mpr hmem)⟩

theorem agree_slash {pattern : Str} {paths : List String} {route : Route} (word : Str)
    (hcompile : compile pattern = some (seqs (word.map char ++ [opt (char '/')])))
    (hpaths : paths.map String.toList = [word, word ++ ['/']]) :
    Agree path (pattern, fun _ => route) (literal paths route) := by
  refine agree_literal ?_
  rw [RegexMatch.denotes_slash hcompile, hpaths]
  simp

theorem agree_status (hpath : '\n' ∉ path) : Agree path ("/status/?.*".toList, fun _ => Route.status)
    fun path => (literal ["/status"] .status path).or (below "/status" (fun _ => .status) path) := by
  have hstatus : Denotes "/status/?.*".toList path ↔ "/status".toList <+: path := RegexMatch.denotes_prefix rfl hpath
  have hliteral (heq : path = "/status".toList) : literal ["/status"] .status path = some .status :=
    if_pos (List.mem_singleton.mpr heq)
  have hother (hne : path ≠ "/status".toList) : literal ["/status"] .status path = none :=
    if_neg fun hmem => hne (List.mem_singleton.mp hmem)
  constructor
  · intro hdenotes
    by_cases heq : path = "/status".toList
    · simp only [hliteral heq, Option.some_or]
    · have hbelow : below "/status" (fun _ => .status) path = some .status :=
        if_pos ⟨List.isPrefixOf_iff_prefix.mpr (hstatus.mp hdenotes), heq⟩
      simp only [hother heq, hbelow, Option.none_or]
  · intro hnot
    have hne : path ≠ "/status".toList := fun heq => hnot (hstatus.mpr (heq ▸ List.prefix_rfl))
    have hbelow : below "/status" (fun _ => .status) path = none :=
      if_neg fun h => hnot (hstatus.mpr (List.isPrefixOf_iff_prefix.mp h.1))
    simp only [hother hne, hbelow, Option.none_or]

theorem agree_restart :
    Agree path ("/pool/(restart)".toList, fun _ => Route.restart) (literal ["/pool/restart"] .restart) := by
  have hcompile : compile "/pool/(restart)".toList =
      some (seqs ("/pool/".toList.map char ++ [alts [seqs ("restart".toList.map char)]])) := rfl
  refine agree_literal ?_
  simp only [RegexMatch.denotes_one hcompile, Regex.mem_alts, List.mem_singleton, exists_eq_left, Regex.mem_word,
    exists_eq_right]
  exact List.mem_singleton.symm

theorem agree_content (hpath : '\n' ∉ path) : Agree path
    ("/cache/content/(?P<key>.+)".toList, fun path => .cache (some (path.drop "/cache/content/".toList.length)))
    (below "/cache/content/" fun key => .cache (some key)) := by
  have hcompile : compile "/cache/content/(?P<key>.+)".toList =
      some (seqs ("/cache/content/".toList.map char ++ [alts [seqs [.plus Regex.dot]]])) := rfl
  refine agree_below "/cache/content/" (fun key => .cache (some key)) ?_
  simp only [RegexMatch.denotes_one hcompile, Regex.mem_alts, List.mem_singleton, exists_eq_left,
    Regex.mem_seqs_singleton, Regex.mem_plus_dot]
  refine exists_congr fun y => and_congr_right fun heq => and_iff_left fun hmem => hpath ?_
  rw [heq]
  exact List.mem_append_right _ hmem

theorem agree_qgis (hpath : '\n' ∉ path) :
    Agree path ("/.+".toList, fun _ => Route.qgis) (below "/" fun _ => .qgis) := by
  have hcompile : compile "/.+".toList = some (seqs ("/".toList.map char ++ [.plus Regex.dot])) := rfl
  refine agree_below "/" (fun _ => .qgis) ?_
  simp only [RegexMatch.denotes_one hcompile, Regex.mem_plus_dot]
  refine exists_congr fun y => and_congr_right fun heq => and_iff_left fun hmem => hpath ?_
  rw [heq]
  exact List.mem_append_right _ hmem

theorem route_patterns (t : Router (Str → Route)) (ht : t.Documented) (path : Str) (hpath : '\n' ∉ path) :
    t.findHandler handlers (fun _ => .notFound) path path = route path := by
  have hcompile : ∀ x ∈ handlers, (compile x.1).isSome = true := by
    intro x hx
    obtain ⟨y, hy, rfl⟩ := List.mem_map.mp hx
    have hall : ∀ p ∈ patterns.map Prod.fst, (compile p.toList).isSome = true := by decide
    exact hall _ (List.mem_map_of_mem hy)
  have hroot : Agree path ("/".toList, fun _ => Route.root) (literal ["/"] .root) :=
    agree_literal ((RegexMatch.denotes_none "/".toList rfl).trans List.mem_singleton.symm)
  have hagree : List.Forall₂ (Agree path) handlers configureHandlers :=
    .cons hroot (.cons (agree_status hpath) (.cons agree_restart (.cons (agree_slash "/pool".toList rfl rfl)
      (.cons (agree_content hpath) (.cons (agree_slash "/cache".toList rfl rfl) (.cons (agree_qgis hpath) .nil))))))
  obtain ⟨found, hfirst, hfound⟩ := ht.denotes hcompile (fun _ => Route.notFound) hpath
  rw [hfound, route, ← first_agree hagree hfirst]
  cases found with
  | none => rfl
  | some route => rfl

end patterns

end Management
