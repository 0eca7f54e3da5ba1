import PyQgisServer.Library.RegexMatch

namespace Routing

open RegexMatch (Denotes First compile matchesText)

-- find_handler of a tornado Application: the handler for a path, out of its handlers and its default handler class
structure Router (H : Type) where
  findHandler : List (List Char × H) → H → List Char → H

-- the handlers are tried in the order of the list, a path against the pattern with a dollar at its end; the default
-- one is for the paths that none of them matches
structure Router.Documented {H : Type} (t : Router H) : Prop where
  first : ∀ handlers other path found, (∀ x ∈ handlers, (compile x.1).isSome = true) →
    First (matchesText · path = true) handlers found →
    t.findHandler handlers other path = found.getD other

section documented

variable {H : Type} {t : Router H}

theorem Router.Documented.denotes (ht : t.Documented) {handlers : List (List Char × H)}
    (hcompile : ∀ x ∈ handlers, (compile x.1).isSome = true) (other : H) {path : List Char} (hpath : '\n' ∉ path) :
    ∃ found, First (Denotes · path) handlers found ∧ t.findHandler handlers other path = found.getD other := by
  obtain ⟨found, hfirst⟩ := First.exists (matchesText · path = true) handlers
  exact ⟨found, hfirst.congr fun pattern => RegexMatch.matchesText_iff pattern hpath,
    ht.first handlers other path found hcompile hfirst⟩

end documented

def plainRouter (H : Type) : Router H where
  findHandler handlers other path := ((handlers.find? (matchesText ·.1 path)).map Prod.snd).getD other

theorem plainRouter_documented (H : Type) : (plainRouter H).Documented where
  first _ other _ _ _ hfirst := congrArg (fun found => found.getD other) hfirst.find?

end Routing
