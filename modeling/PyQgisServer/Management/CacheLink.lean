import PyQgisServer.Cache.Observer
import PyQgisServer.Handlers.Arguments
import PyQgisServer.Library.Urllib.PathArgument

namespace Management

open Urllib Handlers CacheObserver

structure HTTPRequest where
  protocol : Str
  host : Str
  plainProtocol : ':' ∉ protocol
  plainHost : '/' ∉ host

section link

variable (key : Str) (req : HTTPRequest)

def getCacheLink : Str :=
  if key.head? = some '/' then
    req.protocol ++ "://".toList ++ req.host ++ "/cache/content/?MAP=".toList ++ quotePlus (encode key)
  else req.protocol ++ "://".toList ++ req.host ++ "/cache/content/".toList ++ quotePlus (encode key)

def requestTarget (url : Str) : Str := ((url.dropWhile (· ≠ ':')).drop 3).dropWhile (· ≠ '/')

def requestPath (url : Str) : Str := before '?' (requestTarget url)

def requestQuery (url : Str) : Str := after '?' (requestTarget url)

end link

section routes

-- the path arguments as they stand in the path
inductive Route where
  | root
  | status
  | restart
  | report
  | cache (key : Option Str)
  | qgis
  | notFound
  deriving DecidableEq

def literal (paths : List String) (route : Route) (path : Str) : Option Route :=
  if path ∈ paths.map String.toList then some route else none

def below (start : String) (route : Str → Route) (path : Str) : Option Route :=
  if start.toList.isPrefixOf path ∧ path ≠ start.toList then some (route (path.drop start.toList.length)) else none

-- in the order of their registration; no path has a line break
def configureHandlers : List (Str → Option Route) :=
  [literal ["/"] .root,
   fun path => (literal ["/status"] .status path).or (below "/status" (fun _ => .status) path),
   literal ["/pool/restart"] .restart,
   literal ["/pool", "/pool/"] .report,
   below "/cache/content/" fun key => .cache (some key),
   literal ["/cache", "/cache/"] (.cache none),
   below "/" fun _ => .qgis]

def route (path : Str) : Route := (configureHandlers.findSome? (· path)).getD .notFound

end routes

section cacheHandler

-- none for the status 400
inductive Answer where
  | badRequest
  | collection
  | notInCache (key : Str)
  | delegated (key : Str)
  | elsewhere (route : Route)

variable (t : Texts) (arguments : Str → Arguments) (observer : Server)

-- the key that get works with: the path argument, decoded, or the argument MAP of the query
def cacheKey (key : Option Str) (args : Arguments) : Option (Option Str) :=
  match key with
  | none => getArgument t (OAPIHandler.prepare t args) mapName
  | some key =>
    (decodePathArgument key).bind fun key =>
      if key = [] then getArgument t (OAPIHandler.prepare t args) mapName else some (some key)

def cacheGet (key : Option Str) (args : Arguments) : Answer :=
  match cacheKey t key args with
  | none => .badRequest
  | some none => .collection
  | some (some key) =>
    if key = [] then .collection
    else if (observer.find key).isNone then .notInCache key
    else .delegated key

def follow (url : Str) : Answer :=
  match route (requestPath url) with
  | .cache key => cacheGet t observer key (arguments (requestQuery url))
  | r => .elsewhere r

end cacheHandler

section leadsBack

variable (t : Texts) (arguments : Str → Arguments) (key : Str) (req : HTTPRequest)

structure LeadsBack : Prop where
  same : ∃ k, route (requestPath (getCacheLink key req)) = .cache k ∧
    cacheKey t k (arguments (requestQuery (getCacheLink key req))) = some (some key)
  found : ∀ observer : Server, (observer.find key).isSome = true →
    follow t arguments observer (getCacheLink key req) = .delegated key

theorem requestTarget_link (target : Str) (h : target.head? = some '/') :
    requestTarget (req.protocol ++ "://".toList ++ req.host ++ target) = target := by
  obtain ⟨rest, rfl⟩ : ∃ rest, target = '/' :: rest := List.head?_eq_some_iff.mp h
  have hprotocol : (req.protocol ++ "://".toList ++ req.host ++ '/' :: rest).dropWhile (· ≠ ':') =
      "://".toList ++ (req.host ++ '/' :: rest) := by
    rw [List.append_assoc, List.append_assoc, List.dropWhile_append_of_pos]
    · rfl
    · intro c hc
      simpa using (fun heq => req.plainProtocol (heq ▸ hc) : ¬ c = ':')
  rw [requestTarget, hprotocol]
  change (req.host ++ '/' :: rest).dropWhile _ = _
  rw [List.dropWhile_append_of_pos]
  · rfl
  · intro c hc
    simpa using (fun heq => req.plainHost (heq ▸ hc) : ¬ c = '/')

theorem literal_of_longer {paths : List String} {path : Str} (r : Route)
    (h : ∀ p ∈ paths, p.toList.length < path.length) : literal paths r path = none := by
  refine if_neg ?_
  rw [List.mem_map]
  rintro ⟨p, hp, rfl⟩
  exact lt_irrefl _ (h p hp)

theorem below_append (start : String) (f : Str → Route) (q : Str) :
    below start f (start.toList ++ q) = if q = [] then none else some (f q) := by
  rw [below, List.drop_left]
  by_cases hq : q = []
  · rw [if_pos hq, if_neg (fun h => h.2 (by rw [hq, List.append_nil]))]
  · rw [if_neg hq, if_pos]
    exact ⟨List.isPrefixOf_iff_prefix.mpr (List.prefix_append _ _), fun h => hq (List.append_right_eq_self.mp h)⟩

theorem route_content (q : Str) : route ("/cache/content/".toList ++ q) = if q = [] then .qgis else .cache (some q) := by
  have hliteral : ∀ paths r, (∀ p ∈ paths, p.toList.length < 15) →
      literal paths r ("/cache/content/".toList ++ q) = none := by
    intro paths r h
    refine literal_of_longer r fun p hp => ?_
    rw [List.length_append]
    exact Nat.lt_add_right _ (h p hp)
  have hstatus : below "/status" (fun _ => .status) ("/cache/content/".toList ++ q) = none := rfl
  cases q with
  | nil => decide
  | cons c q =>
    rw [route, configureHandlers]
    simp only [List.findSome?_cons, hstatus, below_append, reduceCtorEq, if_false]
    rw [hliteral _ _ (by decide), hliteral _ _ (by decide), hliteral _ _ (by decide), hliteral _ _ (by decide)]
    rfl

theorem getCacheLink_absolute (h : key.head? = some '/') :
    requestPath (getCacheLink key req) = "/cache/content/".toList := by
  rw [getCacheLink, if_pos h, List.append_assoc, requestPath, requestTarget_link req _ rfl]
  rfl

theorem getCacheLink_relative (h : key.head? ≠ some '/') :
    requestPath (getCacheLink key req) = "/cache/content/".toList ++ quotePlus (encode key) := by
  rw [getCacheLink, if_neg h, List.append_assoc, requestPath, requestTarget_link req _ rfl]
  refine before_eq_self fun hmem => ?_
  rcases List.mem_append.mp hmem with hpath | hquoted
  · exact absurd hpath (by decide)
  · exact notMem_quotePlus (by decide) (by decide) (by decide) _ hquoted

theorem quotePlus_eq_nil (s : Str) : quotePlus (encode s) = [] ↔ s = [] := by
  constructor
  · intro h
    have hback := unquotePlus_quotePlus (encode s)
    rw [h, decodeBytes_encode] at hback
    exact hback.symm
  · rintro rfl
    rfl

theorem leadsBack_iff : LeadsBack t arguments key req ↔ key ≠ [] ∧ key.head? ≠ some '/' ∧ ' ' ∉ key := by
  by_cases habs : key.head? = some '/'
  · refine iff_of_false ?_ (fun h => h.2.1 habs)
    rintro ⟨⟨k, hk, -⟩, -⟩
    have hqgis : route "/cache/content/".toList = .qgis := by decide
    rw [getCacheLink_absolute key req habs, hqgis] at hk
    cases hk
  · have hroute : route (requestPath (getCacheLink key req)) =
        if quotePlus (encode key) = [] then .qgis else .cache (some (quotePlus (encode key))) := by
      rw [getCacheLink_relative key req habs, route_content]
    by_cases hempty : key = []
    · refine iff_of_false ?_ (fun h => h.1 hempty)
      rintro ⟨⟨k, hk, -⟩, -⟩
      rw [hroute, if_pos ((quotePlus_eq_nil key).mpr hempty)] at hk
      cases hk
    · rw [if_neg (mt (quotePlus_eq_nil key).mp hempty)] at hroute
      have hkey : ∀ args, cacheKey t (some (quotePlus (encode key))) args = some (some (spaceToPlus key)) := by
        intro args
        have hne : spaceToPlus key ≠ [] := by simpa [spaceToPlus] using hempty
        rw [cacheKey, decodePathArgument_quotePlus]
        exact if_neg hne
      constructor
      · rintro ⟨⟨k, hk, hsame⟩, -⟩
        obtain rfl := Route.cache.inj (hk.symm.trans hroute)
        rw [hkey] at hsame
        exact ⟨hempty, habs, (spaceToPlus_eq_iff key).mp (Option.some.inj (Option.some.inj hsame))⟩
      · rintro ⟨-, -, hspace⟩
        have hsame := (spaceToPlus_eq_iff key).mpr hspace
        rw [hsame] at hkey
        refine ⟨⟨_, hroute, hkey _⟩, fun observer hfind => ?_⟩
        rw [follow, hroute]
        simp only [cacheGet, hkey, if_neg hempty]
        rw [if_neg]
        simpa [Option.isSome_iff_ne_none] using hfind

theorem absolute_link (h : key.head? = some '/') :
    formPairs (requestQuery (getCacheLink key req)) = [(mapName, key)] ∧
      ∀ observer, follow t arguments observer (getCacheLink key req) = .elsewhere .qgis := by
  constructor
  · have hname : quotePlus (encode mapName) = "MAP".toList := by decide
    have hquery : requestQuery (getCacheLink key req) = urlencode [(mapName, encode key)] := by
      rw [getCacheLink, if_pos h, List.append_assoc, requestQuery, requestTarget_link req _ rfl, urlencode,
        List.map_singleton, List.intercalate_singleton, hname]
      rfl
    rw [hquery, formPairs_urlencode, List.map_singleton, decodeBytes_encode]
  · intro observer
    rw [follow, getCacheLink_absolute key req h]
    rfl

end leadsBack

def spacedKey : Str := "my project".toList

def localRequest : HTTPRequest := ⟨"http".toList, "localhost:19876".toList, by decide, by decide⟩

theorem spaced_key_lost :
    ¬ ∀ (t : Texts) (arguments : Str → Arguments) (key : Str) (req : HTTPRequest), LeadsBack t arguments key req := by
  intro h
  obtain ⟨-, -, hspace⟩ := (leadsBack_iff plainTexts (fun _ => .empty) spacedKey localRequest).mp
    (h plainTexts (fun _ => .empty) spacedKey localRequest)
  exact absurd hspace (by decide)

end Management
