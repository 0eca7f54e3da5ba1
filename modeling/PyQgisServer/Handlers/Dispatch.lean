import PyQgisServer.Handlers.Middleware
import PyQgisServer.Handlers.Routes

namespace Runtime

open Urllib (Str)
open Regex (seqs opt char)
open RegexMatch (First Denotes compile denotes_none denotes_one)
open Routing (Router plainRouter plainRouter_documented)

section routed

inductive Served (statusPage : Bool) (path : Str) : Handler → Prop
  | landingPage (h : path = "/".toList) : Served statusPage path .landingPage
  | ping (h : path = "/ping".toList) : Served statusPage path .pingHandler
  | status (hpage : statusPage = true) (h : "/status".toList <+: path) : Served statusPage path .statusHandler
  | ows (h : path = "/ows".toList ∨ path = "/ows/".toList) : Served statusPage path .owsHandler
  | wfs3 {name q : Str} (hname : Wfs3Root name) (hq : path = '/' :: q) (h : Resource name (q.splitOn '/')) :
      Served statusPage path wfs3

variable {statusPage : Bool} {path : Str} {handler : Handler}

theorem denotes_ows : Denotes "/ows/?".toList path ↔ path = "/ows".toList ∨ path = "/ows/".toList :=
  RegexMatch.denotes_slash rfl

theorem denotes_status (hpath : '\n' ∉ path) : Denotes "/status/?.*".toList path ↔ "/status".toList <+: path :=
  RegexMatch.denotes_prefix rfl hpath

theorem denotes_root {root : String} {name : Str} (hroot : root.toList = '/' :: name) (endpoint : String) :
    Denotes (root ++ endpoint).toList path ↔ Denotes ('/' :: name ++ endpoint.toList) path := by
  rw [String.toList_append, hroot]

theorem wfs3_served (root : String) {name : Str} (hroot : root.toList = '/' :: name) (hname : Wfs3Root name)
    (hpath : '\n' ∉ path) {endpoint : String} (hendpoint : endpoint ∈ wfs3ApiEndpoints)
    (h : Denotes (root ++ endpoint).toList path) : Served statusPage path wfs3 := by
  obtain ⟨q, hq, hresource⟩ := (denotes_wfs3 hname hpath).mp ⟨endpoint, hendpoint, (denotes_root hroot endpoint).mp h⟩
  exact .wfs3 hname hq ((endpoint_iff hname.slash q).mp hresource)

theorem served_wfs3 (root : String) {name q : Str} (hroot : root.toList = '/' :: name) (hname : Wfs3Root name)
    (hpath : '\n' ∉ path) (hq : path = '/' :: q) (h : Resource name (q.splitOn '/')) :
    ∃ endpoint ∈ wfs3ApiEndpoints, Denotes (root ++ endpoint).toList path := by
  obtain ⟨endpoint, hendpoint, hdenotes⟩ := (denotes_wfs3 hname hpath).mpr ⟨q, hq, (endpoint_iff hname.slash q).mpr h⟩
  exact ⟨endpoint, hendpoint, (denotes_root hroot endpoint).mpr hdenotes⟩

theorem mem_ownHandlers {x : String × Handler} : x ∈ ownHandlers statusPage ↔
    x = ("/", .landingPage) ∨ x = ("/ping", .pingHandler) ∨ (statusPage = true ∧ x = ("/status/?.*", .statusHandler)) ∨
      x = ("/ows/?", .owsHandler) ∨
      ∃ endpoint ∈ wfs3ApiEndpoints, x = ("/ogcapi" ++ endpoint, wfs3) ∨ x = ("/wfs3" ++ endpoint, wfs3) := by
  cases statusPage <;> simp [ownHandlers]

theorem served_iff (hpath : '\n' ∉ path) :
    Served statusPage path handler ↔ ∃ x ∈ ownHandlers statusPage, Denotes x.1.toList path ∧ x.2 = handler := by
  constructor
  · intro h
    cases h with
    | landingPage h => exact ⟨_, mem_ownHandlers.mpr (.inl rfl), (denotes_none ['/'] rfl).mpr h, rfl⟩
    | ping h => exact ⟨_, mem_ownHandlers.mpr (.inr (.inl rfl)), (denotes_none "/ping".toList rfl).mpr h, rfl⟩
    | status hpage h =>
      exact ⟨_, mem_ownHandlers.mpr (.inr (.inr (.inl ⟨hpage, rfl⟩))), (denotes_status hpath).mpr h, rfl⟩
    | ows h => exact ⟨_, mem_ownHandlers.mpr (.inr (.inr (.inr (.inl rfl)))), denotes_ows.mpr h, rfl⟩
    | wfs3 hname hq h =>
      rcases hname with rfl | rfl
      · obtain ⟨endpoint, hendpoint, hdenotes⟩ := served_wfs3 "/ogcapi" rfl (.inl rfl) hpath hq h
        exact ⟨_, mem_ownHandlers.mpr (.inr (.inr (.inr (.inr ⟨endpoint, hendpoint, .inl rfl⟩)))), hdenotes, rfl⟩
      · obtain ⟨endpoint, hendpoint, hdenotes⟩ := served_wfs3 "/wfs3" rfl (.inr rfl) hpath hq h
        exact ⟨_, mem_ownHandlers.mpr (.inr (.inr (.inr (.inr ⟨endpoint, hendpoint, .inr rfl⟩)))), hdenotes, rfl⟩
  · rintro ⟨x, hx, hdenotes, rfl⟩
    rcases mem_ownHandlers.mp hx with rfl | rfl | ⟨hpage, rfl⟩ | rfl | ⟨endpoint, hendpoint, rfl | rfl⟩
    · exact .landingPage ((denotes_none ['/'] rfl).mp hdenotes)
    · exact .ping ((denotes_none "/ping".toList rfl).mp hdenotes)
    · exact .status hpage ((denotes_status hpath).mp hdenotes)
    · exact .ows (denotes_ows.mp hdenotes)
    · exact wfs3_served "/ogcapi" rfl (.inl rfl) hpath hendpoint hdenotes
    · exact wfs3_served "/wfs3" rfl (.inr rfl) hpath hendpoint hdenotes

def fromStart (start : Str) : Handler :=
  if start = "/".toList then .landingPage
  else if start = "/pi".toList then .pingHandler
  else if start = "/st".toList then .statusHandler
  else if start = "/ow".toList then .owsHandler
  else wfs3

theorem Endpoint.below_root {name q : Str} (h : Endpoint name q) : name <+: q := by
  cases h with
  | root hy => exact List.prefix_append _ _
  | page hword hy => exact List.prefix_append _ _
  | static y => exact List.prefix_append _ _
  | collections hm hy => exact List.prefix_append _ _

theorem Served.start (h : Served statusPage path handler) : handler = fromStart (path.take 3) := by
  cases h with
  | landingPage h => rw [h]; rfl
  | ping h => rw [h]; rfl
  | status hpage h =>
    obtain ⟨y, rfl⟩ := h
    rfl
  | ows h => rcases h with rfl | rfl <;> rfl
  | wfs3 hname hq h =>
    obtain ⟨y, rfl⟩ := ((endpoint_iff hname.slash _).mpr h).below_root
    rw [hq]
    rcases hname with rfl | rfl <;> rfl

def belowEndpoint (path : Str) (x : Str × Str) : Bool := ('/' :: stripSlash x.2 ++ ['/']).isPrefixOf path

inductive Routed (cfg : Config) (path : Str) : Handler → Prop
  | own {handler : Handler} (h : Served cfg.statusPage path handler) : Routed cfg path handler
  | api {x : Str × Str} (hown : ∀ handler, ¬ Served cfg.statusPage path handler)
      (h : (qgisApiEndpoints cfg).find? (belowEndpoint path) = some x) : Routed cfg path (.oapiHandler x.1)
  | notFound (hown : ∀ handler, ¬ Served cfg.statusPage path handler)
      (h : (qgisApiEndpoints cfg).find? (belowEndpoint path) = none) : Routed cfg path .notFoundHandler

variable {cfg : Config} {other : Handler}

theorem Routed.unique (h : Routed cfg path handler) (hother : Routed cfg path other) : handler = other := by
  cases h with
  | own h =>
    cases hother with
    | own hother => rw [h.start, hother.start]
    | api hown hother => exact absurd h (hown _)
    | notFound hown hother => exact absurd h (hown _)
  | api hown h =>
    cases hother with
    | own hother => exact absurd hother (hown _)
    | api _ hother =>
      obtain rfl := Option.some.inj (h.symm.trans hother)
      rfl
    | notFound _ hother => rw [hother] at h; cases h
  | notFound hown h =>
    cases hother with
    | own hother => exact absurd hother (hown _)
    | api _ hother => rw [hother] at h; cases h
    | notFound _ hother => rfl

def PlainEndpoints (cfg : Config) : Prop := ∀ x ∈ qgisApiEndpoints cfg, Regex.Plain x.2

theorem compile_api_handler {endpoint : Str} (h : Regex.Plain endpoint) :
    compile ('/' :: stripSlash endpoint ++ "/.*".toList) =
      some (seqs (('/' :: stripSlash endpoint ++ ['/']).map char ++ [.star Regex.dot])) := by
  have hplain : Regex.Plain ('/' :: stripSlash endpoint ++ ['/']) := by
    intro c hc
    rcases List.mem_append.mp hc with hc | hc
    · rcases List.mem_cons.mp hc with rfl | hc
      · decide
      · exact h c (PyStr.mem_of_mem_strip hc)
    · obtain rfl := List.mem_singleton.mp hc
      decide
  have htext : '/' :: stripSlash endpoint ++ "/.*".toList = '/' :: stripSlash endpoint ++ ['/'] ++ ['.', '*'] := by
    rw [List.append_assoc]
    rfl
  rw [compile, htext, Regex.parse_plain hplain]

theorem denotes_api {x : Str × Str} (hpath : '\n' ∉ path) (h : Regex.Plain x.2) :
    Denotes ('/' :: stripSlash x.2 ++ "/.*".toList) path ↔ belowEndpoint path x = true := by
  rw [denotes_one (compile_api_handler h), belowEndpoint, List.isPrefixOf_iff_prefix]
  simp only [Regex.mem_star_dot]
  constructor
  · rintro ⟨y, rfl, -⟩
    exact List.prefix_append _ _
  · rintro ⟨y, rfl⟩
    exact ⟨y, rfl, fun hmem => hpath (List.mem_append_right _ hmem)⟩

theorem first_api (hpath : '\n' ∉ path) {endpoints : List (Str × Str)} (hplain : ∀ x ∈ endpoints, Regex.Plain x.2)
    {found : Option Handler} (h : First (Denotes · path) (apiHandlers endpoints) found) :
    found = (endpoints.find? (belowEndpoint path)).map fun x => .oapiHandler x.1 := by
  induction endpoints with
  | nil =>
    cases h
    rfl
  | cons x endpoints ih =>
    obtain ⟨hx, hplain⟩ := List.forall_mem_cons.mp hplain
    rw [List.find?_cons]
    cases h with
    | here hdenotes =>
      rw [(denotes_api hpath hx).mp hdenotes]
      rfl
    | later hnot hrest =>
      rw [Bool.eq_false_iff.mpr fun hbelow => hnot ((denotes_api hpath hx).mpr hbelow)]
      exact ih hplain hrest

theorem own_compile (statusPage : Bool) : ∀ x ∈ ownHandlers statusPage, (compile x.1.toList).isSome = true := by
  cases statusPage <;> decide

theorem configureHandlers_compile (hplain : PlainEndpoints cfg) :
    ∀ x ∈ configureHandlers cfg, (compile x.1).isSome = true := by
  intro x hx
  rcases List.mem_append.mp hx with hx | hx
  · obtain ⟨y, hy, rfl⟩ := List.mem_map.mp hx
    exact own_compile cfg.statusPage y hy
  · obtain ⟨y, hy, rfl⟩ := List.mem_map.mp hx
    exact Option.isSome_iff_exists.mpr ⟨_, compile_api_handler (hplain y hy)⟩

theorem findHandler_routed {t : Router Handler} (ht : t.Documented) (hplain : PlainEndpoints cfg) (hpath : '\n' ∉ path) :
    Routed cfg path (findHandler t cfg path) := by
  obtain ⟨found, hfirst, hfound⟩ := ht.denotes (configureHandlers_compile hplain) .notFoundHandler hpath
  rw [findHandler, hfound]
  rcases hfirst.append with ⟨x, hx, hdenotes, heq⟩ | ⟨hown, hrest⟩
  · obtain ⟨y, hy, rfl⟩ := List.mem_map.mp hx
    rw [← heq]
    exact .own ((served_iff hpath).mpr ⟨y, hy, hdenotes, rfl⟩)
  · have hnone (handler : Handler) : ¬ Served cfg.statusPage path handler := by
      intro h
      obtain ⟨x, hx, hdenotes, -⟩ := (served_iff hpath).mp h
      exact hown _ (List.mem_map_of_mem hx) hdenotes
    rw [first_api hpath hplain hrest]
    cases hfind : (qgisApiEndpoints cfg).find? (belowEndpoint path) with
    | none => exact .notFound hnone hfind
    | some x => exact .api hnone hfind

end routed

section dispatch

open Middleware (HTTPRequest FilterBase Policy Passed loadAccessPolicies)

variable {D : Type}

inductive Delegate (D : Type) where
  | handler (h : Handler) (request : HTTPRequest D)
  | error (statusCode : ℕ) (reason : Option String) (request : HTTPRequest D)

variable (t : Router Handler) (cfg : Config)

def Application.findHandler (request : HTTPRequest D) : Delegate D :=
  .handler (Runtime.findHandler t cfg request.path.toList) request

def MiddleWareRouter.findHandler (policies : List (Policy D)) (request : HTTPRequest D) : Option (Delegate D) :=
  (Middleware.findHandler request policies).1.map fun h =>
    match h with
    | .app request => Application.findHandler t cfg request
    | .error statusCode reason request => .error statusCode reason request

-- initialize_middleware
def router (enableFilters : Bool) (added : List (List (Option (FilterBase D)) × ℤ)) (request : HTTPRequest D) :
    Option (Delegate D) :=
  if enableFilters then MiddleWareRouter.findHandler t cfg (loadAccessPolicies added) request
  else some (Application.findHandler t cfg request)

def accessPolicies (enableFilters : Bool) (added : List (List (Option (FilterBase D)) × ℤ)) : List (Policy D) :=
  if enableFilters then loadAccessPolicies added else []

theorem app_iff {policies : List (Policy D)} {request final : HTTPRequest D} :
    (Middleware.findHandler request policies).1 = some (.app final) ↔ ∃ log, Passed policies request log final := by
  constructor
  · exact fun h => ⟨_, (Middleware.findHandler_guarded policies request).app final h⟩
  · rintro ⟨log, h⟩
    have hfound := h.findHandler []
    rw [List.append_nil] at hfound
    rw [hfound]
    rfl

variable {t : Router Handler} {cfg : Config}

theorem middleware_handler_iff {policies : List (Policy D)} {request final : HTTPRequest D} {handler : Handler} :
    MiddleWareRouter.findHandler t cfg policies request = some (.handler handler final) ↔
      (∃ log, Passed policies request log final) ∧ Runtime.findHandler t cfg final.path.toList = handler := by
  rw [MiddleWareRouter.findHandler, Option.map_eq_some_iff, ← app_iff]
  constructor
  · rintro ⟨h, hfound, hdelegate⟩
    cases h with
    | app request =>
      obtain ⟨hhandler, rfl⟩ := Delegate.handler.inj hdelegate
      exact ⟨hfound, hhandler⟩
    | error statusCode reason request => cases hdelegate
  · rintro ⟨hfound, rfl⟩
    exact ⟨_, hfound, rfl⟩

theorem router_handler_iff {enableFilters : Bool} {added : List (List (Option (FilterBase D)) × ℤ)}
    {request final : HTTPRequest D} {handler : Handler} :
    router t cfg enableFilters added request = some (.handler handler final) ↔
      (∃ log, Passed (accessPolicies enableFilters added) request log final) ∧
        Runtime.findHandler t cfg final.path.toList = handler := by
  cases enableFilters with
  | true => exact middleware_handler_iff
  | false =>
    have hiff : MiddleWareRouter.findHandler t cfg [] request = some (.handler handler final) ↔
        (∃ log, Passed [] request log final) ∧ Runtime.findHandler t cfg final.path.toList = handler :=
      middleware_handler_iff
    exact hiff

theorem requests_are_dispatched (t : Router Handler) (ht : t.Documented) (cfg : Config) (hplain : PlainEndpoints cfg)
    (enableFilters : Bool) (added : List (List (Option (FilterBase D)) × ℤ)) (request final : HTTPRequest D)
    (handler : Handler) (hpath : '\n' ∉ final.path.toList) :
    router t cfg enableFilters added request = some (.handler handler final) ↔
      (∃ log, Passed (accessPolicies enableFilters added) request log final) ∧
        Routed cfg final.path.toList handler := by
  have hrouted := findHandler_routed ht hplain hpath
  rw [router_handler_iff]
  refine and_congr_right fun _ => ⟨?_, fun h => hrouted.unique h⟩
  rintro rfl
  exact hrouted

def lizmapConfig : Config where
  statusPage := false
  endpoints := [("landing_page".toList, "/catalog".toList), ("lizmap_api".toList, "/lizmap".toList)]
  enabled := fun name => name == "lizmap_api".toList

theorem requests_are_dispatched_feature :
    router (plainRouter Handler) lizmapConfig false []
        (⟨"/wfs3/collections/lakes/items/12.json", ()⟩ : HTTPRequest Unit) =
      some (.handler wfs3 ⟨"/wfs3/collections/lakes/items/12.json", ()⟩) := by
  have hplain : PlainEndpoints lizmapConfig := by
    simp [PlainEndpoints, Regex.Plain, lizmapConfig, qgisApiEndpoints, Regex.special]
  have hsegments : "wfs3/collections/lakes/items/12.json".toList.splitOn '/' =
      ["wfs3".toList, "collections".toList, "lakes".toList, "items".toList, "12.json".toList] := by decide
  have hid : "lakes".toList ≠ [] := by decide
  have hnumber : "12".toList ≠ [] ∧ ∀ c ∈ "12".toList, c.isDigit = true := by simp
  have hends : Ends collectionPages "12".toList ["12.json".toList] := .inr ⟨".json".toList, by decide, rfl⟩
  have hitem : Resource "wfs3".toList ("wfs3/collections/lakes/items/12.json".toList.splitOn '/') :=
    hsegments ▸ .feature ["items".toList] hid hnumber (.inr rfl) hends
  exact (requests_are_dispatched (plainRouter Handler) (plainRouter_documented Handler) lizmapConfig hplain false [] _ _ _
    (by decide)).mpr ⟨⟨[], .nil _⟩, .own (.wfs3 (.inr rfl) rfl hitem)⟩

end dispatch

end Runtime
