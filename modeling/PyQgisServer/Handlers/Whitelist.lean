import PyQgisServer.Library.PyDict
import PyQgisServer.Qgis.Survival

namespace Handlers

open Zmq

def split (c : Char) (s : String) : List String := (s.toList.splitOn c).map String.ofList

-- the section server; upper is str.upper
structure ServerConfig where
  allowHeaders : String
  debugRequestId : Option String
  httpProxy : Bool
  proxyUrl : String
  upper : String → String
  upper_empty : upper "" = ""

-- the names of headers are those of the HTTP headers of tornado, each of them once
structure ClientRequest where
  headers : PyDict String String
  protocol : String
  host : String
  path : String

def configureHandlers (cfg : ServerConfig) : List String := (split ',' cfg.allowHeaders).map cfg.upper

namespace ClientRequest

section proxy

variable (cfg : ServerConfig) (req : ClientRequest)

-- None and the empty text are both false
def given (name : String) : Option String := (req.headers.get? name).filter (· ≠ "")

-- an element that is no pair k=v is skipped
def forwardedElement (req : ClientRequest) (p : String) : ClientRequest :=
  match split '=' p with
  | [k, v] =>
    if k = "host" then { req with host := v }
    else if k = "proto" then { req with protocol := v }
    else req
  | _ => req

def staticUrl : Option String :=
  (some cfg.proxyUrl).filter (· ≠ "") |>.or (req.given "X-Forwarded-Url") |>.or (req.given "X-Qgis-Forwarded-Url")

def behindProxy : ClientRequest :=
  let req := match req.given "X-Forwarded-Host" with
    | none => req
    | some host => { req with host := host }
  match req.given "Forwarded" with
  | none => req
  | some forwarded => (split ';' forwarded).foldl forwardedElement req

def origin : String := req.protocol ++ "://" ++ req.host ++ "/"

def proxyUrl : String :=
  if cfg.httpProxy then
    match req.staticUrl cfg with
    | some url => if url.toList.getLast? = some '/' then url else url ++ "/"
    | none => req.behindProxy.origin
  else req.origin

def reqUrl : String := req.proxyUrl cfg ++ Qgis.lstrip '/' req.path

def backend (map : Option String) : BackendRequest where
  allowedHdrs := configureHandlers cfg
  debugRequestId := cfg.debugRequestId
  projectPath := map
  headers := req.headers.items
  proxyUrl := some (req.reqUrl cfg)

end proxy

end ClientRequest

def ClientRequest.forward (cfg : ServerConfig) (req : ClientRequest) (map : Option String) (query : String)
    (http : HttpRequest) (front : FrontHandler) (method : String) (allowed : method ∈ front.methods) : Forwarded :=
  ⟨front, req.backend cfg map, query, req.reqUrl cfg, http, method, allowed⟩

def fixedHeaders : List String := ["If-None-Match", "X-Request-Id", "Accept", "X-Debug-Id"]

def computedHeaders (cfg : ServerConfig) (req : ClientRequest) (map : Option String) (front : FrontHandler) :
    List (String × Option String) :=
  [("X-Map-Location", map.filter (· ≠ "")), ("X-Ogc-Scheme", some front.ogcScheme),
    ("X-Qgis-Forwarded-Url", some (req.reqUrl cfg))]

section whitelist

variable (cfg : ServerConfig)

def prefixes : List String := split ',' cfg.allowHeaders

def Whitelisted (name : String) : Prop := ∃ p ∈ prefixes cfg, p ≠ "" ∧ name.toUpper.startsWith (cfg.upper p) = true

def Passes (name : String) : Prop := "" ∈ prefixes cfg ∨ Whitelisted cfg name

instance (name : String) : Decidable (Whitelisted cfg name) := by
  unfold Whitelisted
  infer_instance

instance (name : String) : Decidable (Passes cfg name) := by
  unfold Passes
  infer_instance

theorem passes_iff (name : String) :
    ((configureHandlers cfg).any fun pat => name.toUpper.startsWith pat) = true ↔ Passes cfg name := by
  rw [configureHandlers, List.any_map, List.any_eq_true]
  constructor
  · rintro ⟨p, hp, hstarts⟩
    by_cases hempty : p = ""
    · exact .inl (hempty ▸ hp)
    · exact .inr ⟨p, hp, hempty, hstarts⟩
  · rintro (hempty | ⟨p, hp, -, hstarts⟩)
    · refine ⟨"", hempty, ?_⟩
      rw [Function.comp_apply, cfg.upper_empty]
      exact String.startsWith_string_empty
    · exact ⟨p, hp, hstarts⟩

end whitelist

structure Guarded (cfg : ServerConfig) (req : ClientRequest) (map : Option String) (front : FrontHandler)
    (received : Dict) : Prop where
  passed : ∀ name value, req.headers.get? name = some value → name ∉ fixedHeaders →
    name ∉ (computedHeaders cfg req map front).map Prod.fst →
    received.find name = if Whitelisted cfg name then some (.str value) else none
  computed : ∀ x ∈ computedHeaders cfg req map front, received.find x.1 = x.2.map PyVal.str

section copied

theorem find_copy (d : Dict) {copied : List (String × String)} (hnodup : (copied.map Prod.fst).Nodup) (k : String) :
    Dict.find (copied.foldl (fun d x => d.assign x.1 (.str x.2)) d) k =
      ((copied.lookup k).map PyVal.str).or (d.find k) := by
  induction copied generalizing d with
  | nil => rfl
  | cons x copied ih =>
    obtain ⟨key, value⟩ := x
    obtain ⟨hkey, hnodup⟩ := List.nodup_cons.mp hnodup
    rw [List.foldl_cons, ih _ hnodup, Dict.find_assign]
    by_cases hk : k = key
    · subst hk
      have hnone : copied.lookup k = none := by
        rw [List.lookup_eq_none_iff]
        intro y hy
        have hne : k ≠ y.1 := by
          rintro rfl
          exact hkey (List.mem_map.mpr ⟨y, hy, rfl⟩)
        simpa using hne
      rw [if_pos rfl, hnone, List.lookup_cons_self]
      rfl
    · rw [if_neg hk, List.lookup_cons, beq_false_of_ne hk]

theorem lookup_filter (d : PyDict String String) (p : String → Bool) (k : String) :
    (d.items.filter fun x => p x.1).lookup k = if p k then d.get? k else none := by
  rw [PyDict.get?]
  induction d.items with
  | nil => simp
  | cons x items ih =>
    obtain ⟨key, value⟩ := x
    by_cases hk : k = key
    · subst hk
      by_cases hp : p k
      · simp [hp]
      · simp only [hp, Bool.false_eq_true, not_false_eq_true, List.filter_cons_of_neg, if_false] at ih ⊢
        exact ih
    · by_cases hp : p key
      · simp only [List.filter_cons, hp, if_true, List.lookup_cons, beq_false_of_ne hk, ih]
        simp [Ne.symm hk]
      · simp only [List.filter_cons, hp, Bool.false_eq_true, if_false, ih]
        simp [Ne.symm hk]

def ownHeaders (r : BackendRequest) (front : FrontHandler) : Dict :=
  (BackendRequest.setBackendHeaders { r with allowedHdrs := [] } front)

theorem setBackendHeaders_own (r : BackendRequest) (front : FrontHandler) :
    r.setBackendHeaders front = r.copied.foldl (fun d x => d.assign x.1 (.str x.2)) (ownHeaders r front) := by
  have hnone : ({ r with allowedHdrs := [] } : BackendRequest).copied = [] := by simp [BackendRequest.copied]
  rw [ownHeaders, BackendRequest.setBackendHeaders, BackendRequest.setBackendHeaders, hnone]
  rfl

theorem find_nil (k : String) : Dict.find [] k = none := rfl

theorem find_assignStr (d : Dict) (k : String) (v : Option String) (l : String) :
    (BackendRequest.assignStr d k v).find l = if l = k then (v.map PyVal.str).or (d.find l) else d.find l := by
  cases v with
  | none => simp [BackendRequest.assignStr]
  | some v =>
    rw [BackendRequest.assignStr, Dict.find_assign]
    rfl

variable (cfg : ServerConfig) (req : ClientRequest) (map : Option String) (front : FrontHandler)

theorem find_ownHeaders_other {name : String} (hfixed : name ∉ fixedHeaders)
    (hcomputed : name ∉ (computedHeaders cfg req map front).map Prod.fst) :
    (ownHeaders (req.backend cfg map) front).find name = none := by
  simp only [fixedHeaders, List.mem_cons, List.not_mem_nil, or_false, not_or] at hfixed
  simp only [computedHeaders, List.map_cons, List.map_nil, List.mem_cons, List.not_mem_nil, or_false, not_or]
    at hcomputed
  obtain ⟨hetag, hid, haccept, hdebug⟩ := hfixed
  obtain ⟨hmap, hscheme, hurl⟩ := hcomputed
  rw [ownHeaders, BackendRequest.setBackendHeaders]
  simp [BackendRequest.copied, find_assignStr, Dict.find_assign, hetag, hid, haccept, hdebug, hmap, hscheme, hurl,
    find_nil]

theorem find_ownHeaders_computed :
    ∀ x ∈ computedHeaders cfg req map front,
      (ownHeaders (req.backend cfg map) front).find x.1 = x.2.map PyVal.str := by
  intro x hx
  rw [ownHeaders, BackendRequest.setBackendHeaders]
  simp only [computedHeaders, List.mem_cons, List.not_mem_nil, or_false] at hx
  rcases hx with rfl | rfl | rfl
  · simp [BackendRequest.copied, find_assignStr, Dict.find_assign, find_nil, ClientRequest.backend]
  · simp [BackendRequest.copied, find_assignStr, Dict.find_assign, ClientRequest.backend]
  · simp [BackendRequest.copied, find_assignStr, Dict.find_assign, find_nil, ClientRequest.backend]

theorem find_received (query : String) (http : HttpRequest) (method : String) (allowed : method ∈ front.methods)
    (name : String) :
    (req.forward cfg map query http front method allowed).message.headers.find name =
      ((if Passes cfg name then req.headers.get? name else none).map PyVal.str).or
        ((ownHeaders (req.backend cfg map) front).find name) := by
  have hcopied : (req.backend cfg map).copied = req.headers.items.filter fun x =>
      (configureHandlers cfg).any fun pat => x.1.toUpper.startsWith pat := rfl
  have hnodup : ((req.backend cfg map).copied.map Prod.fst).Nodup :=
    req.headers.nodup.sublist (List.filter_sublist.map _)
  rw [Qgis.message_headers, ClientRequest.forward]
  simp only
  rw [setBackendHeaders_own, find_copy _ hnodup, hcopied,
    lookup_filter req.headers fun name => (configureHandlers cfg).any fun pat => name.toUpper.startsWith pat]
  simp only [passes_iff]

structure Harmless : Prop where
  prefixes : "" ∈ prefixes cfg → ∀ name ∈ req.headers.keys, name ∉ fixedHeaders →
    name ∉ (computedHeaders cfg req map front).map Prod.fst → Whitelisted cfg name
  computed : ∀ x ∈ computedHeaders cfg req map front, ∀ value, req.headers.get? x.1 = some value →
    Passes cfg x.1 → x.2 = some value

theorem guarded_iff (query : String) (http : HttpRequest) (method : String) (allowed : method ∈ front.methods) :
    Guarded cfg req map front (req.forward cfg map query http front method allowed).message.headers ↔
      Harmless cfg req map front := by
  constructor
  · intro h
    refine ⟨fun hempty name hname hfixed hcomputed => ?_, fun x hx value hvalue hpasses => ?_⟩
    · obtain ⟨value, hvalue⟩ := PyDict.mem_keys.mp hname
      have hpassed := h.passed name value hvalue hfixed hcomputed
      rw [find_received, if_pos (.inl hempty), hvalue] at hpassed
      by_contra hno
      rw [if_neg hno] at hpassed
      cases hpassed
    · have hcomputed := h.computed x hx
      rw [find_received, if_pos hpasses, hvalue] at hcomputed
      obtain ⟨v, hv, heq⟩ := Option.map_eq_some_iff.mp hcomputed.symm
      rw [hv, PyVal.str.inj heq]
  · intro h
    refine ⟨fun name value hvalue hfixed hcomputed => ?_, fun x hx => ?_⟩
    · have hpasses : Passes cfg name ↔ Whitelisted cfg name :=
        ⟨fun hp => hp.elim (fun hempty => h.prefixes hempty name (PyDict.mem_keys.mpr ⟨value, hvalue⟩) hfixed hcomputed)
          id, .inr⟩
      rw [find_received, find_ownHeaders_other cfg req map front hfixed hcomputed, hvalue, Option.or_none]
      by_cases hw : Whitelisted cfg name
      · rw [if_pos (hpasses.mpr hw), if_pos hw]
        rfl
      · rw [if_neg (mt hpasses.mp hw), if_neg hw]
        rfl
    · rw [find_received, find_ownHeaders_computed cfg req map front x hx]
      by_cases hpasses : Passes cfg x.1
      · rw [if_pos hpasses]
        cases hvalue : req.headers.get? x.1 with
        | none => rfl
        | some value =>
          rw [h.computed x hx value hvalue hpasses]
          rfl
      · rw [if_neg hpasses]
        rfl

end copied

def defaultConfig : ServerConfig := ⟨"X-Qgis-,X-Lizmap-", none, false, "", String.toUpper, by decide +kernel⟩

def requestWith (name value : String) : ClientRequest :=
  ⟨⟨[(name, value)], List.nodup_singleton name⟩, "http", "localhost", "/ows/"⟩

theorem allowed_header_passed :
    Guarded defaultConfig (requestWith "X-Lizmap-Test" "This is Lizmap header") (some "france_parts") .ows
      ((requestWith "X-Lizmap-Test" "This is Lizmap header").forward defaultConfig (some "france_parts")
        "?SERVICE=WFS" getMapRequest .ows "GET" (by decide)).message.headers := by
  refine (guarded_iff defaultConfig (requestWith "X-Lizmap-Test" "This is Lizmap header") (some "france_parts") .ows
    "?SERVICE=WFS" getMapRequest "GET" (by decide)).mpr ⟨fun hempty => ?_, fun x hx value hvalue _ => ?_⟩
  · exact absurd hempty (by decide)
  · simp only [computedHeaders, List.mem_cons, List.not_mem_nil, or_false] at hx
    rcases hx with rfl | rfl | rfl <;> exact absurd hvalue (by simp [requestWith, PyDict.get?])

-- the prefix of the default settings lets the client choose the URL that the worker takes for its own
theorem client_chooses_forwarded_url :
    ¬ ∀ (cfg : ServerConfig) (req : ClientRequest) (map : Option String) (front : FrontHandler) (query : String)
      (http : HttpRequest) (method : String) (allowed : method ∈ front.methods),
      Guarded cfg req map front (req.forward cfg map query http front method allowed).message.headers := by
  intro h
  have hharmless := (guarded_iff defaultConfig (requestWith "X-Qgis-Forwarded-Url" "http://evil/") (some "a") .ows
    "?SERVICE=WMS" getMapRequest "GET" (by decide)).mp (h _ _ _ _ _ _ _ _)
  have hvalue := hharmless.computed _ (List.mem_cons_of_mem _ (List.mem_cons_of_mem _ List.mem_cons_self))
    "http://evil/" (by decide +kernel) (by decide +kernel)
  exact absurd hvalue (by decide)

end Handlers
