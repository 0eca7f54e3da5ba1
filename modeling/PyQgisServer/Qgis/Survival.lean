import PyQgisServer.Cache.Version
import PyQgisServer.Handlers.Backend
import PyQgisServer.Qgis.RequestHandler

namespace Qgis

open QgsCache Urllib Zmq Handlers

variable {P : Type}

def caught : CacheError → Bool
  | .strictChecking => true
  | .unreadableResource => true
  | .pathNotAllowed => true
  | .fileNotFound => true
  | _ => false

def Server.Finishes (q : Server P) : Prop := ∀ request project, .finish ∈ q.handleRequest request project

structure Handled.Answered (c i : Frame) (r : Handled P) : Prop where
  raised : r.raised = none
  sound : r.response.Sound c i
  written : r.response.handler.headerWritten = true

structure Handled.Escaped (before : Response) (r : Handled P) : Prop where
  raised : r.raised ≠ none
  response : r.response = before

section condition

variable (q : Server P) (env : Tables) (s : Store P) (c : HandlerClass P)

def TimeKnown (key : Str) : Prop :=
  match c.cacheService.held key with
  | some d => s.lastModified d.project ≠ none
  | none => ∃ v, version env s c.cacheService.aliases key = .ok v

def Opens (key : Str) : Prop :=
  0 < c.cacheCheckInterval ∧ c.cacheService.held key ≠ none ∨
    (∀ e, version env s c.cacheService.aliases key = .error e → caught e = true) ∧
      ∀ handler uri t, version env s c.cacheService.aliases key = .ok (handler, uri, t) →
        upToDate (c.cacheService.held key) t = none → s.read uri ≠ none

def Handleable (m : RequestMessage) : Prop :=
  ∃ method, httpMethods.lookup m.method = some method ∧
    ∀ location, q.projectLocation m.headers = some location →
      if m.headers.find "X-Ogc-Scheme" = some (.str "OWS") ∧ method = .head then
        TimeKnown env s c location.toList
      else Opens env s c location.toList

end condition

section answers

variable {q : Server P} {env : Tables} {o : Outside} {s : Store P} {c i : Frame} {r : Response}

theorem setEtagHeader_sound (h : r.Sound c i) (uri : String) (t : ℤ) (request : Request) :
    (q.setEtagHeader env uri t request r).2.Sound c i := by
  unfold Server.setEtagHeader
  split
  · exact h
  · exact Response.setExtraHeader_sound h _ _

theorem mapHeaders_sound (h : r.Sound c i) (location : String) (t : ℤ) (id : Option PyVal) :
    (q.mapHeaders location t id r).Sound c i := by
  unfold Server.mapHeaders
  simp only
  have h := Response.setExtraHeader_sound (Response.setExtraHeader_sound h "X-Map-Id" (.str location))
    "Last-Modified" (.str (q.localIsoformat t))
  split
  · exact h
  · exact Response.setExtraHeader_sound h _ _

theorem ended_run (ho : o.Works) (h : r.Sound c i) {ops : List Op} (hops : .finish ∈ ops)
    (k : HandlerClass P) : (Server.ended k (r.run o ops)).Answered c i := by
  obtain ⟨t, ht, hsound, hwritten⟩ := Response.run_sound ho h
  rw [ht]
  exact ⟨rfl, hsound, hwritten (.inr hops)⟩

theorem ended_finish (ho : o.Works) (h : r.Sound c i) (k : HandlerClass P) :
    (Server.ended k (r.finish o)).Answered c i := by
  obtain ⟨t, ht, hsound, hwritten⟩ := Response.finish_written ho h
  rw [ht]
  exact ⟨rfl, hsound, hwritten⟩

theorem onException_answered (ho : o.Works) (h : r.Sound c i) (k : HandlerClass P) (location : String)
    {e : CacheError} (he : caught e = true) : (Server.onException o k location r e).Answered c i := by
  cases e with
  | strictChecking =>
    obtain ⟨hsound, hwritten⟩ := Response.sendError_written ho h 422
      ("Invalid layers for project '" ++ location ++ "' - strict mode on")
    exact ⟨rfl, hsound, hwritten⟩
  | unreadableResource =>
    obtain ⟨hsound, hwritten⟩ := Response.sendError_written ho h 422
      ("Cannot read project resource '" ++ location ++ "'")
    exact ⟨rfl, hsound, hwritten⟩
  | pathNotAllowed =>
    obtain ⟨hsound, hwritten⟩ := Response.sendError_written ho h 403 "Project path not allowed"
    exact ⟨rfl, hsound, hwritten⟩
  | fileNotFound =>
    obtain ⟨hsound, hwritten⟩ := Response.sendError_written ho h 404
      ("Project '" ++ location ++ "' not found")
    exact ⟨rfl, hsound, hwritten⟩
  | _ => cases he

theorem onException_escaped (k : HandlerClass P) (location : String) {e : CacheError}
    (he : caught e = false) : (Server.onException o k location r e).Escaped r := by
  cases e with
  | strictChecking => cases he
  | unreadableResource => cases he
  | pathNotAllowed => cases he
  | fileNotFound => cases he
  | _ => exact ⟨nofun, rfl⟩

theorem serve_answered (ho : o.Works) (hq : q.Finishes) (h : r.Sound c i) (k : HandlerClass P)
    (headers : Dict) (ows : Bool) (location : String) (request : Request) (project : P) (t : ℤ) :
    (q.serve env o k headers ows location request r project t).Answered c i := by
  obtain ⟨answer, hsound, hserve | hserve⟩ := q.serve_cases env o
    (mapHeaders_sound h location t (headers.find "X-Request-Id"))
    (fun _ hr => setEtagHeader_sound hr location t request) k ows project
  · rw [hserve]
    exact ended_finish ho (Response.setStatusCode_sound hsound 304) k
  · rw [hserve]
    exact ended_run ho hsound (hq request (some project)) k

theorem readProject_caught {uri : Str} :
    (∀ e, s.readProject uri = .error e → caught e = true) ↔ s.read uri ≠ none := by
  unfold Store.readProject
  cases s.read uri with
  | none => simp [caught]
  | some v =>
    simp only [ne_eq, reduceCtorEq, not_false_eq_true, iff_true]
    intro e he
    split at he
    · cases he
      rfl
    · cases he

theorem update_caught {m : AliasTable} {key : Str} {details : Option (CacheDetails P)} :
    (∀ e, update env s m key details = .error e → caught e = true) ↔
      (∀ e, version env s m key = .error e → caught e = true) ∧
        ∀ handler uri t, version env s m key = .ok (handler, uri, t) →
          upToDate details t = none → s.read uri ≠ none := by
  constructor
  · intro h
    refine ⟨fun e he => h e (update_error.mpr (.inl he)), fun handler uri t hv hd => ?_⟩
    refine readProject_caught.mp fun e he => h e (update_error.mpr (.inr ?_))
    exact ⟨handler, uri, t, hv, hd, he⟩
  · rintro ⟨hversion, hread⟩ e he
    rcases update_error.mp he with he | ⟨handler, uri, t, hv, hd, he⟩
    · exact hversion e he
    · exact readProject_caught.mpr (hread handler uri t hv hd) e he

theorem lookup_opens {k : HandlerClass P} {key : Str} (h : Opens env s k key) :
    (∃ v t, Server.cacheLookup env s k key = (.ok v, t) ∧ t.cacheService.lru.peek key ≠ none) ∨
      ∃ e t, Server.cacheLookup env s k key = (.error e, t) ∧ caught e = true := by
  unfold Server.cacheLookup
  by_cases hcached : 0 < k.cacheCheckInterval ∧ k.cacheService.held key ≠ none
  · obtain ⟨v, t, ht, hpeek⟩ := lookup_cached (s := s) hcached.2
    rw [decide_eq_false (by omega), ht]
    exact .inl ⟨v, _, rfl, hpeek⟩
  · have hupdate := update_caught.mpr (h.resolve_left hcached)
    rw [CacheManager.lookup_refreshed fun hr => by_contra fun hc => hcached ⟨by simpa using hr, hc⟩]
    rcases updateAndGet_update env s k.cacheService key with ⟨e, t, he, ht, -⟩ | ⟨d, t, -, ht, hlru⟩
    · rw [ht]
      exact .inr ⟨e, _, rfl, hupdate e he⟩
    · rw [ht]
      refine .inl ⟨_, _, rfl, ?_⟩
      rw [hlru, Lru.peek_setItem_self]
      exact nofun

theorem lookup_not_opens {k : HandlerClass P} {key : Str} (h : ¬ Opens env s k key) :
    ∃ e t, Server.cacheLookup env s k key = (.error e, t) ∧ caught e = false := by
  obtain ⟨hcached, hupdate⟩ := not_or.mp h
  rw [← update_caught] at hupdate
  simp only [not_forall, Bool.not_eq_true] at hupdate
  obtain ⟨e, he, hcaught⟩ := hupdate
  unfold Server.cacheLookup
  rw [CacheManager.lookup_refreshed fun hr => by_contra fun hc => hcached ⟨by simpa using hr, hc⟩]
  rcases updateAndGet_update env s k.cacheService key with ⟨e', t, he', ht, -⟩ | ⟨d, _, hd, -⟩
  · obtain rfl := Except.error.inj (he.symm.trans he')
    rw [ht]
    exact ⟨e, _, rfl, hcaught⟩
  · rw [he] at hd
    cases hd

theorem getModifiedTime_cached {k : HandlerClass P} {key : Str}
    (h : k.cacheService.lru.peek key ≠ none) :
    ∃ t, Server.getModifiedTime env s k key true = (.ok t, k) := by
  obtain ⟨d, hd⟩ := Option.ne_none_iff_exists'.mp h
  have hpeek : k.cacheService.peek key none = some d := by
    simp [CacheManager.peek, hd]
  refine ⟨withoutMicroseconds d.timestamp, ?_⟩
  simp only [Server.getModifiedTime, CacheManager.getModifiedTime, hpeek, if_true]

theorem getModifiedTime_known {k : HandlerClass P} {key : Str} :
    (∃ t l, Server.getModifiedTime env s k key false = (.ok t, l)) ↔ TimeKnown env s k key := by
  unfold TimeKnown
  cases hheld : k.cacheService.held key with
  | some d =>
    have hpeek : k.cacheService.peek key none = some d := hheld
    simp only [Server.getModifiedTime, CacheManager.getModifiedTime, hpeek, Bool.false_eq_true, if_false]
    cases s.lastModified d.project <;> simp
  | none =>
    have hversion : (k.cacheService.getModifiedTime env s key false).1 = _ :=
      getModifiedTime_version k.cacheService key hheld
    simp only [Server.getModifiedTime, hversion, Prod.mk.injEq]
    cases version env s k.cacheService.aliases key <;> simp [Except.map]

theorem handleQgisRequest_none (env : Tables) (s : Store P) (ho : o.Works) (hq : q.Finishes)
    (h : r.Sound c i) (k : HandlerClass P) (headers : Dict) (ows : Bool) (request : Request) :
    (q.handleQgisRequest env o s k headers ows none request r).Answered c i :=
  ended_run ho h (hq request none) k

theorem handleQgisRequest_opens (ho : o.Works) (hq : q.Finishes) (h : r.Sound c i)
    {k : HandlerClass P} (headers : Dict) (ows : Bool) {location : String} (request : Request)
    (hopens : Opens env s k location.toList) :
    (q.handleQgisRequest env o s k headers ows (some location) request r).Answered c i := by
  unfold Server.handleQgisRequest
  rcases lookup_opens hopens with ⟨⟨project, state⟩, l, hl, hpeek⟩ | ⟨e, l, hl, he⟩
  · simp only [hl]
    generalize hlast : (if state = .unchanged then l
      else { l with removed := l.removed ++ [s.fileName project] }) = last
    have hservice : last.cacheService = l.cacheService := by
      rw [← hlast]
      split <;> rfl
    obtain ⟨t, ht⟩ : ∃ t, Server.getModifiedTime env s last location.toList true = (.ok t, last) :=
      getModifiedTime_cached (hservice ▸ hpeek)
    simp only [ht]
    exact serve_answered ho hq h last headers ows location request project t
  · simp only [hl]
    exact onException_answered ho h l location he

theorem handleQgisRequest_not_opens {k : HandlerClass P} (headers : Dict) (ows : Bool) {location : String}
    (request : Request) (hopens : ¬ Opens env s k location.toList) :
    (q.handleQgisRequest env o s k headers ows (some location) request r).Escaped r := by
  obtain ⟨e, l, hl, he⟩ := lookup_not_opens hopens
  simp only [Server.handleQgisRequest, hl]
  exact onException_escaped l location he

theorem handleHead_known (q : Server P) (ho : o.Works) (h : r.Sound c i) {k : HandlerClass P}
    {location : String} (request : Request) (hknown : TimeKnown env s k location.toList) :
    (q.handleHead env o s k location request r).Answered c i := by
  obtain ⟨t, l, ht⟩ := getModifiedTime_known.mpr hknown
  simp only [Server.handleHead, ht]
  exact ended_finish ho (setEtagHeader_sound h location t request) l

theorem handleHead_unknown (q : Server P) {k : HandlerClass P} {location : String} (request : Request)
    (hknown : ¬ TimeKnown env s k location.toList) :
    (q.handleHead env o s k location request r).Escaped r := by
  rw [← getModifiedTime_known] at hknown
  unfold Server.handleHead
  split
  · exact ⟨nofun, rfl⟩
  · rename_i t l ht
    exact absurd ⟨t, l, ht⟩ hknown

theorem escaped_leaves {broadcast : Option Broadcast} {h : Zmq.RequestHandler}
    (hw : h.headerWritten = false) {k : HandlerClass P} (now done : ℚ)
    (he : (q.handleMessage env o s k h).Escaped (.new h)) :
    (runTurn q env o s broadcast now done k h).loop = .leaving false := by
  have hleaving : (answerError o (q.handleMessage env o s k h)).2 = .leaving false := by
    unfold answerError
    split
    · rename_i hr
      exact absurd hr he.raised
    · rw [he.response, if_neg (by rw [show (Response.new h).handler = h from rfl, hw]; exact nofun)]
      split <;> rfl
  simp only [runTurn, hleaving, checkBroadcast]

end answers

theorem mem_assign {d : Dict} {k : String} {v : PyVal} {x : String × PyVal}
    (h : x ∈ d.assign k v) : x = (k, v) ∨ x ∈ d := by
  unfold Dict.assign at h
  split at h
  · obtain ⟨y, hy, rfl⟩ := List.mem_map.mp h
    split
    · exact .inl rfl
    · exact .inr hy
  · exact (List.mem_append.mp h).symm.imp List.mem_singleton.mp id

def TextHeaders (d : Dict) : Prop := ∀ x ∈ d, x.1 = "X-Request-Id" ∨ ∃ s, x.2 = .str s

theorem TextHeaders.assign {d : Dict} (h : TextHeaders d) (k v : String) :
    TextHeaders (d.assign k (.str v)) := by
  intro x hx
  rcases mem_assign hx with rfl | hx
  · exact .inr ⟨v, rfl⟩
  · exact h x hx

theorem TextHeaders.assignStr {d : Dict} (h : TextHeaders d) (k : String) (v : Option String) :
    TextHeaders (BackendRequest.assignStr d k v) := by
  cases v with
  | none => exact h
  | some v => exact h.assign k v

theorem message_headers (f : Forwarded) :
    f.message.headers = f.backend.setBackendHeaders f.front := by
  unfold Forwarded.message forwarded
  split <;> rfl

theorem forwardedUrl_text {d : Dict} (h : TextHeaders d) : ∃ url, forwardedUrl d = .ok url := by
  unfold forwardedUrl
  cases hfind : d.find "X-Qgis-Forwarded-Url" with
  | none => exact ⟨_, rfl⟩
  | some v =>
    obtain ⟨d₁, d₂, hd, -⟩ := List.lookup_eq_some_iff.mp hfind
    have hmem : ("X-Qgis-Forwarded-Url", v) ∈ d := by simp [hd]
    have hne : "X-Qgis-Forwarded-Url" ≠ "X-Request-Id" := by decide
    obtain ⟨s, rfl⟩ := (h _ hmem).resolve_left hne
    exact ⟨s, rfl⟩

section message

variable {q : Server P} {env : Tables} {o : Outside} {s : Store P} {k : HandlerClass P}
  {h : Zmq.RequestHandler}

theorem init_method (ht : TextHeaders h.request.headers) :
    (httpMethods.lookup h.request.method = none ∧ Request.init h.request = .error .keyError) ∨
      ∃ method request, httpMethods.lookup h.request.method = some method ∧
        Request.init h.request = .ok request ∧ request.method = method := by
  obtain ⟨url, hurl⟩ := forwardedUrl_text ht
  simp only [Request.init, hurl, bind, Except.bind]
  cases httpMethods.lookup h.request.method with
  | none => exact .inl ⟨rfl, rfl⟩
  | some method => exact .inr ⟨method, _, rfl, rfl, rfl⟩

theorem handleMessage_handleable (hq : q.Finishes) (ho : o.Works)
    (ht : TextHeaders h.request.headers) (hw : h.headerWritten = false)
    (hc : Handleable q env s k h.request) :
    (q.handleMessage env o s k h).Answered h.clientId h.correlationId := by
  have hsound := Response.sound_new hw
  obtain ⟨method, hmethod, hlocation⟩ := hc
  rcases init_method ht with ⟨hnone, -⟩ | ⟨method', request, hmethod', hinit, rfl⟩
  · rw [hmethod] at hnone
    cases hnone
  · obtain rfl := Option.some.inj (hmethod.symm.trans hmethod')
    simp only [Server.handleMessage, hinit]
    cases hl : q.projectLocation h.request.headers with
    | none =>
      have hnone := handleQgisRequest_none env s ho hq hsound k h.request.headers
      cases h.request.headers.find "X-Ogc-Scheme" == some (.str "OWS") with
      | false => exact hnone false request
      | true =>
        simp only
        split
        · exact ended_run ho hsound (by simp) k
        · exact hnone true request
    | some location =>
      have hlocation := hlocation location hl
      cases hows : h.request.headers.find "X-Ogc-Scheme" == some (.str "OWS") with
      | false =>
        rw [if_neg (fun hc => by simp [hc.1] at hows)] at hlocation
        exact handleQgisRequest_opens ho hq hsound h.request.headers false request hlocation
      | true =>
        simp only
        by_cases hmethod : request.method = .head
        · rw [if_pos ⟨by simpa using hows, hmethod⟩] at hlocation
          rw [if_pos hmethod]
          exact handleHead_known q ho hsound request hlocation
        · rw [if_neg fun hc => hmethod hc.2] at hlocation
          rw [if_neg hmethod]
          exact handleQgisRequest_opens ho hq hsound h.request.headers true request hlocation

theorem handleMessage_not_handleable (ht : TextHeaders h.request.headers)
    (hc : ¬ Handleable q env s k h.request) :
    (q.handleMessage env o s k h).Escaped (.new h) := by
  rcases init_method ht with ⟨-, hinit⟩ | ⟨_, request, hmethod, hinit, rfl⟩
  · simp only [Server.handleMessage, hinit]
    exact ⟨nofun, rfl⟩
  · simp only [Handleable, hmethod, Option.some.injEq, exists_eq_left', not_forall] at hc
    obtain ⟨location, hl, hlocation⟩ := hc
    simp only [Server.handleMessage, hinit, hl]
    cases hows : h.request.headers.find "X-Ogc-Scheme" == some (.str "OWS") with
    | false =>
      rw [if_neg (fun hc => by simp [hc.1] at hows)] at hlocation
      exact handleQgisRequest_not_opens h.request.headers false request hlocation
    | true =>
      simp only
      by_cases hmethod : request.method = .head
      · rw [if_pos ⟨by simpa using hows, hmethod⟩] at hlocation
        rw [if_pos hmethod]
        exact handleHead_unknown q request hlocation
      · rw [if_neg fun hc => hmethod hc.2] at hlocation
        rw [if_neg hmethod]
        exact handleQgisRequest_not_opens h.request.headers true request hlocation

end message

def emptyClass : HandlerClass Str := ⟨⟨srvTable, .init 2 Nat.two_pos, .empty, []⟩, 0, 0, []⟩

end Qgis
