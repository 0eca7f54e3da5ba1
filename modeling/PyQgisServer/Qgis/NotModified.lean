import PyQgisServer.Cache.Freshness
import PyQgisServer.Cache.Monotonic
import PyQgisServer.Qgis.HeadRequest

namespace Qgis

open QgsCache Urllib Zmq Transition

structure Answer (P : Type) where
  request : Request
  etag : Option String
  notModified : Bool
  project : P

namespace Server

variable {P : Type} (q : Server P) (env : Tables) (s : Store P) (c : HandlerClass P)

def lookupKey (h : Zmq.RequestHandler) : Option Str :=
  match Request.init h.request with
  | .error _ => none
  | .ok request =>
    if h.request.headers.find "X-Ogc-Scheme" = some (.str "OWS") ∧ request.method = .head then none
    else (q.projectLocation h.request.headers).map String.toList

def answerTo (headers : Dict) (location : String) (request : Request) : Option (Answer P) :=
  match cacheLookup env s c location.toList with
  | (.error _, _) => none
  | (.ok (project, _), c) =>
    match getModifiedTime env s c location.toList true with
    | (.error _, _) => none
    | (.ok t, _) =>
      let etag := q.computeEtag env location t request
      some ⟨request, etag, checkEtagHeader headers etag, project⟩

def answers (h : Zmq.RequestHandler) : Option (Answer P) :=
  match Request.init h.request, q.projectLocation h.request.headers with
  | .ok request, some location =>
    if h.request.headers.find "X-Ogc-Scheme" = some (.str "OWS") ∧ request.method ≠ .head then
      q.answerTo env s c h.request.headers location request
    else none
  | _, _ => none

end Server

namespace Server

variable {P : Type} {q : Server P} {env : Tables} {o : Outside} {s : Store P} {c : HandlerClass P}
  {location : String} {request : Request} {h : Zmq.RequestHandler} {a : Answer P}

theorem answerTo_found {headers : Dict} (ha : q.answerTo env s c headers location request = some a) :
    ∃ (d : CacheDetails P) (u : UpdateState) (t : CacheManager P),
      cacheLookup env s c location.toList = (.ok (d.project, u), { c with cacheService := t }) ∧
      served env s c.cacheService location.toList (c.cacheCheckInterval ≤ 0) = some d ∧
      t.getModifiedTime env s location.toList true = (.ok (withoutMicroseconds d.timestamp), t) ∧
      a = ⟨request, q.computeEtag env location (withoutMicroseconds d.timestamp) request,
        checkEtagHeader headers (q.computeEtag env location (withoutMicroseconds d.timestamp) request), d.project⟩ := by
  cases looked env s c location.toList with
  | failed e t hlookup hserved =>
    simp only [answerTo, hlookup] at ha
    cases ha
  | found d u t hlookup hserved hpeek =>
    have htime := getModifiedTime_peek env s hpeek
    simp only [answerTo, hlookup, getModifiedTime, htime] at ha
    exact ⟨d, u, t, hlookup, hserved, htime, (Option.some.inj ha).symm⟩

theorem answerTo_served (ha : q.answerTo env s c request.headers location request = some a) :
    ∃ d, served env s c.cacheService location.toList (c.cacheCheckInterval ≤ 0) = some d ∧ a.project = d.project ∧
      a.request = request ∧ a.etag = q.computeEtag env location (withoutMicroseconds d.timestamp) request ∧
      a.notModified = checkEtagHeader request.headers a.etag := by
  obtain ⟨d, u, t, -, hserved, -, rfl⟩ := answerTo_found ha
  exact ⟨d, hserved, rfl, rfl, rfl, rfl⟩

theorem setEtagHeader_fst (uri : String) (t : ℤ) (r : Response) :
    (q.setEtagHeader env uri t request r).1 = q.computeEtag env uri t request := by
  rw [setEtagHeader]
  cases q.computeEtag env uri t request <;> rfl

theorem serve_eq (headers : Dict) (project : P) (t : ℤ) :
    ∃ r : Response, r.extraHeaders.find "Etag" = (q.computeEtag env location t request).map PyVal.str ∧
      q.serve env o c headers true location request (.new h) project t =
        ended c (if checkEtagHeader headers (q.computeEtag env location t request) then (r.setStatusCode 304).finish o
          else r.run o (q.handleRequest request (some project))) := by
  refine ⟨_, etag_setEtagHeader q env location t request
    (q.mapHeaders location t (headers.find "X-Request-Id") (.new h)) (etag_mapHeaders q location t _ _), ?_⟩
  simp only [serve, if_true, setEtagHeader_fst]
  split <;> rfl

theorem handleQgisRequest_answerTo (ha : q.answerTo env s c request.headers location request = some a) :
    ∃ (t : HandlerClass P) (r : Response), r.extraHeaders.find "Etag" = a.etag.map PyVal.str ∧
      q.handleQgisRequest env o s c request.headers true (some location) request (.new h) =
        ended t (if a.notModified then (r.setStatusCode 304).finish o
          else r.run o (q.handleRequest request (some a.project))) := by
  obtain ⟨d, u, t, hlookup, -, htime, rfl⟩ := answerTo_found ha
  by_cases hu : u = .unchanged
  · simp only [handleQgisRequest, hlookup, hu, if_true, getModifiedTime, htime]
    exact ⟨_, serve_eq request.headers d.project _⟩
  · simp only [handleQgisRequest, hlookup, hu, if_false, getModifiedTime, htime]
    exact ⟨_, serve_eq request.headers d.project _⟩

theorem init_headers {r : RequestMessage} {request : Request} (h : Request.init r = .ok request) :
    request.headers = r.headers := by
  simp only [Request.init, bind, Except.bind] at h
  split at h
  · cases h
  · split at h
    · cases h
    · obtain rfl := Except.ok.inj h
      rfl

theorem answers_eq (hinit : Request.init h.request = .ok request)
    (hscheme : request.headers.find "X-Ogc-Scheme" = some (.str "OWS")) (hmethod : request.method ≠ .head)
    (hlocation : q.projectLocation request.headers = some location) :
    q.answers env s c h = q.answerTo env s c request.headers location request ∧
      q.lookupKey h = some location.toList := by
  have hheaders := init_headers hinit
  rw [hheaders] at hscheme hlocation ⊢
  constructor
  · simp [answers, hinit, hlocation, hscheme, hmethod]
  · simp [lookupKey, hinit, hlocation, hmethod]

theorem init_of_answers (ha : q.answers env s c h = some a) :
    ∃ request location, Request.init h.request = .ok request ∧
      request.headers.find "X-Ogc-Scheme" = some (.str "OWS") ∧ request.method ≠ .head ∧
      q.projectLocation request.headers = some location := by
  rw [answers] at ha
  cases hinit : Request.init h.request with
  | error e => simp [hinit] at ha
  | ok request =>
    cases hlocation : q.projectLocation h.request.headers with
    | none => simp [hinit, hlocation] at ha
    | some location =>
      simp only [hinit, hlocation] at ha
      split at ha
      · rename_i hget
        rw [← init_headers hinit] at hlocation hget
        exact ⟨request, location, rfl, hget.1, hget.2, hlocation⟩
      · cases ha

theorem handleMessage_answers (ha : q.answers env s c h = some a) :
    ∃ (t : HandlerClass P) (r : Response), r.extraHeaders.find "Etag" = a.etag.map PyVal.str ∧
      q.handleMessage env o s c h = ended t (if a.notModified then (r.setStatusCode 304).finish o
        else r.run o (q.handleRequest a.request (some a.project))) := by
  obtain ⟨request, location, hinit, hscheme, hmethod, hlocation⟩ := init_of_answers ha
  have hheaders := init_headers hinit
  rw [(answers_eq hinit hscheme hmethod hlocation).1] at ha
  obtain ⟨-, -, -, rfl, -, -⟩ := answerTo_served ha
  rw [hheaders] at hscheme hlocation
  rw [handleMessage_get hinit hmethod hscheme hlocation, ← hheaders]
  exact handleQgisRequest_answerTo ha

theorem handlerClass_serve (headers : Dict) (ows : Bool) (r : Response) (project : P) (t : ℤ) :
    (q.serve env o c headers ows location request r project t).handlerClass = c := by
  have hended : ∀ (b : Bool) x y, (if b = true then ended c x else ended c y).handlerClass = c := by
    intro b x y
    cases b
    · exact handlerClass_ended c y
    · exact handlerClass_ended c x
  exact hended _ _ _

theorem handlerClass_onException (r : Response) (e : CacheError) :
    (onException o c location r e).handlerClass = c := by
  cases e <;> rfl

theorem handlerClass_handleQgisRequest (headers : Dict) (ows : Bool) (r : Response) :
    (q.handleQgisRequest env o s c headers ows (some location) request r).handlerClass.cacheService =
        (c.cacheService.lookup env s location.toList (c.cacheCheckInterval ≤ 0)).2 ∧
      (q.handleQgisRequest env o s c headers ows (some location) request r).handlerClass.cacheCheckInterval =
        c.cacheCheckInterval := by
  have hstate : (cacheLookup env s c location.toList).2.cacheService =
      (c.cacheService.lookup env s location.toList (c.cacheCheckInterval ≤ 0)).2 := rfl
  cases looked env s c location.toList with
  | failed e t hlookup hserved =>
    rw [hlookup] at hstate
    simp only [handleQgisRequest, hlookup, handlerClass_onException]
    exact ⟨hstate, trivial⟩
  | found d u t hlookup hserved hpeek =>
    rw [hlookup] at hstate
    have htime := getModifiedTime_peek env s hpeek
    by_cases hu : u = .unchanged
    · simp only [handleQgisRequest, hlookup, hu, if_true, getModifiedTime, htime, handlerClass_serve]
      exact ⟨hstate, trivial⟩
    · simp only [handleQgisRequest, hlookup, hu, if_false, getModifiedTime, htime, handlerClass_serve]
      exact ⟨hstate, trivial⟩

theorem handleMessage_looks {key : Str} (hk : q.lookupKey h = some key) :
    (q.handleMessage env o s c h).handlerClass.cacheService =
        (c.cacheService.lookup env s key (c.cacheCheckInterval ≤ 0)).2 ∧
      (q.handleMessage env o s c h).handlerClass.cacheCheckInterval = c.cacheCheckInterval := by
  cases hinit : Request.init h.request with
  | error e => simp [lookupKey, hinit] at hk
  | ok request =>
    simp only [lookupKey, hinit] at hk
    split at hk
    · cases hk
    · rename_i hnot
      obtain ⟨location, hlocation, rfl⟩ := Option.map_eq_some_iff.mp hk
      by_cases hows : h.request.headers.find "X-Ogc-Scheme" = some (.str "OWS")
      · have hget : request.method ≠ .head := fun hc => hnot ⟨hows, hc⟩
        rw [handleMessage_get hinit hget hows hlocation]
        exact handlerClass_handleQgisRequest _ _ _
      · have hscheme : (h.request.headers.find "X-Ogc-Scheme" == some (.str "OWS")) = false :=
          beq_false_of_ne hows
        have hmessage : q.handleMessage env o s c h =
            q.handleQgisRequest env o s c h.request.headers false (some location) request (.new h) := by
          simp only [handleMessage, hinit, hscheme, hlocation]
        rw [hmessage]
        exact handlerClass_handleQgisRequest _ _ _

theorem handleMessage_noProject (hlocation : q.projectLocation h.request.headers = none) :
    (q.handleMessage env o s c h).handlerClass = c := by
  cases hinit : Request.init h.request with
  | error e => simp only [handleMessage, hinit]
  | ok request =>
    cases hscheme : (h.request.headers.find "X-Ogc-Scheme" == some (.str "OWS")) with
    | false =>
      simp only [handleMessage, hinit, hscheme, hlocation, handleQgisRequest]
      exact handlerClass_ended c _
    | true =>
      simp only [handleMessage, hinit, hscheme, hlocation, handleQgisRequest, handleNoMap]
      split
      · exact handlerClass_ended c _
      · exact handlerClass_ended c _

theorem handleMessage_looks_not (hk : q.lookupKey h = none) :
    (q.handleMessage env o s c h).handlerClass.cacheService.lru = c.cacheService.lru ∧
      (q.handleMessage env o s c h).handlerClass.cacheService.static = c.cacheService.static ∧
      c.cacheService.aliases.Same (q.handleMessage env o s c h).handlerClass.cacheService.aliases := by
  cases hlocation : q.projectLocation h.request.headers with
  | none =>
    rw [handleMessage_noProject hlocation]
    exact ⟨rfl, rfl, .refl _⟩
  | some location =>
    cases hinit : Request.init h.request with
    | error e =>
      simp only [handleMessage, hinit]
      exact ⟨trivial, trivial, .refl _⟩
    | ok request =>
      simp only [lookupKey, hinit, hlocation, Option.map_some] at hk
      split at hk
      · rename_i hhead
        obtain ⟨haliases, hlru, hstatic⟩ := getModifiedTime_same env s c.cacheService location.toList false
        rw [handleMessage_head hinit hhead.2 hhead.1 hlocation, handlerClass_handleHead]
        exact ⟨hlru, hstatic, haliases⟩
      · cases hk

end Server

def Request.Repeats (b a : Request) : Prop :=
  b.url = a.url ∧ b.method = a.method ∧ b.data = a.data ∧
    b.headers.remove "If-None-Match" = a.headers.remove "If-None-Match"

def Request.Revalidates {P : Type} (request : Request) (a : Answer P) : Prop :=
  request.Repeats a.request ∧ ∃ e, a.etag = some e ∧ request.headers.find "If-None-Match" = some (.str e)

instance (b a : Request) : Decidable (b.Repeats a) := inferInstanceAs (Decidable (_ ∧ _ ∧ _ ∧ _))

instance {P : Type} (request : Request) (a : Answer P) : Decidable (request.Revalidates a) :=
  decidable_of_iff
    (request.Repeats a.request ∧ (a.etag.any fun e => request.headers.find "If-None-Match" = some (.str e)) = true)
    (and_congr_right fun _ => by simp [Option.any_eq_true])

theorem Request.Repeats.find {b a : Request} (h : b.Repeats a) {k : String} (hk : k ≠ "If-None-Match") :
    b.headers.find k = a.headers.find k := by
  rw [← Dict.find_remove_ne b.headers "If-None-Match" hk, h.2.2.2, Dict.find_remove_ne a.headers _ hk]

-- one worker: its caches, and its answers to the services, the last one first
structure Session (P : Type) where
  handlerClass : HandlerClass P
  answered : List (Answer P)

inductive Event {P : Type} (origin : P → ℤ) where
  | preload (s : Snapshot origin) (key : Str)
  | refresh (s : Snapshot origin) (key : Str)
  | message (s : Snapshot origin) (o : Outside) (h : Zmq.RequestHandler)

namespace Session

variable {P : Type} {origin : P → ℤ}

def store : Event origin → Snapshot origin
  | .preload s _ => s
  | .refresh s _ => s
  | .message s _ _ => s

section run

variable (q : Server P) (env : Tables)

def preload (c : HandlerClass P) (s : Store P) (key : Str) : HandlerClass P :=
  { c with cacheService := (c.cacheService.updateStaticEntry env s key).2 }

def step (w : Session P) : Event origin → Session P
  | .preload s key => { w with handlerClass := preload env w.handlerClass s.toStore key }
  | .refresh s key => { w with handlerClass := (w.handlerClass.refreshEntry env s.toStore key).2 }
  | .message s o h =>
    { handlerClass := (q.handleMessage env o s.toStore w.handlerClass h).handlerClass
      answered := (q.answers env s.toStore w.handlerClass h).toList ++ w.answered }

def run : Session P → List (Event origin) → Session P := List.foldl (step q env)

def start (aliases : AliasTable) (n : ℕ) (interval : ℤ) : Session P := ⟨⟨Snapshot.start aliases n, interval, 0, []⟩, []⟩

def Sound (origin : P → ℤ) (answered : List (Answer P)) : Prop :=
  answered.Pairwise fun b a => b.request.Revalidates a → b.notModified = true → origin b.project = origin a.project

instance (answered : List (Answer P)) : Decidable (Sound origin answered) :=
  inferInstanceAs (Decidable (List.Pairwise _ _))

def action (w : Session P) : Event origin → Option (Snapshot.Action origin)
  | .preload s key => some (.preload s key)
  | .refresh s key => some (.update s key)
  | .message s _ h => (q.lookupKey h).map fun key => .lookup s key (w.handlerClass.cacheCheckInterval ≤ 0)

def dueTime (s : Store P) (c : HandlerClass P) (key : Str) : Option ℤ :=
  match version env s c.cacheService.aliases key, c.cacheService.held key with
  | .error _, held => if 0 < c.cacheCheckInterval then held.map fun d => d.timestamp else none
  | .ok (_, uri, t), none => (s.readProject uri).toOption.map fun _ => t
  | .ok (_, uri, t), some d =>
    if 0 < c.cacheCheckInterval ∨ t ≤ d.timestamp then some d.timestamp
    else (s.readProject uri).toOption.map fun _ => t

-- the handler of QgsProjectStorage compares the entry with an earlier time: it keeps the project and stamps it again
def Restamps (w : Session P) (e : Event origin) : Prop :=
  ∃ a ∈ action q w e, ∃ d ∈ Snapshot.compared w.handlerClass.cacheService a, ∃ uri t,
    version env a.store.toStore w.handlerClass.cacheService.aliases a.key = .ok (.qgisStorage, uri, t) ∧ t < d.timestamp

def Apart (w : Session P) : Event origin → Prop
  | .message s _ h => ∀ request, Request.init h.request = .ok request → ∀ a ∈ w.answered, request.Revalidates a →
      ∀ key ∈ q.lookupKey h, ∀ t ∈ dueTime env s.toStore w.handlerClass key,
        withoutMicroseconds t = withoutMicroseconds (origin a.project) → t = origin a.project
  | _ => True

end run

variable {q : Server P} {env : Tables} {aliases : AliasTable} {m : CacheManager P} {w : Session P}

structure Exact (origin : P → ℤ) (aliases : AliasTable) (m : CacheManager P) : Prop where
  same : aliases.Same m.aliases
  entries : ∀ key d, m.Entry key d → origin d.project = d.timestamp

theorem keep_forward {handler : ProtocolHandler} {d : CacheDetails P} {t : ℤ} (hle : t ≤ d.timestamp)
    (hforward : handler = .qgisStorage → d.timestamp ≤ t) : Store.keep handler d t = d := by
  cases handler with
  | file => rfl
  | postgres => rfl
  | qgisStorage => exact Store.keep_eq _ (le_antisymm (hforward rfl) hle)

theorem update_exact {s : Snapshot origin} (hs : Snapshot.Stamped env aliases s) {key : Str}
    {details : Option (CacheDetails P)} (hdetails : ∀ d ∈ details, origin d.project = d.timestamp)
    (hforward : ∀ d ∈ details, ∀ uri t, version env s.toStore aliases key = .ok (.qgisStorage, uri, t) → d.timestamp ≤ t)
    {d : CacheDetails P} (h : update env s.toStore aliases key details = .ok d) : origin d.project = d.timestamp := by
  obtain ⟨⟨handler, uri, t⟩, hv, hnew⟩ := update_cases h
  rcases hnew with ⟨hread, ht, -⟩ | ⟨old, rfl, hle, rfl⟩
  · rw [Snapshot.origin_of_read hread, ht]
    exact hs key _ hv
  · rw [keep_forward hle fun hh => hforward old rfl uri t (hh ▸ hv)]
    exact hdetails old rfl

theorem Exact.step_manager (h : Exact origin aliases m) {a : Snapshot.Action origin}
    (hs : Snapshot.Stamped env aliases a.store)
    (hforward : ∀ d ∈ Snapshot.compared m a, ∀ uri t,
      version env a.store.toStore m.aliases a.key = .ok (.qgisStorage, uri, t) → d.timestamp ≤ t) :
    Exact origin aliases (Snapshot.step env m a) := by
  obtain ⟨heffect, hsame⟩ := Snapshot.step_effect env m a
  refine ⟨h.same.trans hsame, fun k d hd => ?_⟩
  rcases heffect.entry hd with hold | ⟨rfl, hdetails, hu⟩
  · exact h.entries k d hold
  · rw [update_congr h.same] at hu
    rw [version_congr h.same] at hforward
    exact update_exact hs (fun d hd => h.entries _ d (hdetails d hd)) hforward hu

theorem cacheService_step (env : Tables) {e : Event origin} {a : Snapshot.Action origin} (ha : action q w e = some a) :
    (step q env w e).handlerClass.cacheService = Snapshot.step env w.handlerClass.cacheService a ∧
      a.store = store e := by
  cases e with
  | preload s key =>
    obtain rfl := Option.some.inj ha
    exact ⟨rfl, rfl⟩
  | refresh s key =>
    obtain rfl := Option.some.inj ha
    exact ⟨Announced.refreshEntry_cacheService env s.toStore w.handlerClass key, rfl⟩
  | message s o h =>
    obtain ⟨key, hkey, rfl⟩ := Option.map_eq_some_iff.mp ha
    exact ⟨(Server.handleMessage_looks hkey).1, rfl⟩

theorem Exact.of_same {n : CacheManager P} (h : Exact origin aliases m) (hlru : n.lru = m.lru)
    (hstatic : n.static = m.static) (hsame : m.aliases.Same n.aliases) : Exact origin aliases n where
  same := h.same.trans hsame
  entries := by
    intro key d hd
    rw [CacheManager.Entry, hlru, hstatic] at hd
    exact h.entries key d hd

theorem exact_step (h : Exact origin aliases w.handlerClass.cacheService) {e : Event origin}
    (hs : Snapshot.Stamped env aliases (store e)) (he : ¬ Restamps q env w e) :
    Exact origin aliases (step q env w e).handlerClass.cacheService := by
  cases ha : action q w e with
  | some a =>
    obtain ⟨hstep, hstore⟩ := cacheService_step env ha
    rw [hstep]
    refine h.step_manager (hstore ▸ hs) fun d hd uri t hv => ?_
    by_contra hlt
    exact he ⟨a, ha, d, hd, uri, t, hv, not_le.mp hlt⟩
  | none =>
    cases e with
    | preload s key => cases ha
    | refresh s key => cases ha
    | message s o m =>
      obtain ⟨hlru, hstatic, hsame⟩ := Server.handleMessage_looks_not (o := o) (Option.map_eq_none_iff.mp ha)
      exact h.of_same hlru hstatic hsame

theorem dueTime_served {s : Store P} {c : HandlerClass P} {key : Str}
    (hforward : c.cacheCheckInterval ≤ 0 → ∀ d ∈ c.cacheService.held key, ∀ uri t,
      version env s c.cacheService.aliases key = .ok (.qgisStorage, uri, t) → d.timestamp ≤ t) :
    dueTime env s c key =
      (served env s c.cacheService key (c.cacheCheckInterval ≤ 0)).map fun d => d.timestamp := by
  simp only [dueTime, served, update, decide_eq_true_eq]
  cases hv : version env s c.cacheService.aliases key with
  | error e =>
    cases hheld : c.cacheService.held key with
    | none => simp [Except.bind, Except.toOption]
    | some d =>
      by_cases hi : c.cacheCheckInterval ≤ 0
      · simp [hi, Except.bind, Except.toOption]
      · simp [hi]
  | ok v =>
    obtain ⟨handler, uri, t⟩ := v
    have hread : ((s.readProject uri).toOption.map fun _ => t) =
        ((s.readProject uri).map fun project => CacheDetails.mk project t).toOption.map fun d => d.timestamp := by
      cases s.readProject uri <;> rfl
    cases hheld : c.cacheService.held key with
    | none =>
      simp only [or_true, if_true]
      exact hread
    | some d =>
      by_cases hi : c.cacheCheckInterval ≤ 0
      · have hi' : ¬ 0 < c.cacheCheckInterval := by omega
        simp only [hi, hi', false_or, true_or, if_true, Except.bind]
        by_cases hle : t ≤ d.timestamp
        · have hkeep : Store.keep handler d t = d :=
            keep_forward hle fun hh => hforward hi d hheld uri t (hh ▸ hv)
          rw [if_pos hle, updated_kept hle, hkeep]
          rfl
        · rw [if_neg hle, updated_stale (not_le.mp hle)]
          exact hread
      · have hi' : 0 < c.cacheCheckInterval := by omega
        simp [hi, hi']

theorem Exact.served (h : Exact origin aliases m) {s : Snapshot origin} (hs : Snapshot.Stamped env aliases s)
    {key : Str} {refresh : Bool}
    (hforward : refresh = true → ∀ d ∈ m.held key, ∀ uri t,
      version env s.toStore aliases key = .ok (.qgisStorage, uri, t) → d.timestamp ≤ t)
    {d : CacheDetails P} (hd : served env s.toStore m key refresh = some d) : origin d.project = d.timestamp := by
  have hheld : ∀ d ∈ m.held key, origin d.project = d.timestamp :=
    fun d hd => h.entries key d (CacheManager.entry_of_held hd)
  rw [QgsCache.served] at hd
  split at hd
  · rename_i hr
    have hforward' : ∀ d ∈ m.held key, ∀ uri t,
        version env s.toStore aliases key = .ok (.qgisStorage, uri, t) → d.timestamp ≤ t := by
      rcases hr with hr | hr
      · exact hforward hr
      · simp [hr]
    cases hu : update env s.toStore m.aliases key (m.held key) with
    | error e => simp [hu, Except.toOption] at hd
    | ok d' =>
      obtain rfl : d' = d := by simpa [hu, Except.toOption] using hd
      rw [update_congr h.same] at hu
      exact update_exact hs hheld hforward' hu
  · exact hheld d hd

structure Tagged (q : Server P) (env : Tables) (origin : P → ℤ) (location : String) (a : Answer P) : Prop where
  scheme : a.request.headers.find "X-Ogc-Scheme" = some (.str "OWS")
  method : a.request.method ≠ .head
  located : q.projectLocation a.request.headers = some location
  etag : a.etag = q.computeEtag env location (withoutMicroseconds (origin a.project)) a.request

theorem projectLocation_repeats {b a : Request} (h : b.Repeats a) :
    q.projectLocation b.headers = q.projectLocation a.headers := by
  rw [Server.projectLocation, Server.projectLocation, h.find (by decide), h.find (by decide)]

theorem checkEtagHeader_iff {headers : Dict} {location e : String} {t : ℤ} {request : Request} {x : Option String}
    (he : q.computeEtag env location t request = some e) (hheaders : headers.find "If-None-Match" = some (.str e)) :
    Server.checkEtagHeader headers x = true ↔ x = some e := by
  have hquoted : e ≠ "*" := by
    by_cases htags : q.Tags env request
    · rw [Server.computeEtag_of_tags htags] at he
      rintro rfl
      have hchars := congrArg String.toList (Option.some.inj he)
      rw [String.toList_append, String.toList_append] at hchars
      exact absurd (List.cons.inj hchars).1 (by decide)
    · rw [Server.computeEtag_of_not_tags htags] at he
      cases he
  cases x with
  | none => simp [Server.checkEtagHeader]
  | some e' =>
    simp only [Server.checkEtagHeader, hheaders, Option.getD_some, Bool.or_eq_true, beq_iff_eq, PyVal.str.injEq,
      hquoted, false_or, Option.some.injEq]
    exact eq_comm

theorem revalidated_iff (hsha : Function.Injective q.sha1) (hiso : Function.Injective q.isoformat)
    (hparameter : ∀ b a : Request, b.Repeats a → q.parameter b = q.parameter a) {request : Request} {a : Answer P}
    {location : String} (ha : Tagged q env origin location a) (hr : request.Revalidates a) (t : ℤ) :
    Server.checkEtagHeader request.headers (q.computeEtag env location t request) = true ↔
      t = withoutMicroseconds (origin a.project) := by
  obtain ⟨hrepeats, e, he, hheaders⟩ := hr
  have hsame : ∀ t, q.computeEtag env location t a.request = q.computeEtag env location t request := by
    intro t
    simp only [Server.computeEtag, hparameter _ _ hrepeats]
  have hetag : q.computeEtag env location (withoutMicroseconds (origin a.project)) request = some e := by
    rw [← hsame, ← ha.etag, he]
  rw [checkEtagHeader_iff hetag hheaders, ← hetag]
  by_cases htags : q.Tags env request
  · exact Server.computeEtag_inj hsha hiso htags
  · rw [Server.computeEtag_of_not_tags htags] at hetag
    cases hetag

theorem lookup_forward {s : Snapshot origin} {o : Outside} {h : Zmq.RequestHandler} {key : Str}
    (he : ¬ Restamps q env w (.message s o h)) (hkey : q.lookupKey h = some key)
    (hi : w.handlerClass.cacheCheckInterval ≤ 0) : ∀ d ∈ w.handlerClass.cacheService.held key, ∀ uri t,
      version env s.toStore w.handlerClass.cacheService.aliases key = .ok (.qgisStorage, uri, t) → d.timestamp ≤ t := by
  intro d hd uri t hv
  by_contra hlt
  refine he ⟨.lookup s key (w.handlerClass.cacheCheckInterval ≤ 0), ?_, d, ?_, uri, t, hv, not_le.mp hlt⟩
  · simp [action, hkey]
  · simpa [Snapshot.compared, hi] using hd

theorem answer_tagged (hm : Exact origin aliases w.handlerClass.cacheService) {s : Snapshot origin} {o : Outside}
    {h : Zmq.RequestHandler} (hs : Snapshot.Stamped env aliases s) (he : ¬ Restamps q env w (.message s o h))
    {b : Answer P} (hb : q.answers env s.toStore w.handlerClass h = some b) :
    ∃ location, Request.init h.request = .ok b.request ∧ q.lookupKey h = some location.toList ∧
      Tagged q env origin location b ∧ b.notModified = Server.checkEtagHeader b.request.headers b.etag ∧
      dueTime env s.toStore w.handlerClass location.toList = some (origin b.project) := by
  obtain ⟨request, location, hinit, hscheme, hmethod, hlocation⟩ := Server.init_of_answers hb
  obtain ⟨hanswers, hkey⟩ := Server.answers_eq hinit hscheme hmethod hlocation
  have hforward := lookup_forward he hkey
  rw [hanswers] at hb
  obtain ⟨d, hserved, hproject, rfl, hetag, hnot⟩ := Server.answerTo_served hb
  have horigin : origin d.project = d.timestamp := by
    refine hm.served hs (fun hr d hd uri t hv => ?_) hserved
    rw [← version_congr hm.same] at hv
    exact hforward (of_decide_eq_true hr) d hd uri t hv
  refine ⟨location, hinit, hkey, ⟨hscheme, hmethod, hlocation, ?_⟩, hnot, ?_⟩
  · rw [hproject, horigin, hetag]
  · rw [dueTime_served hforward, hserved, hproject, horigin]
    rfl

theorem dueTime_of_not_answered {s : Snapshot origin} {o : Outside} {h : Zmq.RequestHandler}
    (he : ¬ Restamps q env w (.message s o h)) (hnone : q.answers env s.toStore w.handlerClass h = none)
    {request : Request} (hinit : Request.init h.request = .ok request) {a : Answer P} {location : String}
    (ha : Tagged q env origin location a) (hr : request.Repeats a.request) {key : Str} (hkey : q.lookupKey h = some key) :
    dueTime env s.toStore w.handlerClass key = none := by
  have hscheme := (hr.find (by decide)).trans ha.scheme
  have hlocation := (projectLocation_repeats hr).trans ha.located
  have hanswers : q.answers env s.toStore w.handlerClass h =
      q.answerTo env s.toStore w.handlerClass request.headers location request ∧ q.lookupKey h = some location.toList :=
    Server.answers_eq hinit hscheme (hr.2.1 ▸ ha.method) hlocation
  rw [dueTime_served (lookup_forward he hkey)]
  obtain rfl := Option.some.inj (hkey.symm.trans hanswers.2)
  rw [hanswers.1] at hnone
  cases Server.looked env s.toStore w.handlerClass location.toList with
  | failed e t hfail hserved =>
    rw [hserved]
    rfl
  | found d u t hfound hserved hpeek =>
    have htime := Server.getModifiedTime_peek env s.toStore hpeek
    simp only [Server.answerTo, hfound, Server.getModifiedTime, htime] at hnone
    cases hnone

structure Consistent (q : Server P) (env : Tables) (origin : P → ℤ) (aliases : AliasTable) (w : Session P) : Prop where
  exact : Exact origin aliases w.handlerClass.cacheService
  tagged : ∀ a ∈ w.answered, ∃ location, Tagged q env origin location a

theorem Consistent.step (h : Consistent q env origin aliases w) {e : Event origin}
    (hs : Snapshot.Stamped env aliases (store e)) (he : ¬ Restamps q env w e) :
    Consistent q env origin aliases (step q env w e) where
  exact := exact_step h.exact hs he
  tagged := by
    cases e with
    | preload s key => exact h.tagged
    | refresh s key => exact h.tagged
    | message s o m =>
      intro a ha
      rcases List.mem_append.mp ha with ha | ha
      · obtain ⟨location, -, -, htagged, -, -⟩ := answer_tagged h.exact hs he (Option.mem_toList.mp ha)
        exact ⟨location, htagged⟩
      · exact h.tagged a ha

theorem sound_step (hsha : Function.Injective q.sha1) (hiso : Function.Injective q.isoformat)
    (hparameter : ∀ b a : Request, b.Repeats a → q.parameter b = q.parameter a)
    (h : Consistent q env origin aliases w) {e : Event origin} (hs : Snapshot.Stamped env aliases (store e))
    (he : ¬ Restamps q env w e) :
    Sound origin (step q env w e).answered ↔ Sound origin w.answered ∧ Apart q env w e := by
  cases e with
  | preload s key => exact (and_iff_left trivial).symm
  | refresh s key => exact (and_iff_left trivial).symm
  | message s o m =>
    cases hb : q.answers env s.toStore w.handlerClass m with
    | none =>
      simp only [Session.step, hb, Option.toList_none, List.nil_append]
      refine (and_iff_left ?_).symm
      intro request hinit a ha hr key hkey t ht
      obtain ⟨location, htagged⟩ := h.tagged a ha
      rw [dueTime_of_not_answered he hb hinit htagged hr.1 hkey] at ht
      cases ht
    | some b =>
      obtain ⟨location, hinit, hkey, hbtagged, hnot, hdue⟩ := answer_tagged h.exact hs he hb
      have hrevalidated : ∀ a ∈ w.answered, b.request.Revalidates a →
          (b.notModified = true ↔ withoutMicroseconds (origin b.project) = withoutMicroseconds (origin a.project)) := by
        intro a ha hr
        obtain ⟨location', htagged⟩ := h.tagged a ha
        obtain rfl : location = location' := Option.some.inj
          (hbtagged.located.symm.trans ((projectLocation_repeats hr.1).trans htagged.located))
        rw [hnot, hbtagged.etag]
        exact revalidated_iff hsha hiso hparameter htagged hr _
      simp only [Session.step, hb, Option.toList_some, List.singleton_append, Sound, List.pairwise_cons]
      rw [and_comm]
      refine and_congr_right fun _ => ⟨?_, ?_⟩
      · intro hsound request hinit' a ha hr key hkey' t ht hsecond
        obtain rfl := Except.ok.inj (hinit'.symm.trans hinit)
        obtain rfl := Option.some.inj (hkey'.symm.trans hkey)
        obtain rfl := Option.some.inj (ht.symm.trans hdue)
        exact hsound a ha hr ((hrevalidated a ha hr).mpr hsecond)
      · intro hapart a ha hr hmodified
        exact hapart b.request hinit a ha hr _ hkey _ hdue ((hrevalidated a ha hr).mp hmodified)

theorem sound_run (hsha : Function.Injective q.sha1) (hiso : Function.Injective q.isoformat)
    (hparameter : ∀ b a : Request, b.Repeats a → q.parameter b = q.parameter a) {es : List (Event origin)}
    (h : Consistent q env origin aliases w) (hs : ∀ e ∈ es, Snapshot.Stamped env aliases (store e))
    (he : Always (step q env) (fun w e => ¬ Restamps q env w e) w es) :
    Sound origin (run q env w es).answered ↔ Sound origin w.answered ∧ Always (step q env) (Apart q env) w es := by
  induction es generalizing w with
  | nil => exact (and_iff_left trivial).symm
  | cons e es ih =>
    have hstamped := hs e List.mem_cons_self
    have hrest := ih (h.step hstamped he.1) (fun e he => hs e (List.mem_cons_of_mem _ he)) he.2
    rw [run, List.foldl_cons, ← run, hrest, sound_step hsha hiso hparameter h hstamped he.1, and_assoc]
    rfl

theorem not_modified_sound_iff (q : Server P) (hsha : Function.Injective q.sha1)
    (hiso : Function.Injective q.isoformat)
    (hparameter : ∀ b a : Request, b.Repeats a → q.parameter b = q.parameter a) (env : Tables) (aliases : AliasTable)
    (n : ℕ) (interval : ℤ) (es : List (Event origin)) (hstamped : ∀ e ∈ es, Snapshot.Stamped env aliases (store e))
    (hkept : Always (step q env) (fun w e => ¬ Restamps q env w e) (start aliases n interval) es) :
    Sound origin (run q env (start aliases n interval) es).answered ↔
      Always (step q env) (Apart q env) (start aliases n interval) es := by
  have hstart : Consistent q env origin aliases (start aliases n interval) := by
    refine ⟨⟨.refl aliases, ?_⟩, by simp [start]⟩
    rintro key d (hd | hd)
    · cases hd
    · cases hd
  rw [sound_run hsha hiso hparameter hstart hstamped hkept]
  exact and_iff_right .nil

def asked (t : ℤ) (headers : Dict) : Event (id : ℤ → ℤ) :=
  .message (Snapshot.dated t) working (capabilitiesMessage "GET" headers)

theorem action_asked {q : Server ℤ} {w : Session ℤ} {t : ℤ} {headers : Dict} {a : Snapshot.Action (id : ℤ → ℤ)}
    (ha : action q w (asked t headers) = some a) :
    ∃ key, q.lookupKey (capabilitiesMessage "GET" headers) = some key ∧
      a = .lookup (Snapshot.dated t) key (w.handlerClass.cacheCheckInterval ≤ 0) := by
  obtain ⟨key, hkey, rfl⟩ := Option.map_eq_some_iff.mp ha
  exact ⟨key, hkey, rfl⟩

def knownEtag : Dict := [("If-None-Match", .str "\"9121f0719f59886ea84a40475b117eed73d9a7a1\"")]

-- a project that has been stored at the time t, then at the time u, asked for again with its ETag
def askedAgain (t u : ℤ) : List (Event (id : ℤ → ℤ)) := [asked t [], asked u knownEtag]

theorem askedAgain_stamped (t u : ℤ) :
    ∀ e ∈ askedAgain t u, Snapshot.Stamped asciiTables srvTable (store e) := by
  intro e he key v hv
  rcases List.mem_pair.mp he with rfl | rfl
  · exact (Snapshot.version_dated hv).symm
  · exact (Snapshot.version_dated hv).symm

theorem unchanged_project_is_not_modified :
    ((run etagServer asciiTables (start srvTable 0 0) (askedAgain 0 0)).answered.map fun a => a.notModified) =
        [true, false] ∧
      Sound (id : ℤ → ℤ) (run etagServer asciiTables (start srvTable 0 0) (askedAgain 0 0)).answered := by
  have hkey : etagServer.lookupKey (capabilitiesMessage "GET" knownEtag) = some "a".toList := by decide
  have hheld : (step etagServer asciiTables (start srvTable 0 0) (asked 0 [])).handlerClass.cacheService.held
      "a".toList = some ⟨0, 0⟩ := by decide
  have hanswered : (step etagServer asciiTables (start srvTable 0 0) (asked 0 [])).answered.map
      (fun a => a.project) = [0] := by decide
  have hdue : dueTime asciiTables (Snapshot.dated 0).toStore
      (step etagServer asciiTables (start srvTable 0 0) (asked 0 [])).handlerClass "a".toList = some 0 := by
    decide
  refine ⟨by decide, (not_modified_sound_iff etagServer knownSha1_injective knownIsoformat_injective
    (fun _ _ _ => rfl) asciiTables srvTable 0 0 (askedAgain 0 0) (askedAgain_stamped 0 0) ⟨?_, ?_, trivial⟩).mpr
    ⟨?_, ?_, trivial⟩⟩
  · rintro ⟨a, ha, d, hd, -⟩
    obtain ⟨key, -, rfl⟩ := action_asked ha
    cases hd
  · rintro ⟨a, ha, d, hd, uri, t, hv, hlt⟩
    obtain ⟨key, hkey', rfl⟩ := action_asked ha
    obtain rfl := Option.some.inj (hkey.symm.trans hkey')
    obtain rfl := Option.some.inj (hheld.symm.trans hd)
    exact absurd (Snapshot.version_dated hv) hlt.ne
  · intro request hinit a ha
    cases ha
  · intro request hinit a ha hr key hkey' t ht _
    obtain rfl := Option.some.inj (hkey.symm.trans hkey')
    obtain rfl := Option.some.inj (hdue.symm.trans ht)
    have hproject : a.project ∈ [(0 : ℤ)] := hanswered ▸ List.mem_map_of_mem ha
    exact (List.mem_singleton.mp hproject).symm

def storedMessage (headers : Dict) : Zmq.RequestHandler :=
  .new Pool.client1 (.bytes [1]) ⟨"SERVICE=WMS&REQUEST=GetCapabilities",
    ("X-Map-Location", .str "g:a") :: ("X-Ogc-Scheme", .str "OWS") :: headers, "GET", none⟩

-- a project of a storage that is put back in the place of a newer one, and asked for with its own ETag
def putBack : List (Event (id : ℤ → ℤ)) :=
  [.message (Snapshot.dated 0) working (storedMessage []),
    .message (Snapshot.dated 1000000) working (storedMessage []),
    .message (Snapshot.dated 0) working
      (storedMessage [("If-None-Match", .str "\"xwmsg:a1970-01-01T00:00:00\"")])]

theorem changed_project_is_not_modified :
    (∀ e ∈ askedAgain 0 500000, Snapshot.Stamped asciiTables srvTable (store e)) ∧
      ¬ Sound (id : ℤ → ℤ) (run etagServer asciiTables (start srvTable 0 0) (askedAgain 0 500000)).answered ∧
      (∀ e ∈ putBack, Snapshot.Stamped asciiTables srvTable (store e)) ∧
      ¬ Sound (id : ℤ → ℤ) (run etagServer asciiTables (start srvTable 0 0) putBack).answered := by
  refine ⟨askedAgain_stamped 0 500000, by decide, fun e he key v hv => ?_, by decide⟩
  simp only [putBack, List.mem_cons, List.not_mem_nil, or_false] at he
  rcases he with rfl | rfl | rfl
  · exact (Snapshot.version_dated hv).symm
  · exact (Snapshot.version_dated hv).symm
  · exact (Snapshot.version_dated hv).symm

end Session

end Qgis
