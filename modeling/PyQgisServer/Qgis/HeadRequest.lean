import PyQgisServer.Qgis.Etag

namespace Qgis

open QgsCache Urllib Zmq

def asGet (h : Zmq.RequestHandler) : Zmq.RequestHandler := { h with request := { h.request with method := "GET" } }

theorem init_asGet {h : Zmq.RequestHandler} {request : Request} (hinit : Request.init h.request = .ok request) :
    Request.init (asGet h).request = .ok { request with method := .get } := by
  simp only [Request.init, bind, Except.bind, asGet] at hinit ⊢
  cases hurl : forwardedUrl h.request.headers with
  | error e =>
    rw [hurl] at hinit
    cases hinit
  | ok url =>
    rw [hurl] at hinit
    simp only at hinit ⊢
    cases hmethod : httpMethods.lookup h.request.method with
    | none =>
      rw [hmethod] at hinit
      cases hinit
    | some method =>
      rw [hmethod] at hinit
      obtain rfl := Except.ok.inj hinit
      rfl

section times

variable {P : Type} (env : Tables) (s : Store P)

def currentTime (m : CacheManager P) (key : Str) : Option ℤ := (version env s m.aliases key).toOption.map fun v => v.2.2

def LastModified (m : CacheManager P) (key : Str) : Prop :=
  ∀ d ∈ m.held key, s.lastModified d.project = currentTime env s m key

-- when the entry that a GET is to serve has the second of the storage; a lookup that refreshes reads a newer
-- project, and stamps again the entry of the storage handler
def Timely (c : HandlerClass P) (key : Str) : Prop :=
  match version env s c.cacheService.aliases key, c.cacheService.held key with
  | .error _, held => 0 < c.cacheCheckInterval → held = none
  | .ok (_, uri, _), none => ∃ project, s.readProject uri = .ok project
  | .ok (handler, uri, t), some d =>
    if 0 < c.cacheCheckInterval then withoutMicroseconds d.timestamp = withoutMicroseconds t
    else if d.timestamp < t then ∃ project, s.readProject uri = .ok project
    else handler = .qgisStorage ∨ withoutMicroseconds d.timestamp = withoutMicroseconds t

end times

variable {P : Type} {env : Tables} {s : Store P}

theorem getModifiedTime_current {m : CacheManager P} {key : Str} (h : LastModified env s m key) :
    (m.getModifiedTime env s key false).1.toOption = (currentTime env s m key).map withoutMicroseconds := by
  cases hheld : m.held key with
  | none =>
    rw [getModifiedTime_version m key hheld, currentTime]
    cases version env s m.aliases key <;> rfl
  | some d =>
    have hpeek : m.peek key none = some d := hheld
    rw [← h d hheld]
    simp only [CacheManager.getModifiedTime, hpeek]
    cases s.lastModified d.project <;> rfl

theorem getModifiedTime_same (env : Tables) (s : Store P) (m : CacheManager P) (key : Str) (fromCache : Bool) :
    m.aliases.Same (m.getModifiedTime env s key fromCache).2.aliases ∧
      (m.getModifiedTime env s key fromCache).2.lru = m.lru ∧
      (m.getModifiedTime env s key fromCache).2.static = m.static := by
  cases hheld : m.peek key none with
  | none =>
    simp only [CacheManager.getModifiedTime, hheld]
    exact ⟨resolveAlias_same env m.aliases key, trivial, trivial⟩
  | some d =>
    have hstate : (m.getModifiedTime env s key fromCache).2 = m := by
      simp only [CacheManager.getModifiedTime, hheld]
      split
      · rfl
      · split <;> rfl
    rw [hstate]
    exact ⟨.refl _, rfl, rfl⟩

theorem served_congr {m n : CacheManager P} {key : Str} (hsame : m.aliases.Same n.aliases)
    (hheld : n.held key = m.held key) (refresh : Bool) : served env s n key refresh = served env s m key refresh := by
  simp only [served, hheld, update_congr hsame]

theorem readable_iff {uri : Str} {t : ℤ} :
    some (withoutMicroseconds t) = ((s.readProject uri).map fun project => CacheDetails.mk project t).toOption.map
      (fun d => withoutMicroseconds d.timestamp) ↔ ∃ project, s.readProject uri = .ok project := by
  cases s.readProject uri with
  | error e => simp [Except.map, Except.toOption]
  | ok project => simp [Except.map, Except.toOption]

theorem keep_timestamp (handler : ProtocolHandler) (d : CacheDetails P) (t : ℤ) :
    (Store.keep handler d t).timestamp = if handler = .qgisStorage then t else d.timestamp := by
  cases handler <;> rfl

theorem kept_iff {handler : ProtocolHandler} {d : CacheDetails P} {t : ℤ} :
    some (withoutMicroseconds t) = some (withoutMicroseconds (Store.keep handler d t).timestamp) ↔
      handler = .qgisStorage ∨ withoutMicroseconds d.timestamp = withoutMicroseconds t := by
  rw [keep_timestamp, Option.some.injEq]
  split
  case isTrue h => simp [h]
  case isFalse h => simp [h, eq_comm]

theorem servedTime_iff {c : HandlerClass P} {key : Str} :
    (currentTime env s c.cacheService key).map withoutMicroseconds = Server.servedTime env s c key ↔
      Timely env s c key := by
  simp only [currentTime, Server.servedTime, served, Timely, update, decide_eq_true_eq]
  cases hv : version env s c.cacheService.aliases key with
  | error e =>
    cases hheld : c.cacheService.held key with
    | none => simp [Except.bind, Except.toOption]
    | some d =>
      by_cases hi : c.cacheCheckInterval ≤ 0
      · simp [hi, Except.bind, Except.toOption]
      · simp [hi, Except.toOption]
  | ok v =>
    obtain ⟨handler, uri, t⟩ := v
    cases hheld : c.cacheService.held key with
    | none =>
      simp only [or_true, if_true]
      exact readable_iff
    | some d =>
      by_cases hi : c.cacheCheckInterval ≤ 0
      · have hi' : ¬ 0 < c.cacheCheckInterval := by omega
        simp only [hi, hi', true_or, if_true, if_false, Except.bind, Except.toOption, Option.map_some]
        by_cases hlt : d.timestamp < t
        · rw [updated_stale hlt, if_pos hlt]
          exact readable_iff
        · rw [updated_kept (not_lt.mp hlt), if_neg hlt]
          exact kept_iff
      · have hi' : 0 < c.cacheCheckInterval := by omega
        simp [hi, hi', Except.toOption, eq_comm]

namespace Server

variable {q : Server P} {o : Outside} {c : HandlerClass P} {h : Zmq.RequestHandler} {request : Request}
  {location : String}

theorem handleMessage_head (hinit : Request.init h.request = .ok request) (hhead : request.method = .head)
    (hows : h.request.headers.find "X-Ogc-Scheme" = some (.str "OWS"))
    (hlocation : q.projectLocation h.request.headers = some location) :
    q.handleMessage env o s c h = q.handleHead env o s c location request (.new h) := by
  simp [handleMessage, hinit, hows, hlocation, hhead]

theorem handleMessage_get (hinit : Request.init h.request = .ok request) (hget : request.method ≠ .head)
    (hows : h.request.headers.find "X-Ogc-Scheme" = some (.str "OWS"))
    (hlocation : q.projectLocation h.request.headers = some location) :
    q.handleMessage env o s c h =
      q.handleQgisRequest env o s c h.request.headers true (some location) request (.new h) := by
  simp [handleMessage, hinit, hows, hlocation, hget]

theorem handlerClass_ended (c : HandlerClass P) (r : Except Response Response) : (ended c r).handlerClass = c := by
  cases r <;> rfl

theorem handlerClass_handleHead (c : HandlerClass P) :
    (q.handleHead env o s c location request (.new h)).handlerClass =
      { c with cacheService := (c.cacheService.getModifiedTime env s location.toList false).2 } := by
  rw [handleHead]
  cases ht : (c.cacheService.getModifiedTime env s location.toList false).1 with
  | error e => simp only [getModifiedTime, ht]
  | ok t => simp only [getModifiedTime, ht, handlerClass_ended]

theorem etags_eq_iff (hsha : Function.Injective q.sha1) (hiso : Function.Injective q.isoformat)
    (htags : q.Tags env request) {x y : Option ℤ} :
    (x.bind fun t => q.computeEtag env location t request).map PyVal.str =
        (y.bind fun t => q.computeEtag env location t request).map PyVal.str ↔ x = y := by
  constructor
  · intro heq
    have hetags := Option.map_injective (fun _ _ => PyVal.str.inj) heq
    cases x with
    | none =>
      cases y with
      | none => rfl
      | some t => simp [computeEtag_of_tags htags] at hetags
    | some t =>
      cases y with
      | none => simp [computeEtag_of_tags htags] at hetags
      | some t' => rw [(computeEtag_inj hsha hiso htags).mp hetags]
  · exact fun heq => heq ▸ rfl

theorem head_get_etags_agree_iff (q : Server P) (hq : q.KeepsExtras) (hsha : Function.Injective q.sha1)
    (hiso : Function.Injective q.isoformat)
    (hparameter : ∀ request : Request,
      q.parameter { request with method := .head } = q.parameter { request with method := .get })
    (env : Tables) (o o' : Outside) (s : Store P) (c : HandlerClass P) (h : Zmq.RequestHandler) (request : Request)
    (location : String) (hinit : Request.init h.request = .ok request) (hhead : request.method = .head)
    (hows : h.request.headers.find "X-Ogc-Scheme" = some (.str "OWS"))
    (hlocation : q.projectLocation h.request.headers = some location)
    (hlast : LastModified env s c.cacheService location.toList) :
    (q.handleMessage env o s c h).etag =
        (q.handleMessage env o' s (q.handleMessage env o s c h).handlerClass (asGet h)).etag ↔
      ¬ q.Tags env request ∨ Timely env s c location.toList := by
  have hget : q.handleMessage env o' s (q.handleMessage env o s c h).handlerClass (asGet h) =
      q.handleQgisRequest env o' s (q.handleMessage env o s c h).handlerClass h.request.headers true (some location)
        { request with method := .get } (.new (asGet h)) :=
    handleMessage_get (init_asGet hinit) (by simp) hows hlocation
  have hsame : q.parameter { request with method := .get } = q.parameter request := by
    rw [← hparameter, ← hhead]
  have hcompute : ∀ t, q.computeEtag env location t { request with method := .get } =
      q.computeEtag env location t request := by
    intro t
    simp only [computeEtag, hsame]
  have hserved : servedTime env s (q.handleMessage env o s c h).handlerClass location.toList =
      servedTime env s c location.toList := by
    obtain ⟨haliases, hlru, hstatic⟩ := getModifiedTime_same env s c.cacheService location.toList false
    rw [handleMessage_head hinit hhead hows hlocation, handlerClass_handleHead]
    simp only [servedTime, served_congr haliases (by simp only [CacheManager.held, hlru, hstatic])]
  rw [hget, etag_handleQgisRequest hq, hserved, handleMessage_head hinit hhead hows hlocation, etag_handleHead,
    getModifiedTime_current hlast, ← servedTime_iff]
  simp only [hcompute]
  by_cases htags : q.Tags env request
  · simp only [htags, not_true_eq_false, false_or]
    exact etags_eq_iff hsha hiso htags
  · simp [htags, computeEtag_of_not_tags htags]

end Server

theorem current_entry_has_the_etag_of_head :
    (etagServer.handleMessage asciiTables working (Snapshot.dated 0).toStore (loadedClass 0)
      (capabilitiesMessage "HEAD" [])).etag =
    (etagServer.handleMessage asciiTables working (Snapshot.dated 0).toStore
      (etagServer.handleMessage asciiTables working (Snapshot.dated 0).toStore (loadedClass 0)
        (capabilitiesMessage "HEAD" [])).handlerClass (asGet (capabilitiesMessage "HEAD" []))).etag := by
  have hversion : version asciiTables (Snapshot.dated 0).toStore (loadedClass 0).cacheService.aliases "a".toList =
      .ok (.file, "/srv/a.qgs".toList, 0) := by decide
  have hheld : (loadedClass 0).cacheService.held "a".toList = some ⟨0, 0⟩ := by decide
  refine (Server.head_get_etags_agree_iff etagServer etagServer_keepsExtras knownSha1_injective
    knownIsoformat_injective (fun _ => rfl) asciiTables working working (Snapshot.dated 0).toStore (loadedClass 0)
    (capabilitiesMessage "HEAD" [])
    ⟨"?SERVICE=WMS&REQUEST=GetCapabilities", .head, (capabilitiesMessage "HEAD" []).request.headers, none⟩
    "a" (by rfl) rfl (by decide) (by decide) ?_).mpr (.inr ?_)
  · intro d _
    rw [currentTime, hversion]
    rfl
  · rw [Timely, hversion, hheld]
    exact rfl

theorem stale_entry_has_another_etag :
    LastModified asciiTables (Snapshot.dated 1000000).toStore (loadedClass 0).cacheService "a".toList ∧
    (etagServer.handleMessage asciiTables working (Snapshot.dated 1000000).toStore (loadedClass 0)
      (capabilitiesMessage "HEAD" [])).etag = some (.str "\"f74e7bcebcc145d59eea1d04b0d3c44147bdfe1e\"") ∧
    (etagServer.handleMessage asciiTables working (Snapshot.dated 1000000).toStore
      (etagServer.handleMessage asciiTables working (Snapshot.dated 1000000).toStore (loadedClass 0)
        (capabilitiesMessage "HEAD" [])).handlerClass (asGet (capabilitiesMessage "HEAD" []))).etag =
      some (.str "\"9121f0719f59886ea84a40475b117eed73d9a7a1\"") := by
  refine ⟨fun d _ => ?_, by decide, by decide⟩
  have hcurrent : currentTime asciiTables (Snapshot.dated 1000000).toStore (loadedClass 0).cacheService "a".toList =
      some 1000000 := by decide
  rw [hcurrent]
  rfl

end Qgis
