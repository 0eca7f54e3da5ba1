import Mathlib.Logic.Equiv.Nat
import PyQgisServer.Cache.Snapshot
import PyQgisServer.Qgis.RequestHandler

namespace Qgis

open QgsCache Urllib Zmq

namespace Response

variable {o : Outside} {r : Response}

theorem send_extraHeaders (r : Response) (data : Bytes) (sendMore : Bool) (metadata : Option Dict) :
    (settled (r.send o data sendMore metadata)).extraHeaders = r.extraHeaders := by
  simp only [send]
  split <;> rfl

theorem Becomes.extraHeaders {t : Response} (h : r.Becomes o false t) : t.extraHeaders = r.extraHeaders := by
  induction h with
  | refl => rfl
  | tail _ hchange ih =>
    refine Eq.trans ?_ ih
    cases hchange with
    | quiet hquiet => exact hquiet.extraHeaders
    | extra hextra => cases hextra
    | send data sendMore metadata => exact send_extraHeaders _ data sendMore metadata

theorem setExtraHeader_extraHeaders (key : String) (value : PyVal) :
    (r.setExtraHeader key value).extraHeaders = r.extraHeaders.assign key value := (setHeader_quiet _ key value).extraHeaders

theorem sendError_extraHeaders (code : Int) (message : String) :
    (r.sendError o code message).extraHeaders = r.extraHeaders := (sendError_becomes r code message).extraHeaders

theorem flush_extraHeaders (r : Response) : (settled (r.flush o)).extraHeaders = r.extraHeaders :=
  (flush_becomes r).extraHeaders

theorem run_extraHeaders {ops : List Op} (h : ∀ op ∈ ops, op.setsExtra = false) :
    (settled (run o r ops)).extraHeaders = r.extraHeaders := by
  refine (run_becomes r fun op hop hextra => ?_).extraHeaders
  rw [h op hop] at hextra
  cases hextra

end Response

namespace Handled

variable {P : Type}

def etag (r : Handled P) : Option PyVal := r.response.extraHeaders.find "Etag"

end Handled

namespace Server

variable {P : Type} {q : Server P} {env : Tables} {o : Outside} {s : Store P} {c : HandlerClass P}
  {location : String} {request : Request} {h : Zmq.RequestHandler}

-- handleRequest sees a QgsServerResponse, which has no extra headers
def KeepsExtras (q : Server P) : Prop := ∀ request project, ∀ op ∈ q.handleRequest request project, op.setsExtra = false

theorem etag_ended (c : HandlerClass P) (r : Except Response Response) :
    (ended c r).etag = (Response.settled r).extraHeaders.find "Etag" := by
  cases r <;> rfl

theorem etag_setEtagHeader (q : Server P) (env : Tables) (uri : String) (t : ℤ) (request : Request) (r : Response)
    (h : r.extraHeaders.find "Etag" = none) :
    (q.setEtagHeader env uri t request r).2.extraHeaders.find "Etag" =
      (q.computeEtag env uri t request).map PyVal.str := by
  rw [setEtagHeader]
  cases q.computeEtag env uri t request with
  | none => exact h
  | some etag => simp [Response.setExtraHeader_extraHeaders, Dict.find_assign]

theorem etag_mapHeaders (q : Server P) (location : String) (t : ℤ) (id : Option PyVal) (r : Response) :
    (q.mapHeaders location t id r).extraHeaders.find "Etag" = r.extraHeaders.find "Etag" := by
  unfold mapHeaders
  simp only
  split <;> simp [Response.setExtraHeader_extraHeaders, Dict.find_assign]

theorem etag_onException (o : Outside) (c : HandlerClass P) (location : String) (r : Response) (e : CacheError) :
    (onException o c location r e).etag = r.extraHeaders.find "Etag" := by
  cases e <;> simp only [onException, Handled.etag, Response.sendError_extraHeaders]

theorem etag_serve (hq : q.KeepsExtras) (headers : Dict) (project : P) (t : ℤ) :
    (q.serve env o c headers true location request (.new h) project t).etag =
      (q.computeEtag env location t request).map PyVal.str := by
  have hset := etag_setEtagHeader q env location t request (q.mapHeaders location t (headers.find "X-Request-Id") (.new h))
    (etag_mapHeaders q location t _ _)
  simp only [serve, if_true]
  split
  · rw [etag_ended, ← hset, Response.finish, Response.flush_extraHeaders]
    exact congrArg (Dict.find · "Etag") (Response.setStatusCode_quiet _ 304).extraHeaders
  · rw [etag_ended, ← hset, Response.run_extraHeaders (hq request (some project))]

theorem etag_handleHead :
    (q.handleHead env o s c location request (.new h)).etag =
      ((c.cacheService.getModifiedTime env s location.toList false).1.toOption.bind fun t =>
        q.computeEtag env location t request).map PyVal.str := by
  rw [handleHead]
  cases ht : (c.cacheService.getModifiedTime env s location.toList false).1 with
  | error e => simp only [getModifiedTime, ht]; rfl
  | ok t =>
    simp only [getModifiedTime, ht]
    rw [etag_ended, Response.finish, Response.flush_extraHeaders]
    exact etag_setEtagHeader q env location t request _ rfl

def Tags (q : Server P) (env : Tables) (request : Request) : Prop :=
  q.etags = true ∧ env.lower (q.parameter request "REQUEST") = "getcapabilities".toList

theorem computeEtag_of_not_tags {request : Request} (h : ¬ q.Tags env request) (uri : String) (t : ℤ) :
    q.computeEtag env uri t request = none := if_neg h

theorem computeEtag_of_tags {request : Request} (h : q.Tags env request) (uri : String) (t : ℤ) :
    q.computeEtag env uri t request =
      some ("\"" ++ q.sha1 (env.lower (q.parameter request "SERVICE") ++
        env.lower (q.parameter request "VERSION") ++ uri.toList ++ q.isoformat t) ++ "\"") := if_pos h

theorem computeEtag_inj (hsha : Function.Injective q.sha1) (hiso : Function.Injective q.isoformat) {uri : String}
    {request : Request} (h : q.Tags env request) {t t' : ℤ} :
    q.computeEtag env uri t request = q.computeEtag env uri t' request ↔ t = t' := by
  refine ⟨fun heq => ?_, fun heq => heq ▸ rfl⟩
  rw [computeEtag_of_tags h, computeEtag_of_tags h, Option.some.injEq] at heq
  have hsum := String.ext_iff.mp heq
  simp only [String.toList_append, List.append_cancel_left_eq, List.append_cancel_right_eq] at hsum
  have hargs := hsha (String.ext_iff.mpr hsum)
  exact hiso (List.append_cancel_left hargs)

def servedTime (env : Tables) (s : Store P) (c : HandlerClass P) (key : Str) : Option ℤ :=
  (served env s c.cacheService key (c.cacheCheckInterval ≤ 0)).map fun d => withoutMicroseconds d.timestamp

inductive Looked (env : Tables) (s : Store P) (c : HandlerClass P) (key : Str) : Prop
  | failed (e : CacheError) (t : CacheManager P)
      (hlookup : cacheLookup env s c key = (.error e, { c with cacheService := t }))
      (hserved : served env s c.cacheService key (c.cacheCheckInterval ≤ 0) = none)
  | found (d : CacheDetails P) (u : UpdateState) (t : CacheManager P)
      (hlookup : cacheLookup env s c key = (.ok (d.project, u), { c with cacheService := t }))
      (hserved : served env s c.cacheService key (c.cacheCheckInterval ≤ 0) = some d)
      (hpeek : t.peek key none = some d)

theorem looked (env : Tables) (s : Store P) (c : HandlerClass P) (key : Str) : Looked env s c key := by
  rcases lookup_served env s c.cacheService key (c.cacheCheckInterval ≤ 0) with
    ⟨e, t, ht, hs⟩ | ⟨d, u, t, ht, hs, hd⟩
  · exact .failed e t (by simp only [cacheLookup, ht]) hs
  · exact .found d u t (by simp only [cacheLookup, ht]) hs (by simp only [CacheManager.peek, hd, Option.some_or])

theorem getModifiedTime_peek (env : Tables) (s : Store P) {t : CacheManager P} {key : Str} {d : CacheDetails P}
    (h : t.peek key none = some d) :
    t.getModifiedTime env s key true = (.ok (withoutMicroseconds d.timestamp), t) := by
  simp only [CacheManager.getModifiedTime, h, if_true]

theorem etag_handleQgisRequest (hq : q.KeepsExtras) (headers : Dict) :
    (q.handleQgisRequest env o s c headers true (some location) request (.new h)).etag =
      ((servedTime env s c location.toList).bind fun t => q.computeEtag env location t request).map PyVal.str := by
  cases looked env s c location.toList with
  | failed e t hlookup hserved =>
    simp only [handleQgisRequest, hlookup, servedTime, hserved, etag_onException]
    rfl
  | found d u t hlookup hserved hpeek =>
    have htime := getModifiedTime_peek env s hpeek
    simp only [handleQgisRequest, hlookup, servedTime, hserved, getModifiedTime]
    by_cases hu : u = .unchanged
    · simp only [hu, if_true, htime]
      exact etag_serve hq headers d.project _
    · simp only [hu, if_false, htime]
      exact etag_serve hq headers d.project _

end Server

def patch {A B : Type} [DecidableEq A] (a b : A) (x y : B) (f : A → B) (s : A) : B :=
  if s = a then x else if s = b then y else f s

theorem patch_injective {A B : Type} [DecidableEq A] {a b : A} {x y : B} {f : A → B} (hf : Function.Injective f)
    (hxy : x ≠ y) (hx : ∀ s, f s ≠ x) (hy : ∀ s, f s ≠ y) : Function.Injective (patch a b x y f) := by
  intro s t h
  unfold patch at h
  by_cases hsa : s = a
  · by_cases hta : t = a
    · rw [hsa, hta]
    · rw [if_pos hsa, if_neg hta] at h
      split at h
      · exact absurd h hxy
      · exact absurd h.symm (hx t)
  · by_cases hta : t = a
    · rw [if_neg hsa, if_pos hta] at h
      split at h
      · exact absurd h.symm hxy
      · exact absurd h (hx s)
    · rw [if_neg hsa, if_neg hta] at h
      by_cases hsb : s = b
      · by_cases htb : t = b
        · rw [hsb, htb]
        · rw [if_pos hsb, if_neg htb] at h
          exact absurd h.symm (hy t)
      · by_cases htb : t = b
        · rw [if_neg hsb, if_pos htb] at h
          exact absurd h (hy s)
        · rw [if_neg hsb, if_neg htb] at h
          exact hf h

def knownSha1 : Str → String :=
  patch "wmsa1970-01-01T00:00:00".toList "wmsa1970-01-01T00:00:01".toList "9121f0719f59886ea84a40475b117eed73d9a7a1"
    "f74e7bcebcc145d59eea1d04b0d3c44147bdfe1e" fun s => String.ofList ('x' :: s)

def knownIsoformat : ℤ → Str :=
  patch 0 1000000 "1970-01-01T00:00:00".toList "1970-01-01T00:00:01".toList fun t =>
    'x' :: List.replicate (Equiv.intEquivNat t) '+'

theorem knownSha1_injective : Function.Injective knownSha1 := by
  have hx : ∀ {d : String}, d.toList.head? ≠ some 'x' → ∀ s, String.ofList ('x' :: s) ≠ d := by
    rintro d hd s rfl
    exact hd (by simp)
  refine patch_injective (fun s t h => ?_) (by decide) (hx (by decide)) (hx (by decide))
  simpa using String.ofList_injective h

theorem knownIsoformat_injective : Function.Injective knownIsoformat := by
  refine patch_injective (fun t u h => ?_) (by decide) (by simp) (by simp)
  simpa using congrArg List.length h

def etagServer : Server ℤ where
  parameter := fun _ name =>
    if name = "REQUEST" then "GetCapabilities".toList else if name = "SERVICE" then "WMS".toList else []
  formatResponse := fun _ _ => ("text/xml", [])
  handleRequest := fun _ _ => [.write [60], .finish]
  defaultProjectLocation := none
  etags := true
  sha1 := knownSha1
  isoformat := knownIsoformat
  localIsoformat := fun _ => ""

theorem etagServer_keepsExtras : etagServer.KeepsExtras := by
  intro request project op hop
  rcases List.mem_pair.mp hop with rfl | rfl
  · rfl
  · rfl

def capabilitiesMessage (method : String) (headers : Dict) : Zmq.RequestHandler :=
  .new Pool.client1 (.bytes [1]) ⟨"SERVICE=WMS&REQUEST=GetCapabilities",
    ("X-Map-Location", .str "a") :: ("X-Ogc-Scheme", .str "OWS") :: headers, method, none⟩

def loadedClass (t : ℤ) : HandlerClass ℤ where
  cacheService := (Snapshot.start srvTable 0 : CacheManager ℤ).setLru "a".toList ⟨t, t⟩
  cacheCheckInterval := 60
  cacheLastCheck := 0
  removed := []

end Qgis
