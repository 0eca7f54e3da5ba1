import PyQgisServer.Qgis.Etag

namespace Qgis

open QgsCache Urllib Zmq

def Op.Keeps (k : String) : Op → Prop
  | .setHeader key _ | .setExtraHeader key _ | .removeHeader key => key ≠ k
  | _ => True

def Free (k : String) : Prop := k ≠ "Content-Length" ∧ k ≠ "Content-Type"

namespace Response

structure Labelled (k : String) (v : PyVal) (r : Response) : Prop where
  extra : r.extraHeaders.find k = some v
  pending : r.handler.headerWritten = false → r.handler.headers.find k = some v
  sent : ∀ c i m, [c, i, .pickle (.reply m)] ∈ r.sent → m.headers.find k = some v

section labelled

variable {o : Outside} {k : String} {v : PyVal} {r t : Response}

theorem Labelled.of_headers (h : r.Labelled k v) (hextra : t.extraHeaders = r.extraHeaders)
    (hwritten : t.handler.headerWritten = r.handler.headerWritten) (hsent : t.sent = r.sent)
    (hfind : t.handler.headers.find k = r.handler.headers.find k) : t.Labelled k v where
  extra := hextra ▸ h.extra
  pending := fun hw => hfind.trans (h.pending (hwritten ▸ hw))
  sent := fun c i m hm => h.sent c i m (hsent ▸ hm)

theorem send_headers (h : Zmq.RequestHandler) (data : Bytes) (sendMore : Bool) (metadata : Option Dict) (ok : Bool) :
    (h.send data sendMore metadata ok).handler.headers = h.headers ∧
      (h.headerWritten = true → (h.send data sendMore metadata ok).handler.headerWritten = true) ∧
      ∀ m, (h.send data sendMore metadata ok).sent = some (.pickle (.reply m)) →
        h.headerWritten = false ∧ m.headers = h.headers := by
  unfold RequestHandler.send
  cases hw : h.headerWritten with
  | false =>
    simp only [Bool.not_false, if_true]
    split
    · split
      · exact ⟨rfl, fun hf => absurd hf Bool.false_ne_true, by simp +contextual [eq_comm]⟩
      · exact ⟨rfl, fun hf => absurd hf Bool.false_ne_true, by simp⟩
    · split
      · exact ⟨rfl, fun hf => absurd hf Bool.false_ne_true, by simp +contextual [eq_comm]⟩
      · exact ⟨rfl, fun hf => absurd hf Bool.false_ne_true, by simp⟩
  | true =>
    simp only [Bool.not_true, Bool.false_eq_true, if_false]
    split
    · split
      · split
        · exact ⟨rfl, fun _ => rfl, by simp⟩
        · exact ⟨rfl, fun _ => hw, by simp⟩
      · exact ⟨rfl, fun _ => hw, by simp⟩
    · exact ⟨rfl, fun _ => hw, by simp⟩

theorem Labelled.send (h : r.Labelled k v) (data : Bytes) (sendMore : Bool) (metadata : Option Dict) :
    (settled (r.send o data sendMore metadata)).Labelled k v := by
  obtain ⟨hheaders, hwritten, hreply⟩ := send_headers r.handler data sendMore metadata (o.write r.writes)
  have hlabelled : ({ r with
      handler := (r.handler.send data sendMore metadata (o.write r.writes)).handler,
      sent := r.sent ++ (r.handler.send data sendMore metadata (o.write r.writes)).sent.toList.map r.handler.frames,
      writes := r.writes + 1 } : Response).Labelled k v := by
    refine ⟨h.extra, fun hw => ?_, fun c i m hm => ?_⟩
    · refine (congrArg (Dict.find · k) hheaders).trans (h.pending ?_)
      cases hbefore : r.handler.headerWritten with
      | false => rfl
      | true => exact absurd hw (by rw [hwritten hbefore]; exact Bool.noConfusion)
    · rcases List.mem_append.mp hm with hm | hm
      · exact h.sent c i m hm
      · obtain ⟨data, hdata, hframes⟩ := List.mem_map.mp hm
        simp only [RequestHandler.frames, List.cons.injEq, and_true] at hframes
        obtain ⟨-, -, rfl⟩ := hframes
        obtain ⟨hfalse, hm⟩ := hreply m (Option.mem_toList.mp hdata)
        rw [hm]
        exact h.pending hfalse
  rw [Response.send]
  split
  · exact hlabelled
  · exact hlabelled

theorem Labelled.setStatusCode (h : r.Labelled k v) (code : Int) : (r.setStatusCode code).Labelled k v := by
  rw [Response.setStatusCode]
  split
  · exact h
  · exact h.of_headers rfl rfl rfl rfl

theorem Labelled.setHeader (h : r.Labelled k v) {key : String} (hkey : key ≠ k) (value : PyVal) :
    (r.setHeader key value).Labelled k v := by
  rw [Response.setHeader]
  split
  · exact h
  · exact h.of_headers rfl rfl rfl ((Dict.find_assign ..).trans (if_neg (Ne.symm hkey)))

theorem Labelled.setExtraHeader (h : r.Labelled k v) {key : String} (hkey : key ≠ k) (value : PyVal) :
    (r.setExtraHeader key value).Labelled k v := by
  refine Labelled.setHeader (r := { r with extraHeaders := r.extraHeaders.assign key value }) ?_ hkey value
  exact ⟨((Dict.find_assign ..).trans (if_neg (Ne.symm hkey))).trans h.extra, h.pending, h.sent⟩

theorem Labelled.removeHeader (h : r.Labelled k v) {key : String} (hkey : key ≠ k) :
    (r.removeHeader key).Labelled k v :=
  h.of_headers rfl rfl rfl (Dict.find_remove_ne _ _ (Ne.symm hkey))

theorem Labelled.truncate (h : r.Labelled k v) : r.truncate.Labelled k v := h.of_headers rfl rfl rfl rfl

theorem Labelled.clear (h : r.Labelled k v) : r.clear.Labelled k v := ⟨h.extra, fun _ => h.extra, h.sent⟩

theorem Labelled.sendError (h : r.Labelled k v) (code : Int) (message : String) :
    (r.sendError o code message).Labelled k v := by
  have hsend := (h.setStatusCode code).send (o := o) (encode message) false none
  rw [Response.sendError]
  split
  · exact h
  · cases hs : (r.setStatusCode code).send o (encode message) false none with
    | ok t =>
      rw [hs] at hsend
      exact hsend.of_headers rfl rfl rfl rfl
    | error t =>
      rw [hs] at hsend
      exact hsend

theorem Labelled.setContentLength (h : r.Labelled k v) (hk : Free k) : r.setContentLength.Labelled k v := by
  rw [Response.setContentLength]
  split
  · exact h.of_headers rfl rfl rfl ((Dict.find_assign ..).trans (if_neg hk.1))
  · exact h

theorem Labelled.tryFlush (h : r.Labelled k v) (hk : Free k) : (settled (r.tryFlush o)).Labelled k v := by
  have hreport : ({ r with reports := r.reports + 1 } : Response).Labelled k v := h.of_headers rfl rfl rfl rfl
  cases hm : o.report r.reports with
  | none =>
    simp only [Response.tryFlush, hm]
    exact hreport
  | some metadata =>
    have hsend := (hreport.setContentLength hk).send (o := o) r.buffer (!r.finished || r.handler.headerWritten) metadata
    simp only [Response.tryFlush, hm]
    cases hs : ({ r with reports := r.reports + 1 } : Response).setContentLength.send o r.buffer
        (!r.finished || r.handler.headerWritten) metadata with
    | error t =>
      rw [hs] at hsend
      exact hsend
    | ok t =>
      rw [hs] at hsend
      have htruncate : t.truncate.Labelled k v := hsend.truncate
      simp only
      split
      · exact htruncate.send [] false metadata
      · exact htruncate

theorem Labelled.flush (h : r.Labelled k v) (hk : Free k) : (settled (r.flush o)).Labelled k v := by
  have hflush := h.tryFlush (o := o) hk
  rw [Response.flush]
  cases ht : r.tryFlush o with
  | ok t =>
    rw [ht] at hflush
    exact hflush
  | error t =>
    rw [ht] at hflush
    simp only
    cases t.handler.headers.find "Content-Type" with
    | none => exact hflush
    | some value =>
      have hremoved : (t.removeHeader "Content-Type").Labelled k v := Labelled.removeHeader hflush (Ne.symm hk.2)
      exact hremoved.sendError 500 "Internal server error"

theorem Labelled.finish (h : r.Labelled k v) (hk : Free k) : (settled (r.finish o)).Labelled k v :=
  Labelled.flush (r := { r with finished := true }) (h.of_headers rfl rfl rfl rfl) hk

theorem Labelled.apply (h : r.Labelled k v) (hk : Free k) {op : Op} (hop : op.Keeps k) :
    (settled (r.apply o op)).Labelled k v := by
  cases op with
  | write data => exact h.of_headers rfl rfl rfl rfl
  | flush => exact h.flush hk
  | finish => exact h.finish hk
  | clear => exact h.clear
  | truncate => exact h.truncate
  | setStatusCode code => exact h.setStatusCode code
  | setHeader key value => exact h.setHeader hop value
  | setExtraHeader key value => exact h.setExtraHeader hop value
  | removeHeader key => exact h.removeHeader hop
  | sendError code message => exact h.sendError code message

theorem Labelled.run (h : r.Labelled k v) (hk : Free k) {ops : List Op} (hops : ∀ op ∈ ops, op.Keeps k) :
    (settled (r.run o ops)).Labelled k v := by
  induction ops generalizing r with
  | nil => exact h
  | cons op ops ih =>
    obtain ⟨hop, hops⟩ := List.forall_mem_cons.mp hops
    have happly := h.apply (o := o) hk hop
    rw [Response.run]
    cases ht : r.apply o op with
    | ok t =>
      rw [ht] at happly
      exact ih happly hops
    | error t =>
      rw [ht] at happly
      exact happly

theorem setExtraHeader_labelled (hwritten : r.handler.headerWritten = false) (hsent : r.sent = []) (k : String)
    (v : PyVal) : (r.setExtraHeader k v).Labelled k v ∧
      (r.setExtraHeader k v).handler.headerWritten = false ∧ (r.setExtraHeader k v).sent = [] := by
  have hset : r.setExtraHeader k v = { r with
      extraHeaders := r.extraHeaders.assign k v,
      handler := { r.handler with headers := r.handler.headers.assign k v } } := by
    rw [Response.setExtraHeader, Response.setHeader, if_neg (by simp [hwritten])]
  rw [hset]
  refine ⟨⟨(Dict.find_assign ..).trans (if_pos rfl), fun _ => (Dict.find_assign ..).trans (if_pos rfl), ?_⟩,
    hwritten, hsent⟩
  simp only [hsent]
  exact fun c i m hm => absurd hm List.not_mem_nil

end labelled

end Response

namespace Server

section labels

variable {P : Type}

def labels (q : Server P) (location : String) (lastModified : ℤ) (requestId : Option PyVal) : Dict :=
  ("X-Map-Id", .str location) :: ("Last-Modified", .str (q.localIsoformat lastModified)) ::
    ((located requestId).map fun id => ("X-Request-Id", PyVal.str id)).toList

def Keeps (labels : Dict) (op : Op) : Prop := ∀ x ∈ labels, op.Keeps x.1

def Labelled (labels : Dict) (r : Response) : Prop := ∀ x ∈ labels, r.Labelled x.1 x.2

variable {q : Server P} {env : Tables} {o : Outside} {s : Store P} {c : HandlerClass P} {h : Zmq.RequestHandler}
  {location : String} {request : Request} {labels : Dict}

theorem labels_free (q : Server P) (location : String) (t : ℤ) (id : Option PyVal) :
    ∀ x ∈ q.labels location t id, Free x.1 ∧ x.1 ≠ "Etag" := by
  rw [Server.labels]
  cases located id with
  | none => simp [Free]
  | some id => simp [Free]

theorem mapHeaders_labelled (hfresh : h.headerWritten = false) (location : String) (t : ℤ) (id : Option PyVal) :
    Labelled (q.labels location t id) (q.mapHeaders location t id (.new h)) := by
  obtain ⟨hmap, hwritten, hsent⟩ := Response.setExtraHeader_labelled (r := .new h) hfresh rfl "X-Map-Id" (.str location)
  obtain ⟨htime, hwritten', hsent'⟩ := Response.setExtraHeader_labelled hwritten hsent "Last-Modified"
    (.str (q.localIsoformat t))
  have hmap' := hmap.setExtraHeader (by decide : "Last-Modified" ≠ "X-Map-Id") (.str (q.localIsoformat t))
  rw [mapHeaders, Server.labels]
  cases located id with
  | none => simpa [Labelled] using ⟨hmap', htime⟩
  | some id =>
    obtain ⟨hid, -, -⟩ := Response.setExtraHeader_labelled hwritten' hsent' "X-Request-Id" (.str id)
    have hmap'' := hmap'.setExtraHeader (by decide : "X-Request-Id" ≠ "X-Map-Id") (.str id)
    have htime' := htime.setExtraHeader (by decide : "X-Request-Id" ≠ "Last-Modified") (.str id)
    simpa [Labelled] using ⟨hmap'', htime', hid⟩

theorem setEtagHeader_labelled {r : Response} (hr : Labelled labels r) (hetag : ∀ x ∈ labels, x.1 ≠ "Etag")
    (uri : String) (t : ℤ) (request : Request) : Labelled labels (q.setEtagHeader env uri t request r).2 := by
  rw [setEtagHeader]
  cases q.computeEtag env uri t request with
  | none => exact hr
  | some etag => exact fun x hx => (hr x hx).setExtraHeader (Ne.symm (hetag x hx)) _

theorem ended_response (r : Except Response Response) : (ended c r).response = Response.settled r := by
  cases r <;> rfl

theorem answerError_labelled {r : Handled P} {k : String} {v : PyVal} (hr : r.response.Labelled k v) :
    (answerError o r).1.Labelled k v := by
  have hsend := (hr.setStatusCode 500).send (o := o) workerInternalError false none
  rw [answerError]
  cases r.raised with
  | none => exact hr
  | some e =>
    simp only
    split
    · exact hr
    · cases hs : (r.response.setStatusCode 500).send o workerInternalError false none with
      | ok t =>
        rw [hs] at hsend
        exact hsend
      | error t =>
        rw [hs] at hsend
        exact hsend

theorem serve_labelled (hfresh : h.headerWritten = false) (headers : Dict) (ows : Bool) (project : P) (t : ℤ)
    (hkeeps : ∀ op ∈ q.handleRequest request (some project),
      Keeps (q.labels location t (headers.find "X-Request-Id")) op) (c : HandlerClass P) :
    Labelled (q.labels location t (headers.find "X-Request-Id"))
      (q.serve env o c headers ows location request (.new h) project t).response := by
  have hfree := q.labels_free location t (headers.find "X-Request-Id")
  obtain ⟨answer, hanswer, hserve | hserve⟩ := q.serve_cases env o
    (mapHeaders_labelled hfresh location t (headers.find "X-Request-Id"))
    (fun r hr => setEtagHeader_labelled hr (fun x hx => (hfree x hx).2) location t request) c ows project
  · rw [hserve, ended_response]
    exact fun x hx => ((hanswer x hx).setStatusCode 304).finish (hfree x hx).1
  · rw [hserve, ended_response]
    exact fun x hx => (hanswer x hx).run (hfree x hx).1 fun op hop => hkeeps op hop x hx

theorem handleQgisRequest_labelled (hfresh : h.headerWritten = false) (headers : Dict) (ows : Bool) {d : CacheDetails P}
    (hserved : served env s c.cacheService location.toList (c.cacheCheckInterval ≤ 0) = some d)
    (hkeeps : ∀ op ∈ q.handleRequest request (some d.project),
      Keeps (q.labels location (withoutMicroseconds d.timestamp) (headers.find "X-Request-Id")) op) :
    Labelled (q.labels location (withoutMicroseconds d.timestamp) (headers.find "X-Request-Id"))
      (q.handleQgisRequest env o s c headers ows (some location) request (.new h)).response := by
  cases looked env s c location.toList with
  | failed e t hlookup hnone =>
    rw [hnone] at hserved
    cases hserved
  | found d' u t hlookup hserved' hpeek =>
    obtain rfl := Option.some.inj (hserved'.symm.trans hserved)
    have htime := getModifiedTime_peek env s hpeek
    simp only [handleQgisRequest, hlookup, getModifiedTime]
    by_cases hu : u = .unchanged
    · simp only [hu, if_true, htime]
      exact serve_labelled hfresh headers ows d'.project _ hkeeps _
    · simp only [hu, if_false, htime]
      exact serve_labelled hfresh headers ows d'.project _ hkeeps _

theorem served_answers_are_labelled (q : Server P) (env : Tables) (o : Outside) (s : Store P)
    (broadcast : Option Broadcast) (now done : ℚ) (hfresh : h.headerWritten = false)
    (hinit : Request.init h.request = .ok request) (hlocation : q.projectLocation h.request.headers = some location)
    (hmethod : ¬ (h.request.headers.find "X-Ogc-Scheme" = some (.str "OWS") ∧ request.method = .head))
    {d : CacheDetails P} (hserved : served env s c.cacheService location.toList (c.cacheCheckInterval ≤ 0) = some d)
    (hkeeps : ∀ op ∈ q.handleRequest request (some d.project),
      Keeps (q.labels location (withoutMicroseconds d.timestamp) (h.request.headers.find "X-Request-Id")) op) :
    ∀ i j m, [i, j, .pickle (.reply m)] ∈ (runTurn q env o s broadcast now done c h).sent →
      ∀ x ∈ q.labels location (withoutMicroseconds d.timestamp) (h.request.headers.find "X-Request-Id"),
        m.headers.find x.1 = some x.2 := by
  intro i j m hm x hx
  have hlabelled : Labelled (q.labels location (withoutMicroseconds d.timestamp)
      (h.request.headers.find "X-Request-Id")) (q.handleMessage env o s c h).response := by
    simp only [handleMessage, hinit, hlocation]
    cases hows : h.request.headers.find "X-Ogc-Scheme" == some (PyVal.str "OWS") with
    | false => exact handleQgisRequest_labelled hfresh _ _ hserved hkeeps
    | true =>
      have hget : ¬ request.method = .head := fun hhead => hmethod ⟨by simpa using hows, hhead⟩
      simp only [if_neg hget]
      exact handleQgisRequest_labelled hfresh _ _ hserved hkeeps
  exact (answerError_labelled (hlabelled x hx)).sent i j m hm

end labels

-- what QGIS Server has set is cleared before the answer is written
def clearing : Server ℤ :=
  { etagServer with handleRequest := fun _ _ =>
      [.setHeader "Content-Type" (.str "text/xml"), .clear, .write [60], .finish] }

def clearedReply : ReplyMessage :=
  ⟨200, [("X-Map-Id", .str "a"), ("Last-Modified", .str ""), ("X-Request-Id", .str "r1"),
    ("Etag", .str "\"9121f0719f59886ea84a40475b117eed73d9a7a1\""), ("Content-Length", .int 1)], [60], none⟩

theorem served_answers_are_labelled_cleared :
    [Pool.client1, .bytes [1], .pickle (.reply clearedReply)] ∈
        (runTurn clearing asciiTables working (Snapshot.dated 0).toStore none 0 0 (loadedClass 0)
          (capabilitiesMessage "GET" [("X-Request-Id", .str "r1")])).sent ∧
      clearedReply.headers.find "X-Request-Id" = some (.str "r1") := by
  have hsent : [Pool.client1, .bytes [1], .pickle (.reply clearedReply)] ∈
      (runTurn clearing asciiTables working (Snapshot.dated 0).toStore none 0 0 (loadedClass 0)
        (capabilitiesMessage "GET" [("X-Request-Id", .str "r1")])).sent := by decide
  have hserved : served asciiTables (Snapshot.dated 0).toStore (loadedClass 0).cacheService "a".toList true =
      some ⟨0, 0⟩ := by decide
  refine ⟨hsent, served_answers_are_labelled clearing asciiTables working (Snapshot.dated 0).toStore none 0 0
    rfl rfl (by rfl) (by decide) hserved ?_ _ _ _ hsent
    ("X-Request-Id", .str "r1") ?_⟩
  · intro op hop x hx
    have hlabels : x.1 ∈ ["X-Map-Id", "Last-Modified", "X-Request-Id"] := List.mem_map_of_mem hx
    rcases List.mem_cons.mp hop with rfl | hop
    · intro hkey
      simp [← hkey] at hlabels
    · simp only [List.mem_cons, List.not_mem_nil, or_false] at hop
      rcases hop with rfl | rfl | rfl <;> trivial
  · decide

end Server

end Qgis
