import PyQgisServer.Qgis.Survival

namespace Qgis

open QgsCache Urllib Zmq Handlers

def Handles (s : Pool) (w : Frame) (r : Response) : Prop :=
  ∃ h, s.worker w = .handling h ∧
    { h with statusCode := r.handler.statusCode, headers := r.handler.headers } = r.handler

structure Apart (w : Frame) (s u : Pool) : Prop where
  broker : u.broker = s.broker
  turn : u.turn = s.turn
  down : u.down = s.down
  worker : ∀ v, v ≠ w → u.worker v = s.worker v

theorem Apart.refl (w : Frame) (s : Pool) : Apart w s s := ⟨rfl, rfl, rfl, fun _ _ => rfl⟩

theorem Apart.trans {w : Frame} {s u v : Pool} (h : Apart w s u) (h' : Apart w u v) : Apart w s v :=
  ⟨h'.broker.trans h.broker, h'.turn.trans h.turn, h'.down.trans h.down,
    fun x hx => (h'.worker x hx).trans (h.worker x hx)⟩

def works (w : Frame) : Pool → List Work → Option Pool := Transition.run fun s a => s.work w a

def Simulates (w : Frame) (r t : Response) : Prop :=
  ∃ out, t.sent = r.sent ++ out ∧ ∀ s, Handles s w r → ∃ acts u, works w s acts = some u ∧
    Handles u w t ∧ Apart w s u ∧ u.up = s.up ++ out.map fun msg => (w, msg)

section simulation

variable {w : Frame} {o : Outside}

theorem works_append {s u v : Pool} {as bs : List Work} (h : works w s as = some u)
    (h' : works w u bs = some v) : works w s (as ++ bs) = some v := by
  induction as generalizing s with
  | nil =>
    obtain rfl := Option.some.inj h
    exact h'
  | cons a as ih =>
    obtain ⟨t, ht, h⟩ := Option.bind_eq_some_iff.mp h
    exact Option.bind_eq_some_iff.mpr ⟨t, ht, ih h⟩

theorem Simulates.of_eq {r t : Response} (hs : t.sent = r.sent)
    (h : { r.handler with statusCode := t.handler.statusCode, headers := t.handler.headers } = t.handler) :
    Simulates w r t := by
  refine ⟨[], by rw [hs, List.append_nil], fun s ⟨k, hk, hkr⟩ => ⟨[], s, rfl, ⟨k, hk, ?_⟩, .refl w s, ?_⟩⟩
  · rw [← h, ← hkr]
  · simp

theorem Simulates.refl (r : Response) : Simulates w r r := .of_eq rfl rfl

theorem Simulates.trans {r t v : Response} (h : Simulates w r t) (h' : Simulates w t v) :
    Simulates w r v := by
  obtain ⟨out, hsent, h⟩ := h
  obtain ⟨out', hsent', h'⟩ := h'
  refine ⟨out ++ out', by rw [hsent', hsent, List.append_assoc], fun s hs => ?_⟩
  obtain ⟨as, u, hu, hhu, hapart, hup⟩ := h s hs
  obtain ⟨bs, x, hx, hhx, hapart', hup'⟩ := h' u hhu
  refine ⟨as ++ bs, x, works_append hu hx, hhx, hapart.trans hapart', ?_⟩
  rw [hup', hup, List.map_append, List.append_assoc]

def final : Except Response Response → Response
  | .ok r => r
  | .error r => r

theorem send_simulates (r : Response) (data : Bytes) (sendMore : Bool) (metadata : Option Dict) :
    Simulates w r (final (r.send o data sendMore metadata)) := by
  have hfinal : final (r.send o data sendMore metadata) = { r with
      handler := (r.handler.send data sendMore metadata (o.write r.writes)).handler
      sent := r.sent ++ (r.handler.send data sendMore metadata (o.write r.writes)).sent.toList.map
        r.handler.frames
      writes := r.writes + 1 } := by
    unfold Response.send
    simp only
    split <;> rfl
  rw [hfinal]
  have hframes {h : Zmq.RequestHandler} (hr : { h with
      statusCode := r.handler.statusCode, headers := r.handler.headers } = r.handler) :
      r.handler.frames = h.frames := by
    rw [← hr]
    rfl
  generalize hk : r.handler.send data sendMore metadata (o.write r.writes) = k
  refine ⟨_, rfl, fun s ⟨h, hh, hr⟩ => ?_⟩
  refine ⟨[.write r.handler.statusCode r.handler.headers data sendMore metadata (o.write r.writes)],
    (s.reply w h k.sent).goto w (.handling k.handler), ?_, ⟨k.handler, Pool.goto_self _ _ _, rfl⟩, ?_, ?_⟩
  · simp only [works, Transition.run, Pool.work, hh, hr, hk, Option.bind_some]
  · refine ⟨by simp, ?_, by simp, fun v hv => ?_⟩
    · cases k.sent <;> rfl
    · rw [Pool.goto_ne _ _ _ hv, Pool.reply_worker]
  · rw [hframes hr]
    cases k.sent <;> simp [Pool.reply]

theorem final_eq_settled (x : Except Response Response) : final x = Response.settled x := by
  cases x <;> rfl

theorem Response.Becomes.simulates {extra : Bool} {r t : Response} (h : r.Becomes o extra t) : Simulates w r t := by
  induction h with
  | refl => exact .refl r
  | tail _ hchange ih =>
    refine ih.trans ?_
    cases hchange with
    | quiet hquiet => exact .of_eq hquiet.sent hquiet.handler
    | extra _ headers => exact .of_eq rfl rfl
    | send data sendMore metadata =>
      rw [← final_eq_settled]
      exact send_simulates _ data sendMore metadata

theorem setExtraHeader_simulates (r : Response) (key : String) (value : PyVal) :
    Simulates w r (r.setExtraHeader key value) := by
  have hheader := Response.setHeader_quiet { r with extraHeaders := r.extraHeaders.assign key value } key value
  exact .of_eq hheader.sent hheader.handler

theorem sendError_simulates (r : Response) (code : Int) (message : String) :
    Simulates w r (r.sendError o code message) := by
  have hsent : r.Becomes o false (r.sendError o code message) := Response.sendError_becomes r code message
  exact hsent.simulates

theorem finish_simulates (r : Response) : Simulates w r (final (r.finish o)) := by
  have hfinished : r.Becomes o false (Response.settled (r.finish o)) := Response.finish_becomes r
  rw [final_eq_settled]
  exact hfinished.simulates

theorem run_simulates (r : Response) (ops : List Op) : Simulates w r (final (r.run o ops)) := by
  have hrun : r.Becomes o true (Response.settled (r.run o ops)) := Response.run_becomes r fun _ _ _ => rfl
  rw [final_eq_settled]
  exact hrun.simulates

theorem ended_response {P : Type} (c : HandlerClass P) (r : Except Response Response) :
    (Server.ended c r).response = final r := by
  cases r <;> rfl

theorem onException_simulates {P : Type} (c : HandlerClass P) (location : String) (r : Response)
    (e : CacheError) : Simulates w r (Server.onException o c location r e).response := by
  cases e with
  | strictChecking => exact sendError_simulates r 422 _
  | unreadableResource => exact sendError_simulates r 422 _
  | pathNotAllowed => exact sendError_simulates r 403 _
  | fileNotFound => exact sendError_simulates r 404 _
  | _ => exact .refl r

section server

variable {P : Type} {q : Server P} {env : Tables} {s : Store P}

theorem setEtagHeader_simulates (uri : String) (t : ℤ) (request : Request) (r : Response) :
    Simulates w r (q.setEtagHeader env uri t request r).2 := by
  unfold Server.setEtagHeader
  split
  · exact .refl r
  · exact setExtraHeader_simulates r "Etag" _

theorem mapHeaders_simulates (location : String) (t : ℤ) (id : Option PyVal) (r : Response) :
    Simulates w r (q.mapHeaders location t id r) := by
  unfold Server.mapHeaders
  simp only
  have hmap := (setExtraHeader_simulates (w := w) r "X-Map-Id" (.str location)).trans
    (setExtraHeader_simulates _ "Last-Modified" (.str (q.localIsoformat t)))
  split
  · exact hmap
  · exact hmap.trans (setExtraHeader_simulates _ "X-Request-Id" _)

theorem serve_simulates (c : HandlerClass P) (headers : Dict) (ows : Bool) (location : String)
    (request : Request) (r : Response) (project : P) (t : ℤ) :
    Simulates w r (q.serve env o c headers ows location request r project t).response := by
  obtain ⟨answer, hanswer, hserve | hserve⟩ := q.serve_cases env o
    (mapHeaders_simulates (w := w) location t (headers.find "X-Request-Id") r)
    (fun x hx => hx.trans (setEtagHeader_simulates location t request x)) c ows project
  · rw [hserve, ended_response]
    have hstatus := Response.setStatusCode_quiet answer 304
    exact (hanswer.trans (.of_eq hstatus.sent hstatus.handler)).trans (finish_simulates _)
  · rw [hserve, ended_response]
    exact hanswer.trans (run_simulates answer _)

theorem handleQgisRequest_simulates (c : HandlerClass P) (headers : Dict) (ows : Bool)
    (location : Option String) (request : Request) (r : Response) :
    Simulates w r (q.handleQgisRequest env o s c headers ows location request r).response := by
  unfold Server.handleQgisRequest
  split
  · rw [ended_response]
    exact run_simulates r _
  · split
    · exact onException_simulates _ _ r _
    · simp only
      split
      · exact onException_simulates _ _ r _
      · exact serve_simulates _ headers ows _ request r _ _

theorem handleHead_simulates (c : HandlerClass P) (location : String) (request : Request)
    (r : Response) : Simulates w r (q.handleHead env o s c location request r).response := by
  unfold Server.handleHead
  split
  · exact .refl r
  · rw [ended_response]
    exact (setEtagHeader_simulates location _ request r).trans (finish_simulates _)

theorem handleMessage_simulates (c : HandlerClass P) (h : Zmq.RequestHandler) :
    Simulates w (.new h) (q.handleMessage env o s c h).response := by
  unfold Server.handleMessage
  simp only
  split
  · exact .refl _
  · split
    · split
      · rw [Server.handleNoMap, ended_response]
        exact run_simulates _ _
      · exact handleQgisRequest_simulates ..
    · split
      · exact handleHead_simulates ..
      · exact handleQgisRequest_simulates ..
    · exact handleQgisRequest_simulates ..

theorem done_works {u : Pool} {k : Zmq.RequestHandler} (hk : u.worker w = .handling k)
    (broadcast : Option Broadcast) :
    ∃ acts v, works w u acts = some v ∧ Apart w u v ∧
      v.worker w = checkBroadcast broadcast .checking ∧ v.up = u.up := by
  have hdone : u.work w .done = some { u.goto w .checking with
      finished := u.finished ++ [(w, k.origin)]
      answered := if k.headerWritten then u.answered ++ [(w, k.origin)] else u.answered } := by
    simp only [Pool.work, hk]
  generalize hv : ({ u.goto w .checking with
      finished := u.finished ++ [(w, k.origin)]
      answered := if k.headerWritten then u.answered ++ [(w, k.origin)] else u.answered } : Pool) = v
    at hdone
  have hworker : v.worker w = .checking := by rw [← hv]; simp
  have hapart (l : Loop) : Apart w u (v.goto w l) := by
    refine ⟨by rw [← hv]; rfl, by rw [← hv]; rfl, by rw [← hv]; rfl, fun x hx => ?_⟩
    rw [Pool.goto_ne _ _ _ hx, ← hv]
    exact Pool.goto_ne _ _ _ hx
  by_cases hb : broadcast = some .restart
  · have hrestart : v.work w .restart = some (v.goto w (.leaving true)) := by
      simp only [Pool.work, hworker]
    refine ⟨[.done, .restart], v.goto w (.leaving true), ?_, hapart _, ?_, by rw [← hv]; rfl⟩
    · simp only [works, Transition.run, hdone, hrestart, Option.bind_some]
    · rw [Pool.goto_self, checkBroadcast, if_pos hb]
  · have hnext : v.work w .next = some (v.goto w .top) := by
      simp only [Pool.work, hworker]
    refine ⟨[.done, .next], v.goto w .top, ?_, hapart _, ?_, by rw [← hv]; rfl⟩
    · simp only [works, Transition.run, hdone, hnext, Option.bind_some]
    · rw [Pool.goto_self, checkBroadcast, if_neg hb]

def internalError (h : Zmq.RequestHandler) : Frame :=
  .pickle (.reply ⟨500, h.headers, workerInternalError, none⟩)

theorem fail_works {u : Pool} {h : Zmq.RequestHandler} (hk : u.worker w = .handling h)
    (hw : h.headerWritten = false) :
    ∃ v, works w u [.fail] = some v ∧ Apart w u v ∧ v.worker w = .leaving false ∧
      v.up = u.up ++ [(w, h.frames (internalError h))] := by
  have hfail : u.work w .fail = some { (u.reply w h (some (internalError h))).goto w (.leaving false) with
      finished := u.finished ++ [(w, h.origin)]
      answered := u.answered ++ [(w, h.origin)] } := by
    simp only [Pool.work, hk, hw, Bool.false_eq_true, if_false]
    rfl
  generalize hv : ({ (u.reply w h (some (internalError h))).goto w (.leaving false) with
      finished := u.finished ++ [(w, h.origin)]
      answered := u.answered ++ [(w, h.origin)] } : Pool) = v at hfail
  refine ⟨v, by simp only [works, Transition.run, hfail, Option.bind_some], ?_, ?_, ?_⟩
  · rw [← hv]
    exact ⟨rfl, rfl, rfl, fun x hx => Pool.goto_ne _ _ _ hx⟩
  · rw [← hv]
    exact Pool.goto_self _ _ _
  · rw [← hv]
    rfl

theorem escaped_sent (ho : o.Works) {broadcast : Option Broadcast} {h : Zmq.RequestHandler}
    (hw : h.headerWritten = false) {c : HandlerClass P} (now done : ℚ)
    (he : (q.handleMessage env o s c h).Escaped (.new h)) :
    (runTurn q env o s broadcast now done c h).sent = [h.frames (internalError h)] := by
  have hanswer : (answerError o (q.handleMessage env o s c h)).1.sent =
      [h.frames (internalError h)] := by
    unfold answerError
    split
    · rename_i hr
      exact absurd hr he.raised
    · rw [he.response]
      simp only [Response.new, Response.setStatusCode, Response.send, RequestHandler.send, hw, ho.write]
      rfl
  exact hanswer

theorem turn_simulated (hq : q.Finishes) (ho : o.Works) {h : Zmq.RequestHandler}
    (ht : TextHeaders h.request.headers) (hw : h.headerWritten = false) {p : Pool}
    (hp : p.worker w = .handling h) (broadcast : Option Broadcast) (now done : ℚ)
    (c : HandlerClass P) :
    ∃ acts u, works w p acts = some u ∧ Apart w p u ∧
      u.worker w = (runTurn q env o s broadcast now done c h).loop ∧
      u.up = p.up ++ (runTurn q env o s broadcast now done c h).sent.map fun msg => (w, msg) := by
  by_cases hc : Handleable q env s c h.request
  · have ha := handleMessage_handleable hq ho ht hw hc
    obtain ⟨out, hsent, hsim⟩ := handleMessage_simulates (q := q) (o := o) (s := s) (w := w) c h
    obtain ⟨acts, u, hu, ⟨k, hk, -⟩, hapart, hup⟩ := hsim p ⟨h, hp, rfl⟩
    obtain ⟨bs, v, hv, hapart', hworker, hup'⟩ := done_works hk broadcast
    refine ⟨acts ++ bs, v, works_append hu hv, hapart.trans hapart', ?_, ?_⟩
    · simp only [runTurn, answerError, ha.raised]
      exact hworker
    · simp only [runTurn, answerError, ha.raised]
      rw [hup', hup, hsent]
      rfl
  · have he := handleMessage_not_handleable (o := o) ht hc
    obtain ⟨u, hu, hapart, hworker, hup⟩ := fail_works hp hw
    refine ⟨[.fail], u, hu, hapart, ?_, ?_⟩
    · rw [escaped_leaves hw now done he]
      exact hworker
    · rw [escaped_sent ho hw now done he]
      exact hup

end server

end simulation

end Qgis
