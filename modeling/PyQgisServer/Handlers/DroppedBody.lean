import PyQgisServer.Handlers.RoundTrip

namespace Handlers

open Zmq Qgis

def timesOut (k : AsyncClient) (m : Frame) (frames : List Frame) : Bool :=
  match (k.receive m frames).responses m with
  | some a => a.future == .pending || (a.status == 206 && (fetchMore a.chunks).2)
  | none => true

def serverBusy : String := "Server busy, please retry later"

section outcomes

variable {t : Tornado} {reply : ReplyMessage} {cors : Dict}

theorem single_in_time (h : reply.status ≠ 206) (k : AsyncClient) (m : Frame) (frames : List Frame) :
    timesOut k m (.pickle (.reply reply) :: frames) = false := by
  rw [timesOut, (AsyncClient.receive_single h k m frames).1]
  simp [h]

variable (cors) (ht : t.Documented) (p : Prelude) (method : String) (req : HttpRequest) (k : AsyncClient)
  (m : Frame) (frames : List Frame)
include ht

theorem refused_outcome (hstream : reply.status ≠ 206) (hbusy : reply.status ≠ 509)
    (hbodiless : bodiless reply.status = true) (hdata : reply.data ≠ []) :
    ∃ r, outcome t cors p method req k m (.pickle (.reply reply) :: frames) = some r ∧ r.status = 500 := by
  obtain ⟨hstatus, -, hbody⟩ := sent_replyCalls (reply.headers ++ cors) reply.status reply.data
  refine ⟨_, outcome_single hstream hbusy p method req k m frames, ?_⟩
  apply ht.refusesBody
  · exact replyCalls_noError _ _ _
  · exact flush_notMem_replyCalls _ _ _
  · rw [hstatus]
    exact hbodiless
  · rw [hbody]
    exact hdata

theorem empty_outcome (hstream : reply.status ≠ 206) (hbusy : reply.status ≠ 509)
    (hbodiless : bodiless reply.status = true) (hfits : t.fits (reply.headers ++ cors) reply.data = true)
    (hdata : reply.data = []) :
    ∃ r, outcome t cors p method req k m (.pickle (.reply reply) :: frames) = some r ∧ r.status = reply.status ∧
      r.body = [] := by
  obtain ⟨hstatus, hheaders, hbody⟩ := sent_replyCalls (reply.headers ++ cors) reply.status reply.data
  refine ⟨_, outcome_single hstream hbusy p method req k m frames, ?_⟩
  obtain ⟨hs, hb⟩ := ht.sendsEmpty _ (replyCalls_noError (reply.headers ++ cors) reply.status reply.data)
    (by rw [hheaders, hbody]; exact hfits) (by rw [hstatus]; exact hbodiless) (hbody.trans hdata)
  exact ⟨hs.trans hstatus, hb⟩

theorem busy_outcome (h : reply.status = 509) (hfits : t.fits (reply.headers ++ cors) reply.data = true) :
    ∃ r, outcome t cors p method req k m (.pickle (.reply reply) :: frames) = some r ∧ r.status = 509 ∧
      r.body = writeError 509 serverBusy := by
  have hstream : reply.status ≠ 206 := by
    rw [h]
    decide
  rw [outcome, (AsyncClient.receive_single hstream k m frames).1]
  simp only [fetchResult, Option.bind_some, Option.map_some, handleRequest]
  rw [calls_respond_busy _ _ _ h]
  refine ⟨_, rfl, ht.sendsError _ 509 serverBusy reply.data ?_ ?_ ?_⟩
  · simp [Call.isError]
  · simp
  · rw [sentHeaders_headers]
    exact hfits

end outcomes

def NoBodyDropped (t : Tornado) (cors : Dict) (p : Prelude) (method : String) (req : HttpRequest)
    (k : AsyncClient) (m : Frame) (frames : List Frame) (status : Int) (body : Bytes) : Prop :=
  (∃ r, outcome t cors p method req k m frames = some r ∧ r.status = status ∧ r.body = body) ∧
    timesOut k m frames = false

def KeepsBody (status : Int) (ops : List Op) : Prop :=
  status ≠ 206 ∧
    if status = 509 then written ops = writeError 509 serverBusy
    else written ops = bodyAtFlush ops ∧ (bodiless status = true → written ops = [])

section single

variable {t : Tornado} {reply : ReplyMessage} {cors : Dict} (ht : t.Documented) (h206 : reply.status ≠ 206)
  (hfits : t.fits (reply.headers ++ cors) reply.data = true) (p : Prelude) (method : String) (req : HttpRequest)
  (k : AsyncClient) (m : Frame) (frames : List Frame) (body : Bytes)
include ht h206 hfits

omit ht h206 hfits in
theorem noBodyDropped_iff {r : Received} {status : Int}
    (hr : outcome t cors p method req k m frames = some r) (hintime : timesOut k m frames = false) :
    NoBodyDropped t cors p method req k m frames status body ↔ r.status = status ∧ r.body = body := by
  constructor
  · rintro ⟨⟨r', hr', hkept⟩, -⟩
    rw [hr] at hr'
    obtain rfl := Option.some.inj hr'
    exact hkept
  · exact fun hkept => ⟨⟨r, hr, hkept⟩, hintime⟩

theorem busy_noBodyDropped_iff (h : reply.status = 509) :
    NoBodyDropped t cors p method req k m (.pickle (.reply reply) :: frames) reply.status body ↔
      body = writeError 509 serverBusy := by
  obtain ⟨r, hr, hstatus, hbody⟩ := busy_outcome cors ht p method req k m frames h hfits
  rw [noBodyDropped_iff p method req k m _ body hr (single_in_time h206 k m frames),
    and_iff_right (hstatus.trans h.symm), hbody, eq_comm]

theorem single_noBodyDropped_iff (hbusy : reply.status ≠ 509) :
    NoBodyDropped t cors p method req k m (.pickle (.reply reply) :: frames) reply.status body ↔
      body = reply.data ∧ (bodiless reply.status = true → body = []) := by
  have hintime := single_in_time h206 k m frames
  cases hbodiless : bodiless reply.status with
  | false =>
    have hout := single_outcome ht h206 hbusy hbodiless hfits p method req k m frames
    rw [noBodyDropped_iff p method req k m _ body hout hintime]
    simp [eq_comm]
  | true =>
    by_cases hdata : reply.data = []
    · obtain ⟨r, hr, hstatus, hbody⟩ :=
        empty_outcome cors ht p method req k m frames h206 hbusy hbodiless hfits hdata
      rw [noBodyDropped_iff p method req k m _ body hr hintime, and_iff_right hstatus, hbody, hdata]
      simp [eq_comm]
    · obtain ⟨r, hr, hstatus⟩ := refused_outcome cors ht p method req k m frames h206 hbusy hbodiless hdata
      rw [noBodyDropped_iff p method req k m _ body hr hintime, hstatus]
      constructor
      · rintro ⟨hrs, -⟩
        rw [← hrs] at hbodiless
        exact absurd hbodiless (by decide)
      · rintro ⟨rfl, hempty⟩
        exact absurd (hempty rfl) hdata

end single

theorem answerHeaders_fits_head {t : Tornado} (ht : t.Documented) {headers cors : Dict} {ops : List Op}
    (h : t.fits (headersAtFlush headers ops ++ cors) (bodyAtFlush ops) = true) :
    t.fits (answerHeaders headers ops (written ops) ++ cors) (bodyAtFlush ops) = true := by
  cases hflush : ops.any Op.flushes with
  | false =>
    rw [← bodyAtFlush_of_single hflush]
    exact answerHeaders_fits ht h
  | true =>
    rw [answerHeaders, if_neg (by simp [hflush])]
    exact h

theorem sentAs_of_ne {status : Int} (h : status ≠ 200) (sendMore : Bool) : sentAs sendMore status = status := by
  simp [sentAs, h]

section kept

variable {o : Outside} {t : Tornado} {h : RequestHandler} {ops : List Op} {cors : Dict}

theorem streamed_body_dropped (ht : t.Documented)
    (hbody : t.fits (headersAtFlush h.headers ops ++ cors) (written ops) = true) (p : Prelude) (method : String)
    (req : HttpRequest) (k : AsyncClient) (m : Frame) {reply : ReplyMessage} {cs : List Chunk}
    (hanswered : Answered h [] ops reply cs) (h206 : reply.status = 206) :
    ¬ NoBodyDropped t cors p method req k m (.pickle (.reply reply) :: cs.map Chunk.frame) 206 (written ops) := by
  have hwhole : _ = written ops := hanswered.body h206
  have hheaders : reply.headers = answerHeaders h.headers ops (written ops) := hanswered.headers
  have hfits := answerHeaders_fits ht hbody
  rw [← hheaders, ← hwhole] at hfits
  rintro ⟨⟨r, hr, hrs, -⟩, -⟩
  rw [stream_outcome ht h206 hfits p method req k m] at hr
  obtain rfl := Option.some.inj hr
  exact absurd (show (200 : Int) = 206 from hrs) (by decide)

theorem answered_noBodyDropped_iff (ht : t.Documented) (hs : statusAtFlush h.statusCode ops ≠ 200)
    (hhead : t.fits (headersAtFlush h.headers ops ++ cors) (bodyAtFlush ops) = true)
    (hbody : t.fits (headersAtFlush h.headers ops ++ cors) (written ops) = true) (p : Prelude) (method : String)
    (req : HttpRequest) (k : AsyncClient) (m : Frame) {reply : ReplyMessage} {cs : List Chunk}
    (hanswered : Answered h [] ops reply cs) :
    NoBodyDropped t cors p method req k m (.pickle (.reply reply) :: cs.map Chunk.frame)
        (statusAtFlush h.statusCode ops) (written ops) ↔ KeepsBody (statusAtFlush h.statusCode ops) ops := by
  have hstatus : reply.status = statusAtFlush h.statusCode ops := hanswered.status.trans (sentAs_of_ne hs _)
  have hdata : reply.data = bodyAtFlush ops := hanswered.data
  rw [← hstatus]
  by_cases h206 : reply.status = 206
  · constructor
    · intro hc
      rw [h206] at hc
      exact absurd hc (streamed_body_dropped ht hbody p method req k m hanswered h206)
    · exact fun hc => absurd h206 hc.1
  · have hheaders : reply.headers = answerHeaders h.headers ops (written ops) := hanswered.headers
    have hfits := answerHeaders_fits_head ht hhead
    rw [← hheaders, ← hdata] at hfits
    rw [KeepsBody, and_iff_right h206, ← hdata]
    split
    · rename_i hbusy
      exact busy_noBodyDropped_iff ht h206 hfits p method req k m _ _ hbusy
    · rename_i hbusy
      exact single_noBodyDropped_iff ht h206 hfits p method req k m _ _ hbusy

theorem no_body_dropped_iff (ho : o.Works) (ht : t.Documented) (hfresh : h.headerWritten = false)
    (hops : ∀ op ∈ ops, op.answers = true) (hs : statusAtFlush h.statusCode ops ≠ 200)
    (hhead : t.fits (headersAtFlush h.headers ops ++ cors) (bodyAtFlush ops) = true)
    (hbody : t.fits (headersAtFlush h.headers ops ++ cors) (written ops) = true) (n : ℕ) (p : Prelude)
    (method : String) (req : HttpRequest) (k : AsyncClient) :
    (∃ r frames, (Response.new h).run o (ops ++ List.replicate (n + 1) .finish) = .ok r ∧
      r.sent = frames.map h.frames ∧
      NoBodyDropped t cors p method req k h.correlationId frames (statusAtFlush h.statusCode ops) (written ops)) ↔
      KeepsBody (statusAtFlush h.statusCode ops) ops := by
  obtain ⟨r, reply, cs, hr, hsent, hanswered⟩ := Response.new_answers ho hfresh hops n
  have hiff := answered_noBodyDropped_iff ht hs hhead hbody p method req k h.correlationId hanswered
  constructor
  · rintro ⟨r', frames, hr', hsent', hkept⟩
    rw [hr] at hr'
    obtain rfl := Except.ok.inj hr'
    obtain rfl := List.map_injective_iff.mpr h.frames_injective (hsent.symm.trans hsent')
    exact hiff.mp hkept
  · intro hkept
    exact ⟨r, _, hr, hsent, hiff.mpr hkept⟩

end kept

def createdOps : List Op := [.setStatusCode 201, .write [1], .flush, .write [2]]

def createdRequest : RequestHandler := .new Pool.client1 (.bytes [1]) ⟨"", [], "POST", none⟩

theorem created_body_dropped :
    ∃ r frames, (Response.new createdRequest).run working (createdOps ++ List.replicate 1 .finish) = .ok r ∧
      r.sent = frames.map createdRequest.frames ∧
      outcome plainTornado [] getMapPrelude "POST" getMapRequest .init (.bytes [1]) frames =
        some ⟨201, [], [1], true⟩ ∧
      ¬ NoBodyDropped plainTornado [] getMapPrelude "POST" getMapRequest .init (.bytes [1]) frames 201
        (written createdOps) := by
  have hout := @single_outcome plainTornado ⟨201, [], [1], none⟩ [] plainTornado_documented (by decide) (by decide)
    (by decide) (by decide) getMapPrelude "POST" getMapRequest .init (.bytes [1]) []
  refine ⟨_, [.pickle (.reply ⟨201, [], [1], none⟩)], rfl, rfl, hout, ?_⟩
  rintro ⟨⟨r, hr, -, hbody⟩, -⟩
  rw [hout] at hr
  obtain rfl := Option.some.inj hr
  exact absurd hbody (by decide)

theorem error_body_kept :
    (∃ r frames, (Response.new createdRequest).run working
        ([.setStatusCode 404, .write [1], .write [2]] ++ List.replicate 1 .finish) = .ok r ∧
      r.sent = frames.map createdRequest.frames ∧
      NoBodyDropped plainTornado [] getMapPrelude "POST" getMapRequest .init (.bytes [1]) frames 404 [1, 2]) ↔
      KeepsBody 404 [.setStatusCode 404, .write [1], .write [2]] :=
  @no_body_dropped_iff working plainTornado createdRequest [.setStatusCode 404, .write [1], .write [2]] []
    working_works plainTornado_documented rfl (by decide) (by decide) (by decide) (by decide) 0 getMapPrelude "POST"
    getMapRequest .init

end Handlers
