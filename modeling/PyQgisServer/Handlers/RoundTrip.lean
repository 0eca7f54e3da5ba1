import PyQgisServer.Handlers.Truncation
import PyQgisServer.Qgis.Emission

namespace Handlers

open Zmq Qgis

section single

variable {t : Tornado} {reply : ReplyMessage} {cors : Dict}

theorem outcome_single (hstream : reply.status ≠ 206) (hbusy : reply.status ≠ 509) (p : Prelude) (method : String)
    (req : HttpRequest) (k : AsyncClient) (m : Frame) (frames : List Frame) :
    outcome t cors p method req k m (.pickle (.reply reply) :: frames) =
      some (t.serve (replyCalls (reply.headers ++ cors) reply.status reply.data)) := by
  rw [outcome, (AsyncClient.receive_single hstream k m frames).1]
  simp only [fetchResult, Option.bind_some, Option.map_some, handleRequest]
  rw [calls_respond_single _ _ _ hstream hbusy, Option.getD_some]

theorem single_outcome (ht : t.Documented) (hstream : reply.status ≠ 206) (hbusy : reply.status ≠ 509)
    (hbodiless : bodiless reply.status = false) (hfits : t.fits (reply.headers ++ cors) reply.data = true)
    (p : Prelude) (method : String) (req : HttpRequest) (k : AsyncClient) (m : Frame) (frames : List Frame) :
    outcome t cors p method req k m (.pickle (.reply reply) :: frames) =
      some ⟨reply.status, reply.headers ++ cors, reply.data, true⟩ := by
  obtain ⟨hstatus, hheaders, hbody⟩ := sent_replyCalls (reply.headers ++ cors) reply.status reply.data
  have hsent := ht.sends _ (replyCalls_noError (reply.headers ++ cors) reply.status reply.data)
    (by rw [hheaders, hbody]; exact hfits) (by rw [hstatus]; exact hbodiless)
  rw [outcome_single hstream hbusy, hsent, hstatus, hheaders, hbody]

end single

theorem answerHeaders_fits {t : Tornado} (ht : t.Documented) {headers cors : Dict} {ops : List Op} {body : Bytes}
    (h : t.fits (headersAtFlush headers ops ++ cors) body = true) :
    t.fits (answerHeaders headers ops body ++ cors) body = true := by
  rw [answerHeaders]
  split
  · exact ht.fitsLength _ _ _ h
  · exact h

theorem bodyAtFlush_of_single {ops : List Op} (h : ops.any Op.flushes = false) : bodyAtFlush ops = written ops := by
  induction ops with
  | nil => rfl
  | cons op ops ih =>
    rw [List.any_cons, Bool.or_eq_false_iff] at h
    cases op with
    | flush => cases h.1
    | _ => exact congrArg _ (ih h.2)

section roundTrip

variable {o : Outside} {t : Tornado} {h : RequestHandler} {ops : List Op} {cors : Dict}

theorem stream_round_trip (ho : o.Works) (ht : t.Documented) (hfresh : h.headerWritten = false)
    (hops : ∀ op ∈ ops, op.answers = true) (hs : statusAtFlush h.statusCode ops = 200)
    (hfits : t.fits (headersAtFlush h.headers ops ++ cors) (written ops) = true) (n : ℕ) (p : Prelude)
    (method : String) (req : HttpRequest) (k : AsyncClient) :
    ∃ r frames, (Response.new h).run o (ops ++ List.replicate (n + 1) .finish) = .ok r ∧
      r.sent = frames.map h.frames ∧
      outcome t cors p method req k h.correlationId frames =
        some ⟨200, answerHeaders h.headers ops (written ops) ++ cors, written ops, true⟩ ∧
      (k.receive h.correlationId frames).handlers h.correlationId = false := by
  obtain ⟨r, reply, cs, hr, hsent, hanswered⟩ := Response.new_answers ho hfresh hops n
  obtain ⟨hstatus, hheaders, hdata, hbody, hended⟩ := hanswered
  refine ⟨r, _, hr, hsent, ?_⟩
  have hfits' := answerHeaders_fits ht hfits
  have hheaders : reply.headers = answerHeaders h.headers ops (written ops) := hheaders
  rw [← hheaders] at hfits' ⊢
  cases hflush : ops.any Op.flushes with
  | false =>
    rw [hs, hflush] at hstatus
    have h200 : reply.status = 200 := hstatus
    have hwhole : reply.data = written ops := hdata.trans (bodyAtFlush_of_single hflush)
    rw [← hwhole] at hfits' ⊢
    have hbodiless : bodiless reply.status = false := by rw [h200]; decide
    have hout := single_outcome ht (by rw [h200]; decide) (by rw [h200]; decide) hbodiless hfits'
      p method req k h.correlationId (cs.map Chunk.frame)
    rw [h200] at hout
    exact ⟨hout, (AsyncClient.receive_single (by rw [h200]; decide) k h.correlationId (cs.map Chunk.frame)).2⟩
  | true =>
    rw [hs, hflush] at hstatus
    have h206 : reply.status = 206 := hstatus
    have hwhole : _ = written ops := hbody h206
    rw [← hwhole] at hfits' ⊢
    refine ⟨stream_outcome ht h206 hfits' p method req k h.correlationId, ?_⟩
    rw [(AsyncClient.receive_stream h206 k h.correlationId cs).2]
    exact hended h206 hs

end roundTrip

def pngHeader : Op := .setHeader "Content-Type" (.str "image/png")

theorem stream_round_trip_getMap :
    ∃ r frames, (Response.new (.new Pool.client1 (.bytes [1]) ⟨"", [], "GET", none⟩)).run working
        ([pngHeader, .write [1, 2], .flush, .write [], .flush, .write [3]] ++ List.replicate (1 + 1) .finish) =
          .ok r ∧
      r.sent = frames.map (RequestHandler.new Pool.client1 (.bytes [1]) ⟨"", [], "GET", none⟩).frames ∧
      outcome plainTornado [] getMapPrelude "GET" getMapRequest .init (.bytes [1]) frames =
        some ⟨200, [("Content-Type", .str "image/png")], [1, 2, 3], true⟩ ∧
      (AsyncClient.init.receive (.bytes [1]) frames).handlers (.bytes [1]) = false :=
  @stream_round_trip working plainTornado (.new Pool.client1 (.bytes [1]) ⟨"", [], "GET", none⟩)
    [pngHeader, .write [1, 2], .flush, .write [], .flush, .write [3]] [] working_works plainTornado_documented rfl
    (by decide) rfl (by decide) 1 getMapPrelude "GET" getMapRequest .init

end Handlers
