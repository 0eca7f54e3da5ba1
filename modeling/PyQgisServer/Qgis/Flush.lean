import PyQgisServer.Qgis.Response
import PyQgisServer.Zmq.Fetch

namespace Qgis

open Zmq

def sentAs (sendMore : Bool) (status : Int) : Int := if sendMore && status == 200 then 206 else status

theorem send_unwritten {h : RequestHandler} (hw : h.headerWritten = false) (data : Bytes) (sendMore : Bool)
    (metadata : Option Dict) (ok : Bool) :
    h.send data sendMore metadata ok =
      if ok then ⟨{ h with statusCode := sentAs sendMore h.statusCode, headerWritten := true },
        some (.pickle (.reply ⟨sentAs sendMore h.statusCode, h.headers, data, metadata⟩)), false⟩
      else ⟨{ h with statusCode := sentAs sendMore h.statusCode }, none, true⟩ := by
  obtain ⟨headers, status, request, written, correlationId, clientId⟩ := h
  obtain rfl : written = false := hw
  cases hmore : sendMore && status == 200 with
  | true => simp [RequestHandler.send, sentAs, hmore]
  | false => simp [RequestHandler.send, sentAs, hmore]

theorem send_open {h : RequestHandler} (hw : h.headerWritten = true) (hstatus : h.statusCode = 206) (data : Bytes)
    (sendMore : Bool) (metadata : Option Dict) (ok : Bool) :
    h.send data sendMore metadata ok =
      if ok then ⟨{ h with statusCode := if sendMore then 206 else 200 },
        some (Chunk.frame ⟨data, sendMore, metadata⟩), false⟩
      else ⟨h, none, true⟩ := by
  obtain ⟨headers, status, request, written, correlationId, clientId⟩ := h
  obtain rfl : written = true := hw
  obtain rfl : status = 206 := hstatus
  cases sendMore with
  | true => simp [RequestHandler.send, Chunk.frame]
  | false => simp [RequestHandler.send, Chunk.frame]

theorem send_ended {h : RequestHandler} (hw : h.headerWritten = true) (hstatus : h.statusCode ≠ 206) (data : Bytes)
    (sendMore : Bool) (metadata : Option Dict) (ok : Bool) :
    h.send data sendMore metadata ok = ⟨h, none, false⟩ := by
  simp [RequestHandler.send, hw, hstatus]

namespace Response

theorem settled_send (o : Outside) (r : Response) (data : Bytes) (sendMore : Bool) (metadata : Option Dict) :
    settled (r.send o data sendMore metadata) =
      { r with
        handler := (r.handler.send data sendMore metadata (o.write r.writes)).handler
        sent := r.sent ++ (r.handler.send data sendMore metadata (o.write r.writes)).sent.toList.map r.handler.frames
        writes := r.writes + 1 } := by
  simp only [send]
  split <;> rfl

structure Streaming (r : Response) : Prop where
  headerWritten : r.handler.headerWritten = true
  statusCode : r.handler.statusCode = 206

structure Closed (r : Response) : Prop where
  headerWritten : r.handler.headerWritten = true
  statusCode : r.handler.statusCode ≠ 206

structure Wrote (r t : Response) (status : Int) (fs : List Frame) : Prop where
  handler : t.handler = { r.handler with statusCode := status, headerWritten := true }
  buffer : t.buffer = r.buffer
  finished : t.finished = r.finished
  extraHeaders : t.extraHeaders = r.extraHeaders
  sent : t.sent = r.sent ++ fs.map r.handler.frames
  reports : t.reports = r.reports

def flushedHeaders (r : Response) : Dict :=
  if r.finished ∧ r.buffer ≠ [] then r.handler.headers.assign "Content-Length" (.int r.buffer.length)
  else r.handler.headers

structure Flushed (r t : Response) (status : Int) (fs : List Frame) : Prop where
  handler : t.handler =
    { r.handler with headers := r.flushedHeaders, statusCode := status, headerWritten := true }
  buffer : t.buffer = []
  finished : t.finished = r.finished
  extraHeaders : t.extraHeaders = r.extraHeaders
  sent : t.sent = r.sent ++ fs.map r.handler.frames
  reports : t.reports = r.reports + 1

section send

variable {o : Outside} {r t : Response} {status status' : Int} {fs gs : List Frame}

theorem Wrote.streaming (h : r.Wrote t 206 fs) : t.Streaming := by
  constructor <;> rw [h.handler]

theorem Wrote.trans {u : Response} (h : r.Wrote t status fs) (h' : t.Wrote u status' gs) :
    r.Wrote u status' (fs ++ gs) where
  handler := by rw [h'.handler, h.handler]
  buffer := h'.buffer.trans h.buffer
  finished := h'.finished.trans h.finished
  extraHeaders := h'.extraHeaders.trans h.extraHeaders
  sent := by
    have hframes : t.handler.frames = r.handler.frames := by rw [h.handler]; rfl
    rw [h'.sent, h.sent, hframes, List.map_append, List.append_assoc]
  reports := h'.reports.trans h.reports

theorem send_closed (h : r.Closed) (data : Bytes) (sendMore : Bool) (metadata : Option Dict) :
    ∃ t, r.send o data sendMore metadata = .ok t ∧ r.Wrote t r.handler.statusCode [] := by
  simp only [send, send_ended h.headerWritten h.statusCode]
  exact ⟨_, rfl, by rw [← h.headerWritten], rfl, rfl, rfl, rfl, rfl⟩

section written

variable (hw : ∀ n, o.write n = true)
include hw

theorem send_fresh (h : r.handler.headerWritten = false) (data : Bytes) (sendMore : Bool) (metadata : Option Dict) :
    ∃ t, r.send o data sendMore metadata = .ok t ∧ r.Wrote t (sentAs sendMore r.handler.statusCode)
      [.pickle (.reply ⟨sentAs sendMore r.handler.statusCode, r.handler.headers, data, metadata⟩)] := by
  simp only [send, send_unwritten h, hw]
  exact ⟨_, rfl, rfl, rfl, rfl, rfl, rfl, rfl⟩

theorem send_streaming (h : r.Streaming) (data : Bytes) (sendMore : Bool) (metadata : Option Dict) :
    ∃ t, r.send o data sendMore metadata = .ok t ∧
      r.Wrote t (if sendMore then 206 else 200) [Chunk.frame ⟨data, sendMore, metadata⟩] := by
  simp only [send, send_open h.headerWritten h.statusCode, hw]
  exact ⟨_, rfl, by rw [← h.headerWritten]; rfl, rfl, rfl, rfl, rfl, rfl⟩

end written

end send

theorem setContentLength_eq (r : Response) :
    r.setContentLength = { r with handler := { r.handler with headers := r.flushedHeaders } } := by
  rw [setContentLength, flushedHeaders]
  split <;> rfl

def prepared (r : Response) : Response :=
  { r with handler := { r.handler with headers := r.flushedHeaders }, reports := r.reports + 1 }

theorem Wrote.flushed {r t : Response} {status : Int} {fs : List Frame} (h : r.prepared.Wrote t status fs) :
    r.Flushed t.truncate status fs :=
  ⟨h.handler, rfl, h.finished, h.extraHeaders, h.sent, h.reports⟩

section flush

variable {o : Outside} {r t : Response} {metadata : Option Dict} {status status' : Int} {fs gs : List Frame}
  (hm : o.report r.reports = some metadata)
include hm

theorem tryFlush_eq :
    r.tryFlush o =
      match r.prepared.send o r.buffer (!r.finished || r.handler.headerWritten) metadata with
      | .error t => .error t
      | .ok t =>
        if (!r.finished || r.handler.headerWritten) ∧ t.truncate.finished then t.truncate.send o [] false metadata
        else .ok t.truncate := by
  simp only [tryFlush, hm, setContentLength_eq]
  rfl

theorem flush_of_send (hs : r.finished = true → r.handler.headerWritten = false)
    (h : r.prepared.send o r.buffer (!r.finished || r.handler.headerWritten) metadata = .ok t)
    (ht : r.prepared.Wrote t status fs) :
    ∃ u, r.flush o = .ok u ∧ r.Flushed u status fs := by
  refine ⟨t.truncate, ?_, ht.flushed⟩
  have hfinished : t.truncate.finished = r.finished := ht.flushed.finished
  simp only [flush, tryFlush_eq hm, h]
  rw [hfinished, if_neg]
  rintro ⟨hmore, hf⟩
  simp [hf, hs hf] at hmore

theorem flush_of_sends {u : Response} (hs : r.finished = true) (hwritten : r.handler.headerWritten = true)
    (h : r.prepared.send o r.buffer true metadata = .ok t) (ht : r.prepared.Wrote t status fs)
    (h' : t.truncate.send o [] false metadata = .ok u) (hu : t.truncate.Wrote u status' gs) :
    r.flush o = .ok u ∧ r.Flushed u status' (fs ++ gs) := by
  have hflushed := ht.flushed
  constructor
  · rw [flush, tryFlush_eq hm, hwritten, Bool.or_true, h]
    simp only [hflushed.finished, hs, and_self, if_true, h']
  · constructor
    · rw [hu.handler, hflushed.handler]
    · exact hu.buffer
    · exact hu.finished.trans hflushed.finished
    · exact hu.extraHeaders.trans hflushed.extraHeaders
    · have hframes : t.truncate.handler.frames = r.handler.frames := by
        rw [hflushed.handler]
        rfl
      rw [hu.sent, hflushed.sent, hframes, List.map_append, List.append_assoc]
    · exact hu.reports.trans hflushed.reports

theorem flush_closed (h : r.Closed) :
    ∃ t, r.flush o = .ok t ∧ r.Flushed t r.handler.statusCode [] := by
  have hprepared : r.prepared.Closed := ⟨h.headerWritten, h.statusCode⟩
  cases hf : r.finished with
  | false =>
    obtain ⟨t, ht, hwrote⟩ :=
      send_closed (o := o) hprepared r.buffer (!r.finished || r.handler.headerWritten) metadata
    exact flush_of_send hm (by rw [hf]; nofun) ht hwrote
  | true =>
    obtain ⟨t, ht, hwrote⟩ := send_closed (o := o) hprepared r.buffer true metadata
    have hclosed : t.truncate.Closed := by
      constructor
      · exact congrArg RequestHandler.headerWritten hwrote.handler
      · exact (congrArg RequestHandler.statusCode hwrote.handler).trans_ne h.statusCode
    obtain ⟨u, hu, hwrote'⟩ := send_closed (o := o) hclosed [] false metadata
    have hstatus : t.handler.statusCode = r.handler.statusCode := by rw [hwrote.handler]; rfl
    have hflushed := flush_of_sends hm hf h.headerWritten ht hwrote hu hwrote'
    exact ⟨u, hflushed.1, hstatus ▸ hflushed.2⟩

section written

variable (hw : ∀ n, o.write n = true)
include hw

theorem flush_fresh (h : r.handler.headerWritten = false) :
    ∃ t, r.flush o = .ok t ∧ r.Flushed t (sentAs (!r.finished) r.handler.statusCode)
      [.pickle (.reply ⟨sentAs (!r.finished) r.handler.statusCode, r.flushedHeaders, r.buffer, metadata⟩)] := by
  obtain ⟨t, ht, hwrote⟩ :=
    send_fresh hw (r := r.prepared) h r.buffer (!r.finished || r.handler.headerWritten) metadata
  rw [h, Bool.or_false] at hwrote
  exact flush_of_send hm (fun _ => h) ht hwrote

theorem flush_streaming (h : r.Streaming) :
    ∃ t, r.flush o = .ok t ∧ r.Flushed t (if r.finished then 200 else 206)
      (Chunk.frame ⟨r.buffer, true, metadata⟩ :: if r.finished then [Chunk.frame ⟨[], false, metadata⟩] else []) := by
  have hprepared : r.prepared.Streaming := ⟨h.headerWritten, h.statusCode⟩
  obtain ⟨t, ht, hwrote⟩ := send_streaming hw hprepared r.buffer true metadata
  cases hf : r.finished with
  | false =>
    refine flush_of_send hm (by rw [hf]; nofun) ?_ hwrote
    rw [hf, Bool.not_false, Bool.true_or]
    exact ht
  | true =>
    have hstreaming : t.truncate.Streaming := ⟨hwrote.streaming.headerWritten, hwrote.streaming.statusCode⟩
    obtain ⟨u, hu, hwrote'⟩ := send_streaming hw hstreaming [] false metadata
    exact ⟨u, flush_of_sends hm hf h.headerWritten ht hwrote hu hwrote'⟩

end written

end flush

section raises

variable {o : Outside} {r : Response} (hm : o.report r.reports = none)
include hm

theorem flush_untyped (h : r.handler.headers.find "Content-Type" = none) :
    r.flush o = .error { r with reports := r.reports + 1 } := by
  simp only [flush, tryFlush, hm, h]

theorem flush_typed {value : PyVal} (h : r.handler.headers.find "Content-Type" = some value) :
    r.flush o = .ok ((({ r with reports := r.reports + 1 } : Response).removeHeader "Content-Type").sendError o 500
      "Internal server error") := by
  simp only [flush, tryFlush, hm, h]

end raises

end Response

end Qgis
