import PyQgisServer.Qgis.Flush

namespace Qgis

open Zmq

namespace Response

def Has (fold : String → String) (headers : Dict) (name : String) : Prop := ∃ x ∈ headers, fold x.1 = fold name

-- the report raises or the first write to the socket does, the write after it goes well
inductive FailsOnce (o : Outside) (r : Response) : Prop
  | report (h : o.report r.reports = none) (hnext : o.write r.writes = true)
  | send (metadata : Option Dict) (h : o.report r.reports = some metadata) (hwrite : o.write r.writes = false)
      (hnext : o.write (r.writes + 1) = true)

-- a single header frame of status 500 is sent, without the type and the length of the body
structure OneError (fold : String → String) (r t : Response) : Prop where
  frame : ∃ headers data metadata,
    t.sent = r.sent ++ [r.handler.frames (.pickle (.reply ⟨500, headers, data, metadata⟩))] ∧
      ¬ Has fold headers "Content-Type" ∧ ¬ Has fold headers "Content-Length"

structure LeavesNothing (fold : String → String) (o : Outside) (r : Response) : Prop where
  typed : (r.handler.headers.find "Content-Type").isSome = true
  alone : ∀ x ∈ r.handler.headers, fold x.1 = fold "Content-Type" → x.1 = "Content-Type"
  unmeasured : ¬ Has fold r.handler.headers "Content-Length"
  open_or_early : o.report r.reports ≠ none → r.finished = true → r.buffer = []

section failure

def abortedHeaders (o : Outside) (r : Response) : Dict :=
  if o.report r.reports = none then r.handler.headers else r.flushedHeaders

structure Aborted (o : Outside) (r t : Response) : Prop where
  headers : t.handler.headers = r.abortedHeaders o
  unwritten : t.handler.headerWritten = false
  frames : t.handler.frames = r.handler.frames
  sent : t.sent = r.sent
  write : o.write t.writes = true

variable {o : Outside} {r : Response}

def failedWrite (r : Response) (sendMore : Bool) : Response :=
  { r with
    handler := { r.handler with statusCode := sentAs sendMore r.handler.statusCode }, writes := r.writes + 1 }

theorem send_failed (hw : r.handler.headerWritten = false) (hfail : o.write r.writes = false) (data : Bytes)
    (sendMore : Bool) (metadata : Option Dict) :
    r.send o data sendMore metadata = .error (r.failedWrite sendMore) := by
  simp [send, send_unwritten hw, hfail, failedWrite]

theorem tryFlush_aborted (hw : r.handler.headerWritten = false) (h : FailsOnce o r) :
    ∃ t, r.tryFlush o = .error t ∧ r.Aborted o t := by
  cases h with
  | report h hnext =>
    refine ⟨{ r with reports := r.reports + 1 }, by simp only [tryFlush, h], ?_, hw, rfl, rfl, hnext⟩
    rw [abortedHeaders, if_pos h]
  | send metadata h hwrite hnext =>
    have hprepared : r.prepared.handler.headerWritten = false := hw
    have hfail : o.write r.prepared.writes = false := hwrite
    refine ⟨r.prepared.failedWrite (!r.finished || r.handler.headerWritten), ?_, ?_, hw, rfl, rfl, hnext⟩
    · rw [tryFlush_eq h, send_failed hprepared hfail]
    · rw [abortedHeaders, if_neg (by rw [h]; rintro ⟨⟩)]
      rfl

theorem sendError_sent (hw : r.handler.headerWritten = false) (hwrite : o.write r.writes = true) (code : Int)
    (message : String) :
    (r.sendError o code message).sent =
      r.sent ++ [r.handler.frames (.pickle (.reply ⟨code, r.handler.headers, encode message, none⟩))] := by
  have hstatus : r.setStatusCode code = { r with handler := { r.handler with statusCode := code } } := by
    rw [setStatusCode, if_neg (by simp [hw])]
  have hunwritten : (r.setStatusCode code).handler.headerWritten = false := by
    rw [hstatus]
    exact hw
  have hnext : o.write (r.setStatusCode code).writes = true := by
    rw [hstatus]
    exact hwrite
  have hsettled : (r.sendError o code message).sent =
      (settled ((r.setStatusCode code).send o (encode message) false none)).sent := by
    rw [sendError, if_neg (by simp [hw])]
    cases (r.setStatusCode code).send o (encode message) false none with
    | ok t => rfl
    | error t => rfl
  rw [hsettled, settled_send, send_unwritten hunwritten, hnext, hstatus]
  rfl

theorem find_flushedHeaders (r : Response) :
    r.flushedHeaders.find "Content-Type" = r.handler.headers.find "Content-Type" := by
  rw [flushedHeaders]
  split
  · rw [Dict.find_assign, if_neg (by decide)]
  · rfl

theorem find_abortedHeaders : (r.abortedHeaders o).find "Content-Type" = r.handler.headers.find "Content-Type" := by
  rw [abortedHeaders]
  split
  · rfl
  · exact find_flushedHeaders r

theorem headers_send (h : RequestHandler) (data : Bytes) (sendMore : Bool) (metadata : Option Dict) (ok : Bool) :
    (h.send data sendMore metadata ok).handler.headers = h.headers := by
  unfold RequestHandler.send
  split
  · split <;> split <;> rfl
  · split
    · split
      · split <;> rfl
      · rfl
    · rfl

theorem flush_finished_typed (hw : r.handler.headerWritten = false) (hf : r.finished = true)
    (htyped : (r.handler.headers.find "Content-Type").isSome = true) : ∃ t, r.flush o = .ok t := by
  obtain ⟨value, hvalue⟩ := Option.isSome_iff_exists.mp htyped
  cases hreport : o.report r.reports with
  | none => exact ⟨_, flush_typed hreport hvalue⟩
  | some metadata =>
    have heq := tryFlush_eq hreport
    rw [hf, hw, Bool.not_true, Bool.false_or] at heq
    have hsettled := settled_send o r.prepared r.buffer false metadata
    cases hs : r.prepared.send o r.buffer false metadata with
    | ok t =>
      rw [hs] at heq
      exact ⟨t.truncate, by rw [flush, heq]; simp⟩
    | error t =>
      rw [hs] at heq hsettled
      have ht : t.handler.headers = r.flushedHeaders :=
        (congrArg (fun t : Response => t.handler.headers) hsettled).trans (headers_send r.prepared.handler _ _ _ _)
      have hfind : t.handler.headers.find "Content-Type" = some value := by
        rw [ht, find_flushedHeaders, hvalue]
      exact ⟨(t.removeHeader "Content-Type").sendError o 500 "Internal server error", by simp only [flush, heq, hfind]⟩

theorem flush_failed (hw : r.handler.headerWritten = false) (h : FailsOnce o r) :
    (r.handler.headers.find "Content-Type" = none → ∃ t, r.flush o = .error t) ∧
      ((r.handler.headers.find "Content-Type").isSome = true → ∃ t, r.flush o = .ok t ∧ t.sent = r.sent ++
        [r.handler.frames (.pickle (.reply ⟨500, (r.abortedHeaders o).remove "Content-Type",
          encode "Internal server error", none⟩))]) := by
  obtain ⟨t, ht, habort⟩ := tryFlush_aborted hw h
  have hfind : t.handler.headers.find "Content-Type" = r.handler.headers.find "Content-Type" := by
    rw [habort.headers, find_abortedHeaders]
  constructor
  · intro hnone
    rw [hnone] at hfind
    exact ⟨t, by simp only [flush, ht, hfind]⟩
  · intro hsome
    obtain ⟨value, hvalue⟩ := Option.isSome_iff_exists.mp hsome
    rw [hvalue] at hfind
    refine ⟨(t.removeHeader "Content-Type").sendError o 500 "Internal server error", by simp only [flush, ht, hfind], ?_⟩
    rw [sendError_sent (r := t.removeHeader "Content-Type") habort.unwritten habort.write]
    have hframes : (t.removeHeader "Content-Type").handler.frames = r.handler.frames := habort.frames
    have hheaders : (t.removeHeader "Content-Type").handler.headers = (r.abortedHeaders o).remove "Content-Type" := by
      rw [← habort.headers]
      rfl
    rw [hframes, hheaders, ← habort.sent]
    rfl

theorem has_remove (fold : String → String) (headers : Dict) (name : String) :
    Has fold (headers.remove "Content-Type") name ↔ ∃ x ∈ headers, x.1 ≠ "Content-Type" ∧ fold x.1 = fold name := by
  simp only [Has, Dict.remove, List.mem_filter, decide_eq_true_eq, and_assoc]

theorem has_length (fold : String → String) (h : r.finished = true) (hbuffer : r.buffer ≠ []) :
    Has fold (r.flushedHeaders.remove "Content-Type") "Content-Length" := by
  have hfind : (r.flushedHeaders.find "Content-Length").isSome = true := by
    rw [flushedHeaders, if_pos ⟨h, hbuffer⟩, Dict.find_assign, if_pos rfl]
    rfl
  obtain ⟨x, hx, hname⟩ := (Dict.isSome_find _ _).mp hfind
  exact (has_remove fold _ _).mpr ⟨x, hx, by rw [hname]; decide, by rw [hname]⟩

theorem oneError_iff (fold : String → String) {t : Response} {headers : Dict} {data : Bytes} {metadata : Option Dict}
    (h : t.sent = r.sent ++ [r.handler.frames (.pickle (.reply ⟨500, headers, data, metadata⟩))]) :
    OneError fold r t ↔ ¬ Has fold headers "Content-Type" ∧ ¬ Has fold headers "Content-Length" := by
  constructor
  · rintro ⟨headers', data', metadata', hsent, hclean⟩
    have hframe := List.append_cancel_left (h.symm.trans hsent)
    have hreply := r.handler.frames_injective (List.singleton_inj.mp hframe)
    simp only [Frame.pickle.injEq, Pickled.reply.injEq, ReplyMessage.mk.injEq] at hreply
    rw [hreply.2.1]
    exact hclean
  · intro hclean
    exact ⟨headers, data, metadata, h, hclean⟩

theorem leavesNothing_iff (fold : String → String) (hfold : fold "Content-Type" ≠ fold "Content-Length")
    (htyped : (r.handler.headers.find "Content-Type").isSome = true) :
    ¬ Has fold ((r.abortedHeaders o).remove "Content-Type") "Content-Type" ∧
        ¬ Has fold ((r.abortedHeaders o).remove "Content-Type") "Content-Length" ↔
      LeavesNothing fold o r := by
  by_cases hlate : o.report r.reports ≠ none ∧ r.finished = true ∧ r.buffer ≠ []
  · obtain ⟨hreport, hfinished, hbuffer⟩ := hlate
    rw [abortedHeaders, if_neg hreport]
    refine iff_of_false (fun h => h.2 (has_length fold hfinished hbuffer)) fun h => ?_
    exact hbuffer (h.open_or_early hreport hfinished)
  · have hheaders : r.abortedHeaders o = r.handler.headers := by
      rw [abortedHeaders]
      split
      · rfl
      · rename_i hreport
        rw [flushedHeaders, if_neg fun hbody => hlate ⟨hreport, hbody⟩]
    rw [hheaders, has_remove, has_remove]
    constructor
    · rintro ⟨htype, hlength⟩
      refine ⟨htyped, fun x hx hreads => ?_, ?_, fun hreport hfinished => ?_⟩
      · by_contra hne
        exact htype ⟨x, hx, hne, hreads⟩
      · rintro ⟨x, hx, hreads⟩
        refine hlength ⟨x, hx, fun heq => hfold ?_, hreads⟩
        rw [← hreads, heq]
      · by_contra hbuffer
        exact hlate ⟨hreport, hfinished, hbuffer⟩
    · rintro ⟨-, halone, hunmeasured, -⟩
      constructor
      · rintro ⟨x, hx, hne, hreads⟩
        exact hne (halone x hx hreads)
      · rintro ⟨x, hx, -, hreads⟩
        exact hunmeasured ⟨x, hx, hreads⟩

theorem flush_oneError_iff (fold : String → String) (hfold : fold "Content-Type" ≠ fold "Content-Length")
    (hw : r.handler.headerWritten = false) (h : FailsOnce o r) :
    (∃ t, r.flush o = .ok t ∧ OneError fold r t) ↔ LeavesNothing fold o r := by
  obtain ⟨huntyped, htyped⟩ := flush_failed hw h
  cases hfind : r.handler.headers.find "Content-Type" with
  | none =>
    obtain ⟨t, ht⟩ := huntyped hfind
    refine iff_of_false ?_ fun hleaves => ?_
    · rintro ⟨u, hu, -⟩
      rw [ht] at hu
      cases hu
    · have htype := hleaves.typed
      rw [hfind] at htype
      cases htype
  | some value =>
    have hsome : (r.handler.headers.find "Content-Type").isSome = true := by
      rw [hfind]
      rfl
    obtain ⟨t, ht, hsent⟩ := htyped hsome
    rw [← leavesNothing_iff fold hfold hsome, ← oneError_iff fold hsent]
    constructor
    · rintro ⟨u, hu, herror⟩
      obtain rfl := Except.ok.inj (ht.symm.trans hu)
      exact herror
    · intro herror
      exact ⟨t, ht, herror⟩

end failure

def unwritten (headers : Dict) : Response :=
  { new { RequestHandler.new (.bytes []) (.bytes []) ⟨"", [], "GET", none⟩ with headers := headers } with
    buffer := [1], finished := true }

def reportRaises : Outside := ⟨fun _ => true, fun _ => none⟩

theorem flush_oneError_typed :
    ("Content-Type" ≠ "Content-Length" ∧ (unwritten [("Content-Type", .str "text/xml")]).handler.headerWritten = false ∧
        FailsOnce reportRaises (unwritten [("Content-Type", .str "text/xml")])) ∧
      ∃ t, (unwritten [("Content-Type", .str "text/xml")]).flush reportRaises = .ok t ∧
        OneError id (unwritten [("Content-Type", .str "text/xml")]) t := by
  have hfails : FailsOnce reportRaises (unwritten [("Content-Type", .str "text/xml")]) := .report rfl rfl
  refine ⟨⟨by decide, rfl, hfails⟩, (flush_oneError_iff id (by decide) rfl hfails).mpr ⟨by decide, ?_, ?_, ?_⟩⟩
  · intro x hx _
    rw [List.mem_singleton.mp hx]
  · rintro ⟨x, hx, hreads⟩
    rw [List.mem_singleton.mp hx] at hreads
    exact absurd hreads (by decide)
  · exact fun hreport => absurd rfl hreport

theorem untyped_flush_raises :
    ¬ ∀ (o : Outside) (r : Response), r.handler.headerWritten = false → FailsOnce o r →
      ∃ t, r.flush o = .ok t ∧ OneError id r t := by
  intro h
  have hleaves := (flush_oneError_iff id (by decide) rfl (.report rfl rfl)).mp
    (h reportRaises (unwritten []) rfl (.report rfl rfl))
  exact absurd hleaves.typed (by decide)

end Response

end Qgis
