import Mathlib.Logic.Relation
import PyQgisServer.Zmq.Worker

namespace Qgis

open Zmq

-- which writes to the socket succeed, and what the metadata report gives, none when it raises
structure Outside where
  write : ℕ → Bool
  report : ℕ → Option (Option Dict)

-- sent lists the messages written to the socket; writes and reports count the tries
structure Response where
  handler : RequestHandler
  buffer : Bytes
  finished : Bool
  extraHeaders : Dict
  sent : List (List Frame)
  writes : ℕ
  reports : ℕ

inductive Op where
  | write (data : Bytes)
  | flush
  | finish
  | clear
  | truncate
  | setStatusCode (code : Int)
  | setHeader (key : String) (value : PyVal)
  | setExtraHeader (key : String) (value : PyVal)
  | removeHeader (key : String)
  | sendError (code : Int) (message : String)

def Op.setsExtra : Op → Bool
  | .setExtraHeader _ _ => true
  | _ => false

def encode (s : String) : Bytes := s.toUTF8.toList

namespace Response

def new (h : RequestHandler) : Response where
  handler := h
  buffer := []
  finished := false
  extraHeaders := []
  sent := []
  writes := 0
  reports := 0

section operations

variable (o : Outside) (r : Response)

-- the error carries the state at the exception
def send (data : Bytes) (sendMore : Bool) (metadata : Option Dict) : Except Response Response :=
  let w := r.handler.send data sendMore metadata (o.write r.writes)
  let r := { r with
    handler := w.handler, sent := r.sent ++ w.sent.toList.map r.handler.frames, writes := r.writes + 1 }
  if w.raised then .error r else .ok r

def setStatusCode (code : Int) : Response :=
  if r.handler.headerWritten then r else { r with handler := { r.handler with statusCode := code } }

def setHeader (key : String) (value : PyVal) : Response :=
  if r.handler.headerWritten then r
  else { r with handler := { r.handler with headers := r.handler.headers.assign key value } }

def setExtraHeader (key : String) (value : PyVal) : Response :=
  { r with extraHeaders := r.extraHeaders.assign key value }.setHeader key value

def removeHeader (key : String) : Response :=
  { r with handler := { r.handler with headers := r.handler.headers.remove key } }

def truncate : Response := { r with buffer := [] }

def clear : Response :=
  { r with handler := { r.handler with headers := r.extraHeaders } }.truncate

def sendError (code : Int) (message : String) : Response :=
  if r.handler.headerWritten then r
  else
    match (r.setStatusCode code).send o (encode message) false none with
    | .ok r => { r with finished := true }
    | .error r => r

def setContentLength : Response :=
  if r.finished ∧ r.buffer ≠ [] then
    { r with handler := { r.handler with
        headers := r.handler.headers.assign "Content-Length" (.int r.buffer.length) } }
  else r

-- the body of the try statement of flush
def tryFlush : Except Response Response :=
  let report := o.report r.reports
  let r := { r with reports := r.reports + 1 }
  match report with
  | none => .error r
  | some metadata =>
    let sendMore := !r.finished || r.handler.headerWritten
    match r.setContentLength.send o r.buffer sendMore metadata with
    | .error r => .error r
    | .ok r =>
      let r := r.truncate
      if sendMore ∧ r.finished then r.send o [] false metadata else .ok r

-- the exception that may leave flush is the KeyError of del
def flush : Except Response Response :=
  match r.tryFlush o with
  | .ok r => .ok r
  | .error r =>
    match r.handler.headers.find "Content-Type" with
    | none => .error r
    | some _ => .ok ((r.removeHeader "Content-Type").sendError o 500 "Internal server error")

def finish : Except Response Response := { r with finished := true }.flush o

def apply : Op → Except Response Response
  | .write data => .ok { r with buffer := r.buffer ++ data }
  | .flush => r.flush o
  | .finish => r.finish o
  | .clear => .ok r.clear
  | .truncate => .ok r.truncate
  | .setStatusCode code => .ok (r.setStatusCode code)
  | .setHeader key value => .ok (r.setHeader key value)
  | .setExtraHeader key value => .ok (r.setExtraHeader key value)
  | .removeHeader key => .ok (r.removeHeader key)
  | .sendError code message => .ok (r.sendError o code message)

def run : Response → List Op → Except Response Response
  | r, [] => .ok r
  | r, op :: ops =>
    match r.apply o op with
    | .ok r => r.run ops
    | .error r => .error r

end operations

def settled : Except Response Response → Response
  | .ok r => r
  | .error r => r

structure Quiet (r t : Response) : Prop where
  handler : { r.handler with statusCode := t.handler.statusCode, headers := t.handler.headers } = t.handler
  status : r.handler.headerWritten = true → t.handler.statusCode = r.handler.statusCode
  extraHeaders : t.extraHeaders = r.extraHeaders
  sent : t.sent = r.sent

inductive Change (o : Outside) (extra : Bool) (r : Response) : Response → Prop
  | quiet {t : Response} (h : r.Quiet t) : Change o extra r t
  | extra (h : extra = true) (headers : Dict) : Change o extra r { r with extraHeaders := headers }
  | send (data : Bytes) (sendMore : Bool) (metadata : Option Dict) :
      Change o extra r (settled (r.send o data sendMore metadata))

def Becomes (o : Outside) (extra : Bool) : Response → Response → Prop := Relation.ReflTransGen (Change o extra)

section becomes

variable {o : Outside} {extra : Bool} {r t u : Response}

theorem Becomes.refl (r : Response) : r.Becomes o extra r := Relation.ReflTransGen.refl

theorem Becomes.trans (h : r.Becomes o extra t) (h' : t.Becomes o extra u) : r.Becomes o extra u :=
  Relation.ReflTransGen.trans h h'

theorem Becomes.quiet (h : r.Becomes o extra t) (h' : t.Quiet u) : r.Becomes o extra u :=
  Relation.ReflTransGen.tail h (.quiet h')

theorem Becomes.send (h : r.Becomes o extra t) (data : Bytes) (sendMore : Bool) (metadata : Option Dict) :
    r.Becomes o extra (settled (t.send o data sendMore metadata)) :=
  Relation.ReflTransGen.tail h (.send data sendMore metadata)

theorem setStatusCode_quiet (r : Response) (code : Int) : r.Quiet (r.setStatusCode code) := by
  rw [setStatusCode]
  split
  · exact ⟨rfl, fun _ => rfl, rfl, rfl⟩
  · rename_i hw
    exact ⟨rfl, fun h => absurd h hw, rfl, rfl⟩

theorem setHeader_quiet (r : Response) (key : String) (value : PyVal) : r.Quiet (r.setHeader key value) := by
  rw [setHeader]
  split
  · exact ⟨rfl, fun _ => rfl, rfl, rfl⟩
  · exact ⟨rfl, fun _ => rfl, rfl, rfl⟩

theorem setContentLength_quiet (r : Response) : r.Quiet r.setContentLength := by
  rw [setContentLength]
  split
  · exact ⟨rfl, fun _ => rfl, rfl, rfl⟩
  · exact ⟨rfl, fun _ => rfl, rfl, rfl⟩

theorem setExtraHeader_becomes (r : Response) (key : String) (value : PyVal) :
    r.Becomes o true (r.setExtraHeader key value) := by
  have hextra : r.Becomes o true { r with extraHeaders := r.extraHeaders.assign key value } :=
    Relation.ReflTransGen.single (.extra rfl _)
  exact hextra.quiet (setHeader_quiet _ key value)

theorem sendError_becomes (r : Response) (code : Int) (message : String) :
    r.Becomes o extra (r.sendError o code message) := by
  have hstatus : r.Becomes o extra (r.setStatusCode code) := (Becomes.refl r).quiet (setStatusCode_quiet r code)
  have hsend := hstatus.send (encode message) false none
  rw [sendError]
  split
  · exact .refl r
  · cases hs : (r.setStatusCode code).send o (encode message) false none with
    | ok t =>
      rw [hs] at hsend
      exact hsend.quiet ⟨rfl, fun _ => rfl, rfl, rfl⟩
    | error t =>
      rw [hs] at hsend
      exact hsend

theorem tryFlush_becomes (r : Response) : r.Becomes o extra (settled (r.tryFlush o)) := by
  have hreport : r.Becomes o extra { r with reports := r.reports + 1 } :=
    (Becomes.refl r).quiet ⟨rfl, fun _ => rfl, rfl, rfl⟩
  cases hm : o.report r.reports with
  | none =>
    simp only [tryFlush, hm]
    exact hreport
  | some metadata =>
    have hsend := (hreport.quiet (setContentLength_quiet _)).send r.buffer
      (!r.finished || r.handler.headerWritten) metadata
    simp only [tryFlush, hm]
    cases hs : ({ r with reports := r.reports + 1 } : Response).setContentLength.send o r.buffer
        (!r.finished || r.handler.headerWritten) metadata with
    | error t =>
      rw [hs] at hsend
      exact hsend
    | ok t =>
      rw [hs] at hsend
      have htruncate : r.Becomes o extra t.truncate := hsend.quiet ⟨rfl, fun _ => rfl, rfl, rfl⟩
      simp only
      split
      · exact htruncate.send [] false metadata
      · exact htruncate

theorem flush_becomes (r : Response) : r.Becomes o extra (settled (r.flush o)) := by
  have hflush : r.Becomes o extra (settled (r.tryFlush o)) := tryFlush_becomes r
  rw [flush]
  cases ht : r.tryFlush o with
  | ok t =>
    rw [ht] at hflush
    exact hflush
  | error t =>
    rw [ht] at hflush
    simp only
    cases t.handler.headers.find "Content-Type" with
    | none => exact hflush
    | some value =>
      have hremoved : r.Becomes o extra (t.removeHeader "Content-Type") :=
        hflush.quiet ⟨rfl, fun _ => rfl, rfl, rfl⟩
      exact hremoved.trans (sendError_becomes _ 500 "Internal server error")

theorem finish_becomes (r : Response) : r.Becomes o extra (settled (r.finish o)) := by
  have hfinished : r.Becomes o extra { r with finished := true } :=
    (Becomes.refl r).quiet ⟨rfl, fun _ => rfl, rfl, rfl⟩
  exact hfinished.trans (flush_becomes _)

theorem apply_becomes (r : Response) {op : Op} (hop : op.setsExtra = true → extra = true) :
    r.Becomes o extra (settled (r.apply o op)) := by
  cases op with
  | write data => exact (Becomes.refl r).quiet ⟨rfl, fun _ => rfl, rfl, rfl⟩
  | flush => exact flush_becomes r
  | finish => exact finish_becomes r
  | clear => exact (Becomes.refl r).quiet ⟨rfl, fun _ => rfl, rfl, rfl⟩
  | truncate => exact (Becomes.refl r).quiet ⟨rfl, fun _ => rfl, rfl, rfl⟩
  | setStatusCode code => exact (Becomes.refl r).quiet (setStatusCode_quiet r code)
  | setHeader key value => exact (Becomes.refl r).quiet (setHeader_quiet r key value)
  | setExtraHeader key value =>
    rw [hop rfl]
    exact setExtraHeader_becomes r key value
  | removeHeader key => exact (Becomes.refl r).quiet ⟨rfl, fun _ => rfl, rfl, rfl⟩
  | sendError code message => exact sendError_becomes r code message

theorem run_becomes (r : Response) {ops : List Op} (hops : ∀ op ∈ ops, op.setsExtra = true → extra = true) :
    r.Becomes o extra (settled (run o r ops)) := by
  induction ops generalizing r with
  | nil => exact .refl r
  | cons op ops ih =>
    have happly := apply_becomes (o := o) r (hops op List.mem_cons_self)
    rw [run]
    cases ht : r.apply o op with
    | ok t =>
      rw [ht] at happly
      exact happly.trans (ih t fun op hop => hops op (List.mem_cons_of_mem _ hop))
    | error t =>
      rw [ht] at happly
      exact happly

end becomes

end Response

structure Outside.Works (o : Outside) : Prop where
  write : ∀ n, o.write n = true
  report : ∀ n, ∃ metadata, o.report n = some metadata

def working : Outside := ⟨fun _ => true, fun _ => some none⟩

theorem working_works : working.Works := ⟨fun _ => rfl, fun _ => ⟨_, rfl⟩⟩

def Replied (clientId correlationId : Frame) (sent : List (List Frame)) : Prop :=
  ∃ m, [clientId, correlationId, .pickle (.reply m)] ∈ sent

namespace Response

structure Sound (c i : Frame) (r : Response) : Prop where
  clientId : r.handler.clientId = c
  correlationId : r.handler.correlationId = i
  replied : r.handler.headerWritten = true → Replied c i r.sent

theorem sound_new {h : RequestHandler} (hh : h.headerWritten = false) :
    (new h).Sound h.clientId h.correlationId := by
  refine ⟨rfl, rfl, fun hc => ?_⟩
  rw [show (new h).handler = h from rfl, hh] at hc
  cases hc

section sound

variable {o : Outside} {r : Response} {c i : Frame}

theorem Sound.of_eq {t : Response} (h : r.Sound c i) (hc : t.handler.clientId = r.handler.clientId)
    (hi : t.handler.correlationId = r.handler.correlationId)
    (hw : t.handler.headerWritten = r.handler.headerWritten) (hs : t.sent = r.sent) : t.Sound c i :=
  ⟨hc.trans h.clientId, hi.trans h.correlationId, fun ht => hs ▸ h.replied (hw ▸ ht)⟩

theorem Sound.quiet {t : Response} (h : r.Sound c i) (hquiet : r.Quiet t) : t.Sound c i :=
  h.of_eq (by rw [← hquiet.handler]) (by rw [← hquiet.handler]) (by rw [← hquiet.handler]) hquiet.sent

theorem send_written (ho : o.Works) (h : r.Sound c i) (data : Bytes) (sendMore : Bool)
    (metadata : Option Dict) :
    ∃ t, r.send o data sendMore metadata = .ok t ∧ t.Sound c i ∧
      t.handler.headerWritten = true ∧ t.finished = r.finished := by
  obtain ⟨rfl, rfl, hreplied⟩ := h
  obtain ⟨hraised, hwritten, hreply⟩ := r.handler.send_written data sendMore metadata
  have horigin := r.handler.send_origin data sendMore metadata true
  simp only [send, ho.write, hraised, Bool.false_eq_true, if_false]
  refine ⟨_, rfl, ⟨?_, ?_, fun _ => ?_⟩, hwritten, rfl⟩
  · exact congrArg Envelope.clientId horigin
  · exact congrArg Envelope.msgid horigin
  · cases hw : r.handler.headerWritten with
    | true =>
      obtain ⟨m, hm⟩ := hreplied hw
      exact ⟨m, List.mem_append_left _ hm⟩
    | false =>
      obtain ⟨m, hm⟩ := hreply hw
      exact ⟨m, List.mem_append_right _ (by simp [hm, RequestHandler.frames])⟩

theorem tryFlush_written (ho : o.Works) (h : r.Sound c i) :
    ∃ t, r.tryFlush o = .ok t ∧ t.Sound c i ∧ t.handler.headerWritten = true := by
  obtain ⟨metadata, hm⟩ := ho.report r.reports
  have hreport : ({ r with reports := r.reports + 1 } : Response).Sound c i := h.of_eq rfl rfl rfl rfl
  have hlength := hreport.quiet (setContentLength_quiet _)
  obtain ⟨t, ht, hsound, hwritten, -⟩ := send_written ho hlength r.buffer
    (!r.finished || r.handler.headerWritten) metadata
  simp only [tryFlush, hm, ht]
  split
  · obtain ⟨u, hu, hsound', hwritten', -⟩ := send_written ho
      (hsound.of_eq (t := t.truncate) rfl rfl rfl rfl) [] false metadata
    exact ⟨u, hu, hsound', hwritten'⟩
  · exact ⟨t.truncate, rfl, hsound.of_eq rfl rfl rfl rfl, hwritten⟩

theorem flush_written (ho : o.Works) (h : r.Sound c i) :
    ∃ t, r.flush o = .ok t ∧ t.Sound c i ∧ t.handler.headerWritten = true := by
  obtain ⟨t, ht, hsound⟩ := tryFlush_written ho h
  exact ⟨t, by simp only [flush, ht], hsound⟩

theorem finish_written (ho : o.Works) (h : r.Sound c i) :
    ∃ t, r.finish o = .ok t ∧ t.Sound c i ∧ t.handler.headerWritten = true :=
  flush_written ho (h.of_eq rfl rfl rfl rfl)

theorem setStatusCode_sound (h : r.Sound c i) (code : Int) : (r.setStatusCode code).Sound c i :=
  h.quiet (setStatusCode_quiet r code)

theorem setHeader_sound (h : r.Sound c i) (key : String) (value : PyVal) :
    (r.setHeader key value).Sound c i := h.quiet (setHeader_quiet r key value)

theorem setExtraHeader_sound (h : r.Sound c i) (key : String) (value : PyVal) :
    (r.setExtraHeader key value).Sound c i := by
  refine setHeader_sound (r := { r with extraHeaders := r.extraHeaders.assign key value }) ?_ key value
  exact h.of_eq rfl rfl rfl rfl

theorem sendError_written (ho : o.Works) (h : r.Sound c i) (code : Int) (message : String) :
    (r.sendError o code message).Sound c i ∧
      (r.sendError o code message).handler.headerWritten = true := by
  unfold sendError
  split
  · rename_i hw
    exact ⟨h, hw⟩
  · obtain ⟨t, ht, hsound, hwritten, -⟩ :=
      send_written ho (setStatusCode_sound h code) (encode message) false none
    rw [ht]
    exact ⟨hsound.of_eq rfl rfl rfl rfl, hwritten⟩

theorem apply_sound (ho : o.Works) (h : r.Sound c i) (op : Op) :
    ∃ t, r.apply o op = .ok t ∧ t.Sound c i ∧
      (r.handler.headerWritten = true ∨ op = .finish → t.handler.headerWritten = true) := by
  cases op with
  | write data => exact ⟨_, rfl, h.of_eq rfl rfl rfl rfl, fun hw => hw.resolve_right nofun⟩
  | flush =>
    obtain ⟨t, ht, hsound, hwritten⟩ := flush_written ho h
    exact ⟨t, ht, hsound, fun _ => hwritten⟩
  | finish =>
    obtain ⟨t, ht, hsound, hwritten⟩ := finish_written ho h
    exact ⟨t, ht, hsound, fun _ => hwritten⟩
  | clear => exact ⟨_, rfl, h.of_eq rfl rfl rfl rfl, fun hw => hw.resolve_right nofun⟩
  | truncate => exact ⟨_, rfl, h.of_eq rfl rfl rfl rfl, fun hw => hw.resolve_right nofun⟩
  | setStatusCode code =>
    refine ⟨_, rfl, setStatusCode_sound h code, fun hw => ?_⟩
    have hw := hw.resolve_right nofun
    rw [setStatusCode, if_pos hw]
    exact hw
  | setHeader key value =>
    refine ⟨_, rfl, setHeader_sound h key value, fun hw => ?_⟩
    have hw := hw.resolve_right nofun
    rw [setHeader, if_pos hw]
    exact hw
  | setExtraHeader key value =>
    refine ⟨_, rfl, setExtraHeader_sound h key value, fun hw => ?_⟩
    have hw := hw.resolve_right nofun
    rw [setExtraHeader, setHeader, if_pos hw]
    exact hw
  | removeHeader key => exact ⟨_, rfl, h.of_eq rfl rfl rfl rfl, fun hw => hw.resolve_right nofun⟩
  | sendError code message =>
    obtain ⟨hsound, hwritten⟩ := sendError_written ho h code message
    exact ⟨_, rfl, hsound, fun _ => hwritten⟩

theorem run_sound (ho : o.Works) {ops : List Op} (h : r.Sound c i) :
    ∃ t, run o r ops = .ok t ∧ t.Sound c i ∧
      (r.handler.headerWritten = true ∨ .finish ∈ ops → t.handler.headerWritten = true) := by
  induction ops generalizing r with
  | nil => exact ⟨r, rfl, h, fun hw => hw.resolve_right (List.not_mem_nil)⟩
  | cons op ops ih =>
    obtain ⟨t, ht, hsound, hwritten⟩ := apply_sound ho h op
    obtain ⟨u, hu, hsound', hwritten'⟩ := ih hsound
    refine ⟨u, by rw [run, ht]; exact hu, hsound', fun hw => hwritten' ?_⟩
    rcases hw with hw | hw
    · exact .inl (hwritten (.inl hw))
    · rcases List.mem_cons.mp hw with hop | hw
      · exact .inl (hwritten (.inr hop.symm))
      · exact .inr hw

end sound

end Response

end Qgis
