import PyQgisServer.Zmq.Messages

namespace Zmq

structure RequestHandler where
  headers : Dict
  statusCode : Int
  request : RequestMessage
  headerWritten : Bool
  correlationId : Frame
  clientId : Frame
  deriving DecidableEq

namespace RequestHandler

def new (clientId correlationId : Frame) (request : RequestMessage) : RequestHandler where
  headers := []
  statusCode := 200
  request := request
  headerWritten := false
  correlationId := correlationId
  clientId := clientId

def frames (h : RequestHandler) (data : Frame) : List Frame := [h.clientId, h.correlationId, data]

theorem frames_injective (h : RequestHandler) : Function.Injective h.frames := by
  intro f g hfg
  simpa [frames] using hfg

def origin (h : RequestHandler) : Envelope := ⟨h.clientId, h.correlationId, .pickle (.request h.request)⟩

theorem origin_new {m : Envelope} {r : RequestMessage} (h : m.data.loads = some (.request r)) :
    (new m.clientId m.msgid r).origin = m := by
  obtain ⟨c, i, d⟩ := m
  cases d with
  | bytes b => simp [Frame.loads] at h
  | pickle o =>
    simp only [Frame.loads, Option.some.injEq] at h
    simp [origin, new, h]

structure Write where
  handler : RequestHandler
  sent : Option Frame
  raised : Bool

-- ok is false when the underlying send_multipart raises
def send (h : RequestHandler) (data : Bytes) (sendMore : Bool) (metadata : Option Dict) (ok : Bool) :
    Write :=
  if !h.headerWritten then
    let h := if sendMore && h.statusCode == 200 then { h with statusCode := 206 } else h
    if ok then
      ⟨{ h with headerWritten := true },
        some (.pickle (.reply ⟨h.statusCode, h.headers, data, metadata⟩)), false⟩
    else ⟨h, none, true⟩
  else if h.statusCode == 206 then
    if ok then
      ⟨if !sendMore then { h with statusCode := 200 } else h,
        some (.pickle (.chunk data sendMore metadata)), false⟩
    else ⟨h, none, true⟩
  else ⟨h, none, false⟩

theorem send_origin (h : RequestHandler) (data : Bytes) (sendMore : Bool) (metadata : Option Dict)
    (ok : Bool) : (h.send data sendMore metadata ok).handler.origin = h.origin := by
  unfold send
  split
  · split <;> split <;> rfl
  · split
    · split
      · split <;> rfl
      · rfl
    · rfl

theorem send_written (h : RequestHandler) (data : Bytes) (sendMore : Bool) (metadata : Option Dict) :
    (h.send data sendMore metadata true).raised = false ∧
      (h.send data sendMore metadata true).handler.headerWritten = true ∧
      (h.headerWritten = false →
        ∃ m, (h.send data sendMore metadata true).sent = some (.pickle (.reply m))) := by
  unfold send
  cases hw : h.headerWritten with
  | false => exact ⟨rfl, rfl, fun _ => ⟨_, rfl⟩⟩
  | true =>
    refine ⟨?_, ?_, nofun⟩
    · simp only [Bool.not_true, Bool.false_eq_true, if_false, if_true]
      split <;> rfl
    · simp only [Bool.not_true, Bool.false_eq_true, if_false, if_true]
      split
      · split
        · rfl
        · exact hw
      · exact hw

end RequestHandler

end Zmq
