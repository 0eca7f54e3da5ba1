import Mathlib.Logic.Function.Basic
import PyQgisServer.Zmq.Messages

namespace Zmq

inductive FetchError where
  | timeout
  | gateway
  | proxy (code : Frame)
  deriving DecidableEq

inductive Future where
  | pending
  | result
  | exception (e : FetchError)
  | cancelled
  deriving DecidableEq

-- chunks holds everything ever put in the queue, taken counts the items already got from it
structure AsyncResponseHandler where
  headers : Dict
  future : Future
  chunks : List (Bytes × Bool)
  taken : ℕ
  hasMore : Bool
  data : Option Bytes
  metadata : Option Dict
  status : Int
  deriving DecidableEq

namespace AsyncResponseHandler

def new : AsyncResponseHandler where
  headers := []
  future := .pending
  chunks := []
  taken := 0
  hasMore := false
  data := none
  metadata := none
  status := -1

structure Outcome where
  handler : AsyncResponseHandler
  raised : Bool

def resolve (h : AsyncResponseHandler) (f : Future) : Outcome :=
  if h.future = .pending then ⟨{ h with future := f }, false⟩ else ⟨h, true⟩

def setException (h : AsyncResponseHandler) (e : FetchError) : Outcome :=
  { h with hasMore := false }.resolve (.exception e)

def setResult (h : AsyncResponseHandler) (data : Frame) : Outcome :=
  if h.status = -1 then
    match data.loads with
    | some (.reply m) =>
      let h := { h with headers := m.headers, data := m.data, status := m.status,
                        metadata := m.metadata }
      let h := if m.status = 206 then { h with hasMore := true, chunks := [] } else h
      h.resolve .result
    | _ => ⟨h, true⟩
  else if h.hasMore then
    match data.loads with
    | some (.chunk body hasMore _) =>
      ⟨{ h with hasMore := hasMore, chunks := h.chunks ++ [(body, hasMore)] }, false⟩
    | _ => ⟨h, true⟩
  else ⟨h, false⟩

def done (h : AsyncResponseHandler) : Bool := !h.hasMore && h.future != .pending

def take (h : AsyncResponseHandler) (data : Frame) (rest : List Frame) : Outcome :=
  match rest with
  | [] => h.setResult data
  | code :: _ => if data = err then h.setException (.proxy code) else h.setResult data

end AsyncResponseHandler

-- responses holds the handler objects of all fetches, handlers says which ids are keys of _handlers
structure AsyncClient where
  responses : Frame → Option AsyncResponseHandler
  handlers : Frame → Bool

namespace AsyncClient

def init : AsyncClient := ⟨fun _ => none, fun _ => false⟩

def setResponse (c : AsyncClient) (m : Frame) (h : AsyncResponseHandler) : AsyncClient :=
  { c with responses := Function.update c.responses m (some h) }

def pop (c : AsyncClient) (m : Frame) : AsyncClient :=
  { c with handlers := Function.update c.handlers m false }

def register (c : AsyncClient) (m : Frame) : AsyncClient :=
  { c.setResponse m .new with handlers := Function.update c.handlers m true }

def poll (c : AsyncClient) (msg : List Frame) : AsyncClient :=
  match msg with
  | correlationId :: data :: rest =>
    match c.handlers correlationId, c.responses correlationId with
    | true, some h =>
      let r := h.take data rest
      let c := c.setResponse correlationId r.handler
      if !r.raised && r.handler.done then c.pop correlationId else c
    | _, _ => c
  | _ => c

-- wait_for gives up on the future, or the awaiting task is cancelled
def cancel (c : AsyncClient) (m : Frame) : AsyncClient :=
  match c.responses m with
  | some h =>
    if h.future = .pending then c.setResponse m { h with future := .cancelled } else c
  | none => c

-- the TimeoutError clauses of _get and _next_chunk
def expire (c : AsyncClient) (m : Frame) : AsyncClient :=
  match c.responses m with
  | some h => c.setResponse m { h with hasMore := false }
  | none => c

def nextChunk (c : AsyncClient) (m : Frame) : AsyncClient :=
  match c.responses m with
  | some h =>
    if h.taken < h.chunks.length then c.setResponse m { h with taken := h.taken + 1 } else c
  | none => c

def terminate (c : AsyncClient) : AsyncClient := { c with handlers := fun _ => false }

end AsyncClient

inductive ClientAct where
  | cancel (m : Frame)
  | expire (m : Frame)
  | forget (m : Frame)
  | nextChunk (m : Frame)
  | terminate

def AsyncClient.act (c : AsyncClient) : ClientAct → AsyncClient
  | .cancel m => c.cancel m
  | .expire m => c.expire m
  | .forget m => c.pop m
  | .nextChunk m => c.nextChunk m
  | .terminate => c.terminate

end Zmq
