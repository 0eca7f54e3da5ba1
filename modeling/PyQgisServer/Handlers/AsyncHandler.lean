import PyQgisServer.Zmq.Network

namespace Handlers

open Zmq

-- what handle_request reads of the HTTP request besides the prelude
structure HttpRequest where
  body : Bytes
  service : Bool
  bodyArguments : Bool

-- encode_arguments, proxy_url and set_backend_headers, which subclasses and settings decide
structure Prelude where
  query : String
  headers : Dict
  reqUrl : String

inductive Effect where
  | request
  | log (reqUrl : String) (status : Int) (method query : String) (headers : Dict)
  | setHeader (name : String) (value : PyVal)
  | accessControlHeaders
  | setStatus (status : Int)
  | write (data : Bytes)
  | flush
  | sendError (status : Int) (reason : String)
  | error
  | emit (status : Int) (metadata : Dict)
  deriving DecidableEq

structure Handled where
  effects : List Effect
  raised : Option FetchError
  deriving DecidableEq

def forwarded (p : Prelude) (req : HttpRequest) (method : String) : RequestMessage :=
  if req.service && req.bodyArguments then
    ⟨p.query, p.headers, if method = "POST" then "GET" else method, none⟩
  else ⟨p.query, p.headers, method, some req.body⟩

def fetchMore : List (Bytes × Bool) → List Bytes × Bool
  | [] => ([], true)
  | (data, hasMore) :: rest =>
    if hasMore then (data :: (fetchMore rest).1, (fetchMore rest).2) else ([], false)

def fetchResult (h : AsyncResponseHandler) : Option (Except FetchError AsyncResponseHandler) :=
  match h.future with
  | .pending => none
  | .result => some (.ok h)
  | .exception e => some (.error e)
  | .cancelled => some (.error .timeout)

def conclude (effects : List Effect) (status : Int) (metadata : Option Dict) : Handled :=
  ⟨effects ++ (if status ≥ 500 then [.error] else []) ++ [.emit status (metadata.getD [])], none⟩

def writeData (data : Option Bytes) : List Effect :=
  match data with
  | some (b :: bs) => [.write (b :: bs)]
  | _ => []

section handleRequest

variable (p : Prelude) (method : String)

def onTimeout (effects : List Effect) : Handled :=
  conclude (effects ++ [.log p.reqUrl 499 method p.query [], .sendError 504 "Request timeout error"])
    504 none

def onGateway (effects : List Effect) : Handled :=
  conclude (effects ++ [.log p.reqUrl 499 method p.query [], .sendError 502 "Backend request error"])
    502 none

def respond (h : AsyncResponseHandler) : Handled :=
  let effects := .request :: .log p.reqUrl h.status method p.query h.headers ::
    h.headers.map (fun x => Effect.setHeader x.1 x.2) ++ [.accessControlHeaders]
  if h.status = 206 then
    let more := fetchMore h.chunks
    let effects := effects ++ [.setStatus 200] ++ writeData h.data ++ [.flush] ++
      more.1.flatMap fun chunk => [Effect.write chunk, .flush]
    if more.2 then onTimeout p method effects else conclude effects 206 h.metadata
  else if h.status = 509 then
    conclude (effects ++ [.sendError 509 "Server busy, please retry later"]) 509 h.metadata
  else conclude (effects ++ [.setStatus h.status] ++ writeData h.data) h.status h.metadata

def handleRequest (req : HttpRequest) (result : Except FetchError AsyncResponseHandler) : Handled :=
  let method := (forwarded p req method).method
  match result with
  | .ok h => respond p method h
  | .error .timeout => onTimeout p method [.request]
  | .error .gateway => onGateway p method [.request]
  | .error (.proxy code) => ⟨[.request], some (.proxy code)⟩

end handleRequest

def brokerAnswer (maxqueue : ℤ) (b : Broker) (k : AsyncClient) (c m : Frame) (r : RequestMessage)
    (tm : ℚ) : Option (Except FetchError AsyncResponseHandler) :=
  match (b.onFrontend maxqueue [c, m, .pickle (.request r)] tm true).2.filterMap Event.toClient with
  | [(_, msg)] => (((k.register m).poll msg).responses m).bind fetchResult
  | _ => none

theorem brokerAnswer_full {maxqueue : ℤ} {b : Broker} (h : (b.waiting.length : ℤ) ≥ maxqueue)
    (k : AsyncClient) (c m : Frame) (r : RequestMessage) (tm : ℚ) :
    brokerAnswer maxqueue b k c m r tm = some (.error (.proxy busy)) := by
  have hsent : (b.onFrontend maxqueue [c, m, .pickle (.request r)] tm true).2.filterMap
      Event.toClient = [(c, [m, err, busy])] := by
    simp only [Broker.onFrontend]
    rw [if_pos h]
    rfl
  have hpoll : ((k.register m).poll [m, err, busy]).responses m =
      some (AsyncResponseHandler.new.setException (.proxy busy)).handler := by
    simp only [AsyncClient.poll, AsyncClient.register, AsyncClient.setResponse, Function.update_self,
      AsyncResponseHandler.take, if_true]
    split <;> simp [AsyncClient.pop]
  simp only [brokerAnswer, hsent, hpoll, Option.bind_some]
  rfl

def ReportsBusy (r : Handled) : Prop :=
  r.raised = none ∧
    (∃ reason, Effect.sendError 509 reason ∈ r.effects) ∧ Effect.error ∈ r.effects ∧
    ∃ metadata, Effect.emit 509 metadata ∈ r.effects

theorem full_queue_never_reported {maxqueue : ℤ} {b : Broker}
    (h : (b.waiting.length : ℤ) ≥ maxqueue) (k : AsyncClient) (c m : Frame) (tm : ℚ) (p : Prelude)
    (method : String) (req : HttpRequest) :
    ∃ result, brokerAnswer maxqueue b k c m (forwarded p req method) tm = some result ∧
      (handleRequest p method req result).raised = some (.proxy busy) ∧
      ¬ ReportsBusy (handleRequest p method req result) := by
  refine ⟨.error (.proxy busy), brokerAnswer_full h k c m _ tm, rfl, ?_⟩
  rintro ⟨hr, -⟩
  cases hr

def getMapPrelude : Prelude := ⟨"?SERVICE=WMS", [], "http://localhost/ows/"⟩

def getMapRequest : HttpRequest := ⟨[], true, false⟩

theorem full_queue_never_reported_getMap :
    ∃ result, brokerAnswer 0 .init .init Pool.client1 (.bytes [1])
        (forwarded getMapPrelude getMapRequest "GET") 0 = some result ∧
      (handleRequest getMapPrelude "GET" getMapRequest result).raised = some (.proxy busy) ∧
      ¬ ReportsBusy (handleRequest getMapPrelude "GET" getMapRequest result) :=
  full_queue_never_reported (by decide) .init Pool.client1 (.bytes [1]) 0 getMapPrelude "GET" getMapRequest

theorem full_queue_not_reported :
    ¬ ∀ (maxqueue : ℤ) (b : Broker) (k : AsyncClient) (c m : Frame) (tm : ℚ) (p : Prelude)
      (method : String) (req : HttpRequest) (result : Except FetchError AsyncResponseHandler),
      (b.waiting.length : ℤ) ≥ maxqueue →
      brokerAnswer maxqueue b k c m (forwarded p req method) tm = some result →
      ReportsBusy (handleRequest p method req result) := by
  intro h
  have hb := h 0 .init .init Pool.client1 (.bytes [1]) 0 getMapPrelude "GET" getMapRequest
    (.error (.proxy busy)) (by decide) (brokerAnswer_full (by decide) _ _ _ _ _)
  cases hb.1

end Handlers
