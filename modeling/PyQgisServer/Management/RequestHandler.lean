import PyQgisServer.Library.Json
import PyQgisServer.Library.Urllib.Quote
import PyQgisServer.Qgis.FlushFailure

namespace Management

open Zmq Urllib Qgis

inductive Raised where
  | httpError (statusCode : Int) (reason : Option Str)
  | exception

inductive Chunk where
  | text (s : Str)
  | bytes (b : Bytes)
  | dict (d : List (Str × Json.Value))
  | other

-- finishes are the bodies that the response has been finished with
structure RequestHandler where
  response : Response
  finished : Bool
  reason : Str
  finishes : List Bytes

inductive Call where
  | write (chunk : Chunk)
  | setStatus (statusCode : Int) (reason : Option Str)
  | setHeader (name value : String)
  | finish (chunk : Option Chunk)
  | sendError (statusCode : Int) (reason : Option Str) (excInfo : Option Raised)

-- what a handler does next may hang on what the last call has raised
inductive Body where
  | done
  | raise (e : Raised)
  | call (c : Call) (next : Except Raised Unit → Body)

inductive Method where
  | head
  | put
  | get
  | post
  | patch
  | delete
  | unknown
  deriving DecidableEq

structure HandlerClass where
  prepare : Body
  method : Method → Body

namespace RequestHandler

def init (r : Response) : RequestHandler := ⟨r, false, [], []⟩

abbrev Result := Except Raised Unit × RequestHandler

-- the rest is left out after an exception
def andThen (x : Result) (f : RequestHandler → Result) : Result :=
  match x with
  | (.error e, h) => (.error e, h)
  | (.ok (), h) => f h

def chunkBytes : Chunk → Option Bytes
  | .text s => some (Urllib.encode s)
  | .bytes b => some b
  | .dict d => (Json.dumps true (.dict d)).map Urllib.encode
  | .other => none

def contentType : PyVal := .str "application/json;charset=utf-8"

section calls

variable (o : Outside) (responses : Int → Option Str) (h : RequestHandler)

def write (chunk : Chunk) : Result :=
  match chunkBytes chunk with
  | none => (.error .exception, h)
  | some data =>
    let response := h.response.setHeader "Content-Type" contentType
    (.ok (), { h with response := { response with buffer := response.buffer ++ data } })

def setStatus (statusCode : Int) (reason : Option Str) : RequestHandler :=
  { h with
    response := h.response.setStatusCode statusCode
    reason := reason.getD ((responses statusCode).getD "Unknown".toList) }

def setHeader (name value : String) : RequestHandler := { h with response := h.response.setHeader name (.str value) }

def responseFinish : Result :=
  let h := { h with finished := true, finishes := h.finishes ++ [h.response.buffer] }
  match h.response.finish o with
  | .ok response => (.ok (), { h with response := response })
  | .error response => (.error .exception, { h with response := response })

def finish (chunk : Option Chunk) : Result :=
  if h.finished then (.error .exception, h)
  else
    match chunk with
    | none => h.responseFinish o
    | some chunk => andThen (h.write chunk) (responseFinish o)

def errorReason (reason : Option Str) : Option Raised → Option Str
  | some (.httpError _ (some own)) => if own = [] then reason else some own
  | _ => reason

def errorDocument (statusCode : Int) (reason : Str) : List (Str × Json.Value) :=
  [("status".toList, .str (if statusCode ≠ 200 then "error" else "ok").toList),
   ("httpcode".toList, .int statusCode),
   ("error".toList, .dict [("message".toList, .str reason)])]

def sendError (statusCode : Int) (reason : Option Str) (excInfo : Option Raised) : Result :=
  let h := { h with response := h.response.clear }
  let h := h.setStatus responses statusCode (errorReason reason excInfo)
  andThen (h.write (.dict (errorDocument statusCode h.reason))) fun h =>
    if h.finished then (.ok (), h) else h.finish o none

def call : Call → Result
  | .write chunk => h.write chunk
  | .setStatus statusCode reason => (.ok (), h.setStatus responses statusCode reason)
  | .setHeader name value => (.ok (), h.setHeader name value)
  | .finish chunk => h.finish o chunk
  | .sendError statusCode reason excInfo => h.sendError o responses statusCode reason excInfo

end calls

section execute

variable (o : Outside) (responses : Int → Option Str)

def run (h : RequestHandler) : Body → Result
  | .done => (.ok (), h)
  | .raise e => (.error e, h)
  | .call c next => run (h.call o responses c).2 (next (h.call o responses c).1)

-- the body of the try statement
def attempt (c : HandlerClass) (method : Method) (h : RequestHandler) : Result :=
  if method = .unknown then (.error (.httpError 405 none), h)
  else
    andThen (h.run o responses c.prepare) fun h =>
      if h.finished then (.ok (), h)
      else
        andThen ((h.setStatus responses 200 none).run o responses (c.method method)) fun h =>
          if h.finished then (.ok (), h) else h.finish o none

def errorStatus : Raised → Int
  | .httpError statusCode _ => statusCode
  | .exception => 500

-- an exception of the result escapes
def execute (c : HandlerClass) (method : Method) (h : RequestHandler) : Result :=
  match h.attempt o responses c method with
  | (.ok (), h) => (.ok (), h)
  | (.error e, h) => if h.finished then (.ok (), h) else h.sendError o responses (errorStatus e) none (some e)

end execute

structure Keeps (h t : RequestHandler) : Prop where
  finished : t.finished = h.finished
  finishes : t.finishes = h.finishes
  headerWritten : t.response.handler.headerWritten = h.response.handler.headerWritten
  frames : t.response.handler.frames = h.response.handler.frames
  sent : t.response.sent = h.response.sent

theorem Keeps.refl (h : RequestHandler) : h.Keeps h := ⟨rfl, rfl, rfl, rfl, rfl⟩

theorem Keeps.trans {h t u : RequestHandler} (ht : h.Keeps t) (hu : t.Keeps u) : h.Keeps u :=
  ⟨hu.finished.trans ht.finished, hu.finishes.trans ht.finishes, hu.headerWritten.trans ht.headerWritten,
    hu.frames.trans ht.frames, hu.sent.trans ht.sent⟩

structure Once (r : Response) (h : RequestHandler) : Prop where
  opened : h.finished = false → h.finishes = [] ∧ h.response.handler.headerWritten = false ∧
    h.response.handler.frames = r.handler.frames ∧ h.response.sent = r.sent
  closed : h.finished = true → ∃ body, h.finishes = [body]

section once

variable {o : Outside} {responses : Int → Option Str} {r : Response} {h t : RequestHandler}

theorem Once.keeps (honce : h.Once r) (hkeeps : h.Keeps t) : t.Once r := by
  refine ⟨fun hopen => ?_, fun hclosed => ?_⟩
  · rw [hkeeps.finishes, hkeeps.headerWritten, hkeeps.frames, hkeeps.sent]
    exact honce.opened (hkeeps.finished ▸ hopen)
  · rw [hkeeps.finishes]
    exact honce.closed (hkeeps.finished ▸ hclosed)

theorem quiet_keeps {u : Response} (hquiet : h.response.Quiet u) : h.Keeps { h with response := u } := by
  have hhandler := hquiet.handler
  exact ⟨rfl, rfl, by rw [← hhandler], by rw [← hhandler]; rfl, hquiet.sent⟩

theorem setStatus_keeps (responses : Int → Option Str) (h : RequestHandler) (statusCode : Int) (reason : Option Str) :
    h.Keeps (h.setStatus responses statusCode reason) := by
  have hstatus := quiet_keeps (Response.setStatusCode_quiet h.response statusCode)
  exact ⟨rfl, rfl, hstatus.headerWritten, hstatus.frames, hstatus.sent⟩

theorem setHeader_keeps (h : RequestHandler) (name value : String) : h.Keeps (h.setHeader name value) :=
  quiet_keeps (Response.setHeader_quiet h.response name (.str value))

theorem clear_keeps (h : RequestHandler) : h.Keeps { h with response := h.response.clear } :=
  ⟨rfl, rfl, rfl, rfl, rfl⟩

theorem write_keeps (h : RequestHandler) (chunk : Chunk) : h.Keeps (h.write chunk).2 := by
  rw [write]
  split
  · exact .refl h
  · have hheader := quiet_keeps (Response.setHeader_quiet h.response "Content-Type" contentType)
    exact ⟨rfl, rfl, hheader.headerWritten, hheader.frames, hheader.sent⟩

theorem responseFinish_cases (h : RequestHandler) :
    (h.responseFinish o).2.finished = true ∧ (h.responseFinish o).2.finishes = h.finishes ++ [h.response.buffer] := by
  rw [responseFinish]
  split
  · exact ⟨rfl, rfl⟩
  · exact ⟨rfl, rfl⟩

theorem responseFinish_once (honce : h.Once r) (hopen : h.finished = false) : (h.responseFinish o).2.Once r := by
  obtain ⟨hfinished, hfinishes⟩ := responseFinish_cases (o := o) h
  refine ⟨fun hnot => ?_, fun _ => ⟨h.response.buffer, ?_⟩⟩
  · rw [hfinished] at hnot
    cases hnot
  · rw [hfinishes, (honce.opened hopen).1]
    rfl

theorem andThen_once {x : Result} {f : RequestHandler → Result} (hx : x.2.Once r)
    (hf : ∀ t, x = (.ok (), t) → t.Once r → (f t).2.Once r) : (andThen x f).2.Once r := by
  obtain ⟨e | ⟨⟩, t⟩ := x
  · exact hx
  · exact hf t rfl hx

theorem finish_once (honce : h.Once r) (chunk : Option Chunk) : (h.finish o chunk).2.Once r := by
  unfold finish
  split
  · exact honce
  · rename_i hopen
    have hopen : h.finished = false := by simpa using hopen
    cases chunk with
    | none => exact responseFinish_once honce hopen
    | some chunk =>
      have hkeeps := write_keeps h chunk
      refine andThen_once (honce.keeps hkeeps) fun t ht honce' => responseFinish_once honce' ?_
      rw [ht] at hkeeps
      exact hkeeps.finished.trans hopen

theorem sendError_once (honce : h.Once r) (statusCode : Int) (reason : Option Str) (excInfo : Option Raised) :
    (h.sendError o responses statusCode reason excInfo).2.Once r := by
  have hkeeps := (clear_keeps h).trans (setStatus_keeps responses { h with response := h.response.clear }
    statusCode (errorReason reason excInfo))
  refine andThen_once (honce.keeps (hkeeps.trans (write_keeps _ _))) fun t _ honce' => ?_
  split
  · exact honce'
  · exact finish_once honce' none

theorem call_once (honce : h.Once r) (c : Call) : (h.call o responses c).2.Once r := by
  cases c with
  | write chunk => exact honce.keeps (write_keeps h chunk)
  | setStatus statusCode reason => exact honce.keeps (setStatus_keeps responses h statusCode reason)
  | setHeader name value => exact honce.keeps (setHeader_keeps h name value)
  | finish chunk => exact finish_once honce chunk
  | sendError statusCode reason excInfo => exact sendError_once honce statusCode reason excInfo

theorem run_once (honce : h.Once r) (body : Body) : (h.run o responses body).2.Once r := by
  induction body generalizing h with
  | done => exact honce
  | raise e => exact honce
  | call c next ih => exact ih _ (call_once honce c)

theorem attempt_once (o : Outside) (responses : Int → Option Str) (honce : h.Once r) (c : HandlerClass) (method : Method) :
    (h.attempt o responses c method).2.Once r := by
  rw [attempt]
  split
  · exact honce
  · refine andThen_once (run_once honce c.prepare) fun t _ hprepared => ?_
    split
    · exact hprepared
    · refine andThen_once (run_once (hprepared.keeps (setStatus_keeps responses t 200 none)) (c.method method)) fun u _ hmethod => ?_
      split
      · exact hmethod
      · exact finish_once hmethod none

end once

end RequestHandler

end Management
