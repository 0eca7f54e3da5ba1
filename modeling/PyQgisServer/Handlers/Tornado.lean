import Mathlib.Data.List.TakeWhile
import PyQgisServer.Handlers.AsyncHandler

namespace Handlers

open Zmq

inductive Call where
  | setStatus (status : Int)
  | setHeader (name : String) (value : PyVal)
  | write (data : Bytes)
  | flush
  | sendError (status : Int) (reason : String)
  deriving DecidableEq

-- cors are the headers of set_access_control_headers
def Effect.calls (cors : Dict) : Effect → List Call
  | .setHeader name value => [.setHeader name value]
  | .accessControlHeaders => cors.map fun x => .setHeader x.1 x.2
  | .setStatus status => [.setStatus status]
  | .write data => [.write data]
  | .flush => [.flush]
  | .sendError status reason => [.sendError status reason]
  | _ => []

def Handled.calls (cors : Dict) (r : Handled) : List Call := r.effects.flatMap (Effect.calls cors)

-- the reasons that are given need no escapes in JSON
def writeError (status : Int) (reason : String) : Bytes :=
  ("\x7b\"error\": \x7b\"message\": \"" ++ reason ++ "\"\x7d, \"httpcode\": " ++ toString status ++
    ", \"status\": \"" ++ (if status = 200 then "ok" else "error") ++ "\"\x7d").toUTF8.toList

-- headers are those that the handler sets; complete says that the body is ended normally
structure Received where
  status : Int
  headers : Dict
  body : Bytes
  complete : Bool
  deriving DecidableEq

-- fits says that the headers can be set and do not contradict the body; serve is what the client of
-- a handler gets that makes these calls and returns, for a request neither HEAD nor conditional
structure Tornado where
  fits : Dict → Bytes → Bool
  serve : List Call → Received

def Call.status? : Call → Option Int
  | .setStatus status => some status
  | _ => none

def Call.header? : Call → Option (String × PyVal)
  | .setHeader name value => some (name, value)
  | _ => none

def Call.data : Call → Bytes
  | .write data => data
  | _ => []

def Call.isError : Call → Bool
  | .sendError _ _ => true
  | _ => false

section sent

variable (calls : List Call)

def head : List Call := calls.takeWhile (· ≠ .flush)

def sentStatus : Int := ((head calls).filterMap Call.status?).getLast?.getD 200

def sentHeaders : Dict := (head calls).filterMap Call.header?

def sentBody : Bytes := calls.flatMap Call.data

def bodiless (status : Int) : Bool := status == 204 || status == 304 || (100 ≤ status && status < 200)

end sent

structure Tornado.Documented (t : Tornado) : Prop where
  sends : ∀ calls, calls.any Call.isError = false → t.fits (sentHeaders calls) (sentBody calls) = true →
    bodiless (sentStatus calls) = false →
    t.serve calls = ⟨sentStatus calls, sentHeaders calls, sentBody calls, true⟩
  -- of these, headers such as Content-Type are taken away
  sendsEmpty : ∀ calls, calls.any Call.isError = false → t.fits (sentHeaders calls) (sentBody calls) = true →
    bodiless (sentStatus calls) = true → sentBody calls = [] →
    (t.serve calls).status = sentStatus calls ∧ (t.serve calls).body = []
  refusesBody : ∀ calls, calls.any Call.isError = false → .flush ∉ calls →
    bodiless (sentStatus calls) = true → sentBody calls ≠ [] → (t.serve calls).status = 500
  sendsError : ∀ calls status reason body, calls.any Call.isError = false → .flush ∉ calls →
    t.fits (sentHeaders calls) body = true →
    (t.serve (calls ++ [.sendError status reason])).status = status ∧
      (t.serve (calls ++ [.sendError status reason])).body = writeError status reason
  endsLate : ∀ calls status reason, calls.any Call.isError = false → .flush ∈ calls →
    t.serve (calls ++ [.sendError status reason]) = t.serve calls
  fitsLength : ∀ headers cors body, t.fits (headers ++ cors) body = true →
    t.fits (headers.assign "Content-Length" (.int body.length) ++ cors) body = true

-- header values are given, and a length is that of the body
def plainFits (headers : Dict) (body : Bytes) : Bool :=
  headers.all fun x => x.2 != .none && (x.1 != "Content-Length" || x.2 == .int body.length)

def plainTornado : Tornado where
  fits := plainFits
  serve calls :=
    let body := calls.takeWhile (!Call.isError ·)
    match calls.find? Call.isError with
    | some (.sendError status reason) =>
      if .flush ∈ body then ⟨sentStatus body, sentHeaders body, sentBody body, true⟩
      else ⟨status, [], writeError status reason, true⟩
    | _ =>
      if .flush ∉ calls ∧ bodiless (sentStatus calls) = true ∧ sentBody calls ≠ [] then
        ⟨500, [], writeError 500 "Internal Server Error", true⟩
      else ⟨sentStatus calls, sentHeaders calls, sentBody calls, true⟩

section error

variable {calls : List Call} (h : calls.any Call.isError = false)
include h

theorem find?_isError : calls.find? Call.isError = none := by
  rw [List.find?_eq_none]
  exact List.any_eq_false.mp h

theorem find?_sendError (status : Int) (reason : String) :
    (calls ++ [Call.sendError status reason]).find? Call.isError = some (.sendError status reason) := by
  rw [List.find?_append, find?_isError h]
  rfl

theorem takeWhile_sendError (status : Int) (reason : String) :
    (calls ++ [Call.sendError status reason]).takeWhile (!Call.isError ·) = calls := by
  rw [List.takeWhile_append_of_pos, List.takeWhile_cons_of_neg (by simp [Call.isError]), List.append_nil]
  intro c hc
  have hfalse := List.any_eq_false.mp h c hc
  simpa using hfalse

end error

theorem plainFits_assign {headers cors : Dict} {body : Bytes} (h : plainFits (headers ++ cors) body = true) :
    plainFits (headers.assign "Content-Length" (.int body.length) ++ cors) body = true := by
  rw [plainFits, List.all_append, Bool.and_eq_true] at h ⊢
  refine ⟨?_, h.2⟩
  unfold Dict.assign
  split
  · rw [List.all_map]
    refine List.all_eq_true.mpr fun x hx => ?_
    simp only [Function.comp_apply]
    split
    · simp
    · exact List.all_eq_true.mp h.1 x hx
  · rw [List.all_append, Bool.and_eq_true]
    exact ⟨h.1, by simp⟩

theorem plainTornado_documented : plainTornado.Documented where
  sends calls hcalls _ hbodiless := by
    simp only [plainTornado, find?_isError hcalls]
    rw [if_neg]
    rintro ⟨-, htrue, -⟩
    exact Bool.false_ne_true (hbodiless.symm.trans htrue)
  sendsEmpty calls hcalls _ _ hempty := by
    simp only [plainTornado, find?_isError hcalls]
    rw [if_neg]
    · exact ⟨rfl, hempty⟩
    · rintro ⟨-, -, hne⟩
      exact hne hempty
  refusesBody calls hcalls hflush hbodiless hne := by
    simp only [plainTornado, find?_isError hcalls]
    rw [if_pos ⟨hflush, hbodiless, hne⟩]
  sendsError calls status reason _ hcalls hflush _ := by
    simp only [plainTornado, find?_sendError hcalls, takeWhile_sendError hcalls, if_neg hflush, and_self]
  endsLate calls status reason hcalls hflush := by
    simp only [plainTornado, find?_sendError hcalls, takeWhile_sendError hcalls, if_pos hflush,
      find?_isError hcalls]
    rw [if_neg]
    rintro ⟨hnot, -⟩
    exact hnot hflush
  fitsLength headers cors body h := plainFits_assign h

def replyCalls (headers : Dict) (status : Int) (data : Bytes) : List Call :=
  headers.map (fun x => .setHeader x.1 x.2) ++ .setStatus status :: (if data = [] then [] else [.write data])

def moreCalls (chunks : List Bytes) : List Call := .flush :: chunks.flatMap fun chunk => [.write chunk, .flush]

section calls

variable (headers : Dict) (status : Int) (data : Bytes)

theorem flush_notMem_replyCalls : .flush ∉ replyCalls headers status data := by
  rw [replyCalls]
  split <;> simp

theorem head_replyCalls {rest : List Call} (h : rest = [] ∨ ∃ more, rest = .flush :: more) :
    head (replyCalls headers status data ++ rest) = replyCalls headers status data := by
  have hflush := flush_notMem_replyCalls headers status data
  rw [head, List.takeWhile_append_of_pos]
  · rcases h with rfl | ⟨more, rfl⟩
    · simp
    · rw [List.takeWhile_cons_of_neg (by simp), List.append_nil]
  · intro c hc
    simp only [decide_eq_true_eq]
    rintro rfl
    exact hflush hc

theorem sentStatus_replyCalls {rest : List Call} (h : rest = [] ∨ ∃ more, rest = .flush :: more) :
    sentStatus (replyCalls headers status data ++ rest) = status := by
  rw [sentStatus, head_replyCalls _ _ _ h, replyCalls, List.filterMap_append, List.filterMap_map]
  have hnone : (headers.filterMap (Call.status? ∘ fun x => Call.setHeader x.1 x.2)) = [] := by
    rw [List.filterMap_eq_nil_iff]
    intro x _
    rfl
  rw [hnone]
  split <;> rfl

theorem sentHeaders_replyCalls {rest : List Call} (h : rest = [] ∨ ∃ more, rest = .flush :: more) :
    sentHeaders (replyCalls headers status data ++ rest) = headers := by
  rw [sentHeaders, head_replyCalls _ _ _ h, replyCalls, List.filterMap_append, List.filterMap_map]
  have hsome : (headers.filterMap (Call.header? ∘ fun x => Call.setHeader x.1 x.2)) = headers :=
    List.filterMap_some
  rw [hsome]
  split <;> simp [Call.header?]

omit status data in
theorem sentHeaders_headers : sentHeaders (headers.map fun x => .setHeader x.1 x.2) = headers := by
  induction headers with
  | nil => rfl
  | cons x headers ih => simpa [sentHeaders, head, Call.header?] using ih

theorem sentBody_replyCalls (rest : List Call) :
    sentBody (replyCalls headers status data ++ rest) = data ++ sentBody rest := by
  rw [sentBody, List.flatMap_append, replyCalls, List.flatMap_append, List.flatMap_map]
  have hnil : (headers.flatMap fun x => (Call.setHeader x.1 x.2).data) = [] := by
    rw [List.flatMap_eq_nil_iff]
    intro x _
    rfl
  rw [hnil]
  split
  · rename_i hdata
    rw [hdata]
    rfl
  · simp [Call.data, sentBody]

theorem sent_replyCalls :
    sentStatus (replyCalls headers status data) = status ∧ sentHeaders (replyCalls headers status data) = headers ∧
      sentBody (replyCalls headers status data) = data := by
  have hstatus := sentStatus_replyCalls headers status data (.inl rfl)
  have hheaders := sentHeaders_replyCalls headers status data (.inl rfl)
  have hbody := sentBody_replyCalls headers status data []
  rw [List.append_nil] at hstatus hheaders hbody
  exact ⟨hstatus, hheaders, hbody.trans (List.append_nil data)⟩

theorem sentBody_moreCalls (chunks : List Bytes) : sentBody (moreCalls chunks) = chunks.flatten := by
  rw [moreCalls, sentBody, List.flatMap_cons]
  have hdata : Call.flush.data = [] := rfl
  rw [hdata, List.nil_append]
  induction chunks with
  | nil => rfl
  | cons chunk chunks ih =>
    rw [List.flatMap_cons, List.flatMap_append, ih]
    simp [Call.data]

theorem replyCalls_noError : (replyCalls headers status data).any Call.isError = false := by
  rw [replyCalls, List.any_append, List.any_map]
  have hfalse : (Call.isError ∘ fun x : String × PyVal => Call.setHeader x.1 x.2) = fun _ => false := rfl
  rw [hfalse]
  split <;> simp [Call.isError]

theorem moreCalls_noError (chunks : List Bytes) : (moreCalls chunks).any Call.isError = false := by
  rw [moreCalls, List.any_cons, List.any_flatMap]
  simp [Call.isError]

end calls

section respond

variable (p : Prelude) (method : String) (cors : Dict) {a : AsyncResponseHandler}

theorem calls_conclude (effects : List Effect) (status : Int) (metadata : Option Dict) :
    (conclude effects status metadata).calls cors = effects.flatMap (Effect.calls cors) := by
  rw [Handled.calls, conclude, List.flatMap_append, List.flatMap_append]
  split <;> simp [Effect.calls]

theorem calls_writeData (data : Option Bytes) :
    (writeData data).flatMap (Effect.calls cors) = if data.getD [] = [] then [] else [.write (data.getD [])] := by
  match data with
  | none => rfl
  | some [] => rfl
  | some (b :: bytes) => rfl

theorem calls_headers (headers : Dict) :
    (headers.map fun x => Effect.setHeader x.1 x.2).flatMap (Effect.calls cors) =
      headers.map fun x => Call.setHeader x.1 x.2 := by
  rw [List.flatMap_map, ← List.flatMap_pure_eq_map]
  rfl

theorem calls_respond_single (h : a.status ≠ 206) (hbusy : a.status ≠ 509) :
    (respond p method a).calls cors = replyCalls (a.headers ++ cors) a.status (a.data.getD []) := by
  rw [respond, if_neg h, if_neg hbusy, calls_conclude]
  simp only [List.cons_append, List.flatMap_cons, List.flatMap_append, calls_headers, calls_writeData,
    List.flatMap_nil]
  simp [replyCalls, Effect.calls]

theorem calls_respond_busy (h : a.status = 509) :
    (respond p method a).calls cors = ((a.headers ++ cors).map fun x => Call.setHeader x.1 x.2) ++
      [.sendError 509 "Server busy, please retry later"] := by
  rw [respond, if_neg (by rw [h]; decide), if_pos h, calls_conclude]
  simp only [List.cons_append, List.flatMap_cons, List.flatMap_append, calls_headers, List.flatMap_nil]
  simp [Effect.calls]

theorem calls_chunks (chunks : List Bytes) :
    (chunks.flatMap fun chunk => [Effect.write chunk, .flush]).flatMap (Effect.calls cors) =
      chunks.flatMap fun chunk => [Call.write chunk, .flush] := by
  rw [List.flatMap_assoc]
  rfl

def streamEffects (a : AsyncResponseHandler) : List Effect :=
  [.request, .log p.reqUrl a.status method p.query a.headers] ++
    (a.headers.map fun x => .setHeader x.1 x.2) ++ [.accessControlHeaders, .setStatus 200] ++
    writeData a.data ++ [.flush] ++ (fetchMore a.chunks).1.flatMap fun chunk => [.write chunk, .flush]

theorem calls_streamEffects (a : AsyncResponseHandler) :
    (streamEffects p method a).flatMap (Effect.calls cors) =
      replyCalls (a.headers ++ cors) 200 (a.data.getD []) ++ moreCalls (fetchMore a.chunks).1 := by
  simp only [streamEffects, List.flatMap_append, calls_headers, calls_writeData, calls_chunks]
  simp [replyCalls, moreCalls, Effect.calls]

theorem respond_stream (h : a.status = 206) :
    respond p method a = if (fetchMore a.chunks).2 then onTimeout p method (streamEffects p method a)
      else conclude (streamEffects p method a) 206 a.metadata := by
  rw [respond, if_pos h]
  simp only [streamEffects, List.append_assoc, List.cons_append, List.nil_append]

theorem calls_respond_stream (h : a.status = 206) :
    (respond p method a).calls cors =
      replyCalls (a.headers ++ cors) 200 (a.data.getD []) ++ moreCalls (fetchMore a.chunks).1 ++
        if (fetchMore a.chunks).2 then [.sendError 504 "Request timeout error"] else [] := by
  rw [respond_stream p method h]
  cases hmore : (fetchMore a.chunks).2 with
  | true =>
    rw [if_pos rfl, if_pos rfl, onTimeout, calls_conclude, List.flatMap_append, calls_streamEffects]
    rfl
  | false =>
    rw [if_neg (by decide), if_neg (by decide), calls_conclude, calls_streamEffects, List.append_nil]

end respond

end Handlers
