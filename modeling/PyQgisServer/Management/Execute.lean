import PyQgisServer.Management.RequestHandler

namespace Management

open Zmq Urllib Qgis

namespace RequestHandler

def errorText (statusCode : Int) (message : Str) : Str :=
  Json.object [("error".toList, Json.object [("message".toList, Json.quote message)]),
    ("httpcode".toList, (toString statusCode).toList),
    ("status".toList, Json.quote (if statusCode ≠ 200 then "error" else "ok").toList)]

theorem sorted_error (message n status : Str) :
    Json.sortItems [("status".toList, status), ("httpcode".toList, n), ("error".toList, message)] =
      [("error".toList, message), ("httpcode".toList, n), ("status".toList, status)] := rfl

theorem dumps_errorDocument (statusCode : Int) (message : Str) :
    Json.dumps true (.dict (errorDocument statusCode message)) = some (errorText statusCode message) := by
  have hmessage : Json.dumps true (.dict [("message".toList, .str message)]) =
      some (Json.object [("message".toList, Json.quote message)]) :=
    Json.dumps_dict (Json.dumpsItems_cons _ (Json.dumps_str true message) (Json.dumpsItems_nil true))
  have herror := Json.dumpsItems_cons "error".toList hmessage (Json.dumpsItems_nil true)
  have hcode := Json.dumpsItems_cons "httpcode".toList (Json.dumps_int true statusCode) herror
  have hstatus := Json.dumpsItems_cons "status".toList
    (Json.dumps_str true (if statusCode ≠ 200 then "error" else "ok").toList) hcode
  rw [errorDocument, Json.dumps_dict hstatus, if_pos rfl, sorted_error]
  rfl

def errorMessage (responses : Int → Option Str) (e : Raised) : Str :=
  (errorReason none (some e)).getD ((responses (errorStatus e)).getD "Unknown".toList)

def errorBody (responses : Int → Option Str) (e : Raised) : Bytes :=
  Urllib.encode (errorText (errorStatus e) (errorMessage responses e))

section sendError

variable {o : Outside} {responses : Int → Option Str} {h : RequestHandler}

def errorWritten (responses : Int → Option Str) (h : RequestHandler) (e : Raised) : RequestHandler :=
  ((({ h with response := h.response.clear } : RequestHandler).setStatus responses (errorStatus e)
    (errorReason none (some e))).write (.dict (errorDocument (errorStatus e) (errorMessage responses e)))).2

theorem write_document (h : RequestHandler) (statusCode : Int) (message : Str) :
    h.write (.dict (errorDocument statusCode message)) =
      (.ok (), { h with response := { h.response.setHeader "Content-Type" contentType with
        buffer := (h.response.setHeader "Content-Type" contentType).buffer ++
          Urllib.encode (errorText statusCode message) } }) := by
  rw [write, chunkBytes, dumps_errorDocument]
  rfl

theorem sendError_eq (hopen : h.finished = false) (e : Raised) :
    h.sendError o responses (errorStatus e) none (some e) = (h.errorWritten responses e).responseFinish o := by
  have hwrite := write_document (({ h with response := h.response.clear } : RequestHandler).setStatus responses
    (errorStatus e) (errorReason none (some e))) (errorStatus e) (errorMessage responses e)
  have hnot : (h.errorWritten responses e).finished = false := by
    rw [errorWritten, hwrite]
    exact hopen
  have hnext : h.sendError o responses (errorStatus e) none (some e) =
      if (h.errorWritten responses e).finished then (.ok (), h.errorWritten responses e)
      else (h.errorWritten responses e).finish o none := by
    rw [errorWritten, hwrite, sendError]
    change andThen (RequestHandler.write _ (.dict (errorDocument (errorStatus e) (errorMessage responses e)))) _ = _
    rw [hwrite]
    rfl
  rw [hnext, hnot, if_neg (by simp)]
  unfold finish
  rw [hnot]
  rfl

theorem errorWritten_keeps (responses : Int → Option Str) (h : RequestHandler) (e : Raised) : h.Keeps (h.errorWritten responses e) :=
  ((clear_keeps h).trans (setStatus_keeps responses _ (errorStatus e) (errorReason none (some e)))).trans (write_keeps _ _)

theorem errorWritten_response (responses : Int → Option Str) (hw : h.response.handler.headerWritten = false) (e : Raised) :
    (h.errorWritten responses e).response =
      { h.response with
        handler := { h.response.handler with
          statusCode := errorStatus e, headers := h.response.extraHeaders.assign "Content-Type" contentType }
        buffer := errorBody responses e } := by
  have hstatus : h.response.clear.setStatusCode (errorStatus e) = { h.response.clear with
      handler := { h.response.clear.handler with statusCode := errorStatus e } } := by
    rw [Response.setStatusCode, if_neg (by simpa [Response.clear, Response.truncate] using hw)]
  rw [errorWritten, write_document]
  simp only [setStatus, hstatus]
  rw [Response.setHeader, if_neg (by simpa [Response.clear, Response.truncate] using hw)]
  rfl

def Sends (status : Int) (body : Bytes) (r t : Response) : Prop :=
  ∃ headers metadata, t.sent = r.sent ++ [r.handler.frames (.pickle (.reply ⟨status, headers, body, metadata⟩))]

structure Reported (o : Outside) (responses : Int → Option Str) (e : Raised) (h t : RequestHandler) : Prop where
  finished : t.finished = true
  finishes : t.finishes = h.finishes ++ [errorBody responses e]
  sends : o.Works → Sends (errorStatus e) (errorBody responses e) h.response t.response

theorem sendError_reported (o : Outside) (responses : Int → Option Str) (hopen : h.finished = false)
    (hw : h.response.handler.headerWritten = false) (e : Raised) :
    ∃ t, h.sendError o responses (errorStatus e) none (some e) = (.ok (), t) ∧ Reported o responses e h t := by
  have hresponse := errorWritten_response responses hw e
  have hkeeps := errorWritten_keeps responses h e
  obtain ⟨hfinished, hfinishes⟩ := responseFinish_cases (o := o) (h.errorWritten responses e)
  rw [hkeeps.finishes, hresponse] at hfinishes
  have htyped : ((h.errorWritten responses e).response.handler.headers.find "Content-Type").isSome = true := by
    rw [hresponse]
    simp [Dict.find_assign]
  have hunwritten := hkeeps.headerWritten.trans hw
  rw [sendError_eq hopen]
  obtain ⟨t, ht⟩ := Response.flush_finished_typed (o := o)
    (r := { (h.errorWritten responses e).response with finished := true }) hunwritten rfl htyped
  refine ⟨((h.errorWritten responses e).responseFinish o).2, ?_, hfinished, hfinishes, fun hworks => ?_⟩
  · rw [responseFinish]
    simp only [Response.finish, ht]
  · obtain ⟨metadata, hmetadata⟩ := hworks.report (h.errorWritten responses e).response.reports
    obtain ⟨u, hu, hflushed⟩ := Response.flush_fresh
      (r := { (h.errorWritten responses e).response with finished := true }) hmetadata hworks.write hunwritten
    have hsent : ((h.errorWritten responses e).responseFinish o).2.response.sent = u.sent := by
      rw [responseFinish]
      simp only [Response.finish, hu]
    rw [Sends, hsent, hflushed.sent]
    simp only [hresponse]
    exact ⟨_, _, rfl⟩

end sendError

section execute

variable {o : Outside} {responses : Int → Option Str}

theorem init_once (r : Response) (hw : r.handler.headerWritten = false) : (init r).Once r :=
  ⟨fun _ => ⟨rfl, hw, rfl, rfl⟩, nofun⟩

theorem andThen_ok {x : Result} {f : RequestHandler → Result} {t : RequestHandler} (h : andThen x f = (.ok (), t)) :
    ∃ u, x = (.ok (), u) ∧ f u = (.ok (), t) := by
  obtain ⟨e | ⟨⟩, u⟩ := x
  · cases h
  · exact ⟨u, rfl, h⟩

theorem finish_ok {h t : RequestHandler} (hopen : h.finished = false) (hok : h.finish o none = (.ok (), t)) :
    t.finished = true := by
  have hfinish : h.responseFinish o = (.ok (), t) := by
    rw [← hok, finish, hopen, if_neg (by simp)]
  have hfinished := (responseFinish_cases (o := o) h).1
  rw [hfinish] at hfinished
  exact hfinished

theorem finished_of_ok {h t : RequestHandler} (hok : (if h.finished then (.ok (), h) else h.finish o none) = (.ok (), t)) :
    t.finished = true := by
  split at hok
  · rename_i hfinished
    obtain ⟨-, rfl⟩ := hok
    exact hfinished
  · rename_i hopen
    exact finish_ok (by simpa using hopen) hok

theorem attempt_ok {h t : RequestHandler} {c : HandlerClass} {method : Method}
    (hok : h.attempt o responses c method = (.ok (), t)) : t.finished = true := by
  rw [attempt] at hok
  split at hok
  · cases hok
  · obtain ⟨u, -, hprepared⟩ := andThen_ok hok
    split at hprepared
    · rename_i hfinished
      obtain ⟨-, rfl⟩ := hprepared
      exact hfinished
    · obtain ⟨v, -, hmethod⟩ := andThen_ok hprepared
      exact finished_of_ok hmethod

theorem execute_once (o : Outside) (responses : Int → Option Str) (c : HandlerClass) (method : Method) (r : Response)
    (hw : r.handler.headerWritten = false) :
    ∃ t body, (init r).execute o responses c method = (.ok (), t) ∧ t.finishes = [body] ∧
      ∀ e h, (init r).attempt o responses c method = (.error e, h) → h.finished = false →
        body = errorBody responses e ∧ (o.Works → Sends (errorStatus e) body r t.response) := by
  have honce := attempt_once o responses (init_once r hw) c method
  rw [execute]
  obtain ⟨result, h, hattempt⟩ : ∃ result h, (init r).attempt o responses c method = (result, h) := ⟨_, _, rfl⟩
  rw [hattempt] at honce ⊢
  cases result with
  | ok done =>
    obtain ⟨body, hbody⟩ := honce.closed (attempt_ok hattempt)
    refine ⟨h, body, rfl, hbody, ?_⟩
    rintro e h' ⟨⟩
  | error e =>
    cases hfinished : h.finished with
    | true =>
      obtain ⟨body, hbody⟩ := honce.closed hfinished
      refine ⟨h, body, by simp [hfinished], hbody, ?_⟩
      rintro e' h' ⟨⟩ hopen
      rw [hopen] at hfinished
      cases hfinished
    | false =>
      obtain ⟨hnone, hunwritten, hframes, hsent⟩ := honce.opened hfinished
      obtain ⟨t, ht, hreported⟩ := sendError_reported o responses hfinished hunwritten e
      refine ⟨t, errorBody responses e, by simp [hfinished, ht], ?_, ?_⟩
      · rw [hreported.finishes, hnone, List.nil_append]
      · rintro e' h' ⟨⟩ -
        refine ⟨rfl, fun hworks => ?_⟩
        obtain ⟨headers, metadata, hsends⟩ := hreported.sends hworks
        refine ⟨headers, metadata, ?_⟩
        rw [hsends, hsent, hframes]

end execute

def partly : HandlerClass where
  prepare := .done
  method _ := .call (.write (.text "part".toList)) fun _ => .raise (.httpError 404 none)

def fresh : Response := Response.new (Zmq.RequestHandler.new (.bytes []) (.bytes []) ⟨"", [], "GET", none⟩)

theorem execute_once_partly :
    fresh.handler.headerWritten = false ∧
      ∃ t body, (init fresh).execute working (fun _ => none) partly .get = (.ok (), t) ∧ t.finishes = [body] ∧
        ∀ e h, (init fresh).attempt working (fun _ => none) partly .get = (.error e, h) → h.finished = false →
          body = errorBody (fun _ => none) e ∧ (working.Works → Sends (errorStatus e) body fresh t.response) :=
  ⟨rfl, execute_once working (fun _ => none) partly .get fresh rfl⟩

end RequestHandler

end Management
