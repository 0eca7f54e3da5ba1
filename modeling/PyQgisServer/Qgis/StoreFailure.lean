import PyQgisServer.Qgis.Completeness
import PyQgisServer.Qgis.HeadRequest
import PyQgisServer.Qgis.Survival

namespace Qgis

open QgsCache Urllib Zmq

-- what can be wrong with a location: missing is what the handlers report as FileNotFoundError, inaccessible a file
-- path that the system does not let be looked up
inductive Failure where
  | missing
  | rejected
  | invalidLayers
  | unreadable
  | inaccessible
  deriving DecidableEq

def Failure.raised : Failure → CacheError
  | .missing => .fileNotFound
  | .rejected => .pathNotAllowed
  | .invalidLayers => .strictChecking
  | .unreadable => .runtimeError
  | .inaccessible => .osError

def Failure.status (f : Failure) : Int :=
  match f with
  | .missing => 404
  | .rejected => 403
  | .invalidLayers => 422
  | .unreadable => 500
  | .inaccessible => 500

section failure

variable {P : Type} (env : Tables) (s : Store P)

end failure

def answerStatus (sent : List (List Frame)) : Option Int :=
  sent.findSome? fun frames =>
    match frames with
    | [_, _, .pickle (.reply m)] => some m.status
    | _ => none

section answer

variable {P : Type}

end answer

section status

variable {o : Outside} {r : Response} {h : Zmq.RequestHandler}

theorem Headed.answerStatus {status : Int} (hr : Headed h r status) : answerStatus r.sent = some status := by
  obtain ⟨m, hm, rfl⟩ := hr.sent
  rw [hm]
  rfl

theorem Unsent.answerError (hw : ∀ n, o.write n = true) (hr : Unsent h r) {P : Type} (e : CacheError)
    (c : HandlerClass P) : answerStatus (answerError o ⟨some e, r, c⟩).1.sent = some 500 := by
  have hset : r.setStatusCode 500 = { r with handler := { r.handler with statusCode := 500 } } := by
    rw [Response.setStatusCode, if_neg (by simp [hr.headerWritten])]
  have hfresh : (r.setStatusCode 500).handler.headerWritten = false := by
    rw [hset]
    exact hr.headerWritten
  obtain ⟨t, ht, hwrote⟩ := Response.send_fresh hw hfresh workerInternalError false none
  have hsent : t.sent = _ := hwrote.sent
  simp only [Qgis.answerError, if_neg (show ¬ r.handler.headerWritten = true by simp [hr.headerWritten]), ht]
  rw [hsent, hset, hr.sent]
  rfl

theorem Unsent.setEtagHeader {P : Type} (q : Server P) (env : Tables) (hr : Unsent h r) (uri : String) (t : ℤ)
    (request : Request) :
    Unsent h (q.setEtagHeader env uri t request r).2 ∧
      (q.setEtagHeader env uri t request r).2.handler.statusCode = r.handler.statusCode := by
  unfold Server.setEtagHeader
  split
  · exact ⟨hr, rfl⟩
  · rename_i etag _
    have hset : r.setExtraHeader "Etag" (.str etag) =
        { r with
          extraHeaders := r.extraHeaders.assign "Etag" (.str etag)
          handler := { r.handler with headers := r.handler.headers.assign "Etag" (.str etag) } } := by
      rw [Response.setExtraHeader, Response.setHeader, if_neg (by simp [hr.headerWritten])]
    rw [hset]
    exact ⟨⟨hr.headerWritten, hr.origin, hr.sent⟩, rfl⟩

end status

section failure

variable {P : Type} {env : Tables} {s : Store P}

end failure

section answer

variable {P : Type} {q : Server P} {env : Tables} {o : Outside} {s : Store P} {c : HandlerClass P}
  {h : Zmq.RequestHandler} {request : Request} {location : String}

end answer

end Qgis
