import PyQgisServer.Handlers.AsyncHandler

namespace Handlers

open Zmq

inductive FrontHandler where
  | ows
  | oapi
  deriving DecidableEq

namespace FrontHandler

def ogcScheme : FrontHandler → String
  | .ows => "OWS"
  | .oapi => "OAF"

def methods : FrontHandler → List String
  | .ows => ["GET", "POST", "HEAD"]
  | .oapi => ["GET", "POST", "HEAD", "DELETE", "PUT", "PATCH", "OPTIONS"]

end FrontHandler

-- what set_backend_headers reads: the settings allow_headers and debug_request_id, the argument
-- MAP and the headers of the request, with the URL to forward when there is a proxy
structure BackendRequest where
  allowedHdrs : List String
  debugRequestId : Option String
  projectPath : Option String
  headers : List (String × String)
  proxyUrl : Option String

namespace BackendRequest

def header (r : BackendRequest) (name : String) : String := (r.headers.lookup name).getD ""

def debugId (r : BackendRequest) : Option String :=
  (r.headers.lookup "X-Debug-Id").filter fun id =>
    id ≠ "" && (r.debugRequestId = some "*" || r.debugRequestId = some id)

def copied (r : BackendRequest) : List (String × String) :=
  r.headers.filter fun x => r.allowedHdrs.any fun pat => x.1.toUpper.startsWith pat

def assignStr (d : Dict) (k : String) : Option String → Dict
  | none => d
  | some v => d.assign k (.str v)

def setBackendHeaders (r : BackendRequest) (front : FrontHandler) : Dict :=
  let headers := assignStr [] "X-Qgis-Forwarded-Url" r.proxyUrl
  let headers := assignStr headers "X-Map-Location" (r.projectPath.filter (· ≠ ""))
  let headers := headers.assign "X-Ogc-Scheme" (.str front.ogcScheme)
  let headers := headers.assign "If-None-Match" (.str (r.header "If-None-Match"))
  let headers := headers.assign "X-Request-Id"
    (match r.headers.lookup "X-Request-Id" with
      | some id => .str id
      | none => .none)
  let headers := assignStr headers "X-Debug-Id" r.debugId
  let headers := headers.assign "Accept" (.str (r.header "Accept"))
  r.copied.foldl (fun d x => d.assign x.1 (.str x.2)) headers

end BackendRequest

structure Forwarded where
  front : FrontHandler
  backend : BackendRequest
  query : String
  reqUrl : String
  http : HttpRequest
  method : String
  allowed : method ∈ front.methods

def Forwarded.message (f : Forwarded) : RequestMessage :=
  forwarded ⟨f.query, f.backend.setBackendHeaders f.front, f.reqUrl⟩ f.http f.method

end Handlers
