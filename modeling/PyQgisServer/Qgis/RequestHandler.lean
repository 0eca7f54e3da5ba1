import PyQgisServer.Qgis.RefreshCache
import PyQgisServer.Qgis.Response
import PyQgisServer.Zmq.Pool

namespace Qgis

open QgsCache Urllib Zmq

inductive Method where
  | get
  | put
  | post
  | head
  | delete
  | patch
  deriving DecidableEq

def httpMethods : List (String × Method) :=
  [("GET", .get), ("PUT", .put), ("POST", .post), ("HEAD", .head), ("DELETE", .delete),
    ("PATCH", .patch)]

structure Request where
  url : String
  method : Method
  headers : Dict
  data : Option Bytes

def forwardedUrl (headers : Dict) : Except CacheError String :=
  match headers.find "X-Qgis-Forwarded-Url" with
  | none => .ok ""
  | some (.str url) => .ok url
  | some _ => .error .typeError

def lstrip (c : Char) (s : String) : String := String.ofList (s.toList.dropWhile (· == c))

namespace Request

def init (req : RequestMessage) : Except CacheError Request := do
  let location ← forwardedUrl req.headers
  let query := lstrip '?' req.query
  let url := if query = "" then location else location ++ "?" ++ query
  match httpMethods.lookup req.method with
  | none => .error .keyError
  | some method => .ok ⟨url, method, req.headers, req.data⟩

end Request

-- the server and what its library makes of a request; handleRequest lists what it does with the
-- response
structure Server (P : Type) where
  parameter : Request → String → Str
  formatResponse : String → Int → String × Bytes
  handleRequest : Request → Option P → List Op
  defaultProjectLocation : Option String
  etags : Bool
  sha1 : Str → String
  isoformat : ℤ → Str
  localIsoformat : ℤ → String

def noMapErrorMsg : String :=
  "No project defined. For OWS services: please provide a SERVICE and a MAP parameter"

def located : Option PyVal → Option String
  | some (.str s) => if s = "" then none else some s
  | _ => none

-- what handle_message leaves: the exception that escapes it, and the class attributes
structure Handled (P : Type) where
  raised : Option CacheError
  response : Response
  handlerClass : HandlerClass P

namespace Server

variable {P : Type}

def projectLocation (q : Server P) (headers : Dict) : Option String :=
  (located (headers.find "X-Map-Location")).or
    ((located (headers.find "X-Qgis-Project")).or (q.defaultProjectLocation.filter (· ≠ "")))

section handleMessage

variable (q : Server P) (env : Tables) (o : Outside) (s : Store P)

def computeEtag (uri : String) (lastModified : ℤ) (request : Request) : Option String :=
  if q.etags ∧ env.lower (q.parameter request "REQUEST") = "getcapabilities".toList then
    some ("\"" ++ q.sha1 (env.lower (q.parameter request "SERVICE") ++
      env.lower (q.parameter request "VERSION") ++ uri.toList ++ q.isoformat lastModified) ++ "\"")
  else none

def setEtagHeader (uri : String) (lastModified : ℤ) (request : Request) (response : Response) :
    Option String × Response :=
  match q.computeEtag env uri lastModified request with
  | none => (none, response)
  | some etag => (some etag, response.setExtraHeader "Etag" (.str etag))

def checkEtagHeader (headers : Dict) (etag : Option String) : Bool :=
  match etag with
  | none => false
  | some etag =>
    let given := (headers.find "If-None-Match").getD (.str "")
    given == .str "*" || given == .str etag

def ended (c : HandlerClass P) : Except Response Response → Handled P
  | .ok response => ⟨none, response, c⟩
  | .error response => ⟨some .keyError, response, c⟩

def onException (c : HandlerClass P) (location : String) (response : Response) (e : CacheError) :
    Handled P :=
  match e with
  | .strictChecking =>
    ⟨none, response.sendError o 422
      ("Invalid layers for project '" ++ location ++ "' - strict mode on"), c⟩
  | .unreadableResource =>
    ⟨none, response.sendError o 422 ("Cannot read project resource '" ++ location ++ "'"), c⟩
  | .pathNotAllowed => ⟨none, response.sendError o 403 "Project path not allowed", c⟩
  | .fileNotFound => ⟨none, response.sendError o 404 ("Project '" ++ location ++ "' not found"), c⟩
  | e => ⟨some e, response, c⟩

def cacheLookup (c : HandlerClass P) (key : Str) :
    Except CacheError (P × UpdateState) × HandlerClass P :=
  let r := c.cacheService.lookup env s key (c.cacheCheckInterval ≤ 0)
  (r.1, { c with cacheService := r.2 })

def getModifiedTime (c : HandlerClass P) (key : Str) (fromCache : Bool) :
    Except CacheError ℤ × HandlerClass P :=
  let r := c.cacheService.getModifiedTime env s key fromCache
  (r.1, { c with cacheService := r.2 })

def mapHeaders (location : String) (lastModified : ℤ) (requestId : Option PyVal)
    (response : Response) : Response :=
  let response := (response.setExtraHeader "X-Map-Id" (.str location)).setExtraHeader
    "Last-Modified" (.str (q.localIsoformat lastModified))
  match located requestId with
  | none => response
  | some id => response.setExtraHeader "X-Request-Id" (.str id)

-- the project is found, with its modified time
def serve (c : HandlerClass P) (headers : Dict) (ows : Bool) (location : String) (request : Request)
    (response : Response) (project : P) (lastModified : ℤ) : Handled P :=
  let response := q.mapHeaders location lastModified (headers.find "X-Request-Id") response
  let etag := if ows then q.setEtagHeader env location lastModified request response else (none, response)
  if checkEtagHeader headers etag.1 then ended c ((etag.2.setStatusCode 304).finish o)
  else ended c (etag.2.run o (q.handleRequest request (some project)))

theorem serve_cases {M : Response → Prop} {headers : Dict} {location : String} {request : Request}
    {response : Response} {lastModified : ℤ}
    (hmap : M (q.mapHeaders location lastModified (headers.find "X-Request-Id") response))
    (hetag : ∀ r, M r → M (q.setEtagHeader env location lastModified request r).2)
    (c : HandlerClass P) (ows : Bool) (project : P) :
    ∃ answer, M answer ∧
      (q.serve env o c headers ows location request response project lastModified =
          ended c ((answer.setStatusCode 304).finish o) ∨
        q.serve env o c headers ows location request response project lastModified =
          ended c (answer.run o (q.handleRequest request (some project)))) := by
  obtain ⟨etag, hanswer, hserve⟩ : ∃ etag : Option String × Response, M etag.2 ∧
      q.serve env o c headers ows location request response project lastModified =
        if checkEtagHeader headers etag.1 then ended c ((etag.2.setStatusCode 304).finish o)
        else ended c (etag.2.run o (q.handleRequest request (some project))) := by
    refine ⟨_, ?_, rfl⟩
    split
    · exact hetag _ hmap
    · exact hmap
  refine ⟨etag.2, hanswer, ?_⟩
  rw [hserve]
  split
  · exact .inl rfl
  · exact .inr rfl

def handleQgisRequest (c : HandlerClass P) (headers : Dict) (ows : Bool) (location : Option String)
    (request : Request) (response : Response) : Handled P :=
  match location with
  | none => ended c (response.run o (q.handleRequest request none))
  | some location =>
    match cacheLookup env s c location.toList with
    | (.error e, c) => onException o c location response e
    | (.ok (project, state), c) =>
      let c := if state = .unchanged then c
        else { c with removed := c.removed ++ [s.fileName project] }
      match getModifiedTime env s c location.toList true with
      | (.error e, c) => onException o c location response e
      | (.ok lastModified, c) =>
        q.serve env o c headers ows location request response project lastModified

def handleHead (c : HandlerClass P) (location : String) (request : Request) (response : Response) :
    Handled P :=
  match getModifiedTime env s c location.toList false with
  | (.error e, c) => ⟨some e, response, c⟩
  | (.ok lastModified, c) =>
    ended c ((q.setEtagHeader env location lastModified request response).2.finish o)

def handleNoMap (c : HandlerClass P) (response : Response) : Handled P :=
  let body := q.formatResponse noMapErrorMsg 400
  ended c (response.run o
    [.clear, .setStatusCode 400, .setHeader "Content-Type" (.str body.1), .write body.2, .finish])

def handleMessage (c : HandlerClass P) (h : Zmq.RequestHandler) : Handled P :=
  let response := Response.new h
  match Request.init h.request with
  | .error e => ⟨some e, response, c⟩
  | .ok request =>
    let headers := h.request.headers
    let ows := headers.find "X-Ogc-Scheme" == some (.str "OWS")
    match ows, q.projectLocation headers with
    | true, none =>
      if q.parameter request "SERVICE" ≠ [] then q.handleNoMap o c response
      else q.handleQgisRequest env o s c headers ows none request response
    | true, some location =>
      if request.method = .head then q.handleHead env o s c location request response
      else q.handleQgisRequest env o s c headers ows (some location) request response
    | false, location => q.handleQgisRequest env o s c headers ows location request response

end handleMessage

end Server

inductive Broadcast where
  | restart
  | report
  deriving DecidableEq

structure Turn (P : Type) where
  sent : List (List Frame)
  loop : Loop
  handlerClass : HandlerClass P

section runWorker

variable {P : Type}

def answerError (o : Outside) (r : Handled P) : Response × Loop :=
  match r.raised with
  | none => (r.response, .checking)
  | some _ =>
    if r.response.handler.headerWritten then (r.response, .checking)
    else
      match (r.response.setStatusCode 500).send o workerInternalError false none with
      | .ok response => (response, .leaving false)
      | .error response => (response, .leaving false)

def checkBroadcast (broadcast : Option Broadcast) : Loop → Loop
  | .checking => if broadcast = some .restart then .leaving true else .top
  | loop => loop

-- what run_worker does from a request on: the exceptions of the postprocess callback are logged
def runTurn (q : Server P) (env : Tables) (o : Outside) (s : Store P) (broadcast : Option Broadcast)
    (now done : ℚ) (c : HandlerClass P) (h : Zmq.RequestHandler) : Turn P :=
  let r := q.handleMessage env o s c h
  let answer := answerError o r
  let loop := checkBroadcast broadcast answer.2
  ⟨answer.1.sent, loop,
    if loop = .top then (r.handlerClass.refreshCache env s now done).2 else r.handlerClass⟩

end runWorker

end Qgis
