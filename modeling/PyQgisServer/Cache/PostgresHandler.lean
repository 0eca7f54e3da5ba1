import PyQgisServer.Cache.Alias
import PyQgisServer.Library.Urllib.Netloc

namespace QgsCache

open Urllib

def allowedSecureParams : List Str := ["service", "project", "dbname", "schema"].map String.toList

structure ConnexionParams where
  host : Option Str
  port : Option ℕ
  user : Option Str
  password : Option Str
  database : Option Str
  options : PyDict Str Str

inductive QueryResult where
  | operationalError
  | error
  | noRow
  | row (lastModifiedTime : Option Str)

structure Database where
  execute : ConnexionParams → Str → QueryResult
  fromisoformat : Str → Option ℤ

def queryParams (insecure : Bool) (query : Str) : PyDict Str Str :=
  ((parseQs query).items.filter fun x => insecure || x.1 ∈ allowedSecureParams).foldl
    (fun d x => d.set x.1 (x.2.headD [])) .empty

-- the keywords that dict() is given besides the parameters
def connexionKeywords : List Str := ["host", "port", "user", "password", "database"].map String.toList

def selectMetadata (schema prjname : Str) : Str :=
  "select metadata from ".toList ++ schema ++ ".qgis_projects where name='".toList ++ prjname ++ ['\'']

def postgresUrl (netloc : Str) (params : PyDict Str Str) : Str :=
  "postgresql://".toList ++ netloc ++ "/?".toList ++
    ['&'].intercalate (params.items.map fun x => x.1 ++ '=' :: x.2)

def readMetadata (db : Database) : QueryResult → Except CacheError ℤ
  | .operationalError => .error .fileNotFound
  | .error => .error .runtimeError
  | .noRow => .error .fileNotFound
  | .row none => .error .keyError
  | .row (some time) =>
    match db.fromisoformat time with
    | none => .error .valueError
    | some t => .ok t

def checkUnsafeUrl (env : Tables) (db : Database) (insecure : Bool) (url : ParseResult) :
    Except CacheError (Str × ℤ) :=
  let params := queryParams insecure url.query
  let prjname := (params.get? "project".toList).getD (stripSlashes url.path)
  if prjname = [] then .error .fileNotFound
  else
    let params := params.erase "project".toList
    let schema := (params.get? "schema".toList).getD "public".toList
    let params := params.erase "schema".toList
    let database := params.get? "dbname".toList
    let params := params.erase "dbname".toList
    match url.port with
    | none => .error .valueError
    | some port =>
      if params.keys.any (· ∈ connexionKeywords) then .error .typeError
      else
        let connexion : ConnexionParams :=
          ⟨url.hostname env, port, url.username, url.password, database, params⟩
        let netloc :=
          if insecure then url.netloc
          else match url.username with
            | some (c :: user) => c :: user ++ ['@']
            | _ => []
        let params := (params.set "project".toList prjname).set "schema".toList schema
        let params := match database with
          | some (c :: name) => params.set "dbname".toList (c :: name)
          | _ => params
        (readMetadata db (db.execute connexion (selectMetadata schema prjname))).map
          fun t => (postgresUrl netloc params, t)

end QgsCache
