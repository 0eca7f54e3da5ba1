import PyQgisServer.Cache.FileHandler
import PyQgisServer.Cache.PostgresHandler

namespace QgsCache

open Urllib Pathlib

-- timestamps are microseconds
structure CacheDetails (P : Type) where
  project : P
  timestamp : ℤ
  deriving DecidableEq

-- the settings the handlers read, and what they find outside of the program; read also tells
-- whether the layers of the project are valid
structure Store (P : Type) where
  strictCheck : Bool
  insecure : Bool
  isFile : PurePath → Option Bool
  mtime : PurePath → ℤ
  database : Database
  storageMetadata : Str → Option ℤ
  read : Str → Option (P × Bool)
  lastModified : P → Option ℤ
  fileName : P → Str

namespace Store

variable {P : Type} (env : Tables) (s : Store P)

def readProject (uri : Str) : Except CacheError P :=
  match s.read uri with
  | none => .error .runtimeError
  | some (project, valid) => if s.strictCheck && !valid then .error .strictChecking else .ok project

def openFile (url : ParseResult) : Except CacheError PurePath :=
  match checkFile s.isFile (path url.path) with
  | .error e => .error e
  | .ok none => .error .fileNotFound
  | .ok (some p) => .ok p

def getStorageMetadata (uri : Str) : Except CacheError ℤ :=
  match s.storageMetadata uri with
  | none => .error .fileNotFound
  | some t => .ok t

-- the uri that a handler reads the project from, with its modified time
def locate (h : ProtocolHandler) (url : ParseResult) : Except CacheError (Str × ℤ) :=
  match h with
  | .file => (s.openFile url).map fun p => (p.str, s.mtime p)
  | .postgres => checkUnsafeUrl env s.database s.insecure url
  | .qgisStorage => (s.getStorageMetadata (urlunparse url)).map fun t => (urlunparse url, t)

def getModifiedTime (h : ProtocolHandler) (url : ParseResult) : Except CacheError ℤ :=
  (s.locate env h url).map Prod.snd

-- the storage handler alone replaces the timestamp of a project it keeps
def keep (h : ProtocolHandler) (d : CacheDetails P) (t : ℤ) : CacheDetails P :=
  match h with
  | .file => d
  | .postgres => d
  | .qgisStorage => ⟨d.project, t⟩

def getProject (h : ProtocolHandler) (url : ParseResult) (details : Option (CacheDetails P)) :
    Except CacheError (CacheDetails P) :=
  (s.locate env h url).bind fun (uri, t) =>
    match details with
    | none => (s.readProject uri).map (⟨·, t⟩)
    | some d => if d.timestamp < t then (s.readProject uri).map (⟨·, t⟩) else .ok (keep h d t)

end Store

-- every name is a file, and a project is its own uri
def openStore : Store Str where
  strictCheck := true
  insecure := false
  isFile := fun _ => some true
  mtime := fun _ => 0
  database := ⟨fun _ _ => .noRow, fun _ => none⟩
  storageMetadata := fun _ => none
  read := fun uri => some (uri, true)
  lastModified := fun _ => some 0
  fileName := id

end QgsCache
