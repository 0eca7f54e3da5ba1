import Mathlib.Data.List.DropRight
import Mathlib.Data.List.Basic

namespace Urllib

abbrev Str := List Char

-- found without it, but then each definition that decides an equality of strings keeps a proof of its own
instance : LawfulBEq Str := inferInstance

def before (c : Char) (s : Str) : Str := s.takeWhile (· != c)

def after (c : Char) (s : Str) : Str := (s.dropWhile (· != c)).tail

def usesRelative : List Str :=
  ["", "ftp", "http", "gopher", "nntp", "imap", "wais", "file", "https", "shttp", "mms",
    "prospero", "rtsp", "rtsps", "rtspu", "sftp", "svn", "svn+ssh", "ws", "wss"].map String.toList

def usesNetloc : List Str :=
  ["", "ftp", "http", "gopher", "nntp", "telnet", "imap", "wais", "file", "mms", "https", "shttp",
    "snews", "prospero", "rtsp", "rtsps", "rtspu", "rsync", "svn", "svn+ssh", "sftp", "nfs", "git",
    "git+ssh", "ws", "wss", "itms-services"].map String.toList

def usesParams : List Str :=
  ["", "ftp", "hdl", "prospero", "http", "imap", "https", "shttp", "rtsp", "rtsps", "rtspu", "sip",
    "sips", "mms", "sftp", "tel"].map String.toList

def isAsciiAlpha (c : Char) : Bool := ('a' ≤ c && c ≤ 'z') || ('A' ≤ c && c ≤ 'Z')

def isHexDigit (c : Char) : Bool := ('0' ≤ c && c ≤ '9') || ('a' ≤ c && c ≤ 'f') || ('A' ≤ c && c ≤ 'F')

def schemeChar (c : Char) : Bool :=
  isAsciiAlpha c || ('0' ≤ c && c ≤ '9') || c == '+' || c == '-' || c == '.'

def isC0ControlOrSpace (c : Char) : Bool := c.toNat ≤ 0x20

def isUnsafe (c : Char) : Bool := c == '\t' || c == '\r' || c == '\n'

def isNetlocEnd (c : Char) : Bool := c == '/' || c == '?' || c == '#'

-- unicodedata.normalize with the NFKC form, whether ipaddress reads a text as an IPv6 address,
-- and str.lower
structure Tables where
  nfkc : Str → Str
  isIPv6 : Str → Bool
  lower : Str → Str

structure SplitResult where
  scheme : Str
  netloc : Str
  path : Str
  query : Str
  fragment : Str
  deriving DecidableEq

structure ParseResult extends SplitResult where
  params : Str
  deriving DecidableEq

def checkBracketedHost (env : Tables) (hostname : Str) : Bool :=
  match hostname with
  | 'v' :: rest =>
    !(before '.' rest).isEmpty && (before '.' rest).all isHexDigit && !(after '.' rest).isEmpty
  | _ => env.isIPv6 hostname

def checkBracketedNetloc (env : Tables) (netloc : Str) : Bool :=
  let hostnameAndPort := netloc.rtakeWhile (· != '@')
  if '[' ∈ hostnameAndPort then
    let bracketed := after '[' hostnameAndPort
    let port := after ']' bracketed
    (before '[' hostnameAndPort).isEmpty && (port.isEmpty || port.head? == some ':') &&
      checkBracketedHost env (before ']' bracketed)
  else checkBracketedHost env (before ':' hostnameAndPort)

def checkNetloc (env : Tables) (netloc : Str) : Bool :=
  let n := netloc.filter fun c => !(c == '@' || c == ':' || c == '#' || c == '?')
  let netloc2 := env.nfkc n
  netloc.all (·.toNat < 128) || n == netloc2 ||
    !netloc2.any fun c => c == '/' || c == '?' || c == '#' || c == '@' || c == ':'

def allowedNetloc (env : Tables) (netloc : Str) : Bool :=
  (decide ('[' ∈ netloc) == decide (']' ∈ netloc)) &&
    (decide ('[' ∉ netloc) || checkBracketedNetloc env netloc) && checkNetloc env netloc

def clean (url : Str) : Str := (url.dropWhile isC0ControlOrSpace).filter (!isUnsafe ·)

def isScheme (s : Str) : Bool := s.head?.any isAsciiAlpha && s.all schemeChar

def splitScheme (url scheme : Str) : Str × Str :=
  if ':' ∈ url ∧ isScheme (before ':' url) then ((before ':' url).map Char.toLower, after ':' url)
  else (scheme, url)

def splitNetloc (url : Str) : Str × Str :=
  match url with
  | '/' :: '/' :: rest => (rest.takeWhile (!isNetlocEnd ·), rest.dropWhile (!isNetlocEnd ·))
  | _ => ([], url)

-- none stands for ValueError; the default scheme is always the scheme of an earlier result
def urlsplit (env : Tables) (url scheme : Str) : Option SplitResult :=
  let s := splitScheme (clean url) scheme
  let n := splitNetloc s.2
  if allowedNetloc env n.1 then
    let noFragment := before '#' n.2
    some ⟨s.1, n.1, before '?' noFragment, after '?' noFragment, after '#' n.2⟩
  else none

def splitParams (url : Str) : Str × Str :=
  let name := url.rtakeWhile (· != '/')
  (url.rdropWhile (· != '/') ++ before ';' name, after ';' name)

def urlparse (env : Tables) (url scheme : Str) : Option ParseResult :=
  (urlsplit env url scheme).map fun r =>
    if r.scheme ∈ usesParams then
      let p := splitParams r.path
      ⟨{ r with path := p.1 }, p.2⟩
    else ⟨r, []⟩

def isAbsolute (path : Str) : Bool := path.head? == some '/'

def SplitResult.authority (r : SplitResult) : Str :=
  if r.netloc ≠ [] then
    '/' :: '/' :: r.netloc ++ (if r.path = [] ∨ isAbsolute r.path then r.path else '/' :: r.path)
  else if r.path.take 2 = ['/', '/'] then '/' :: '/' :: r.path
  else if r.scheme ≠ [] ∧ r.scheme ∈ usesNetloc ∧ (r.path = [] ∨ isAbsolute r.path) then
    '/' :: '/' :: r.path
  else r.path

def urlunsplit (r : SplitResult) : Str :=
  let url := r.authority
  let url := if r.scheme = [] then url else r.scheme ++ ':' :: url
  let url := if r.query = [] then url else url ++ '?' :: r.query
  if r.fragment = [] then url else url ++ '#' :: r.fragment

def ParseResult.pathParams (r : ParseResult) : Str :=
  if r.params = [] then r.path else r.path ++ ';' :: r.params

def urlunparse (r : ParseResult) : Str := urlunsplit { r.toSplitResult with path := r.pathParams }

def resolveDots (resolved : List Str) : List Str → List Str
  | [] => resolved
  | seg :: segments =>
    if seg = ['.', '.'] then resolveDots resolved.dropLast segments
    else if seg = ['.'] then resolveDots resolved segments
    else resolveDots (resolved ++ [seg]) segments

-- the slice assignment segments[1:-1] = filter(None, segments[1:-1])
def squeeze (segments : List Str) : List Str :=
  match segments with
  | [] => []
  | [x] => [x]
  | x :: rest => x :: (rest.dropLast.filter (· ≠ []) ++ rest.getLast?.toList)

def segments (base path : Str) : List Str :=
  if isAbsolute path then path.splitOn '/'
  else
    let baseParts := base.splitOn '/'
    let baseParts := if baseParts.getLast? = some [] then baseParts else baseParts.dropLast
    squeeze (baseParts ++ path.splitOn '/')

def resolvedPath (segs : List Str) : List Str :=
  let resolved := resolveDots [] segs
  if segs.getLast? = some ['.'] ∨ segs.getLast? = some ['.', '.'] then resolved ++ [[]]
  else resolved

def mergePath (base path : Str) : Str :=
  let joined := ['/'].intercalate (resolvedPath (segments base path))
  if joined = [] then ['/'] else joined

def merge (base r : ParseResult) : ParseResult :=
  let netloc := if r.scheme ∈ usesNetloc then base.netloc else r.netloc
  if r.path = [] ∧ r.params = [] then
    { r with netloc, path := base.path, params := base.params
             query := if r.query = [] then base.query else r.query }
  else { r with netloc, path := mergePath base.path r.path }

def urljoin (env : Tables) (base url : Str) : Option Str :=
  if base = [] then some url
  else if url = [] then some base
  else
    (urlparse env base []).bind fun b =>
    (urlparse env url b.scheme).map fun r =>
      if r.scheme ≠ b.scheme ∨ r.scheme ∉ usesRelative then url
      else if r.scheme ∈ usesNetloc ∧ r.netloc ≠ [] then urlunparse r
      else urlunparse (merge b r)

end Urllib
