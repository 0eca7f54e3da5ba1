import PyQgisServer.Library.PyStr

namespace Urllib

def userinfo (netloc : Str) : Option Str :=
  if '@' ∈ netloc then some (netloc.rdropWhile (· != '@')).dropLast else none

def hostinfo (netloc : Str) : Str × Str :=
  let host := netloc.rtakeWhile (· != '@')
  if '[' ∈ host then
    let bracketed := after '[' host
    (before ']' bracketed, after ':' (after ']' bracketed))
  else (before ':' host, after ':' host)

def readNat (digits : Str) : ℕ := digits.foldl (fun n c => 10 * n + (c.toNat - 48)) 0

namespace SplitResult

def username (r : SplitResult) : Option Str := (userinfo r.netloc).map (before ':')

def password (r : SplitResult) : Option Str :=
  (userinfo r.netloc).bind fun info => if ':' ∈ info then some (after ':' info) else none

-- a zone after '%' keeps its case
def hostname (env : Tables) (r : SplitResult) : Option Str :=
  let host := (hostinfo r.netloc).1
  if host = [] then none
  else some (env.lower (before '%' host) ++ host.dropWhile (· != '%'))

-- the outer none stands for ValueError
def port (r : SplitResult) : Option (Option ℕ) :=
  let digits := (hostinfo r.netloc).2
  if digits = [] then some none
  else if digits.all fun c => '0' ≤ c && c ≤ '9' then
    if digits.length ≤ PyStr.maxStrDigits ∧ readNat digits ≤ 65535 then some (some (readNat digits)) else none
  else none

end SplitResult

end Urllib
