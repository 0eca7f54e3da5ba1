import PyQgisServer.Library.Urllib.Parse

namespace StrFormat

open Urllib (Str)

inductive Error where
  | keyError
  | indexError
  | valueError
  | attributeError
  | typeError
  deriving DecidableEq

-- what str.format asks of the objects; an index that is a number is not a text
structure Objects (O : Type) where
  decimal : Char → Option ℕ
  argument : Str → Option O
  getattr : O → Str → Except Error O
  getitem : O → Str ⊕ ℕ → Except Error O
  convert : Char → O → O
  format : O → Str → Except Error Str

structure Field where
  name : Str
  conversion : Option Char
  spec : Str

def maxIndex : ℕ := 9223372036854775807

-- the name of a field, with the character that ends it and what comes after
def fieldName (bracket : Bool) : Str → Except Error (Str × Option (Char × Str))
  | [] => .ok ([], none)
  | c :: s =>
    if bracket then (fieldName (c ≠ ']') s).map fun x => (c :: x.1, x.2)
    else if c = '\x7b' then .error .valueError
    else if c = '\x7d' ∨ c = ':' ∨ c = '!' then .ok ([], some (c, s))
    else (fieldName (c = '[') s).map fun x => (c :: x.1, x.2)

-- the specification up to the brace that closes the field, within so many others
def formatSpec : ℕ → Str → Except Error (Str × Str)
  | _, [] => .error .valueError
  | n, c :: s =>
    if c = '\x7d' then
      match n with
      | 0 => .ok ([], s)
      | n + 1 => (formatSpec n s).map fun x => (c :: x.1, x.2)
    else (formatSpec (if c = '\x7b' then n + 1 else n) s).map fun x => (c :: x.1, x.2)

def parseField (s : Str) : Except Error (Field × Str) := do
  let (name, ending) ← fieldName false s
  match ending with
  | none => .error .valueError
  | some (c, s) =>
    if c = '\x7d' then .ok (⟨name, none, []⟩, s)
    else if c = ':' then
      let (spec, s) ← formatSpec 0 s
      .ok (⟨name, none, spec⟩, s)
    else
      match s with
      | [] => .error .valueError
      | [_] => .error .valueError
      | conversion :: c :: s =>
        if c = '\x7d' then .ok (⟨name, some conversion, []⟩, s)
        else if c = ':' then
          let (spec, s) ← formatSpec 0 s
          .ok (⟨name, some conversion, spec⟩, s)
        else .error .valueError

section objects

variable {O : Type} (py : Objects O)

def getIntegerFrom (n : ℕ) : Str → Except Error (Option ℕ)
  | [] => .ok (some n)
  | c :: s =>
    match py.decimal c with
    | none => .ok none
    | some d => if n > (maxIndex - d) / 10 then .error .valueError else getIntegerFrom (10 * n + d) s

def getInteger (s : Str) : Except Error (Option ℕ) := if s = [] then .ok none else getIntegerFrom py 0 s

def isAccess (c : Char) : Bool := c == '.' || c == '['

-- the attributes and items after the first name; fuel is the length of the text
def accesses : ℕ → O → Str → Except Error O
  | 0, o, _ => .ok o
  | _, o, [] => .ok o
  | fuel + 1, o, c :: s =>
    if c = '.' then
      let name := s.takeWhile (!isAccess ·)
      if name = [] then .error .valueError
      else do
        let o ← py.getattr o name
        accesses fuel o (s.dropWhile (!isAccess ·))
    else if c = '[' then
      if ']' ∈ s then do
        let name := s.takeWhile (· ≠ ']')
        let index ← getInteger py name
        if name = [] then .error .valueError
        else
          let o ← py.getitem o (match index with | none => .inl name | some n => .inr n)
          accesses fuel o (s.dropWhile (· ≠ ']')).tail
      else .error .valueError
    else .error .valueError

-- there are no positional arguments
def getField (name : Str) : Except Error O := do
  let first := name.takeWhile (!isAccess ·)
  let index ← getInteger py first
  if first = [] ∨ index.isSome then .error .indexError
  else
    match py.argument first with
    | none => .error .keyError
    | some o => accesses py name.length o (name.dropWhile (!isAccess ·))

def convertField (o : O) : Option Char → Except Error O
  | none => .ok o
  | some c => if c = 'r' ∨ c = 's' ∨ c = 'a' then .ok (py.convert c o) else .error .valueError

def renderField (expand : Str → Except Error Str) (f : Field) : Except Error Str := do
  let o ← getField py f.name
  let o ← convertField py o f.conversion
  let spec ← if '\x7b' ∈ f.spec then expand f.spec else .ok f.spec
  py.format o spec

-- expand is what is done with a specification that has fields of its own
def build (expand : Str → Except Error Str) : ℕ → Str → Except Error Str
  | 0, _ => .ok []
  | _, [] => .ok []
  | fuel + 1, c :: s =>
    if c = '\x7b' then
      match s with
      | [] => .error .valueError
      | d :: rest =>
        if d = '\x7b' then (build expand fuel rest).map ('\x7b' :: ·)
        else do
          let (f, s) ← parseField (d :: rest)
          let text ← renderField py expand f
          (build expand fuel s).map (text ++ ·)
    else if c = '\x7d' then
      match s with
      | [] => .error .valueError
      | d :: rest => if d = '\x7d' then (build expand fuel rest).map ('\x7d' :: ·) else .error .valueError
    else (build expand fuel s).map (c :: ·)

-- a specification may have fields, and their specifications none
def format (s : Str) : Except Error Str :=
  build py (fun spec => build py (fun _ => .error .valueError) spec.length spec) s.length s

end objects

end StrFormat
