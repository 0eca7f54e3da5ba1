import PyQgisServer.Library.PyDict
import PyQgisServer.Library.PyStr

namespace ConfigParser

open Urllib (Str)
open PyStr

def defaultSection : Str := "DEFAULT".toList

abbrev Options := PyDict Str (List Str)

-- what is read so far: the lines of each value; failed for the errors that are raised at the end
structure Reader where
  sections : PyDict Str Options
  defaults : Options
  cursect : Option Str
  optname : Str
  indentLevel : ℕ
  failed : Bool

def Reader.init : Reader := ⟨.empty, .empty, none, [], 0, false⟩

namespace Reader

variable (r : Reader)

def options (sectname : Str) : Options :=
  if sectname = defaultSection then r.defaults else (r.sections.get? sectname).getD .empty

def setOption (sectname optname : Str) (value : List Str) : Reader :=
  if sectname = defaultSection then { r with defaults := r.defaults.set optname value }
  else { r with sections := r.sections.set sectname ((r.options sectname).set optname value) }

def continuation (value : Str) : Reader :=
  match r.cursect with
  | none => r
  | some sectname =>
    if r.optname = [] then r
    else r.setOption sectname r.optname (((r.options sectname).get? r.optname).getD [] ++ [value])

end Reader

def sectionHeader : Str → Option Str
  | '[' :: s =>
    match (s.rdropWhile (· ≠ ']')).dropLast with
    | [] => none
    | header => some header
  | _ => none

def isDelimiter (c : Char) : Bool := c == '=' || c == ':'

section read

variable (t : UnicodeTables)

-- the option and its value, around the first delimiter
def optionLine (s : Str) : Option (Str × Str) :=
  match s.dropWhile (!isDelimiter ·) with
  | [] => none
  | _ :: value => some ((s.takeWhile (!isDelimiter ·)).rdropWhile t.isSpace, strip t.isSpace value)

-- an empty name is an error too
def readOption (r : Reader) (sectname : Str) (line : Str) : Option Reader :=
  match optionLine t line with
  | none => some { r with failed := true }
  | some (name, value) =>
    if t.lower name ∈ (r.options sectname).keys then none
    else some { r.setOption sectname (t.lower name) [value] with
      optname := t.lower name, failed := r.failed || name == [] }

-- none for an error that ends the reading
def readLine (r : Reader) (line : Str) : Option Reader :=
  let value := strip t.isSpace line
  match value with
  | [] => some (r.continuation [])
  | c :: _ =>
    if c = '#' ∨ c = ';' then some r
    else
      let indent := (line.takeWhile t.isSpace).length
      if r.cursect.isSome ∧ r.optname ≠ [] ∧ r.indentLevel < indent then some (r.continuation value)
      else
        let r := { r with indentLevel := indent }
        match sectionHeader value with
        | some header =>
          if header ∈ r.sections.keys then none
          else if header = defaultSection then some { r with cursect := some header, optname := [] }
          else some { r with sections := r.sections.set header .empty, cursect := some header, optname := [] }
        | none =>
          match r.cursect with
          | none => none
          | some sectname => readOption t r sectname value

def joinLines (lines : List Str) : Str := (['\n'].intercalate lines).rdropWhile t.isSpace

structure Config where
  sections : PyDict Str (PyDict Str Str)
  defaults : PyDict Str Str

-- none for any of the errors of read_file
def readFile (text : Str) : Option Config :=
  ((readlines (universalNewlines text)).foldlM (readLine t) Reader.init).bind fun r =>
    if r.failed then none
    else some ⟨r.sections.mapValues fun options => options.mapValues (joinLines t), r.defaults.mapValues (joinLines t)⟩

end read

section get

variable (t : UnicodeTables)

-- the section with the defaults
def Config.rawGet (c : Config) (sectname option : Str) : Option Str :=
  (((c.sections.get? sectname).getD .empty).get? (t.lower option)).or (c.defaults.get? (t.lower option))

-- the fields %(name)s of a value; expand is what is done with those of the value that a name has
def interpolateSome (lookup expand : Str → Option Str) : ℕ → Str → Option Str
  | 0, _ => some []
  | _, [] => some []
  | fuel + 1, c :: s =>
    if c = '%' then
      match s with
      | '%' :: s => (interpolateSome lookup expand fuel s).map ('%' :: ·)
      | '(' :: s =>
        let name := s.takeWhile (· ≠ ')')
        match s.dropWhile (· ≠ ')') with
        | ')' :: 's' :: s =>
          if name = [] then none
          else
            (lookup name).bind fun value =>
              (if '%' ∈ value then expand value else some value).bind fun text =>
                (interpolateSome lookup expand fuel s).map (text ++ ·)
        | _ => none
      | _ => none
    else (interpolateSome lookup expand fuel s).map (c :: ·)

-- MAX_INTERPOLATION_DEPTH is ten
def interpolate (lookup : Str → Option Str) : ℕ → Str → Option Str
  | 0, _ => none
  | depth + 1, s => interpolateSome lookup (interpolate lookup depth) s.length s

-- the fallback None, or an error of the interpolation
def Config.get (c : Config) (sectname option : Str) : Option (Option Str) :=
  match c.rawGet t sectname option with
  | none => some none
  | some value => (interpolate (c.rawGet t sectname) 10 value).map some

def convertToBoolean (value : Str) : Option Bool :=
  if t.lower value ∈ ["1", "yes", "true", "on"].map String.toList then some true
  else if t.lower value ∈ ["0", "no", "false", "off"].map String.toList then some false
  else none

def Config.getboolean (c : Config) (sectname option : Str) : Option (Option Bool) :=
  (c.get t sectname option).bind fun value =>
    match value with
    | none => some none
    | some value => (convertToBoolean t value).map some

end get

end ConfigParser
