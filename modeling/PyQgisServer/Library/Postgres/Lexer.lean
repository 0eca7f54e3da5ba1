import Mathlib.Data.List.DropRight
import Mathlib.Data.List.Basic

namespace Postgres

abbrev Text := List Char

-- what differs between versions: the words that cannot name a schema without quotes, and what the
-- bodies of the literals with escapes stand for, none for an escape that is not valid
structure Dialect where
  reserved : Text → Bool
  unescape : Text → Option Text
  unicode : Char → Text → Option Text
  unescape_length : ∀ s v, unescape s = some v → v.length ≤ s.length
  unicode_length : ∀ c s v, unicode c s = some v → v.length ≤ s.length

inductive Token where
  | keyword (name : Text)
  | ident (name : Text)
  | str (value : Text)
  -- a literal of bits or of national characters
  | kind (c : Char) (value : Text)
  | number (text : Text)
  | param (digits : Text)
  | op (text : Text)
  | self (c : Char)
  deriving DecidableEq

section characters

def isNewline (c : Char) : Bool := c == '\n' || c == '\r'

def isSpace (c : Char) : Bool := c == ' ' || c == '\t' || isNewline c || c == '\x0b' || c == '\x0c'

def isDigit (c : Char) : Bool := '0' ≤ c && c ≤ '9'

def isLetter (c : Char) : Bool := ('a' ≤ c && c ≤ 'z') || ('A' ≤ c && c ≤ 'Z')

def isIdentStart (c : Char) : Bool := isLetter c || c == '_' || 128 ≤ c.toNat

def isIdentCont (c : Char) : Bool := isIdentStart c || isDigit c || c == '$'

def isTagCont (c : Char) : Bool := isIdentStart c || isDigit c

def isOpChar (c : Char) : Bool :=
  ['~', '!', '@', '#', '^', '&', '|', '\x60', '?', '+', '-', '*', '/', '%', '<', '>', '='].contains c

def isSelf (c : Char) : Bool :=
  [',', '(', ')', '[', ']', '.', ';', ':', '+', '-', '*', '/', '%', '^', '<', '>', '='].contains c

def isSign (c : Char) : Bool := c == '+' || c == '-'

-- the characters after which an operator may end in a sign
def allowsSign (c : Char) : Bool := ['~', '!', '@', '#', '^', '&', '|', '\x60', '?', '%'].contains c

def lowerAscii (c : Char) : Char := if 'A' ≤ c && c ≤ 'Z' then Char.ofNat (c.toNat + 32) else c

def fold (s : Text) : Text := s.map lowerAscii

end characters

section blanks

inductive Gap where
  | blank
  | line
  | block (depth : ℕ)

-- white space, comments up to the end of a line and nested comments, none for one left open
def skipFrom : Gap → Text → Option Text
  | .blank, [] => some []
  | .blank, [c] => if isSpace c then some [] else some [c]
  | .blank, c :: d :: s =>
    if isSpace c then skipFrom .blank (d :: s)
    else if c = '-' ∧ d = '-' then skipFrom .line s
    else if c = '/' ∧ d = '*' then skipFrom (.block 0) s
    else some (c :: d :: s)
  | .line, [] => some []
  | .line, c :: s => if isNewline c then skipFrom .blank s else skipFrom .line s
  | .block _, [] => none
  | .block _, [_] => none
  | .block n, c :: d :: s =>
    if c = '*' ∧ d = '/' then
      match n with
      | 0 => skipFrom .blank s
      | n + 1 => skipFrom (.block n) s
    else if c = '/' ∧ d = '*' then skipFrom (.block (n + 1)) s
    else skipFrom (.block n) (d :: s)

def skip : Text → Option Text := skipFrom .blank

-- what follows the quote of a literal that goes on behind a line break
def continued : Bool → Bool → Text → Option Text
  | _, _, [] => none
  | seen, true, c :: s => if isNewline c then continued true false s else continued seen true s
  | seen, false, [c] => if c = '\'' ∧ seen then some [] else none
  | seen, false, c :: d :: s =>
    if c = '\'' then if seen then some (d :: s) else none
    else if isSpace c then continued (seen || isNewline c) false (d :: s)
    else if c = '-' ∧ d = '-' then continued seen true s
    else none

end blanks

section literals

def push (c : Char) (x : Text × Text) : Text × Text := (c :: x.1, x.2)

-- up to the closing quote, with doubled quotes undone
def quoted (q : Char) : Text → Option (Text × Text)
  | [] => none
  | [c] => if c = q then some ([], []) else none
  | c :: d :: s =>
    if c = q then if d = q then (quoted q s).map (push q) else some ([], d :: s)
    else (quoted q (d :: s)).map (push c)

-- up to a quote that is neither doubled nor escaped, as it is written
def escaped : Text → Option (Text × Text)
  | [] => none
  | [c] => if c = '\'' then some ([], []) else none
  | c :: d :: s =>
    if c = '\\' then (escaped s).map fun x => push c (push d x)
    else if c = '\'' then
      if d = '\'' then (escaped s).map fun x => push c (push d x) else some ([], d :: s)
    else (escaped (d :: s)).map (push c)

-- a literal with its continuations, each of which takes a character at least
def literalFrom (scan : Text → Option (Text × Text)) : ℕ → Text → Option (Text × Text)
  | 0, _ => none
  | n + 1, s =>
    match scan s with
    | none => none
    | some (v, r) =>
      match continued false false r with
      | none => some (v, r)
      | some r => (literalFrom scan n r).map fun x => (v ++ x.1, x.2)

def literal (scan : Text → Option (Text × Text)) (s : Text) : Option (Text × Text) := literalFrom scan s.length s

def upTo (delimiter : Text) : Text → Option (Text × Text)
  | [] => none
  | c :: s =>
    if delimiter.isPrefixOf (c :: s) then some ([], (c :: s).drop delimiter.length)
    else (upTo delimiter s).map (push c)

def isEscapeChar (c : Char) : Bool :=
  !(isDigit c || ('a' ≤ c && c ≤ 'f') || ('A' ≤ c && c ≤ 'F') || c == '+' || c == '\'' || c == '"' || isSpace c)

-- the clause UESCAPE behind a literal with Unicode escapes
def uescape (s : Text) : Option (Char × Text) :=
  match skip s with
  | none => none
  | some t =>
    if fold (t.takeWhile isIdentCont) = "uescape".toList then
      match skip (t.dropWhile isIdentCont) with
      | some ('\'' :: r) =>
        match literal (quoted '\'') r with
        | some ([c], r) => if isEscapeChar c then some (c, r) else none
        | _ => none
      | _ => none
    else some ('\\', s)

end literals

section token

variable (d : Dialect)

def nameSize : ℕ := 63

-- the characters that fit into so many bytes
def clip : ℕ → Text → Text
  | _, [] => []
  | n, c :: s => if c.utf8Size ≤ n then c :: clip (n - c.utf8Size) s else []

def wordToken (w : Text) : Token :=
  if d.reserved (fold w) then .keyword (fold w) else .ident (clip nameSize (fold w))

def word (s : Text) : Token × Text := (wordToken d (s.takeWhile isIdentCont), s.dropWhile isIdentCont)

def quotedWith (c : Char) (s : Text) : Option (Token × Text) :=
  if c = 'e' ∨ c = 'E' then
    (literal escaped s).bind fun x => (d.unescape x.1).map fun v => (.str v, x.2)
  else if c ∈ ['b', 'B', 'x', 'X', 'n', 'N'] then
    (literal (quoted '\'') s).map fun x => (.kind c x.1, x.2)
  else some (word d (c :: '\'' :: s))

def delimited (s : Text) : Option (Text × Text) := (quoted '"' s).filter fun x => x.1 ≠ []

def unicodeLiteral (q : Char) (s : Text) : Option (Token × Text) :=
  ((if q = '"' then delimited s else literal (quoted '\'') s).bind fun x =>
    (uescape x.2).bind fun y => (d.unicode y.1 x.1).map fun v =>
      (if q = '"' then .ident (clip nameSize v) else .str v, y.2))

-- a number or a parameter that runs into a word is an error
def withoutJunk (x : Token × Text) : Option (Token × Text) := if x.2.head?.any isIdentStart then none else some x

def dollar (s : Text) : Option (Token × Text) :=
  if s.head?.any isDigit then withoutJunk (.param (s.takeWhile isDigit), s.dropWhile isDigit)
  else
    match s.dropWhile isTagCont with
    | '$' :: r =>
      let tag := s.takeWhile isTagCont
      (upTo ('$' :: tag ++ ['$']) r).map fun x => (.str x.1, x.2)
    | _ => some (.self '$', s)

def fraction (s : Text) : Text :=
  match s with
  | '.' :: r => if r.head? = some '.' then [] else '.' :: r.takeWhile isDigit
  | _ => []

def exponent (s : Text) : Text :=
  match s with
  | e :: r =>
    if e = 'e' ∨ e = 'E' then
      let sign := (r.head?.filter isSign).toList
      let digits := (r.drop sign.length).takeWhile isDigit
      if digits = [] then [] else e :: sign ++ digits
    else []
  | [] => []

def number (s : Text) : Option (Token × Text) :=
  let digits := s.takeWhile isDigit
  let digits := digits ++ fraction (s.drop digits.length)
  let digits := digits ++ exponent (s.drop digits.length)
  withoutJunk (.number digits, s.drop (max 1 digits.length))

def operatorRun : Text → Text
  | [] => []
  | [c] => if isOpChar c then [c] else []
  | c :: e :: s =>
    if isOpChar c = false ∨ (c = '-' ∧ e = '-') ∨ (c = '/' ∧ e = '*') then []
    else c :: operatorRun (e :: s)

def operatorText (c : Char) (s : Text) : Text :=
  let run := (operatorRun (c :: s)).tail
  if (c :: run).any allowsSign then c :: run else c :: run.rdropWhile isSign

def operator (c : Char) (s : Text) : Token × Text :=
  let text := operatorText c s
  (if text = [c] ∧ isSelf c then .self c else .op text, (c :: s).drop text.length)

def named (c : Char) (s : Text) : Option (Token × Text) :=
  match s with
  | [] => some (word d [c])
  | q :: r =>
    if q = '\'' then quotedWith d c r
    else if q = '&' ∧ (c = 'u' ∨ c = 'U') ∧ (r.head? = some '\'' ∨ r.head? = some '"') then
      unicodeLiteral d (r.headD '"') r.tail
    else some (word d (c :: q :: r))

def symbol (c : Char) (s : Text) : Option (Token × Text) :=
  if c = '.' ∧ s.head?.any isDigit then number (c :: s)
  else if (c = '.' ∧ s.head? = some '.') ∨ (c = ':' ∧ (s.head? = some ':' ∨ s.head? = some '=')) then
    some (.op (c :: s.take 1), s.drop 1)
  else if isOpChar c then some (operator c s)
  else some (.self c, s)

def token : Text → Option (Token × Text)
  | [] => none
  | c :: s =>
    if isIdentStart c then named d c s
    else if c = '\'' then (literal (quoted '\'') s).map fun x => (.str x.1, x.2)
    else if c = '"' then (delimited s).map fun x => (.ident (clip nameSize x.1), x.2)
    else if c = '$' then dollar s
    else if isDigit c then number (c :: s)
    else symbol c s

def lexFrom : ℕ → Text → Option (List Token)
  | 0, _ => none
  | n + 1, s =>
    match skip s with
    | none => none
    | some [] => some []
    | some (c :: r) =>
      match token d (c :: r) with
      | none => none
      | some (t, r) => (lexFrom n r).map (t :: ·)

-- none for a lexical error
def lex (s : Text) : Option (List Token) := lexFrom d (s.length + 1) s

end token

end Postgres
