import PyQgisServer.Library.PyDict
import PyQgisServer.Library.Urllib.Parse

namespace Urllib

-- what a UTF-8 decoder still expects: the ranges of the coming bytes and the bits read so far
structure Pending where
  ranges : List (ℕ × ℕ)
  bits : ℕ

inductive Lead where
  | char (n : ℕ)
  | more (p : Pending)
  | invalid

def lead (b : ℕ) : Lead :=
  if b < 0x80 then .char b
  else if b < 0xC2 then .invalid
  else if b < 0xE0 then .more ⟨[(0x80, 0xBF)], b - 0xC0⟩
  else if b = 0xE0 then .more ⟨[(0xA0, 0xBF), (0x80, 0xBF)], 0⟩
  else if b = 0xED then .more ⟨[(0x80, 0x9F), (0x80, 0xBF)], 0xD⟩
  else if b < 0xF0 then .more ⟨[(0x80, 0xBF), (0x80, 0xBF)], b - 0xE0⟩
  else if b = 0xF0 then .more ⟨[(0x90, 0xBF), (0x80, 0xBF), (0x80, 0xBF)], 0⟩
  else if b < 0xF4 then .more ⟨[(0x80, 0xBF), (0x80, 0xBF), (0x80, 0xBF)], b - 0xF0⟩
  else if b = 0xF4 then .more ⟨[(0x80, 0x8F), (0x80, 0xBF), (0x80, 0xBF)], 4⟩
  else .invalid

def replacement : Char := '\uFFFD'

-- bytes.decode('utf-8', 'replace'): one replacement character for each maximal broken sequence
def decode (pending : Option Pending) : List ℕ → Str
  | [] => if pending.isSome then [replacement] else []
  | b :: bytes =>
    match pending with
    | some ⟨(lo, hi) :: ranges, bits⟩ =>
      if lo ≤ b ∧ b ≤ hi then
        let bits := bits * 64 + (b - 0x80)
        if ranges = [] then Char.ofNat bits :: decode none bytes
        else decode (some ⟨ranges, bits⟩) bytes
      else
        replacement :: match lead b with
          | .char n => Char.ofNat n :: decode none bytes
          | .more p => decode (some p) bytes
          | .invalid => replacement :: decode none bytes
    | _ =>
      match lead b with
      | .char n => Char.ofNat n :: decode none bytes
      | .more p => decode (some p) bytes
      | .invalid => replacement :: decode none bytes

def hexValue (c : Char) : Option ℕ :=
  if '0' ≤ c ∧ c ≤ '9' then some (c.toNat - 48)
  else if 'a' ≤ c ∧ c ≤ 'f' then some (c.toNat - 87)
  else if 'A' ≤ c ∧ c ≤ 'F' then some (c.toNat - 55)
  else none

def percentByte (c a b : Char) : Option ℕ :=
  if c = '%' then
    match hexValue a, hexValue b with
    | some x, some y => some (16 * x + y)
    | _, _ => none
  else none

def unquoteToBytes : Str → List ℕ
  | c :: a :: b :: rest =>
    match percentByte c a b with
    | some n => n :: unquoteToBytes rest
    | none => c.toNat :: unquoteToBytes (a :: b :: rest)
  | s => s.map Char.toNat

def isAscii (c : Char) : Bool := c.toNat < 128

def unquote (s : Str) : Str :=
  (s.splitBy fun a b => isAscii a == isAscii b).flatMap fun run =>
    if run.all isAscii then decode none (unquoteToBytes run) else run

def unquotePlus (s : Str) : Str := unquote (s.map fun c => if c = '+' then ' ' else c)

def parseQsl (qs : Str) : List (Str × Str) :=
  (qs.splitOn '&').filterMap fun nameValue =>
    if after '=' nameValue = [] then none
    else some (unquotePlus (before '=' nameValue), unquotePlus (after '=' nameValue))

def parseQs (qs : Str) : PyDict Str (List Str) :=
  (parseQsl qs).foldl (fun d x => d.set x.1 (((d.get? x.1).getD []) ++ [x.2])) .empty

end Urllib
