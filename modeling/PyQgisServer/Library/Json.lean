import Mathlib.Data.List.Sort
import Mathlib.Data.String.Basic
import PyQgisServer.Library.Urllib.Parse

namespace Json

open Urllib (Str)

-- what json.dumps is given: float carries its repr, and bytes have no JSON
inductive Value where
  | null
  | bool (b : Bool)
  | int (n : ℤ)
  | float (repr : Str)
  | str (s : Str)
  | bytes (b : List UInt8)
  | list (l : List Value)
  | dict (d : List (Str × Value))

def hexDigit (n : ℕ) : Char := Char.ofNat (if n < 10 then 48 + n else 87 + n)

def unicodeEscape (n : ℕ) : Str :=
  ['\\', 'u', hexDigit (n / 4096 % 16), hexDigit (n / 256 % 16), hexDigit (n / 16 % 16), hexDigit (n % 16)]

-- with ensure_ascii, characters beyond the first plane are written as a surrogate pair
def escape (c : Char) : Str :=
  if c = '"' then ['\\', '"']
  else if c = '\\' then ['\\', '\\']
  else if c = '\n' then ['\\', 'n']
  else if c = '\r' then ['\\', 'r']
  else if c = '\t' then ['\\', 't']
  else if c = '\x0c' then ['\\', 'f']
  else if c = '\x08' then ['\\', 'b']
  else if 32 ≤ c.toNat ∧ c.toNat ≤ 126 then [c]
  else if c.toNat < 0x10000 then unicodeEscape c.toNat
  else unicodeEscape (0xD800 + (c.toNat - 0x10000) / 1024) ++ unicodeEscape (0xDC00 + (c.toNat - 0x10000) % 1024)

def quote (s : Str) : Str := '"' :: s.flatMap escape ++ ['"']

def object (items : List (Str × Str)) : Str :=
  '\x7b' :: [',', ' '].intercalate (items.map fun x => quote x.1 ++ [':', ' '] ++ x.2) ++ ['\x7d']

def array (items : List Str) : Str := '[' :: [',', ' '].intercalate items ++ [']']

def sortItems (items : List (Str × Str)) : List (Str × Str) := items.insertionSort fun a b => a.1 ≤ b.1

section dumps

variable (sortKeys : Bool)

mutual

-- none for TypeError
def dumps : Value → Option Str
  | .null => some "null".toList
  | .bool b => some (if b then "true".toList else "false".toList)
  | .int n => some (toString n).toList
  | .float repr => some repr
  | .str s => some (quote s)
  | .bytes _ => none
  | .list l => (dumpsList l).map array
  | .dict d => (dumpsItems d).map fun items => object (if sortKeys then sortItems items else items)

def dumpsList : List Value → Option (List Str)
  | [] => some []
  | v :: l => (dumps v).bind fun s => (dumpsList l).map (s :: ·)

def dumpsItems : List (Str × Value) → Option (List (Str × Str))
  | [] => some []
  | (k, v) :: d => (dumps v).bind fun s => (dumpsItems d).map ((k, s) :: ·)

end

theorem dumps_str (s : Str) : dumps sortKeys (.str s) = some (quote s) := by rw [dumps]

theorem dumps_int (n : ℤ) : dumps sortKeys (.int n) = some (toString n).toList := by rw [dumps]

theorem dumpsItems_nil : dumpsItems sortKeys [] = some [] := by rw [dumpsItems]

section some

variable {sortKeys}

theorem dumpsItems_cons (k : Str) {s : Str} {v : Value} {d : List (Str × Value)} {items : List (Str × Str)}
    (hv : dumps sortKeys v = some s) (hd : dumpsItems sortKeys d = some items) :
    dumpsItems sortKeys ((k, v) :: d) = some ((k, s) :: items) := by
  rw [dumpsItems, hv, hd]
  rfl

theorem dumps_dict {d : List (Str × Value)} {items : List (Str × Str)} (h : dumpsItems sortKeys d = some items) :
    dumps sortKeys (.dict d) = some (object (if sortKeys then sortItems items else items)) := by
  rw [dumps, h]
  rfl

end some

theorem dumpsItems_isSome (d : List (Str × Value)) :
    (dumpsItems sortKeys d).isSome = true ↔ ∀ x ∈ d, (dumps sortKeys x.2).isSome = true := by
  induction d with
  | nil => exact iff_of_true rfl fun x hx => absurd hx List.not_mem_nil
  | cons x d ih =>
    obtain ⟨k, v⟩ := x
    rw [dumpsItems, List.forall_mem_cons, ← ih]
    cases dumps sortKeys v with
    | none => simp
    | some s => simp

theorem dumps_dict_isSome (d : List (Str × Value)) :
    (dumps sortKeys (.dict d)).isSome = true ↔ ∀ x ∈ d, (dumps sortKeys x.2).isSome = true := by
  rw [dumps, Option.isSome_map, dumpsItems_isSome]

end dumps

end Json
