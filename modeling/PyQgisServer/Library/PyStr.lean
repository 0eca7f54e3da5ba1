import PyQgisServer.Library.Urllib.Parse

namespace PyStr

open Urllib (Str)

section strip

variable {p : Char → Bool} {s : Str}

-- str.strip of the characters that p has
def strip (p : Char → Bool) (s : Str) : Str := (s.dropWhile p).rdropWhile p

theorem strip_plain (h : ∀ c ∈ s, p c = false) : strip p s = s := by
  have hleft : s.dropWhile p = s := by
    rw [List.dropWhile_eq_self_iff]
    intro hlen hp
    rw [h _ (List.getElem_mem hlen)] at hp
    cases hp
  rw [strip, hleft, List.rdropWhile_eq_self_iff]
  intro hl hp
  rw [h _ (List.getLast_mem hl)] at hp
  cases hp

theorem mem_of_mem_strip {c : Char} (h : c ∈ strip p s) : c ∈ s :=
  (List.dropWhile_sublist _).mem ((List.rdropWhile_prefix _ _).mem h)

end strip

section lines

-- what the text mode of open makes of the line ends
def universalNewlines : Str → Str
  | [] => []
  | '\r' :: '\n' :: s => '\n' :: universalNewlines s
  | '\r' :: s => '\n' :: universalNewlines s
  | c :: s => c :: universalNewlines s

def readlines : Str → List Str
  | [] => []
  | c :: s =>
    if c = '\n' then ['\n'] :: readlines s
    else
      match readlines s with
      | [] => [[c]]
      | line :: lines => (c :: line) :: lines

end lines

-- str.isspace and the decimal value of a character, and str.lower
structure UnicodeTables where
  isSpace : Char → Bool
  decimal : Char → Option ℕ
  lower : Str → Str
  space_digit : ∀ c : Char, c.isDigit = true → isSpace c = false
  space_minus : isSpace '-' = false
  decimal_digit : ∀ c : Char, c.isDigit = true → decimal c = some (c.toNat - 48)
  decimal_minus : decimal '-' = none

-- sys.get_int_max_str_digits
def maxStrDigits : ℕ := 4300

section int

variable (t : UnicodeTables)

-- decimal digits, with single underscores between them
def natural (s : Str) : Option ℕ :=
  if (s.splitOn '_').all (fun group => group ≠ [] && group.all fun c => (t.decimal c).isSome) then
    let digits := (s.splitOn '_').flatten.filterMap t.decimal
    if digits.length ≤ maxStrDigits then some (digits.foldl (fun n d => 10 * n + d) 0) else none
  else none

-- int takes off the spaces that are ASCII by their number, and the others by str.isspace
def isIntSpace (c : Char) : Bool :=
  if c.toNat < 127 then c = ' ' || 9 ≤ c.toNat && c.toNat ≤ 13 else t.isSpace c

-- int, none for ValueError
def pyInt (s : Str) : Option ℤ :=
  match strip (isIntSpace t) s with
  | '+' :: rest => (natural t rest).map Int.ofNat
  | '-' :: rest => (natural t rest).map fun n : ℕ => -(n : ℤ)
  | rest => (natural t rest).map Int.ofNat

end int

-- the formats d and 02d
def showInt (n : ℤ) : Str := if n < 0 then '-' :: Nat.toDigits 10 n.natAbs else Nat.toDigits 10 n.natAbs

def showPadded (n : ℤ) : Str := if (showInt n).length < 2 then '0' :: showInt n else showInt n

section numerals

variable {t : UnicodeTables} {s : Str}

theorem splitOn_digits (h : ∀ c ∈ s, c.isDigit = true ∨ c = '-') : s.splitOn '_' = [s] := by
  refine List.splitOn_eq_singleton fun hmem => ?_
  rcases h '_' hmem with hdigit | hminus
  · exact absurd hdigit (by decide)
  · exact absurd hminus (by decide)

theorem filterMap_digits (h : ∀ c ∈ s, c.isDigit = true) : s.filterMap t.decimal = s.map fun c => c.toNat - 48 := by
  induction s with
  | nil => rfl
  | cons c s ih =>
    obtain ⟨hc, hs⟩ := List.forall_mem_cons.mp h
    rw [List.filterMap_cons, t.decimal_digit c hc, List.map_cons, ih hs]

theorem natural_digits (hne : s ≠ []) (h : ∀ c ∈ s, c.isDigit = true) :
    natural t s = if s.length ≤ maxStrDigits then some (Nat.ofDigitChars 10 s 0) else none := by
  have hall : s.all (fun c => (t.decimal c).isSome) = true := by
    rw [List.all_eq_true]
    intro c hc
    rw [t.decimal_digit c (h c hc)]
    rfl
  rw [natural, splitOn_digits fun c hc => .inl (h c hc), if_pos (by simpa [hne] using hall), List.flatten_singleton,
    filterMap_digits h]
  simp only [List.length_map, List.foldl_map]
  rfl

theorem natural_minus (h : ∀ c ∈ s, c.isDigit = true ∨ c = '-') (hminus : '-' ∈ s) : natural t s = none := by
  rw [natural, splitOn_digits h, if_neg]
  intro hall
  rw [List.all_cons, Bool.and_eq_true, Bool.and_eq_true, List.all_eq_true] at hall
  have hsome := hall.1.2 '-' hminus
  rw [t.decimal_minus] at hsome
  cases hsome

theorem isIntSpace_digit {c : Char} (h : c.isDigit = true) : isIntSpace t c = false := by
  obtain ⟨hlo, hhi⟩ : 48 ≤ c.toNat ∧ c.toNat ≤ 57 := Char.isDigit_iff_toNat.mp h
  have hne : c ≠ ' ' := by
    rintro rfl
    exact absurd h (by decide)
  rw [isIntSpace, if_pos (by omega), Bool.or_eq_false_iff, Bool.and_eq_false_iff]
  exact ⟨decide_eq_false hne, .inr (decide_eq_false (by omega))⟩

theorem strip_numeral (h : ∀ c ∈ s, c.isDigit = true ∨ c = '-') : strip (isIntSpace t) s = s := by
  refine strip_plain fun c hc => ?_
  rcases h c hc with hdigit | rfl
  · exact isIntSpace_digit hdigit
  · rfl

theorem pyInt_negative (h : ∀ c ∈ s, c.isDigit = true ∨ c = '-') :
    pyInt t ('-' :: s) = (natural t s).map fun n : ℕ => -(n : ℤ) := by
  rw [pyInt, strip_numeral (List.forall_mem_cons.mpr ⟨.inr rfl, h⟩)]
  rfl

theorem pyInt_digit {c : Char} (hc : c.isDigit = true) (h : ∀ c ∈ s, c.isDigit = true ∨ c = '-') :
    pyInt t (c :: s) = (natural t (c :: s)).map Int.ofNat := by
  rw [pyInt, strip_numeral (List.forall_mem_cons.mpr ⟨.inl hc, h⟩)]
  split
  · rename_i heq
    rw [(List.cons.inj heq).1] at hc
    exact absurd hc (by decide)
  · rename_i heq
    rw [(List.cons.inj heq).1] at hc
    exact absurd hc (by decide)
  · rfl

end numerals

section shown

theorem showInt_neg {n : ℤ} (h : n < 0) : showInt n = '-' :: Nat.toDigits 10 n.natAbs := by
  rw [showInt, if_pos h]

theorem digit_toDigits (n : ℕ) : ∀ c ∈ Nat.toDigits 10 n, c.isDigit = true :=
  fun _ hc => Nat.isDigit_of_mem_toDigits (by decide) (by decide) hc

theorem showInt_numeral (n : ℤ) : ∀ c ∈ showInt n, c.isDigit = true ∨ c = '-' := by
  intro c hc
  rw [showInt] at hc
  split at hc
  · rcases List.mem_cons.mp hc with rfl | hc
    · exact .inr rfl
    · exact .inl (digit_toDigits _ c hc)
  · exact .inl (digit_toDigits _ c hc)

theorem showPadded_numeral (n : ℤ) : ∀ c ∈ showPadded n, c.isDigit = true ∨ c = '-' := by
  rw [showPadded]
  split
  · exact List.forall_mem_cons.mpr ⟨.inl (by decide), showInt_numeral n⟩
  · exact showInt_numeral n

theorem minus_mem_showPadded {n : ℤ} (h : n < 0) : '-' ∈ showPadded n := by
  have hmem : '-' ∈ showInt n := by
    rw [showInt_neg h]
    exact List.mem_cons_self
  rw [showPadded]
  split
  · exact List.mem_cons_of_mem _ hmem
  · exact hmem

theorem showPadded_eq {n : ℕ} (h : n < 100) : showPadded n = [Nat.digitChar (n / 10), Nat.digitChar (n % 10)] := by
  have hall : ∀ n < 100, showPadded (n : ℕ) = [Nat.digitChar (n / 10), Nat.digitChar (n % 10)] := by decide
  exact hall n h

theorem digitChar_digit {d : ℕ} (h : d < 10) : (Nat.digitChar d).isDigit = true ∧ (Nat.digitChar d).toNat - 48 = d := by
  have hall : ∀ d < 10, (Nat.digitChar d).isDigit = true ∧ (Nat.digitChar d).toNat - 48 = d := by decide
  exact hall d h

theorem ofDigitChars_showPadded {n : ℕ} (h : n < 100) (s : Str) :
    Nat.ofDigitChars 10 (s ++ showPadded n) 0 = 100 * Nat.ofDigitChars 10 s 0 + n := by
  obtain ⟨-, htens⟩ := digitChar_digit (d := n / 10) (by omega)
  obtain ⟨-, hunits⟩ := digitChar_digit (d := n % 10) (by omega)
  have hzero : '0'.toNat = 48 := rfl
  rw [showPadded_eq h, Nat.ofDigitChars_append, Nat.ofDigitChars_cons, Nat.ofDigitChars_cons, Nat.ofDigitChars_nil, hzero,
    htens, hunits]
  omega

end shown

end PyStr
