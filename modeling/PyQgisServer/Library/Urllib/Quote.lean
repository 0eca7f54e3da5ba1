import PyQgisServer.Library.Urllib.Qsl

namespace Urllib

section utf8

def encode (s : Str) : List UInt8 := s.flatMap String.utf8EncodeChar

def decodeBytes (bytes : List UInt8) : Str := decode none (bytes.map UInt8.toNat)

-- bytes.decode, none for UnicodeDecodeError: the bytes are those of a text
def decodeStrict (bytes : List UInt8) : Option Str :=
  if encode (decodeBytes bytes) = bytes then some (decodeBytes bytes) else none

theorem decode_char {b n : ℕ} (h : lead b = .char n) (bytes : List ℕ) :
    decode none (b :: bytes) = Char.ofNat n :: decode none bytes := by
  simp [decode, h]

theorem decode_more {b : ℕ} {p : Pending} (h : lead b = .more p) (bytes : List ℕ) :
    decode none (b :: bytes) = decode (some p) bytes := by
  simp [decode, h]

theorem decode_next {lo hi b bits : ℕ} {ranges : List (ℕ × ℕ)} (hlo : lo ≤ b) (hhi : b ≤ hi) (hranges : ranges ≠ [])
    (bytes : List ℕ) :
    decode (some ⟨(lo, hi) :: ranges, bits⟩) (b :: bytes) = decode (some ⟨ranges, bits * 64 + (b - 0x80)⟩) bytes := by
  simp [decode, hlo, hhi, hranges]

theorem decode_last {lo hi b bits : ℕ} (hlo : lo ≤ b) (hhi : b ≤ hi) (bytes : List ℕ) :
    decode (some ⟨[(lo, hi)], bits⟩) (b :: bytes) = Char.ofNat (bits * 64 + (b - 0x80)) :: decode none bytes := by
  simp [decode, hlo, hhi]

theorem toNat_ofNat {n : ℕ} (h : n < 256) : (UInt8.ofNat n).toNat = n := UInt8.toNat_ofNat_of_lt h

theorem lead_three {b : ℕ} (hlo : 0xE0 ≤ b) (hhi : b ≤ 0xEF) :
    ∃ lo hi, lead b = .more ⟨[(lo, hi), (0x80, 0xBF)], b - 0xE0⟩ ∧
      (lo = 0x80 ∨ b = 0xE0 ∧ lo = 0xA0) ∧ (hi = 0xBF ∨ b = 0xED ∧ hi = 0x9F) := by
  by_cases he0 : b = 0xE0
  · exact ⟨0xA0, 0xBF, by rw [he0]; rfl, .inr ⟨he0, rfl⟩, .inl rfl⟩
  · by_cases hed : b = 0xED
    · exact ⟨0x80, 0x9F, by rw [hed]; rfl, .inl rfl, .inr ⟨hed, rfl⟩⟩
    · refine ⟨0x80, 0xBF, ?_, .inl rfl, .inl rfl⟩
      rw [lead, if_neg (by omega), if_neg (by omega), if_neg (by omega), if_neg he0, if_neg hed, if_pos (by omega)]

theorem lead_four {b : ℕ} (hlo : 0xF0 ≤ b) (hhi : b ≤ 0xF4) :
    ∃ lo hi, lead b = .more ⟨[(lo, hi), (0x80, 0xBF), (0x80, 0xBF)], b - 0xF0⟩ ∧
      (lo = 0x80 ∨ b = 0xF0 ∧ lo = 0x90) ∧ (hi = 0xBF ∨ b = 0xF4 ∧ hi = 0x8F) := by
  by_cases hf0 : b = 0xF0
  · exact ⟨0x90, 0xBF, by rw [hf0]; rfl, .inr ⟨hf0, rfl⟩, .inl rfl⟩
  · by_cases hf4 : b = 0xF4
    · exact ⟨0x80, 0x8F, by rw [hf4]; rfl, .inl rfl, .inr ⟨hf4, rfl⟩⟩
    · refine ⟨0x80, 0xBF, ?_, .inl rfl, .inl rfl⟩
      rw [lead, if_neg (by omega), if_neg (by omega), if_neg (by omega), if_neg (by omega), if_neg (by omega),
        if_neg (by omega), if_neg hf0, if_pos (by omega)]

theorem decode_encodeChar (c : Char) (bytes : List ℕ) :
    decode none ((String.utf8EncodeChar c).map UInt8.toNat ++ bytes) = c :: decode none bytes := by
  have hvalid : c.toNat < 0xD800 ∨ 0xDFFF < c.toNat ∧ c.toNat < 0x110000 := c.valid
  have hc : Char.ofNat c.toNat = c := Char.ofNat_toNat c
  have hval : c.val.toNat = c.toNat := rfl
  unfold String.utf8EncodeChar
  simp only [hval]
  generalize c.toNat = n at hvalid hc
  split
  · rename_i h1
    have hlead : lead n = .char n := by
      rw [lead, if_pos (by omega)]
    rw [List.map_singleton, toNat_ofNat (by omega), List.singleton_append, decode_char hlead, hc]
  · split
    · rename_i h1 h2
      have hlead : lead (n / 64 % 32 + 192) = .more ⟨[(0x80, 0xBF)], n / 64 % 32 + 192 - 0xC0⟩ := by
        rw [lead, if_neg (by omega), if_neg (by omega), if_pos (by omega)]
      have hn : (n / 64 % 32 + 192 - 0xC0) * 64 + (n % 64 + 128 - 0x80) = n := by omega
      simp only [List.map_cons, List.map_nil, List.cons_append, List.nil_append]
      rw [toNat_ofNat (by omega), toNat_ofNat (by omega), decode_more hlead, decode_last (by omega) (by omega), hn, hc]
    · split
      · rename_i h1 h2 h3
        obtain ⟨lo, hi, hlead, hlo, hhi⟩ :=
          lead_three (b := n / 4096 % 16 + 224) (by omega) (by omega)
        have hn : ((n / 4096 % 16 + 224 - 0xE0) * 64 + (n / 64 % 64 + 128 - 0x80)) * 64 + (n % 64 + 128 - 0x80) = n := by
          omega
        simp only [List.map_cons, List.map_nil, List.cons_append, List.nil_append]
        rw [toNat_ofNat (by omega), toNat_ofNat (by omega), toNat_ofNat (by omega), decode_more hlead,
          decode_next (by omega) (by omega) (by simp), decode_last (by omega) (by omega), hn, hc]
      · rename_i h1 h2 h3
        obtain ⟨lo, hi, hlead, hlo, hhi⟩ :=
          lead_four (b := n / 262144 % 8 + 240) (by omega) (by omega)
        have hn : (((n / 262144 % 8 + 240 - 0xF0) * 64 + (n / 4096 % 64 + 128 - 0x80)) * 64 +
            (n / 64 % 64 + 128 - 0x80)) * 64 + (n % 64 + 128 - 0x80) = n := by
          omega
        simp only [List.map_cons, List.map_nil, List.cons_append, List.nil_append]
        rw [toNat_ofNat (by omega), toNat_ofNat (by omega), toNat_ofNat (by omega), toNat_ofNat (by omega),
          decode_more hlead, decode_next (by omega) (by omega) (by simp), decode_next (by omega) (by omega) (by simp),
          decode_last (by omega) (by omega), hn, hc]

theorem decodeBytes_encode (s : Str) : decodeBytes (encode s) = s := by
  induction s with
  | nil => rfl
  | cons c s ih =>
    rw [decodeBytes, encode, List.flatMap_cons, List.map_append, decode_encodeChar]
    exact congrArg (c :: ·) ih

theorem decodeStrict_some {bytes : List UInt8} {s : Str} (h : decodeStrict bytes = some s) :
    decodeBytes bytes = s ∧ encode s = bytes := by
  unfold decodeStrict at h
  split at h
  · rename_i heq
    obtain rfl := Option.some.inj h
    exact ⟨rfl, heq⟩
  · cases h

end utf8

section urlencode

def plusToSpace (s : Str) : Str := s.map fun c => if c = '+' then ' ' else c

def isAlwaysSafe (c : Char) : Bool := c.isAlphanum || c == '_' || c == '.' || c == '-' || c == '~'

def hexDigit (n : ℕ) : Char := Char.ofNat (if n < 10 then 48 + n else 55 + n)

def quoteByte (b : UInt8) : Str :=
  if isAlwaysSafe (Char.ofNat b.toNat) then [Char.ofNat b.toNat]
  else if b = 32 then ['+']
  else ['%', hexDigit (b.toNat / 16), hexDigit (b.toNat % 16)]

def quotePlus (bytes : List UInt8) : Str := bytes.flatMap quoteByte

-- names are texts and values are bytes
def urlencode (l : List (Str × List UInt8)) : Str :=
  ['&'].intercalate (l.map fun x => pair (quotePlus (encode x.1), quotePlus x.2))

-- urlencoded pairs as they are read, with the blank values kept
def formPairs (s : Str) : List (Str × Str) :=
  if s = [] then [] else
    (s.splitOn '&').map fun nameValue => (unquotePlus (before '=' nameValue), unquotePlus (after '=' nameValue))

theorem hexValue_hexDigit {n : ℕ} (h : n < 16) : hexValue (hexDigit n) = some n := by
  have hall : ∀ n : Fin 16, hexValue (hexDigit n) = some n.val := by decide
  exact hall ⟨n, h⟩

theorem hexDigit_ne {n : ℕ} (h : n < 16) :
    isAscii (hexDigit n) = true ∧ hexDigit n ≠ '+' ∧ hexDigit n ≠ '&' ∧ hexDigit n ≠ '=' := by
  have hall : ∀ n : Fin 16, isAscii (hexDigit n) = true ∧ hexDigit n ≠ '+' ∧ hexDigit n ≠ '&' ∧ hexDigit n ≠ '=' := by
    decide
  exact hall ⟨n, h⟩

theorem isAscii_of_isAlphanum {c : Char} (h : c.isAlphanum = true) : isAscii c = true := by
  have hranges : ((decide ('A'.val ≤ c.val ∧ c.val ≤ 'Z'.val) || ('a'.val ≤ c.val && c.val ≤ 'z'.val)) ||
      ('0'.val ≤ c.val && c.val ≤ '9'.val)) = true := h
  simp only [Bool.or_eq_true, Bool.and_eq_true, decide_eq_true_eq] at hranges
  rw [isAscii, decide_eq_true_eq, Char.toNat]
  rcases hranges with (⟨-, h⟩ | ⟨-, h⟩) | ⟨-, h⟩
  · exact lt_of_le_of_lt (UInt32.le_iff_toNat_le.mp h) (by decide)
  · exact lt_of_le_of_lt (UInt32.le_iff_toNat_le.mp h) (by decide)
  · exact lt_of_le_of_lt (UInt32.le_iff_toNat_le.mp h) (by decide)

theorem isAlwaysSafe_ne {c : Char} (h : isAlwaysSafe c = true) :
    isAscii c = true ∧ c ≠ '+' ∧ c ≠ '%' ∧ c ≠ '&' ∧ c ≠ '=' := by
  refine ⟨?_, ?_, ?_, ?_, ?_⟩
  · simp only [isAlwaysSafe, Bool.or_eq_true, beq_iff_eq] at h
    rcases h with (((h | rfl) | rfl) | rfl) | rfl
    · exact isAscii_of_isAlphanum h
    all_goals decide
  all_goals
    rintro rfl
    exact absurd h (by decide)

theorem mem_quoteByte {b : UInt8} {c : Char} (h : c ∈ quoteByte b) : isAscii c = true ∧ c ≠ '&' ∧ c ≠ '=' := by
  have hb := b.toNat_lt
  unfold quoteByte at h
  split at h
  · rename_i hsafe
    obtain rfl := List.mem_singleton.mp h
    exact ⟨(isAlwaysSafe_ne hsafe).1, (isAlwaysSafe_ne hsafe).2.2.2⟩
  · split at h
    · obtain rfl := List.mem_singleton.mp h
      decide
    · simp only [List.mem_cons, List.not_mem_nil, or_false] at h
      rcases h with rfl | rfl | rfl
      · decide
      · exact ⟨(hexDigit_ne (by omega)).1, (hexDigit_ne (by omega)).2.2⟩
      · exact ⟨(hexDigit_ne (by omega)).1, (hexDigit_ne (by omega)).2.2⟩

theorem mem_quotePlus {bytes : List UInt8} {c : Char} (h : c ∈ quotePlus bytes) :
    isAscii c = true ∧ c ≠ '&' ∧ c ≠ '=' := by
  obtain ⟨b, -, hc⟩ := List.mem_flatMap.mp h
  exact mem_quoteByte hc

theorem unquoteToBytes_cons {c : Char} (h : c ≠ '%') (s : Str) : unquoteToBytes (c :: s) = c.toNat :: unquoteToBytes s := by
  match s with
  | [] => simp [unquoteToBytes]
  | [a] => simp [unquoteToBytes]
  | a :: b :: rest =>
    rw [unquoteToBytes, percentByte, if_neg h]

theorem unquoteToBytes_percent {m n : ℕ} (hm : m < 16) (hn : n < 16) (s : Str) :
    unquoteToBytes ('%' :: hexDigit m :: hexDigit n :: s) = (16 * m + n) :: unquoteToBytes s := by
  rw [unquoteToBytes, percentByte, if_pos rfl, hexValue_hexDigit hm, hexValue_hexDigit hn]

theorem unquote_quoteByte (b : UInt8) (s : Str) :
    unquoteToBytes (plusToSpace (quoteByte b) ++ s) = b.toNat :: unquoteToBytes s := by
  have hb := b.toNat_lt
  unfold quoteByte
  split
  · rename_i hsafe
    obtain ⟨hascii, hplus, hpercent, -⟩ := isAlwaysSafe_ne hsafe
    have hvalid : (Char.ofNat b.toNat).toNat = b.toNat := by
      have hchar : b.toNat.isValidChar := .inl (by omega)
      rw [Char.ofNat, dif_pos hchar]
      rfl
    rw [plusToSpace, List.map_singleton, if_neg hplus, List.singleton_append, unquoteToBytes_cons hpercent, hvalid]
  · split
    · rename_i hspace
      subst hspace
      exact unquoteToBytes_cons (by decide) s
    · have hhigh := hexDigit_ne (n := b.toNat / 16) (by omega)
      have hlow := hexDigit_ne (n := b.toNat % 16) (by omega)
      simp only [plusToSpace, List.map_cons, List.map_nil, if_neg hhigh.2.1, if_neg hlow.2.1, List.cons_append,
        List.nil_append, Char.reduceEq, if_false]
      rw [unquoteToBytes_percent (by omega) (by omega), Nat.div_add_mod]

theorem unquote_quotePlus (bytes : List UInt8) :
    unquoteToBytes (plusToSpace (quotePlus bytes)) = bytes.map UInt8.toNat := by
  induction bytes with
  | nil => rfl
  | cons b bytes ih =>
    have hcons : plusToSpace (quotePlus (b :: bytes)) = plusToSpace (quoteByte b) ++ plusToSpace (quotePlus bytes) :=
      List.map_append
    rw [hcons, unquote_quoteByte, ih, List.map_cons]

theorem unquote_ascii {s : Str} (h : ∀ c ∈ s, isAscii c = true) : unquote s = decode none (unquoteToBytes s) := by
  by_cases hs : s = []
  · subst hs
    rfl
  · have hchain : s.IsChain fun a b => (isAscii a == isAscii b) = true := by
      rw [List.isChain_iff_getElem]
      intro i hi
      rw [h _ (List.getElem_mem _), h _ (List.getElem_mem _)]
      rfl
    rw [unquote_eq, List.splitBy_of_isChain hs hchain, List.flatMap_singleton, unquoteRun,
      if_pos (List.all_eq_true.mpr h)]

theorem unquotePlus_quotePlus (bytes : List UInt8) : unquotePlus (quotePlus bytes) = decodeBytes bytes := by
  have hascii : ∀ c ∈ plusToSpace (quotePlus bytes), isAscii c = true := by
    intro c hc
    obtain ⟨d, hd, rfl⟩ := List.mem_map.mp hc
    split
    · rfl
    · exact (mem_quotePlus hd).1
  rw [unquotePlus, ← plusToSpace, unquote_ascii hascii, unquote_quotePlus, decodeBytes]

theorem formPairs_urlencode (l : List (Str × List UInt8)) :
    formPairs (urlencode l) = l.map fun x => (x.1, decodeBytes x.2) := by
  cases l with
  | nil => rfl
  | cons x xs =>
    have hsplit : (urlencode (x :: xs)).splitOn '&' =
        (x :: xs).map fun x => pair (quotePlus (encode x.1), quotePlus x.2) := by
      refine List.splitOn_intercalate '&' (fun s hs hamp => ?_) (by simp)
      obtain ⟨y, -, rfl⟩ := List.mem_map.mp hs
      simp only [pair, List.mem_append, List.mem_cons] at hamp
      rcases hamp with hamp | hamp | hamp
      · exact (mem_quotePlus hamp).2.1 rfl
      · cases hamp
      · exact (mem_quotePlus hamp).2.1 rfl
    have hne : urlencode (x :: xs) ≠ [] := by
      intro hnil
      rw [hnil] at hsplit
      have hpair := (List.cons.inj hsplit).1
      exact pair_ne_nil _ hpair.symm
    rw [formPairs, if_neg hne, hsplit, List.map_map]
    refine List.map_congr_left fun y _ => ?_
    have hnot : '=' ∉ quotePlus (encode y.1) := fun hmem => (mem_quotePlus hmem).2.2 rfl
    simp only [Function.comp_apply, pair]
    rw [before_append_cons hnot, after_append_cons hnot, unquotePlus_quotePlus, unquotePlus_quotePlus,
      decodeBytes_encode]

end urlencode

end Urllib
