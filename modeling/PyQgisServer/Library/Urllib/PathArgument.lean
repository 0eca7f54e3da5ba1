import PyQgisServer.Library.Urllib.Quote

namespace Urllib

-- a path argument: its escapes are decoded and a plus sign stays, none where it is no UTF-8
def decodePathArgument (s : Str) : Option Str :=
  decodeStrict ((unquoteToBytes ((encode s).map fun b => Char.ofNat b.toNat)).map UInt8.ofNat)

def spaceToPlus (s : Str) : Str := s.map fun c => if c = ' ' then '+' else c

def spaceByteToPlus (b : UInt8) : UInt8 := if b = 32 then 43 else b

theorem decodeStrict_encode (s : Str) : decodeStrict (encode s) = some s := by
  rw [decodeStrict, decodeBytes_encode, if_pos rfl]

theorem encode_cons (c : Char) (s : Str) : encode (c :: s) = String.utf8EncodeChar c ++ encode s := List.flatMap_cons

theorem utf8EncodeChar_ascii {c : Char} (h : isAscii c = true) : String.utf8EncodeChar c = [UInt8.ofNat c.toNat] := by
  have hlt : c.toNat < 128 := of_decide_eq_true h
  have hval : c.val.toNat = c.toNat := rfl
  rw [String.utf8EncodeChar]
  simp only [hval]
  rw [if_pos (by omega)]

theorem encode_ascii {s : Str} (h : ∀ c ∈ s, isAscii c = true) : (encode s).map (fun b => Char.ofNat b.toNat) = s := by
  induction s with
  | nil => rfl
  | cons c s ih =>
    obtain ⟨hc, hs⟩ := List.forall_mem_cons.mp h
    have hlt : c.toNat < 128 := of_decide_eq_true hc
    rw [encode_cons, utf8EncodeChar_ascii hc, List.map_append, ih hs, List.map_singleton, toNat_ofNat (by omega),
      Char.ofNat_toNat]
    rfl

theorem utf8EncodeChar_ne_space {c : Char} (h : c ≠ ' ') : 32 ∉ String.utf8EncodeChar c := by
  have hval : c.val.toNat = c.toNat := rfl
  have hne : c.toNat ≠ 32 := fun heq => h (Char.toNat_inj.mp heq)
  have hbyte : ∀ n, n < 256 → n ≠ 32 → (32 : UInt8) ≠ UInt8.ofNat n := by
    intro n hn hne heq
    rw [← toNat_ofNat hn, ← heq] at hne
    exact hne rfl
  have hvalid : c.toNat < 0x110000 := by
    rcases c.valid with hlow | ⟨-, hhigh⟩
    · exact lt_trans hlow (by decide)
    · exact hhigh
  unfold String.utf8EncodeChar
  simp only [hval]
  generalize c.toNat = n at hne hvalid
  split
  · rw [List.mem_singleton]
    exact hbyte n (by omega) hne
  · split
    · simp only [List.mem_cons, List.not_mem_nil, or_false, not_or]
      exact ⟨hbyte _ (by omega) (by omega), hbyte _ (by omega) (by omega)⟩
    · split
      · simp only [List.mem_cons, List.not_mem_nil, or_false, not_or]
        exact ⟨hbyte _ (by omega) (by omega), hbyte _ (by omega) (by omega), hbyte _ (by omega) (by omega)⟩
      · simp only [List.mem_cons, List.not_mem_nil, or_false, not_or]
        exact ⟨hbyte _ (by omega) (by omega), hbyte _ (by omega) (by omega), hbyte _ (by omega) (by omega),
          hbyte _ (by omega) (by omega)⟩

theorem map_spaceByteToPlus (s : Str) : (encode s).map spaceByteToPlus = encode (spaceToPlus s) := by
  induction s with
  | nil => rfl
  | cons c s ih =>
    have hcons : spaceToPlus (c :: s) = (if c = ' ' then '+' else c) :: spaceToPlus s := List.map_cons
    rw [encode_cons, List.map_append, ih, hcons, encode_cons]
    refine congrArg (· ++ _) ?_
    split
    · rename_i hc
      subst hc
      rfl
    · rename_i hc
      refine (List.map_congr_left fun b hb => ?_).trans (List.map_id _)
      refine if_neg ?_
      rintro rfl
      exact utf8EncodeChar_ne_space hc hb

theorem isAlwaysSafe_hexDigit {n : ℕ} (h : n < 16) : isAlwaysSafe (hexDigit n) = true := by
  have hall : ∀ n : Fin 16, isAlwaysSafe (hexDigit n) = true := by decide
  exact hall ⟨n, h⟩

theorem mem_quoteByte_cases {b : UInt8} {c : Char} (hc : c ∈ quoteByte b) :
    isAlwaysSafe c = true ∨ c = '%' ∨ b = 32 ∧ c = '+' := by
  have hb := b.toNat_lt
  unfold quoteByte at hc
  split at hc
  · rename_i hsafe
    obtain rfl := List.mem_singleton.mp hc
    exact .inl hsafe
  · split at hc
    · rename_i hspace
      exact .inr (.inr ⟨hspace, List.mem_singleton.mp hc⟩)
    · simp only [List.mem_cons, List.not_mem_nil, or_false] at hc
      rcases hc with rfl | rfl | rfl
      · exact .inr (.inl rfl)
      · exact .inl (isAlwaysSafe_hexDigit (by omega))
      · exact .inl (isAlwaysSafe_hexDigit (by omega))

theorem notMem_quotePlus {c : Char} (hsafe : isAlwaysSafe c = false) (hpercent : c ≠ '%') (hplus : c ≠ '+')
    (bytes : List UInt8) : c ∉ quotePlus bytes := by
  intro hc
  obtain ⟨b, -, hb⟩ := List.mem_flatMap.mp hc
  rcases mem_quoteByte_cases hb with h | h | ⟨-, h⟩
  · rw [hsafe] at h
    cases h
  · exact hpercent h
  · exact hplus h

theorem mem_quoteByte_ne_plus {b : UInt8} (h : b ≠ 32) {c : Char} (hc : c ∈ quoteByte b) : c ≠ '+' := by
  rcases mem_quoteByte_cases hc with hsafe | rfl | ⟨hb, -⟩
  · exact (isAlwaysSafe_ne hsafe).2.1
  · decide
  · exact absurd hb h

theorem unquote_quoteByte_plus (b : UInt8) (s : Str) :
    unquoteToBytes (quoteByte b ++ s) = (spaceByteToPlus b).toNat :: unquoteToBytes s := by
  by_cases hspace : b = 32
  · subst hspace
    exact unquoteToBytes_cons (by decide) s
  · have hsame : plusToSpace (quoteByte b) = quoteByte b :=
      (List.map_congr_left fun c hc => if_neg (mem_quoteByte_ne_plus hspace hc)).trans (List.map_id _)
    rw [← hsame, unquote_quoteByte, spaceByteToPlus, if_neg hspace]

theorem unquoteToBytes_quotePlus (bytes : List UInt8) :
    (unquoteToBytes (quotePlus bytes)).map UInt8.ofNat = bytes.map spaceByteToPlus := by
  induction bytes with
  | nil => rfl
  | cons b bytes ih =>
    rw [quotePlus, List.flatMap_cons, unquote_quoteByte_plus, List.map_cons, List.map_cons, UInt8.ofNat_toNat, ← quotePlus,
      ih]

theorem decodePathArgument_quotePlus (s : Str) : decodePathArgument (quotePlus (encode s)) = some (spaceToPlus s) := by
  have hascii : ∀ c ∈ quotePlus (encode s), isAscii c = true := fun _ hc => (mem_quotePlus hc).1
  rw [decodePathArgument, encode_ascii hascii, unquoteToBytes_quotePlus, map_spaceByteToPlus, decodeStrict_encode]

theorem spaceToPlus_eq_iff (s : Str) : spaceToPlus s = s ↔ ' ' ∉ s := by
  induction s with
  | nil => simp [spaceToPlus]
  | cons c s ih =>
    have hcons : spaceToPlus (c :: s) = (if c = ' ' then '+' else c) :: spaceToPlus s := List.map_cons
    rw [hcons, List.cons.injEq, ih, List.mem_cons, not_or]
    refine and_congr_left fun _ => ?_
    split
    · rename_i hc
      subst hc
      decide
    · rename_i hc
      exact iff_of_true rfl (Ne.symm hc)

end Urllib
