import PyQgisServer.Handlers.Arguments

namespace Handlers

open Zmq Urllib

namespace OwsHandler

section decimal

def decimal (n : ℤ) : Bytes := Urllib.encode (toString n).toList

theorem digit_bounds {c : Char} (h : c.isDigit = true) : 48 ≤ c.toNat ∧ c.toNat ≤ 57 := Char.isDigit_iff_toNat.mp h

theorem encode_digit {c : Char} (h : c.isDigit = true) :
    ∃ b, String.utf8EncodeChar c = [b] ∧ isDigit b = true ∧ b.toNat = c.toNat := by
  obtain ⟨hlo, hhi⟩ := digit_bounds h
  have hval : c.val.toNat = c.toNat := rfl
  refine ⟨UInt8.ofNat c.toNat, ?_, ?_, ?_⟩
  · rw [String.utf8EncodeChar]
    simp only [hval]
    rw [if_pos (by omega)]
  · simp only [isDigit, Bool.and_eq_true, decide_eq_true_eq, UInt8.le_iff_toNat_le, UInt8.toNat_ofNat']
    constructor
    · change 48 ≤ c.toNat % 256
      omega
    · change c.toNat % 256 ≤ 57
      omega
  · exact toNat_ofNat (by omega)

theorem encode_digits {cs : Str} (h : ∀ c ∈ cs, c.isDigit = true) (n : ℕ) :
    (∀ b ∈ Urllib.encode cs, isDigit b = true) ∧
      (Urllib.encode cs).foldl (fun (n : ℤ) b => 10 * n + (b.toNat - 48)) n = Nat.ofDigitChars 10 cs n := by
  induction cs generalizing n with
  | nil => exact ⟨fun b hb => absurd hb List.not_mem_nil, rfl⟩
  | cons c cs ih =>
    obtain ⟨hc, hcs⟩ := List.forall_mem_cons.mp h
    obtain ⟨b, hb, hdigit, hnat⟩ := encode_digit hc
    obtain ⟨hlo, -⟩ := digit_bounds hc
    have hcons : Urllib.encode (c :: cs) = b :: Urllib.encode cs := by
      rw [Urllib.encode, List.flatMap_cons, hb]
      rfl
    obtain ⟨hall, hfold⟩ := ih hcs (10 * n + (c.toNat - 48))
    have hstep : (10 * n + (b.toNat - 48) : ℤ) = ((10 * n + (c.toNat - 48) : ℕ) : ℤ) := by
      rw [hnat]
      omega
    rw [hcons]
    refine ⟨List.forall_mem_cons.mpr ⟨hdigit, hall⟩, ?_⟩
    rw [List.foldl_cons, hstep, hfold, Nat.ofDigitChars_cons]
    rfl

theorem isDigit_toDigits (n : ℕ) : ∀ c ∈ Nat.toDigits 10 n, c.isDigit = true :=
  fun _ hc => Nat.isDigit_of_mem_toDigits (by decide) (by decide) hc

theorem encode_toDigits_ne_nil (n : ℕ) : Urllib.encode (Nat.toDigits 10 n) ≠ [] := by
  intro hnil
  cases hcs : Nat.toDigits 10 n with
  | nil => exact Nat.toDigits_ne_nil hcs
  | cons c cs =>
    obtain ⟨b, hb, -⟩ := encode_digit (isDigit_toDigits n c (hcs ▸ List.mem_cons_self))
    rw [hcs, Urllib.encode, List.flatMap_cons, hb] at hnil
    cases hnil

theorem length_encode_digits {cs : Str} (h : ∀ c ∈ cs, c.isDigit = true) : (Urllib.encode cs).length = cs.length := by
  induction cs with
  | nil => rfl
  | cons c cs ih =>
    obtain ⟨hc, hcs⟩ := List.forall_mem_cons.mp h
    obtain ⟨b, hb, -⟩ := encode_digit hc
    have hcons : Urllib.encode (c :: cs) = b :: Urllib.encode cs := by
      rw [Urllib.encode, List.flatMap_cons, hb]
      rfl
    rw [hcons, List.length_cons, List.length_cons, ih hcs]

theorem digits_decimal (n : ℕ) : digits (Urllib.encode (Nat.toDigits 10 n)) =
    if (Nat.toDigits 10 n).length ≤ PyStr.maxStrDigits then some (n : ℤ) else none := by
  obtain ⟨hall, hfold⟩ := encode_digits (isDigit_toDigits n) 0
  have hsplit : (Urllib.encode (Nat.toDigits 10 n)).splitOn 95 = [Urllib.encode (Nat.toDigits 10 n)] :=
    List.splitOn_eq_singleton fun hmem => absurd (hall 95 hmem) (by decide)
  have hgroups : [Urllib.encode (Nat.toDigits 10 n)].all (fun group => group ≠ [] && group.all isDigit) = true := by
    simpa using ⟨encode_toDigits_ne_nil n, hall⟩
  have hvalue : (Urllib.encode (Nat.toDigits 10 n)).foldl (fun (n : ℤ) b => 10 * n + (b.toNat - 48)) 0 = (n : ℤ) := by
    refine hfold.trans ?_
    rw [Nat.ofDigitChars_ten_toDigits]
  simp only [digits, hsplit, hgroups, true_and, List.flatten_singleton, length_encode_digits (isDigit_toDigits n), hvalue]

theorem not_blank_of_isDigit {b : UInt8} (h : isDigit b = true) : isBlank b = false ∧ b ≠ 43 ∧ b ≠ 45 := by
  have hall : ∀ b : UInt8, isDigit b = true → isBlank b = false ∧ b ≠ 43 ∧ b ≠ 45 := by decide +kernel
  exact hall b h

theorem pyInt_digits {s : Bytes} (hne : s ≠ []) (h : ∀ b ∈ s, isDigit b = true) : pyInt s = digits s := by
  have hleft : s.dropWhile isBlank = s := by
    rw [List.dropWhile_eq_self_iff]
    intro hlen hblank
    rw [(not_blank_of_isDigit (h _ (List.getElem_mem hlen))).1] at hblank
    cases hblank
  have hright : s.rdropWhile isBlank = s := by
    rw [List.rdropWhile_eq_self_iff]
    intro hl hblank
    rw [(not_blank_of_isDigit (h _ (List.getLast_mem hl))).1] at hblank
    cases hblank
  unfold pyInt
  rw [hleft, hright]
  split
  · exact absurd rfl (not_blank_of_isDigit (h 43 List.mem_cons_self)).2.1
  · exact absurd rfl (not_blank_of_isDigit (h 45 List.mem_cons_self)).2.2
  · rfl

theorem pyInt_decimal (n : ℕ) :
    pyInt (decimal n) = if (Nat.toDigits 10 n).length ≤ PyStr.maxStrDigits then some (n : ℤ) else none := by
  have htext : (toString (n : ℤ)).toList = Nat.toDigits 10 n := Nat.toList_repr
  rw [decimal, htext, pyInt_digits (encode_toDigits_ne_nil n) (encode_digits (isDigit_toDigits n) 0).1, digits_decimal]

theorem foldl_digits_bounds {s : Bytes} (h : ∀ b ∈ s, isDigit b = true) {n : ℤ} (hn : 0 ≤ n) :
    0 ≤ s.foldl (fun (n : ℤ) b => 10 * n + (b.toNat - 48)) n ∧
      s.foldl (fun (n : ℤ) b => 10 * n + (b.toNat - 48)) n < (n + 1) * 10 ^ s.length := by
  induction s generalizing n with
  | nil => exact ⟨hn, by simp⟩
  | cons b s ih =>
    obtain ⟨hb, hs⟩ := List.forall_mem_cons.mp h
    rw [isDigit, Bool.and_eq_true, decide_eq_true_eq, decide_eq_true_eq] at hb
    obtain ⟨hlo, hhi⟩ : 48 ≤ b.toNat ∧ b.toNat ≤ 57 := hb
    obtain ⟨hnonneg, hlt⟩ := ih hs (n := 10 * n + (b.toNat - 48)) (by omega)
    refine ⟨hnonneg, ?_⟩
    calc
      (b :: s).foldl (fun (n : ℤ) b => 10 * n + (b.toNat - 48)) n < (10 * n + (b.toNat - 48) + 1) * 10 ^ s.length :=
        hlt
      _ ≤ (10 * (n + 1)) * 10 ^ s.length := by
        gcongr
        omega
      _ = (n + 1) * 10 ^ (b :: s).length := by
        rw [List.length_cons, pow_succ]
        ring

theorem length_of_digits {s : Bytes} {n : ℤ} (h : digits s = some n) :
    0 ≤ n ∧ (Nat.toDigits 10 n.toNat).length ≤ PyStr.maxStrDigits := by
  rw [digits] at h
  split at h
  · rename_i hread
    obtain ⟨hgroups, hlength⟩ := hread
    have hall : ∀ b ∈ (s.splitOn 95).flatten, isDigit b = true := by
      intro b hb
      obtain ⟨group, hgroup, hb⟩ := List.mem_flatten.mp hb
      have hdigits := List.all_eq_true.mp hgroups group hgroup
      rw [Bool.and_eq_true] at hdigits
      exact List.all_eq_true.mp hdigits.2 b hb
    obtain ⟨hnonneg, hlt⟩ := foldl_digits_bounds hall le_rfl
    rw [Option.some.inj h] at hnonneg hlt
    rw [zero_add, one_mul] at hlt
    have hpow : n < 10 ^ PyStr.maxStrDigits := hlt.trans_le (pow_le_pow_right₀ (by decide) hlength)
    refine ⟨hnonneg, ?_⟩
    rw [Nat.length_toDigits_le_iff (by decide) (by decide), Int.toNat_lt' (by positivity)]
    exact_mod_cast hpow
  · cases h

theorem length_of_pyInt {s : Bytes} {n : ℤ} (h : pyInt s = some n) (hn : 0 ≤ n) :
    (Nat.toDigits 10 n.toNat).length ≤ PyStr.maxStrDigits := by
  rw [pyInt] at h
  split at h
  · exact (length_of_digits h).2
  · obtain ⟨m, hm, rfl⟩ := Option.map_eq_some_iff.mp h
    obtain ⟨hnonneg, -⟩ := length_of_digits hm
    rw [Int.toNat_of_nonpos (by omega)]
    decide
  · exact (length_of_digits h).2

end decimal

section clamp

def ReadsAs (text : String) (value : Option Bytes) : Prop :=
  ∃ b, value = some b ∧ b.map lowerByte = (Urllib.encode text.toList).map lowerByte

def GetFeatureRequest (arguments : PyDict Str Bytes) : Prop :=
  ReadsAs "WFS" (arguments.get? "SERVICE".toList) ∧ ReadsAs "GetFeature" (arguments.get? "REQUEST".toList)

def VersionTwo (arguments : PyDict Str Bytes) : Prop :=
  ∃ rest, arguments.get? "VERSION".toList = some (Urllib.encode "2.".toList ++ rest)

def LimitParameter (arguments : PyDict Str Bytes) (key : Str) : Prop :=
  VersionTwo arguments ∧ key = "COUNT".toList ∨ ¬ VersionTwo arguments ∧ key = "MAXFEATURES".toList

def allowed (limit : ℤ) (value : Option Bytes) : ℤ :=
  match value.bind pyInt with
  | some n => if 1 ≤ n ∧ n ≤ limit then n else limit
  | none => limit

structure Clamped (limit : ℤ) (key : Str) (arguments result : PyDict Str Bytes) : Prop where
  value : ∃ n, 1 ≤ n ∧ n ≤ limit ∧ n = allowed limit (arguments.get? key) ∧ result.get? key = some (decimal n)
  others : result.erase key = arguments.erase key

theorem allowed_cases (limit : ℤ) (value : Option Bytes) :
    allowed limit value = limit ∨
      ∃ n, value.bind pyInt = some n ∧ (1 ≤ n ∧ n ≤ limit) ∧ allowed limit value = n := by
  unfold allowed
  split
  · rename_i n hn
    split
    · rename_i hin
      exact .inr ⟨n, hn, hin, rfl⟩
    · exact .inl rfl
  · exact .inl rfl

theorem allowed_bounds {limit : ℤ} (h : 0 < limit) (value : Option Bytes) :
    1 ≤ allowed limit value ∧ allowed limit value ≤ limit := by
  rcases allowed_cases limit value with hself | ⟨n, -, hin, hclient⟩
  · rw [hself]
    exact ⟨h, le_rfl⟩
  · rw [hclient]
    exact hin

theorem allowed_decimal {limit : ℤ} (h : 0 < limit) (value : Option Bytes) :
    allowed limit (some (decimal (allowed limit value))) = allowed limit value := by
  rcases allowed_cases limit value with hself | ⟨n, hn, hin, hclient⟩
  · rw [hself]
    lift limit to ℕ using h.le
    rw [allowed, Option.bind_some, pyInt_decimal]
    split
    · rename_i n hn
      split at hn
      · obtain rfl := Option.some.inj hn
        exact ite_self _
      · cases hn
    · rfl
  · rw [hclient]
    obtain ⟨v, -, hv⟩ := Option.bind_eq_some_iff.mp hn
    have hlength := length_of_pyInt hv (by omega)
    lift n to ℕ using by omega
    rw [Int.toNat_natCast] at hlength
    rw [allowed, Option.bind_some, pyInt_decimal, if_pos hlength]
    exact if_pos hin

variable (getfeaturelimit : ℤ) (arguments : PyDict Str Bytes)

theorem limit_eq (key : Str) : limit getfeaturelimit arguments key = allowed getfeaturelimit (arguments.get? key) := by
  rw [limit, actualLimit, allowed]
  cases arguments.get? key with
  | none => rfl
  | some value =>
    simp only [Option.bind_some]
    cases pyInt value with
    | none => rfl
    | some n =>
      simp only
      split
      · split
        · omega
        · omega
      · rw [if_neg (by omega)]

theorem map_eq_iff {f g : UInt8 → UInt8} {t : Bytes} (h : ∀ c ∈ t, ∀ b, f b = c ↔ g b = g c) (s : Bytes) :
    s.map f = t ↔ s.map g = t.map g := by
  induction s generalizing t with
  | nil =>
    cases t with
    | nil => exact Iff.rfl
    | cons c t => simp
  | cons b s ih =>
    cases t with
    | nil => simp
    | cons c t =>
      obtain ⟨hc, ht⟩ := List.forall_mem_cons.mp h
      rw [List.map_cons, List.map_cons, List.map_cons, List.cons.injEq, List.cons.injEq, ih ht, hc]

theorem readsAs_iff {text : String} (hne : (Urllib.encode text.toList).map lowerByte ≠ []) (value : Option Bytes) :
    (value.getD []).map lowerByte = (Urllib.encode text.toList).map lowerByte ↔ ReadsAs text value := by
  cases value with
  | none =>
    refine iff_of_false (fun h => hne h.symm) ?_
    rintro ⟨b, hb, -⟩
    cases hb
  | some b =>
    constructor
    · intro h
      exact ⟨b, rfl, h⟩
    · rintro ⟨b', hb, h⟩
      obtain rfl := Option.some.inj hb
      exact h

theorem isGetFeature_iff : isGetFeature arguments = true ↔ GetFeatureRequest arguments := by
  have hservice : ∀ c ∈ Urllib.encode "WFS".toList, ∀ b, upperByte b = c ↔ lowerByte b = lowerByte c := by
    decide +kernel
  have hrequest : Urllib.encode "getfeature".toList = (Urllib.encode "GetFeature".toList).map lowerByte := by decide
  rw [isGetFeature, Bool.and_eq_true, beq_iff_eq, beq_iff_eq, map_eq_iff hservice, hrequest,
    readsAs_iff (by decide), readsAs_iff (by decide)]
  rfl

theorem limitKey_parameter : LimitParameter arguments (limitKey arguments) := by
  have hversion : (Urllib.encode "2.".toList).isPrefixOf ((arguments.get? "VERSION".toList).getD []) = true ↔
      VersionTwo arguments := by
    rw [List.isPrefixOf_iff_prefix, VersionTwo]
    cases arguments.get? "VERSION".toList with
    | none => exact iff_of_false (by decide) (fun ⟨rest, hrest⟩ => by cases hrest)
    | some v =>
      constructor
      · rintro ⟨rest, rfl⟩
        exact ⟨rest, rfl⟩
      · rintro ⟨rest, hrest⟩
        exact ⟨rest, (Option.some.inj hrest).symm⟩
  rw [limitKey]
  split
  · rename_i htwo
    exact .inl ⟨hversion.mp htwo, rfl⟩
  · rename_i htwo
    exact .inr ⟨mt hversion.mpr htwo, rfl⟩

theorem limitKey_ne : "SERVICE".toList ≠ limitKey arguments ∧ "REQUEST".toList ≠ limitKey arguments ∧
    "VERSION".toList ≠ limitKey arguments := by
  unfold limitKey
  split
  · decide
  · decide

section set

variable (value : Bytes)

theorem isGetFeature_set : isGetFeature (arguments.set (limitKey arguments) value) = isGetFeature arguments := by
  obtain ⟨hservice, hrequest, -⟩ := limitKey_ne arguments
  rw [isGetFeature, PyDict.get?_set, if_neg hservice, PyDict.get?_set, if_neg hrequest, ← isGetFeature]

theorem limitKey_set : limitKey (arguments.set (limitKey arguments) value) = limitKey arguments := by
  obtain ⟨-, -, hversion⟩ := limitKey_ne arguments
  rw [limitKey, PyDict.get?_set, if_neg hversion, ← limitKey]

end set

theorem fixGetfeature_other (h : ¬ GetFeatureRequest arguments) : fixGetfeature getfeaturelimit arguments = arguments := by
  rw [fixGetfeature, if_neg]
  rw [Bool.and_eq_true, isGetFeature_iff]
  exact fun hboth => h hboth.2

theorem fixGetfeature_request (hlimit : 0 < getfeaturelimit) (h : GetFeatureRequest arguments) :
    fixGetfeature getfeaturelimit arguments = arguments.set (limitKey arguments)
      (decimal (allowed getfeaturelimit (arguments.get? (limitKey arguments)))) := by
  rw [fixGetfeature, if_pos, limit_eq, decimal]
  rw [Bool.and_eq_true, isGetFeature_iff]
  exact ⟨decide_eq_true hlimit, h⟩

theorem fixGetfeature_twice (hlimit : 0 < getfeaturelimit) (h : GetFeatureRequest arguments) :
    fixGetfeature getfeaturelimit (fixGetfeature getfeaturelimit arguments) = fixGetfeature getfeaturelimit arguments := by
  rw [fixGetfeature_request getfeaturelimit arguments hlimit h]
  have hagain := allowed_decimal hlimit (arguments.get? (limitKey arguments))
  generalize allowed getfeaturelimit (arguments.get? (limitKey arguments)) = n at hagain
  have hrequest : GetFeatureRequest (arguments.set (limitKey arguments) (decimal n)) := by
    rw [← isGetFeature_iff, isGetFeature_set, isGetFeature_iff]
    exact h
  have hvalue : (arguments.set (limitKey arguments) (decimal n)).get? (limitKey arguments) = some (decimal n) := by
    rw [PyDict.get?_set, if_pos rfl]
  rw [fixGetfeature_request getfeaturelimit _ hlimit hrequest, limitKey_set, hvalue, hagain]
  exact PyDict.set_of_get? hvalue

theorem getfeature_clamped (hlimit : 0 < getfeaturelimit) :
    (¬ GetFeatureRequest arguments → fixGetfeature getfeaturelimit arguments = arguments) ∧
      (GetFeatureRequest arguments → ∃ key, LimitParameter arguments key ∧
        Clamped getfeaturelimit key arguments (fixGetfeature getfeaturelimit arguments)) ∧
      fixGetfeature getfeaturelimit (fixGetfeature getfeaturelimit arguments) = fixGetfeature getfeaturelimit arguments := by
  refine ⟨fixGetfeature_other getfeaturelimit arguments, fun h => ?_, ?_⟩
  · rw [fixGetfeature_request getfeaturelimit arguments hlimit h]
    obtain ⟨hlo, hhi⟩ := allowed_bounds hlimit (arguments.get? (limitKey arguments))
    refine ⟨limitKey arguments, limitKey_parameter arguments, ⟨_, hlo, hhi, rfl, ?_⟩, PyDict.erase_set arguments _ _⟩
    rw [PyDict.get?_set, if_pos rfl]
  · by_cases h : GetFeatureRequest arguments
    · exact fixGetfeature_twice getfeaturelimit arguments hlimit h
    · rw [fixGetfeature_other getfeaturelimit arguments h, fixGetfeature_other getfeaturelimit arguments h]

theorem encodeArguments_ows (args : Arguments) :
    formPairs (FrontHandler.encodeArguments getfeaturelimit .ows args).tail =
      ((fixGetfeature getfeaturelimit (args.mapValues ArgValues.first)).mapValues decodeBytes).items := by
  rw [FrontHandler.encodeArguments, List.tail_cons, formPairs_urlencode]
  rfl

def unlimitedRequest : PyDict Str Bytes :=
  ((PyDict.empty.set "SERVICE".toList (Urllib.encode "wfs".toList)).set "REQUEST".toList
    (Urllib.encode "GETFEATURE".toList)).set "MAXFEATURES".toList (Urllib.encode "-1".toList)

theorem getfeature_clamped_ten :
    0 < (10 : ℤ) ∧ (fixGetfeature 10 unlimitedRequest).get? "MAXFEATURES".toList = some (Urllib.encode "10".toList) ∧
      fixGetfeature 10 (fixGetfeature 10 unlimitedRequest) = fixGetfeature 10 unlimitedRequest := by
  obtain ⟨-, hrequest, htwice⟩ := getfeature_clamped 10 unlimitedRequest (by decide)
  obtain ⟨key, hkey, ⟨⟨n, -, -, hn, hvalue⟩, -⟩⟩ := hrequest ((isGetFeature_iff unlimitedRequest).mp (by decide))
  refine ⟨by decide, ?_, htwice⟩
  have hversion : ¬ VersionTwo unlimitedRequest := by
    rintro ⟨rest, hrest⟩
    cases hrest
  obtain ⟨-, rfl⟩ := hkey.resolve_left fun htwo => hversion htwo.1
  have hten : allowed 10 (unlimitedRequest.get? "MAXFEATURES".toList) = 10 := by decide
  rw [hvalue, hn, hten]
  decide

end clamp

end OwsHandler

end Handlers
