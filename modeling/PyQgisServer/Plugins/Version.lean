import PyQgisServer.Library.PyStr

namespace Plugins

open Urllib (Str before)
open PyStr

structure Version where
  major : ℤ
  minor : ℤ
  rev : ℤ
  deriving DecidableEq

-- a part that is missing is zero
def versionPart (t : UnicodeTables) : Option Str → Option ℤ
  | none => some 0
  | some s => pyInt t s

-- a minor of 99 or more stands for the next major, revisions stop at 99
def adjust (major minor rev : ℤ) : Version :=
  if minor ≥ 99 then ⟨major + 1, 0, 0⟩ else ⟨major, minor, if rev > 99 then 99 else rev⟩

def versionNumbers (t : UnicodeTables) (ver : Str) : Option Version := do
  let parts := ver.splitOn '.'
  let major ← pyInt t (parts.headD [])
  let minor ← versionPart t parts[1]?
  let rev ← versionPart t parts[2]?
  some (adjust major minor rev)

-- none for ValueError
def toInt (t : UnicodeTables) (ver : Str) : Option ℤ :=
  (versionNumbers t ver).bind fun v => pyInt t (showInt v.major ++ showPadded v.minor ++ showPadded v.rev)

def bound (t : UnicodeTables) (version : ℤ) : Option Str → Option ℤ
  | some (c :: ver) => toInt t (c :: ver)
  | _ => some version

def checkQgisVersion (t : UnicodeTables) (qgisVersion : Str) (minver maxver : Option Str) : Option Bool := do
  let version ← toInt t (before '-' qgisVersion)
  let minver ← bound t version minver
  let maxver ← bound t version maxver
  some (minver ≤ version && version ≤ maxver)

namespace Version

def LE (v w : Version) : Prop :=
  v.major < w.major ∨ v.major = w.major ∧ (v.minor < w.minor ∨ v.minor = w.minor ∧ v.rev ≤ w.rev)

instance (v w : Version) : Decidable (LE v w) := by
  unfold LE
  infer_instance

def Valid (v : Version) : Prop :=
  0 ≤ v.minor ∧ 0 ≤ v.rev ∧ (Nat.toDigits 10 v.major.natAbs).length + 4 ≤ maxStrDigits

instance (v : Version) : Decidable v.Valid := by
  unfold Valid
  infer_instance

def read (t : UnicodeTables) (ver : Str) : Option Version := (versionNumbers t ver).filter fun v => v.Valid

def code (v : Version) : ℤ :=
  if v.major < 0 then 10000 * v.major - 100 * v.minor - v.rev else 10000 * v.major + 100 * v.minor + v.rev

structure Adjusted (v : Version) : Prop where
  minor : v.minor < 99
  rev : v.rev ≤ 99

theorem adjust_adjusted (major minor rev : ℤ) : (adjust major minor rev).Adjusted := by
  rw [adjust]
  split
  · exact ⟨(by decide : (0 : ℤ) < 99), (by decide : (0 : ℤ) ≤ 99)⟩
  · rename_i hminor
    refine ⟨Int.not_le.mp hminor, ?_⟩
    dsimp only
    split <;> omega

theorem versionNumbers_adjusted {t : UnicodeTables} {ver : Str} {v : Version} (h : versionNumbers t ver = some v) :
    v.Adjusted := by
  rw [versionNumbers] at h
  obtain ⟨major, -, h⟩ := Option.bind_eq_some_iff.mp h
  obtain ⟨minor, -, h⟩ := Option.bind_eq_some_iff.mp h
  obtain ⟨rev, -, h⟩ := Option.bind_eq_some_iff.mp h
  rw [← Option.some.inj h]
  exact adjust_adjusted major minor rev

section shown

variable {t : UnicodeTables}

theorem showPadded_digits {n : ℕ} (h : n < 100) : (showPadded n).length = 2 ∧ ∀ c ∈ showPadded n, c.isDigit = true := by
  rw [showPadded_eq h]
  refine ⟨rfl, ?_⟩
  simp only [List.mem_cons, List.not_mem_nil, or_false]
  rintro c (rfl | rfl)
  · exact (digitChar_digit (by omega)).1
  · exact (digitChar_digit (by omega)).1

def digits (major : ℕ) (minor rev : ℤ) : Str := Nat.toDigits 10 major ++ showPadded minor ++ showPadded rev

theorem forall_mem_digits {p : Char → Prop} {major : ℕ} {minor rev : ℤ} (hmajor : ∀ c ∈ Nat.toDigits 10 major, p c)
    (hminor : ∀ c ∈ showPadded minor, p c) (hrev : ∀ c ∈ showPadded rev, p c) : ∀ c ∈ digits major minor rev, p c :=
  List.forall_mem_append.mpr ⟨List.forall_mem_append.mpr ⟨hmajor, hminor⟩, hrev⟩

theorem natural_shown (major : ℕ) {minor rev : ℕ} (hminor : minor < 100) (hrev : rev < 100) :
    natural t (digits major minor rev) =
      if (Nat.toDigits 10 major).length + 4 ≤ maxStrDigits then some (10000 * major + 100 * minor + rev) else none := by
  obtain ⟨hlen, hdigits⟩ := showPadded_digits hminor
  obtain ⟨hlen', hdigits'⟩ := showPadded_digits hrev
  have hall : ∀ c ∈ digits major minor rev, c.isDigit = true := forall_mem_digits (digit_toDigits major) hdigits hdigits'
  have hne : digits major minor rev ≠ [] := by simp [digits, Nat.toDigits_ne_nil]
  have hlength : (digits major minor rev).length = (Nat.toDigits 10 major).length + 4 := by
    rw [digits, List.length_append, List.length_append, hlen, hlen']
  have hvalue : Nat.ofDigitChars 10 (digits major minor rev) 0 = 10000 * major + 100 * minor + rev := by
    rw [digits, ofDigitChars_showPadded hrev, ofDigitChars_showPadded hminor, Nat.ofDigitChars_ten_toDigits]
    omega
  rw [natural_digits hne hall, hlength, hvalue]

theorem digits_numeral (major : ℕ) (minor rev : ℤ) : ∀ c ∈ digits major minor rev, c.isDigit = true ∨ c = '-' :=
  forall_mem_digits (fun c hc => .inl (digit_toDigits major c hc)) (showPadded_numeral minor) (showPadded_numeral rev)

theorem natural_negative (major : ℕ) {minor rev : ℤ} (h : minor < 0 ∨ rev < 0) :
    natural t (digits major minor rev) = none := by
  refine natural_minus (digits_numeral major minor rev) ?_
  rcases h with h | h
  · exact List.mem_append_left _ (List.mem_append_right _ (minus_mem_showPadded h))
  · exact List.mem_append_right _ (minus_mem_showPadded h)

theorem natural_version {v : Version} (h : v.Adjusted) :
    natural t (digits v.major.natAbs v.minor v.rev) =
      if v.Valid then some (10000 * v.major.natAbs + 100 * v.minor.natAbs + v.rev.natAbs) else none := by
  by_cases hparts : 0 ≤ v.minor ∧ 0 ≤ v.rev
  · obtain ⟨major, minor, rev⟩ := v
    obtain ⟨hminor, hrev⟩ := h
    obtain ⟨hminor', hrev'⟩ := hparts
    simp only at hminor hrev hminor' hrev'
    lift minor to ℕ using hminor'
    lift rev to ℕ using hrev'
    have hvalid : Valid ⟨major, minor, rev⟩ ↔ (Nat.toDigits 10 major.natAbs).length + 4 ≤ maxStrDigits :=
      ⟨fun h => h.2.2, fun h => ⟨by simp, by simp, h⟩⟩
    rw [natural_shown major.natAbs (by omega) (by omega)]
    simp only [hvalid, Int.natAbs_natCast]
  · have hvalid : ¬ v.Valid := fun h => hparts ⟨h.1, h.2.1⟩
    rw [natural_negative _ (by omega), if_neg hvalid]

theorem pyInt_shown (v : Version) :
    pyInt t (showInt v.major ++ showPadded v.minor ++ showPadded v.rev) =
      (natural t (digits v.major.natAbs v.minor v.rev)).map fun n : ℕ => if v.major < 0 then -(n : ℤ) else n := by
  by_cases hneg : v.major < 0
  · have htext : showInt v.major ++ showPadded v.minor ++ showPadded v.rev =
        '-' :: digits v.major.natAbs v.minor v.rev := by
      rw [showInt_neg hneg]
      rfl
    rw [htext, pyInt_negative (digits_numeral _ _ _)]
    simp only [hneg, if_true]
  · have htext : showInt v.major ++ showPadded v.minor ++ showPadded v.rev = digits v.major.natAbs v.minor v.rev := by
      rw [showInt, if_neg hneg]
      rfl
    obtain ⟨c, rest, hcons⟩ := List.exists_cons_of_ne_nil (Nat.toDigits_ne_nil (n := v.major.natAbs) (b := 10))
    have hshown : digits v.major.natAbs v.minor v.rev = c :: (rest ++ showPadded v.minor ++ showPadded v.rev) := by
      rw [digits, hcons]
      rfl
    have hnumeral := digits_numeral v.major.natAbs v.minor v.rev
    rw [hshown] at hnumeral
    have hc : c.isDigit = true := digit_toDigits v.major.natAbs c (hcons ▸ List.mem_cons_self)
    rw [htext, hshown, pyInt_digit hc (List.forall_mem_cons.mp hnumeral).2]
    simp only [hneg, if_false]
    rfl

theorem toInt_eq (ver : Str) : toInt t ver = (Version.read t ver).map Version.code := by
  rw [toInt, Version.read]
  cases hv : versionNumbers t ver with
  | none => rfl
  | some v =>
    rw [Option.bind_some, pyInt_shown, natural_version (versionNumbers_adjusted hv), Option.filter_some]
    by_cases hvalid : v.Valid
    · rw [if_pos hvalid, if_pos (by simpa using hvalid), Option.map_some, Option.map_some, code]
      obtain ⟨hminor, hrev, -⟩ := hvalid
      refine congrArg some ?_
      split <;> omega
    · rw [if_neg hvalid, if_neg (by simpa using hvalid)]
      rfl

theorem code_le_code {v w : Version} (hv : v.Adjusted) (hvalid : v.Valid) (hw : w.Adjusted) (hvalid' : w.Valid)
    (h : 0 ≤ v.major ∨ 0 ≤ w.major) : v.code ≤ w.code ↔ LE v w := by
  obtain ⟨hminor, hrev⟩ := hv
  obtain ⟨hminor', hrev', -⟩ := hvalid
  obtain ⟨hminorw, hrevw⟩ := hw
  obtain ⟨hminorw', hrevw', -⟩ := hvalid'
  rw [code, code, LE]
  split <;> split <;> omega

theorem read_some {ver : Str} {v : Version} (h : Version.read t ver = some v) : v.Adjusted ∧ v.Valid := by
  obtain ⟨hv, hvalid⟩ := Option.filter_eq_some_iff.mp h
  exact ⟨versionNumbers_adjusted hv, by simpa using hvalid⟩

end shown

def ReadBound (t : UnicodeTables) (b : Option Str) : Prop := ∀ ver, b = some ver → ver ≠ [] → Version.read t ver ≠ none

def admits (t : UnicodeTables) (running : Version) (minver maxver : Option Str) : Bool :=
  ((minver.filter (· ≠ [])).all fun ver => (Version.read t ver).any fun v => LE v running) &&
    (maxver.filter (· ≠ [])).all fun ver => (Version.read t ver).any fun v => LE running v

section check

variable {t : UnicodeTables} {qgisVersion : Str} {running : Version} {minver maxver b : Option Str}

theorem bound_given {ver : Str} (hne : ver ≠ []) (version : ℤ) : bound t version (some ver) = toInt t ver := by
  cases ver with
  | nil => exact absurd rfl hne
  | cons c ver => rfl

theorem bound_unread (h : ¬ ReadBound t b) (version : ℤ) : bound t version b = none := by
  simp only [ReadBound, ne_eq, not_forall, not_not, exists_prop] at h
  obtain ⟨ver, rfl, hne, hread⟩ := h
  rw [bound_given hne, toInt_eq, hread]
  rfl

theorem bound_read (h : ReadBound t b) (hvalid : running.Adjusted ∧ running.Valid) (hmajor : 0 ≤ running.major) :
    ∃ n, bound t running.code b = some n ∧
      (n ≤ running.code ↔ (b.filter (· ≠ [])).all (fun ver => (Version.read t ver).any fun v => LE v running) = true) ∧
      (running.code ≤ n ↔ (b.filter (· ≠ [])).all (fun ver => (Version.read t ver).any fun v => LE running v) = true) := by
  cases b with
  | none => exact ⟨running.code, rfl, by simp, by simp⟩
  | some ver =>
    by_cases hne : ver = []
    · subst hne
      exact ⟨running.code, rfl, by simp [Option.filter], by simp [Option.filter]⟩
    · obtain ⟨v, hv⟩ := Option.ne_none_iff_exists'.mp (h ver rfl hne)
      obtain ⟨hadjusted, hvalid'⟩ := read_some hv
      refine ⟨v.code, by rw [bound_given hne, toInt_eq, hv]; rfl, ?_, ?_⟩
      · rw [code_le_code hadjusted hvalid' hvalid.1 hvalid.2 (.inr hmajor)]
        simp [Option.filter, hne, hv]
      · rw [code_le_code hvalid.1 hvalid.2 hadjusted hvalid' (.inl hmajor)]
        simp [Option.filter, hne, hv]

theorem checkQgisVersion_read (hq : Version.read t (before '-' qgisVersion) = some running) (hmajor : 0 ≤ running.major)
    (hmin : ReadBound t minver) (hmax : ReadBound t maxver) :
    checkQgisVersion t qgisVersion minver maxver = some (admits t running minver maxver) := by
  obtain ⟨n, hn, hle, -⟩ := bound_read hmin (read_some hq) hmajor
  obtain ⟨m, hm, -, hge⟩ := bound_read hmax (read_some hq) hmajor
  have hversion : toInt t (before '-' qgisVersion) = some running.code := by
    rw [toInt_eq, hq]
    rfl
  rw [checkQgisVersion, hversion]
  simp only [Option.bind_eq_bind, Option.bind_some, hn, hm]
  rw [admits, Bool.eq_iff_iff.mpr ((decide_eq_true_iff).trans hle), Bool.eq_iff_iff.mpr ((decide_eq_true_iff).trans hge)]

theorem checkQgisVersion_unread (h : ¬ (ReadBound t minver ∧ ReadBound t maxver)) :
    checkQgisVersion t qgisVersion minver maxver = none := by
  rw [checkQgisVersion]
  cases toInt t (before '-' qgisVersion) with
  | none => rfl
  | some version =>
    simp only [Option.bind_eq_bind, Option.bind_some]
    by_cases hmin : ReadBound t minver
    · rw [bound_unread (b := maxver) fun hmax => h ⟨hmin, hmax⟩]
      cases bound t version minver <;> rfl
    · rw [bound_unread hmin]
      rfl

end check

end Version

end Plugins
