import Mathlib.Data.List.SplitBy
import PyQgisServer.Library.Urllib.Query

namespace Urllib

def charWeight (c : Char) : ℕ := if c = '+' then 2 else 1

def byteWeight (b : ℕ) : ℕ := if b = 43 then 2 else 1

-- what reading a text can only lower: an escape is longer than what it stands for, and a plus
-- is heavier than a space
def weight : Str → ℕ
  | [] => 0
  | c :: s => charWeight c + weight s

def bytesWeight : List ℕ → ℕ
  | [] => 0
  | b :: bytes => byteWeight b + bytesWeight bytes

theorem charWeight_pos (c : Char) : 1 ≤ charWeight c := by
  unfold charWeight
  split <;> omega

theorem charWeight_le (c : Char) : charWeight c ≤ 2 := by
  unfold charWeight
  split <;> omega

theorem byteWeight_pos (b : ℕ) : 1 ≤ byteWeight b := by
  unfold byteWeight
  split <;> omega

theorem byteWeight_le (b : ℕ) : byteWeight b ≤ 2 := by
  unfold byteWeight
  split <;> omega

theorem charWeight_replacement : charWeight replacement = 1 := rfl

theorem byteWeight_toNat (c : Char) : byteWeight c.toNat = charWeight c := by
  have h : c.toNat = 43 ↔ c = '+' := by
    constructor
    · intro h
      rw [← Char.ofNat_toNat c, h]
    · rintro rfl
      rfl
  simp only [byteWeight, charWeight, h]

theorem charWeight_ofNat {b : ℕ} (h : b < 128) : charWeight (Char.ofNat b) = byteWeight b := by
  have hall : ∀ b : Fin 128, charWeight (Char.ofNat b) = byteWeight b := by decide
  exact hall ⟨b, h⟩

@[simp] theorem weight_nil : weight [] = 0 := rfl

@[simp] theorem weight_cons (c : Char) (s : Str) : weight (c :: s) = charWeight c + weight s := rfl

@[simp] theorem weight_append (s t : Str) : weight (s ++ t) = weight s + weight t := by
  induction s with
  | nil => simp
  | cons c s ih =>
    rw [List.cons_append, weight_cons, weight_cons, ih]
    omega

theorem bytesWeight_map (s : Str) : bytesWeight (s.map Char.toNat) = weight s := by
  induction s with
  | nil => rfl
  | cons c s ih => rw [List.map_cons, bytesWeight, weight_cons, byteWeight_toNat, ih]

theorem weight_eq_zero {s : Str} : weight s = 0 ↔ s = [] := by
  cases s with
  | nil => simp
  | cons c s =>
    have hc := charWeight_pos c
    simp only [weight_cons, reduceCtorEq, iff_false]
    omega

theorem lead_char {b n : ℕ} (h : lead b = .char n) : n = b ∧ b < 128 := by
  unfold lead at h
  split at h
  · rename_i hb
    exact ⟨(Lead.char.inj h).symm, hb⟩
  · simp only [apply_ite (· = Lead.char n), reduceCtorEq, ite_self] at h

theorem weight_decode (bytes : List ℕ) (p : Option Pending) :
    weight (decode p bytes) ≤ p.toList.length + bytesWeight bytes := by
  induction bytes generalizing p with
  | nil =>
    cases p with
    | none => simp [decode]
    | some p => simp [decode, charWeight_replacement]
  | cons b bytes ih =>
    have hb := byteWeight_pos b
    have hnone := ih none
    have hsome := fun p => ih (some p)
    simp only [Option.toList_none, List.length_nil, Option.toList_some, List.length_singleton] at hnone hsome
    -- a byte that starts a character
    have hlead : weight (decode none (b :: bytes)) ≤ byteWeight b + bytesWeight bytes := by
      cases hl : lead b with
      | char n =>
        obtain ⟨rfl, hlt⟩ := lead_char hl
        have hd : decode none (n :: bytes) = Char.ofNat n :: decode none bytes := by simp [decode, hl]
        rw [hd, weight_cons, charWeight_ofNat hlt]
        omega
      | more p =>
        have hd : decode none (b :: bytes) = decode (some p) bytes := by simp [decode, hl]
        have hp := hsome p
        rw [hd]
        omega
      | invalid =>
        have hd : decode none (b :: bytes) = replacement :: decode none bytes := by simp [decode, hl]
        rw [hd, weight_cons, charWeight_replacement]
        omega
    rw [bytesWeight]
    unfold decode
    split
    · rename_i lo hi ranges bits
      simp only [Option.toList_some, List.length_singleton]
      split
      · split
        · have hc := charWeight_le (Char.ofNat (bits * 64 + (b - 0x80)))
          rw [weight_cons]
          omega
        · have hp := hsome ⟨ranges, bits * 64 + (b - 0x80)⟩
          omega
      · rw [weight_cons, charWeight_replacement]
        exact Nat.add_le_add_left hlead 1
    · exact hlead.trans (Nat.le_add_left _ _)

theorem decode_none_ne_nil {bytes : List ℕ} (h : bytes ≠ []) (p : Option Pending) : decode p bytes ≠ [] := by
  induction bytes generalizing p with
  | nil => exact absurd rfl h
  | cons b bytes ih =>
    have hsome : ∀ p, decode (some p) bytes ≠ [] := by
      intro p
      cases bytes with
      | nil => simp [decode]
      | cons c bytes => exact ih (by simp) (some p)
    unfold decode
    split
    · split
      · split
        · simp
        · exact hsome _
      · simp
    · split
      · simp
      · exact hsome _
      · simp

theorem decode_ascii {s : Str} (h : ∀ c ∈ s, isAscii c = true) : decode none (s.map Char.toNat) = s := by
  induction s with
  | nil => rfl
  | cons c s ih =>
    have hc : c.toNat < 0x80 := by simpa [isAscii] using h c List.mem_cons_self
    have hs := ih fun d hd => h d (List.mem_cons_of_mem _ hd)
    simp [decode, lead, hc, Char.ofNat_toNat, hs]

theorem weight_unquoteToBytes (s : Str) :
    bytesWeight (unquoteToBytes s) ≤ weight s ∧
      (bytesWeight (unquoteToBytes s) = weight s → unquoteToBytes s = s.map Char.toNat) := by
  fun_induction unquoteToBytes s with
  | case1 c a b rest n hn ih =>
    have hb := byteWeight_le n
    have hc := charWeight_pos c
    have ha := charWeight_pos a
    have hd := charWeight_pos b
    simp only [bytesWeight, weight_cons]
    refine ⟨by omega, fun h => absurd h (by omega)⟩
  | case2 c a b rest hn ih =>
    rw [bytesWeight, weight_cons, byteWeight_toNat, List.map_cons]
    refine ⟨by omega, fun h => ?_⟩
    rw [ih.2 (by omega)]
  | case3 s _ => exact ⟨(bytesWeight_map s).le, fun _ => rfl⟩

theorem unquoteToBytes_ne_nil {s : Str} (h : s ≠ []) : unquoteToBytes s ≠ [] := by
  fun_cases unquoteToBytes s with
  | case1 => simp
  | case2 => simp
  | case3 => simpa using h

def unquoteRun (run : Str) : Str := if run.all isAscii then decode none (unquoteToBytes run) else run

theorem unquote_eq (s : Str) :
    unquote s = (s.splitBy fun a b => isAscii a == isAscii b).flatMap unquoteRun := rfl

theorem weight_unquoteRun (run : Str) :
    weight (unquoteRun run) ≤ weight run ∧ (weight (unquoteRun run) = weight run → unquoteRun run = run) := by
  unfold unquoteRun
  split
  · rename_i hall
    have hdecode := weight_decode (unquoteToBytes run) none
    have hbytes := weight_unquoteToBytes run
    rw [Option.toList_none, List.length_nil] at hdecode
    refine ⟨by omega, fun h => ?_⟩
    rw [hbytes.2 (by omega)]
    exact decode_ascii (List.all_eq_true.mp hall)
  · exact ⟨le_refl _, fun _ => rfl⟩

theorem weight_unquoteRuns (runs : List Str) :
    weight (runs.flatMap unquoteRun) ≤ weight runs.flatten ∧
      (weight (runs.flatMap unquoteRun) = weight runs.flatten → runs.flatMap unquoteRun = runs.flatten) := by
  induction runs with
  | nil => simp
  | cons run runs ih =>
    have hrun := weight_unquoteRun run
    simp only [List.flatMap_cons, List.flatten_cons, weight_append]
    refine ⟨by omega, fun h => ?_⟩
    rw [hrun.2 (by omega), ih.2 (by omega)]

theorem weight_unquote (s : Str) :
    weight (unquote s) ≤ weight s ∧ (weight (unquote s) = weight s → unquote s = s) := by
  have h := weight_unquoteRuns (s.splitBy fun a b => isAscii a == isAscii b)
  rw [List.flatten_splitBy] at h
  exact h

theorem unquote_ne_nil {s : Str} (h : s ≠ []) : unquote s ≠ [] := by
  obtain ⟨run, runs, hruns⟩ := List.exists_cons_of_ne_nil (List.splitBy_ne_nil
    (r := fun a b => isAscii a == isAscii b).mpr h)
  have hrun : run ≠ [] := List.ne_nil_of_mem_splitBy (hruns ▸ List.mem_cons_self)
  rw [unquote_eq, hruns, List.flatMap_cons]
  intro hnil
  have hnil := (List.append_eq_nil_iff.mp hnil).1
  unfold unquoteRun at hnil
  split at hnil
  · exact decode_none_ne_nil (unquoteToBytes_ne_nil hrun) none hnil
  · exact hrun hnil

theorem weight_plus (s : Str) :
    weight (s.map fun c => if c = '+' then ' ' else c) ≤ weight s ∧
      (weight (s.map fun c => if c = '+' then ' ' else c) = weight s →
        (s.map fun c => if c = '+' then ' ' else c) = s) := by
  induction s with
  | nil => simp
  | cons c s ih =>
    simp only [List.map_cons, weight_cons]
    by_cases hc : c = '+'
    · subst hc
      have hspace : charWeight ' ' = 1 := rfl
      have hplus : charWeight '+' = 2 := rfl
      rw [if_pos rfl, hspace, hplus]
      exact ⟨by omega, fun h => absurd h (by omega)⟩
    · rw [if_neg hc]
      exact ⟨by omega, fun h => by rw [ih.2 (by omega)]⟩

theorem weight_unquotePlus_le (s : Str) : weight (unquotePlus s) ≤ weight s :=
  (weight_unquote _).1.trans (weight_plus s).1

theorem unquotePlus_of_weight {s : Str} (h : weight (unquotePlus s) = weight s) : unquotePlus s = s := by
  have hplus := weight_plus s
  have hunquote := weight_unquote (s.map fun c => if c = '+' then ' ' else c)
  unfold unquotePlus at h ⊢
  rw [hunquote.2 (by omega), hplus.2 (by omega)]

theorem unquotePlus_ne_nil {s : Str} (h : s ≠ []) : unquotePlus s ≠ [] :=
  unquote_ne_nil (by simpa using h)

end Urllib
