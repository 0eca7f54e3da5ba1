import Mathlib.Data.List.Basic

namespace LastSeen

variable {T : Type}

-- what was seen at each look, the last one first
def last (seen : List (Option T)) : Option T := seen.findSome? id

def Differs (x y : Option T) : Prop := ∃ m n, x = some m ∧ y = some n ∧ m ≠ n

def Changed (x : Option T) (before : List (Option T)) : Prop := Differs (last before) x

theorem not_differs_none (x : Option T) : ¬ Differs x none := by
  rintro ⟨m, n, -, hn, -⟩
  cases hn

theorem none_not_differs (x : Option T) : ¬ Differs none x := by
  rintro ⟨m, n, hm, -⟩
  cases hm

theorem differs_some {m n : T} : Differs (some m) (some n) ↔ m ≠ n := by
  constructor
  · rintro ⟨k, l, hk, hl, hne⟩
    rwa [Option.some.inj hk, Option.some.inj hl]
  · exact fun hne => ⟨m, n, rfl, rfl, hne⟩

theorem not_differs_or (x y : Option T) : ¬ Differs (x.or y) x := by
  cases x with
  | none => exact not_differs_none _
  | some m => exact fun h => differs_some.mp h rfl

theorem exists_changed {m n : T} (hne : m ≠ n) (mid older : List (Option T)) :
    ∃ after x before, some n :: mid = after ++ x :: before ∧ Changed x (before ++ some m :: older) := by
  induction mid with
  | nil => exact ⟨[], some n, [], rfl, m, n, rfl, rfl, hne⟩
  | cons y mid ih =>
    obtain ⟨after, x, before, hsplit, hchanged⟩ := ih
    cases after with
    | cons z after =>
      obtain ⟨rfl, hmid⟩ := List.cons.inj hsplit
      exact ⟨some n :: y :: after, x, before, by rw [hmid]; rfl, hchanged⟩
    | nil =>
      obtain ⟨rfl, rfl⟩ := List.cons.inj hsplit
      cases y with
      | none =>
        obtain ⟨k, l, hlast, hl, hkl⟩ := hchanged
        exact ⟨[], some n, none :: mid, rfl, k, l, hlast, hl, hkl⟩
      | some k =>
        rcases eq_or_ne k n with rfl | hk
        · exact ⟨[some k], some k, mid, rfl, hchanged⟩
        · exact ⟨[], some n, some k :: mid, rfl, k, n, rfl, rfl, hk⟩

end LastSeen
