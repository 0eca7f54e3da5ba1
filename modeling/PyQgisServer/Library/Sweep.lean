import Mathlib.Logic.Function.Basic
import Mathlib.Data.List.Basic

namespace Sweep

variable {M K V E : Type}

-- for key in keys: f(key), left by the first exception
def forEach (f : M → K → Except E Unit × M) : M → List K → Except E Unit × M
  | m, [] => (.ok (), m)
  | m, k :: keys =>
    match f m k with
    | (.error e, m) => (.error e, m)
    | (.ok (), m) => forEach f m keys

theorem forEach_map {L : Type} (f : M → K → Except E Unit × M) (g : L → K) (m : M) (keys : List L) :
    forEach (fun m l => f m (g l)) m keys = forEach f m (keys.map g) := by
  induction keys generalizing m with
  | nil => rfl
  | cons l keys ih =>
    rw [forEach, List.map_cons, forEach]
    split
    · rfl
    · exact ih _

def each (f : M → K → Except E Unit × M) : M → List K → M := List.foldl fun m k => (f m k).2

theorem forEach_prefix (f : M → K → Except E Unit × M) (m : M) (keys : List K) :
    ∃ done, done <+: keys ∧ (forEach f m keys).2 = each f m done := by
  induction keys generalizing m with
  | nil => exact ⟨[], List.prefix_rfl, rfl⟩
  | cons k keys ih =>
    rw [forEach]
    split
    · rename_i e n hf
      exact ⟨[k], by simp, by simp [each, hf]⟩
    · rename_i n hf
      obtain ⟨done, hprefix, hdone⟩ := ih n
      exact ⟨k :: done, by simpa using hprefix, by simp [hdone, each, hf]⟩

section tryEach

structure Settles (f : M → K → Except E Unit × M) (outcome : K → Except E V) (I : M → Prop)
    (Done : K → V → M → Prop) : Prop where
  ok : ∀ {m k v}, I m → outcome k = .ok v →
    ∃ n, f m k = (.ok (), n) ∧ I n ∧ Done k v n ∧ ∀ l w, Done l w m → Done l w n
  error : ∀ {m k e}, I m → outcome k = .error e →
    ∃ n, f m k = (.error e, n) ∧ I n ∧ ∀ l w, Done l w m → Done l w n

variable {caught : E → Bool} {f : M → K → Except E Unit × M} {outcome : K → Except E V} {I : M → Prop}
  {Done : K → V → M → Prop}

end tryEach

variable [DecidableEq K] {f : M → K → Except E Unit × M} {view : M → K → Option V}
  {update : K → V → Except E V} {I : M → Prop}

end Sweep
