import Mathlib.Data.List.Infix
import Mathlib.Data.List.Pairwise
import Mathlib.Order.Lattice

namespace Rises

variable {T : Type} [LinearOrder T]

-- what a filter lets through that compares a value with the one before it
def rises : Option T → List T → List T
  | _, [] => []
  | none, x :: xs => x :: rises (some x) xs
  | some y, x :: xs => if y < x then x :: rises (some x) xs else rises (some x) xs

def OnlyRecords (xs : List T) : Prop :=
  ∀ pre x, pre ++ [x] <+: xs → (∀ y ∈ pre.getLast?, y < x) → ∀ z ∈ pre, z < x

theorem rises_some_concat (xs : List T) (x y : T) :
    rises (some y) (xs ++ [x]) = rises (some y) xs ++ if xs.getLast?.getD y < x then [x] else [] := by
  induction xs generalizing y with
  | nil =>
    by_cases h : y < x
    · simp [rises, h]
    · simp [rises, h]
  | cons z zs ih =>
    have hlast : (z :: zs).getLast?.getD y = zs.getLast?.getD z := by
      rw [List.getLast?_cons]
      rfl
    rw [hlast, List.cons_append, rises, rises, ih z]
    split
    · rfl
    · rfl

theorem rises_concat (xs : List T) (x : T) :
    rises none (xs ++ [x]) = rises none xs ++ if ∀ y ∈ xs.getLast?, y < x then [x] else [] := by
  cases xs with
  | nil => simp [rises]
  | cons z zs =>
    rw [List.cons_append, rises, rises, rises_some_concat, List.getLast?_cons]
    simp

theorem mem_of_mem_rises {xs : List T} {last : Option T} {x : T} (h : x ∈ rises last xs) : x ∈ xs := by
  induction xs generalizing last with
  | nil => cases last <;> exact h
  | cons z zs ih =>
    cases last with
    | none =>
      rcases List.mem_cons.mp h with rfl | h
      · exact List.mem_cons_self
      · exact List.mem_cons_of_mem _ (ih h)
    | some y =>
      rw [rises] at h
      split at h
      · rcases List.mem_cons.mp h with rfl | h
        · exact List.mem_cons_self
        · exact List.mem_cons_of_mem _ (ih h)
      · exact List.mem_cons_of_mem _ (ih h)

theorem exists_le_of_mem {xs : List T} {z : T} (hz : z ∈ xs) : ∃ w ∈ rises none xs, z ≤ w := by
  induction xs using List.reverseRecOn generalizing z with
  | nil => cases hz
  | append_singleton xs x ih =>
    rw [rises_concat]
    rcases List.mem_append.mp hz with hz | hz
    · obtain ⟨w, hw, hzw⟩ := ih hz
      exact ⟨w, List.mem_append_left _ hw, hzw⟩
    · obtain rfl := List.mem_singleton.mp hz
      by_cases h : ∀ y ∈ xs.getLast?, y < z
      · rw [if_pos h]
        exact ⟨z, List.mem_append_right _ List.mem_cons_self, le_refl z⟩
      · obtain ⟨y, hy, hzy⟩ : ∃ y ∈ xs.getLast?, z ≤ y := by simpa using h
        obtain ⟨w, hw, hyw⟩ := ih (List.mem_of_getLast? hy)
        exact ⟨w, List.mem_append_left _ hw, hzy.trans hyw⟩

theorem onlyRecords_concat (xs : List T) (x : T) :
    OnlyRecords (xs ++ [x]) ↔ OnlyRecords xs ∧ ((∀ y ∈ xs.getLast?, y < x) → ∀ z ∈ xs, z < x) := by
  constructor
  · intro h
    refine ⟨fun pre y hpre => h pre y (hpre.trans (List.prefix_append _ _)), h xs x List.prefix_rfl⟩
  · rintro ⟨h, hx⟩ pre y hpre
    rcases List.prefix_concat_iff.mp hpre with heq | hpre
    · obtain ⟨rfl, hy⟩ := List.append_inj' heq rfl
      obtain rfl : y = x := by simpa using hy
      exact hx
    · exact h pre y hpre

theorem lt_of_rises_iff {xs : List T} {x : T} : (∀ w ∈ rises none xs, w < x) ↔ ∀ z ∈ xs, z < x := by
  constructor
  · intro h z hz
    obtain ⟨w, hw, hzw⟩ := exists_le_of_mem hz
    exact lt_of_le_of_lt hzw (h w hw)
  · intro h w hw
    exact h w (mem_of_mem_rises hw)

theorem pairwise_rises_iff (xs : List T) : (rises none xs).Pairwise (· < ·) ↔ OnlyRecords xs := by
  induction xs using List.reverseRecOn with
  | nil =>
    refine ⟨fun _ pre x hpre => ?_, fun _ => .nil⟩
    obtain ⟨t, ht⟩ := hpre
    simp at ht
  | append_singleton xs x ih =>
    rw [rises_concat, onlyRecords_concat, ← ih]
    split
    case isTrue h =>
      rw [List.pairwise_append]
      simp only [List.pairwise_singleton, true_and, List.mem_singleton, forall_eq]
      rw [lt_of_rises_iff]
      exact ⟨fun ⟨h1, h2⟩ => ⟨h1, fun _ => h2⟩, fun ⟨h1, h2⟩ => ⟨h1, h2 h⟩⟩
    case isFalse h =>
      rw [List.append_nil]
      exact ⟨fun h1 => ⟨h1, fun h2 => absurd h2 h⟩, fun h1 => h1.1⟩

end Rises
