import Mathlib.Algebra.Order.BigOperators.Group.List

namespace Greedy

variable {M : Type} [AddCommMonoid M] [PartialOrder M] [IsOrderedAddMonoid M]

theorem sum_take_le_cons {a : M} {l : List M} (h : (a :: l).Pairwise (· ≥ ·)) {n : ℕ} (hn : n ≤ l.length) :
    (l.take n).sum ≤ ((a :: l).take n).sum := by
  induction n generalizing a l with
  | zero => exact le_rfl
  | succ n ih =>
    cases l with
    | nil => exact absurd hn (Nat.not_succ_le_zero n)
    | cons b l =>
      obtain ⟨hab, hbl⟩ := List.pairwise_cons.mp h
      rw [List.take_succ_cons, List.take_succ_cons, List.sum_cons, List.sum_cons]
      exact add_le_add (hab b List.mem_cons_self) (ih hbl (Nat.le_of_succ_le_succ hn))

theorem sum_le_take_of_sublist {l s : List M} (h : l.Pairwise (· ≥ ·)) (hs : s.Sublist l) :
    s.sum ≤ (l.take s.length).sum := by
  induction hs with
  | slnil => exact le_rfl
  | @cons s l a hs ih => exact (ih (List.pairwise_cons.mp h).2).trans (sum_take_le_cons h hs.length_le)
  | @cons_cons s l a hs ih =>
    rw [List.length_cons, List.take_succ_cons, List.sum_cons, List.sum_cons]
    exact add_le_add le_rfl (ih (List.pairwise_cons.mp h).2)

theorem sum_le_take {l s : List M} (h : l.Pairwise (· ≥ ·)) (hs : s.Subperm l) : s.sum ≤ (l.take s.length).sum := by
  obtain ⟨t, ht, hsub⟩ := hs
  rw [← ht.sum_eq, ← ht.length_eq]
  exact sum_le_take_of_sublist h hsub

end Greedy
