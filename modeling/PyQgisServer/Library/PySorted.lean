import Mathlib.Data.List.Sort

namespace PySorted

variable {A K : Type} [LinearOrder K] (key : A → K)

-- list.sort with a key and reverse=True, which keeps the order of equal keys
def descending (l : List A) : List A := l.insertionSort fun a b => key b ≤ key a

theorem perm_descending (l : List A) : (descending key l).Perm l := List.perm_insertionSort _ l

theorem pairwise_descending (l : List A) : (descending key l).Pairwise fun a b => key b ≤ key a := by
  have htotal : Std.Total fun a b : A => key b ≤ key a := ⟨fun a b => le_total (key b) (key a)⟩
  have htrans : IsTrans A fun a b => key b ≤ key a := ⟨fun _ _ _ hab hbc => le_trans hbc hab⟩
  exact List.pairwise_insertionSort _ l

theorem filter_orderedInsert (a : A) (l : List A) (k : K) :
    (l.orderedInsert (fun a b => key b ≤ key a) a).filter (fun b => key b = k) =
      (a :: l).filter fun b => key b = k := by
  induction l with
  | nil => rfl
  | cons b l ih =>
    rw [List.orderedInsert_cons]
    split
    · rfl
    · rename_i hlt
      rw [List.filter_cons, ih]
      by_cases hb : key b = k
      · have ha : key a ≠ k := by
          rintro rfl
          exact hlt hb.le
        simp [hb, ha]
      · simp [List.filter_cons, hb]

theorem filter_descending (l : List A) (k : K) :
    (descending key l).filter (fun b => key b = k) = l.filter fun b => key b = k := by
  induction l with
  | nil => rfl
  | cons a l ih =>
    rw [descending, List.insertionSort_cons, filter_orderedInsert, List.filter_cons, List.filter_cons]
    rw [descending] at ih
    rw [ih]

end PySorted
