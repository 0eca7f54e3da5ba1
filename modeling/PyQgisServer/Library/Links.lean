import Mathlib.Data.List.Basic

abbrev Links (P M : Type) := List (P × M)

namespace Links

variable {P M N : Type} [DecidableEq P]

def queue (p : P) (l : Links P M) : List M := (l.filter (·.1 = p)).map (·.2)

@[simp] theorem queue_nil (p : P) : queue p ([] : Links P M) = [] := rfl

@[simp] theorem queue_append (p : P) (l k : Links P M) : queue p (l ++ k) = queue p l ++ queue p k := by
  simp [queue]

@[simp] theorem queue_cons_self (p : P) (m : M) (l : Links P M) : queue p ((p, m) :: l) = m :: queue p l := by
  simp [queue]

theorem queue_cons_ne {p q : P} (h : q ≠ p) (m : M) (l : Links P M) : queue p ((q, m) :: l) = queue p l := by
  simp [queue, h]

theorem mem_queue {p : P} {m : M} {l : Links P M} : m ∈ queue p l ↔ (p, m) ∈ l := by
  simp [queue]

-- the oldest message of one peer: each peer's messages are a queue, peers are not ordered
def recv (p : P) : Links P M → Option (M × Links P M)
  | [] => none
  | (q, m) :: l => if q = p then some (m, l) else (recv p l).map fun r => (r.1, (q, m) :: r.2)

theorem recv_of_queue {p : P} {l : Links P M} {m : M} {ms : List M} (h : queue p l = m :: ms) :
    ∃ k, recv p l = some (m, k) ∧ queue p k = ms := by
  induction l with
  | nil => cases h
  | cons x l ih =>
    obtain ⟨q, n⟩ := x
    by_cases hq : q = p
    · subst hq
      rw [queue_cons_self] at h
      obtain ⟨rfl, rfl⟩ := List.cons.inj h
      exact ⟨l, by rw [recv, if_pos rfl], rfl⟩
    · rw [queue_cons_ne hq] at h
      obtain ⟨k, hk, hms⟩ := ih h
      exact ⟨(q, n) :: k, by rw [recv, if_neg hq, hk]; rfl, by rw [queue_cons_ne hq, hms]⟩

theorem recv_cases {p : P} {l k : Links P M} {m : M} (h : recv p l = some (m, k)) :
    ∃ l₁ l₂, l = l₁ ++ (p, m) :: l₂ ∧ k = l₁ ++ l₂ ∧ queue p l₁ = [] := by
  induction l generalizing k with
  | nil => simp [recv] at h
  | cons x l ih =>
    obtain ⟨q, n⟩ := x
    rw [recv] at h
    split at h
    · rename_i hq
      simp only [Option.some.injEq, Prod.mk.injEq] at h
      obtain ⟨rfl, rfl⟩ := h
      exact ⟨[], l, by simp [hq], rfl, rfl⟩
    · rename_i hq
      simp only [Option.map_eq_some_iff, Prod.mk.injEq] at h
      obtain ⟨⟨m', k'⟩, hr, rfl, rfl⟩ := h
      obtain ⟨l₁, l₂, rfl, hk, ht⟩ := ih hr
      exact ⟨(q, n) :: l₁, l₂, rfl, by simp [hk], by rw [queue_cons_ne hq, ht]⟩

theorem queue_recv_self {p : P} {l k : Links P M} {m : M} (h : recv p l = some (m, k)) :
    queue p l = m :: queue p k := by
  obtain ⟨l₁, l₂, rfl, rfl, ht⟩ := recv_cases h
  simp [ht]

theorem queue_recv_ne {p q : P} {l k : Links P M} {m : M} (h : recv p l = some (m, k)) (hq : q ≠ p) :
    queue q l = queue q k := by
  obtain ⟨l₁, l₂, rfl, rfl, ht⟩ := recv_cases h
  simp [queue_cons_ne hq.symm]

theorem recv_perm {p : P} {l k : Links P M} {m : M} (h : recv p l = some (m, k)) :
    l.Perm ((p, m) :: k) := by
  obtain ⟨l₁, l₂, rfl, rfl, ht⟩ := recv_cases h
  exact List.perm_middle

theorem recv_sublist {p : P} {l k : Links P M} {m : M} (h : recv p l = some (m, k)) :
    k.Sublist l := by
  obtain ⟨l₁, l₂, rfl, rfl, ht⟩ := recv_cases h
  exact (List.Sublist.refl l₁).append (List.sublist_cons_self _ _)

theorem recv_mem {p : P} {l k : Links P M} {m : M} (h : recv p l = some (m, k)) : (p, m) ∈ l :=
  (recv_perm h).mem_iff.mpr (by simp)

theorem filterMap_recv {f : P × M → Option N} {p : P} {l k : Links P M} {m : M} {n : N}
    (h : recv p l = some (m, k)) (hf : ∀ x ∈ l, (f x).isSome → x.1 = p) (hm : f (p, m) = some n) :
    l.filterMap f = n :: k.filterMap f := by
  obtain ⟨l₁, l₂, rfl, rfl, ht⟩ := recv_cases h
  have hnone : l₁.filterMap f = [] := by
    simp only [List.filterMap_eq_nil_iff]
    intro x hx
    by_contra hne
    have hp := hf x (by simp [hx]) (Option.isSome_iff_ne_none.mpr hne)
    have : x.2 ∈ queue p l₁ := mem_queue.mpr (hp ▸ hx)
    simp [ht] at this
  simp [hnone, hm]

theorem filterMap_recv_none {f : P × M → Option N} {p : P} {l k : Links P M} {m : M}
    (h : recv p l = some (m, k)) (hm : f (p, m) = none) : l.filterMap f = k.filterMap f := by
  obtain ⟨l₁, l₂, rfl, rfl, -⟩ := recv_cases h
  simp [hm]

end Links
