import Mathlib.Algebra.Order.BigOperators.Group.List
import Mathlib.Algebra.Order.Ring.Nat
import Mathlib.Logic.Relation
import PyQgisServer.Library.PyDict

namespace Placement

structure Holds {K P : Type} [DecidableEq K] (tokens : List K) (board : PyDict K P) (place : P) : Prop where
  nodup : tokens.Nodup
  mem : ∀ k, k ∈ tokens ↔ board.get? k = some place

section holds

variable {K P : Type} [DecidableEq K] {tokens rest : List K} {board : PyDict K P} {place other : P} {k : K}

theorem Holds.enter (h : Holds tokens board place) (hk : board.get? k ≠ some place) (hp : rest.Perm (k :: tokens)) :
    Holds rest (board.set k place) place := by
  refine ⟨hp.nodup_iff.mpr (List.nodup_cons.mpr ⟨fun hmem => hk ((h.mem k).mp hmem), h.nodup⟩), fun l => ?_⟩
  rw [hp.mem_iff, List.mem_cons, PyDict.get?_set, h.mem]
  by_cases hl : l = k
  · simp [hl]
  · simp [hl]

theorem Holds.leave (h : Holds tokens board place) (hp : tokens.Perm (k :: rest)) (hne : other ≠ place) :
    Holds rest (board.set k other) place := by
  obtain ⟨hk, hnodup⟩ := List.nodup_cons.mp (hp.nodup_iff.mp h.nodup)
  refine ⟨hnodup, fun l => ?_⟩
  rw [PyDict.get?_set]
  by_cases hl : l = k
  · subst hl
    simp [hk, hne]
  · rw [if_neg hl, ← h.mem, hp.mem_iff, List.mem_cons, or_iff_right hl]

theorem Holds.stay (h : Holds tokens board place) (hk : board.get? k ≠ some place) (hne : other ≠ place) :
    Holds tokens (board.set k other) place := by
  refine ⟨h.nodup, fun l => ?_⟩
  rw [PyDict.get?_set, h.mem]
  by_cases hl : l = k
  · subst hl
    simp [hk, hne]
  · rw [if_neg hl]

end holds

section moves

variable {K P : Type} [DecidableEq K]

inductive Move (start : P) (next : P → P → Prop) (board : PyDict K P) : PyDict K P → Prop
  | enter {k : K} (h : board.get? k = none) : Move start next board (board.set k start)
  | next {k : K} {p q : P} (h : board.get? k = some p) (hn : next p q) : Move start next board (board.set k q)

abbrev Moves (start : P) (next : P → P → Prop) : PyDict K P → PyDict K P → Prop :=
  Relation.ReflTransGen (Move start next)

variable {start : P} {next : P → P → Prop} {board later : PyDict K P}

theorem Move.advances (h : Move start next board later) {k : K} {p : P} (hk : board.get? k = some p) :
    ∃ q, later.get? k = some q ∧ Relation.ReflTransGen next p q := by
  cases h with
  | @enter l hl =>
    refine ⟨p, ?_, .refl⟩
    rw [PyDict.get?_set, if_neg ?_, hk]
    rintro rfl
    rw [hl] at hk
    cases hk
  | @next l r q hl hn =>
    by_cases hkl : k = l
    · subst hkl
      obtain rfl := Option.some.inj (hk.symm.trans hl)
      exact ⟨q, by rw [PyDict.get?_set, if_pos rfl], .single hn⟩
    · exact ⟨p, by rw [PyDict.get?_set, if_neg hkl, hk], .refl⟩

theorem Moves.advances (h : Moves start next board later) {k : K} {p : P} (hk : board.get? k = some p) :
    ∃ q, later.get? k = some q ∧ Relation.ReflTransGen next p q := by
  induction h with
  | refl => exact ⟨p, hk, .refl⟩
  | tail _ hmove ih =>
    obtain ⟨q, hq, hpq⟩ := ih
    obtain ⟨r, hr, hqr⟩ := hmove.advances hq
    exact ⟨r, hr, hpq.trans hqr⟩

theorem Moves.unvisited (h : Moves start next board later) {p : P} (hstart : start ≠ p) (hnext : ∀ q, ¬ next q p)
    (hboard : ∀ k, board.get? k ≠ some p) (k : K) : later.get? k ≠ some p := by
  induction h with
  | refl => exact hboard k
  | tail _ hmove ih =>
    cases hmove with
    | enter hl =>
      rw [PyDict.get?_set]
      split
      · simpa using hstart
      · exact ih
    | next hl hn =>
      rw [PyDict.get?_set]
      split
      · rintro ⟨⟩
        exact hnext _ hn
      · exact ih

section rank

variable {rank : P → ℕ} {tokens : List K}

def total (rank : P → ℕ) (board : PyDict K P) (tokens : List K) : ℕ :=
  (tokens.map fun k => (board.get? k).elim 0 rank).sum

theorem rank_lt (hrank : ∀ p q, next p q → rank q < rank p) {p q : P} (h : Relation.ReflTransGen next p q) :
    p = q ∨ rank q < rank p := by
  induction h with
  | refl => exact .inl rfl
  | tail _ hn ih =>
    have hlast := hrank _ _ hn
    rcases ih with rfl | hlt
    · exact .inr hlast
    · exact .inr (hlast.trans hlt)

theorem Moves.total_lt (h : Moves start next board later) (hrank : ∀ p q, next p q → rank q < rank p)
    (htokens : ∀ k ∈ tokens, board.get? k ≠ none) {k : K} (hk : k ∈ tokens) (hne : later.get? k ≠ board.get? k) :
    total rank later tokens < total rank board tokens := by
  refine List.sum_lt_sum _ _ (fun l hl => ?_) ⟨k, hk, ?_⟩
  · obtain ⟨p, hp⟩ := Option.ne_none_iff_exists'.mp (htokens l hl)
    obtain ⟨q, hq, hpq⟩ := h.advances hp
    rw [hp, hq]
    rcases rank_lt hrank hpq with rfl | hlt
    · exact le_rfl
    · exact hlt.le
  · obtain ⟨p, hp⟩ := Option.ne_none_iff_exists'.mp (htokens k hk)
    obtain ⟨q, hq, hpq⟩ := h.advances hp
    rw [hp, hq] at hne ⊢
    exact (rank_lt hrank hpq).resolve_left fun heq => hne (by rw [heq])

end rank

end moves

end Placement
