import Mathlib.Algebra.Order.Ring.Rat
import Mathlib.Tactic.Linarith
import PyQgisServer.Library.Greedy
import PyQgisServer.Library.PySorted

namespace Workers

-- a worker with its own percentage of the memory and those of its descendants
structure Child where
  pid : ℕ
  percent : ℚ
  descendants : List ℚ

def Child.memUsage (p : Child) : ℚ := (p.percent + p.descendants.sum) / 100

def memoryFraction (childs : List Child) : ℚ := (childs.map Child.memUsage).sum

section checkOomStatus

variable (highWaterMark : ℚ)

def killLoop : List Child → ℚ → List Child
  | [], _ => []
  | p :: childs, fraction =>
    p :: if fraction - p.memUsage < highWaterMark then [] else killLoop childs (fraction - p.memUsage)

def checkOomStatus (childs : List Child) : List Child :=
  if memoryFraction childs > highWaterMark then
    killLoop highWaterMark (PySorted.descending Child.memUsage childs) (memoryFraction childs)
  else []

end checkOomStatus

theorem memoryFraction_nil : memoryFraction [] = 0 := rfl

theorem memoryFraction_cons (p : Child) (childs : List Child) :
    memoryFraction (p :: childs) = p.memUsage + memoryFraction childs := rfl

theorem memoryFraction_append (killed rest : List Child) :
    memoryFraction (killed ++ rest) = memoryFraction killed + memoryFraction rest := by
  rw [memoryFraction, List.map_append, List.sum_append]
  rfl

structure Kills (mark : ℚ) (childs killed : List Child) (fraction : ℚ) : Prop where
  front : killed <+: childs
  enough : killed ≠ childs → fraction - memoryFraction killed < mark
  needed : ∀ n < killed.length, n ≠ 0 → mark ≤ fraction - memoryFraction (childs.take n)

theorem killLoop_kills (mark : ℚ) (childs : List Child) (fraction : ℚ) :
    Kills mark childs (killLoop mark childs fraction) fraction := by
  induction childs generalizing fraction with
  | nil => exact ⟨List.nil_prefix, fun hne => absurd rfl hne, fun n hn => absurd hn (Nat.not_lt_zero n)⟩
  | cons p childs ih =>
    rw [killLoop]
    split
    · rename_i hlow
      refine ⟨⟨childs, rfl⟩, fun _ => ?_, fun n hn hpos => ?_⟩
      · rw [memoryFraction_cons, memoryFraction_nil, add_zero]
        exact hlow
      · exact absurd (Nat.lt_one_iff.mp hn) hpos
    · rename_i hhigh
      obtain ⟨hfront, henough, hneeded⟩ := ih (fraction - p.memUsage)
      refine ⟨List.cons_prefix_cons.mpr ⟨rfl, hfront⟩, fun hne => ?_, fun n hn hpos => ?_⟩
      · have hlow := henough fun heq => hne (congrArg (p :: ·) heq)
        rw [memoryFraction_cons]
        linarith
      · obtain ⟨m, rfl⟩ := Nat.exists_eq_succ_of_ne_zero hpos
        rw [List.take_succ_cons, memoryFraction_cons]
        by_cases hm : m = 0
        · subst hm
          rw [List.take_zero, memoryFraction_nil]
          linarith [not_lt.mp hhigh]
        · have hlow := hneeded m (Nat.lt_of_succ_lt_succ hn) hm
          linarith

theorem memoryFraction_perm {childs sorted : List Child} (h : sorted.Perm childs) :
    memoryFraction sorted = memoryFraction childs :=
  (h.map Child.memUsage).sum_eq

theorem memoryFraction_le_take {childs others : List Child} (h : others.Subperm childs) :
    memoryFraction others ≤ memoryFraction ((PySorted.descending Child.memUsage childs).take others.length) := by
  have hsorted : ((PySorted.descending Child.memUsage childs).map Child.memUsage).Pairwise (· ≥ ·) :=
    List.pairwise_map.mpr (PySorted.pairwise_descending Child.memUsage childs)
  obtain ⟨same, hperm, hsub⟩ := h.trans (PySorted.perm_descending Child.memUsage childs).symm.subperm
  have hle := Greedy.sum_le_take hsorted ⟨_, hperm.map Child.memUsage, hsub.map Child.memUsage⟩
  rwa [List.length_map, ← List.map_take] at hle

structure OomOutcome (mark : ℚ) (childs killed : List Child) : Prop where
  quiet : memoryFraction childs ≤ mark → killed = []
  heaviest : ∃ rest, killed ++ rest = PySorted.descending Child.memUsage childs ∧
    (mark < memoryFraction childs → memoryFraction rest < mark ∨ rest = [])
  fewest : ∀ others : List Child, others.Subperm childs → others.length < killed.length →
    mark ≤ memoryFraction childs - memoryFraction others

theorem checkOomStatus_outcome (highWaterMark : ℚ) (childs : List Child) :
    OomOutcome highWaterMark childs (checkOomStatus highWaterMark childs) := by
  rw [checkOomStatus]
  split
  · rename_i hover
    obtain ⟨⟨rest, hrest⟩, henough, hneeded⟩ :=
      killLoop_kills highWaterMark (PySorted.descending Child.memUsage childs) (memoryFraction childs)
    generalize killLoop highWaterMark (PySorted.descending Child.memUsage childs) (memoryFraction childs) = killed
      at hrest henough hneeded
    have htotal : memoryFraction killed + memoryFraction rest = memoryFraction childs := by
      rw [← memoryFraction_append, hrest, memoryFraction_perm (PySorted.perm_descending _ _)]
    refine ⟨fun hunder => absurd hover (not_lt.mpr hunder), ⟨rest, hrest, fun _ => ?_⟩, fun others hsub hlen => ?_⟩
    · by_cases hnil : rest = []
      · exact .inr hnil
      · have hne : killed ≠ PySorted.descending Child.memUsage childs := by
          rw [← hrest]
          exact fun heq => hnil (List.self_eq_append_right.mp heq)
        have hlow := henough hne
        exact .inl (by linarith)
    · by_cases hzero : others.length = 0
      · rw [List.length_eq_zero_iff.mp hzero, memoryFraction_nil]
        linarith
      · have hmark := hneeded others.length hlen hzero
        have hheavier := memoryFraction_le_take hsub
        linarith
  · rename_i hunder
    exact ⟨fun _ => rfl, ⟨_, rfl, fun hover => absurd hover hunder⟩, fun _ _ hlen => absurd hlen (Nat.not_lt_zero _)⟩

end Workers
