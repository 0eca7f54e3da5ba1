import Mathlib.Data.List.InsertIdx
import PyQgisServer.Workers.PoolProcess

namespace Workers

open Transition

namespace PoolProcess

inductive Walked (a : Pool) : ℕ → Pool → Bool → Prop
  | begin : Walked a a.pool.length a false
  | stay {i worker : ℕ} {u : Pool} {cleaned : Bool} (h : Walked a (i + 1) u cleaned) (hi : u.pool[i]? = some worker)
      (hrun : u.exitcode worker = none) : Walked a i u cleaned
  | reap {i worker : ℕ} {code : ℤ} {u : Pool} {cleaned : Bool} (time : ℚ) (h : Walked a (i + 1) u cleaned)
      (hi : u.pool[i]? = some worker) (hexit : u.exitcode worker = some code) :
      Walked a i (u.joinWorker time i worker code) true

variable {a u : Pool} {i : ℕ} {cleaned : Bool}

theorem Walked.sublist (h : Walked a i u cleaned) : u.pool.Sublist a.pool := by
  induction h with
  | begin => exact .refl _
  | stay _ _ _ ih => exact ih
  | reap _ _ _ _ ih => exact (List.eraseIdx_sublist _ _).trans ih

theorem Walked.same (h : Walked a i u cleaned) : Pool.Same a u := by
  induction h with
  | begin => exact ⟨rfl, rfl, rfl⟩
  | stay _ _ _ ih => exact ih
  | reap _ _ _ _ ih => exact ih.trans ⟨rfl, rfl, rfl⟩

theorem Walked.joinBelow (h : Walked a i u cleaned) : ∃ clock : ℕ → ℚ, ∀ clock' : ℕ → ℚ,
    (∀ j, i ≤ j → clock' j = clock j) →
      Pool.joinBelow clock' a.pool.length a = (Pool.joinBelow clock' i u).map fun r => (r.1, cleaned || r.2) := by
  induction h with
  | begin => exact ⟨fun _ => 0, fun clock' _ => by simp⟩
  | @stay i worker u cleaned _ hi hrun ih =>
    obtain ⟨clock, hclock⟩ := ih
    refine ⟨clock, fun clock' hagree => ?_⟩
    rw [hclock clock' fun j hj => hagree j (Nat.le_of_succ_le hj)]
    simp [Pool.joinBelow, Pool.joinAt, hi, hrun]
  | @reap i worker code u cleaned time _ hi hexit ih =>
    obtain ⟨clock, hclock⟩ := ih
    refine ⟨Function.update clock i time, fun clock' hagree => ?_⟩
    have htime : clock' i = time := by rw [hagree i le_rfl, Function.update_self]
    have hagree' : ∀ j, i + 1 ≤ j → clock' j = clock j := fun j hj => by
      rw [hagree j (Nat.le_of_succ_le hj), Function.update_of_ne (by omega)]
    rw [hclock clock' hagree']
    simp [Pool.joinBelow, Pool.joinAt, hi, hexit, htime, Function.comp_def]

theorem Walked.joinExitedWorkers (h : Walked a 0 u cleaned) :
    ∃ clock : ℕ → ℚ, a.joinExitedWorkers clock = some (u, cleaned) := by
  obtain ⟨clock, hclock⟩ := h.joinBelow
  refine ⟨clock, ?_⟩
  rw [Pool.joinExitedWorkers, hclock clock fun _ _ => rfl]
  simp [Pool.joinBelow]

theorem ne_of_mem_take {l : List ℕ} (hl : l.Nodup) {i worker w : ℕ} (hi : l[i]? = some worker) (hw : w ∈ l.take i) :
    w ≠ worker := by
  rintro rfl
  have hmem : w ∈ l.drop i := List.mem_of_getElem? (i := 0) (by simpa using hi)
  exact List.disjoint_take_drop hl le_rfl hw hmem

theorem Walked.exitWorker (h : Walked a i u cleaned) (ha : a.pool.Nodup) {w : ℕ} (code : ℤ) (hw : w ∈ u.pool.take i) :
    Walked (a.exitWorker w code) i (u.exitWorker w code) cleaned := by
  induction h with
  | begin => exact .begin
  | @stay i worker u cleaned h hi hrun ih =>
    have hne : worker ≠ w := (ne_of_mem_take (h.sublist.nodup ha) hi hw).symm
    refine .stay (ih (List.take_subset_take_left _ (Nat.le_succ i) hw)) hi ?_
    exact (Function.update_of_ne hne _ _).trans hrun
  | @reap i worker code' u cleaned time h hi hexit ih =>
    have htake : w ∈ u.pool.take i := by
      simpa [Pool.joinWorker, List.take_eraseIdx_eq_take_of_le] using hw
    have hne : worker ≠ w := (ne_of_mem_take (h.sublist.nodup ha) hi htake).symm
    refine .reap time (ih (List.take_subset_take_left _ (Nat.le_succ i) htake)) hi ?_
    exact (Function.update_of_ne hne _ _).trans hexit

def Late (l : List ℕ) (u p : Pool) : Prop :=
  p = { u with exitcode := p.exitcode } ∧ ∀ w, p.exitcode w ≠ u.exitcode w → u.exitcode w = none ∧ w ∈ l

theorem Late.pool {l : List ℕ} {u p : Pool} (h : Late l u p) : p.pool = u.pool := by
  rw [h.1]

theorem Late.created {l : List ℕ} {u p : Pool} (h : Late l u p) : p.created = u.created := by
  rw [h.1]

theorem Late.none {l : List ℕ} {u p : Pool} (h : Late l u p) {w : ℕ} (hrun : p.exitcode w = none) :
    u.exitcode w = none := by
  by_cases heq : p.exitcode w = u.exitcode w
  · exact heq ▸ hrun
  · exact (h.2 w heq).1

theorem Late.eq {l : List ℕ} {u p : Pool} (h : Late l u p) {w : ℕ} (hw : w ∉ l) : p.exitcode w = u.exitcode w := by
  by_contra hne
  exact hw (h.2 w hne).2

theorem late_refl (l : List ℕ) (u : Pool) : Late l u u := ⟨rfl, fun _ hne => absurd rfl hne⟩

theorem Late.subset {l l' : List ℕ} {u p : Pool} (h : Late l u p) (hl : l ⊆ l') : Late l' u p :=
  ⟨h.1, fun w hne => ⟨(h.2 w hne).1, hl (h.2 w hne).2⟩⟩

theorem exitcode_exitWorker {p : Pool} {worker : ℕ} {code : ℤ} (w : ℕ) :
    (p.exitWorker worker code).exitcode w = if w = worker then some code else p.exitcode w :=
  Function.update_apply ..

theorem Late.late_exit {l : List ℕ} {u p : Pool} (h : Late l u p) {worker : ℕ} (code : ℤ)
    (hrun : p.exitcode worker = .none) (hw : worker ∈ l) : Late l u (p.exitWorker worker code) := by
  refine ⟨?_, fun w hne => ?_⟩
  · rw [h.1]
    rfl
  · rw [exitcode_exitWorker] at hne
    split at hne
    · rename_i heq
      exact heq ▸ ⟨h.none hrun, hw⟩
    · exact h.2 w hne

theorem Late.early_exit {l : List ℕ} {u p : Pool} (h : Late l u p) {worker : ℕ} (code : ℤ) :
    Late l (u.exitWorker worker code) (p.exitWorker worker code) := by
  refine ⟨?_, fun w hne => ?_⟩
  · rw [h.1]
    rfl
  · rw [exitcode_exitWorker, exitcode_exitWorker] at hne
    rw [exitcode_exitWorker]
    split at hne
    · exact absurd rfl hne
    · rename_i hw
      rw [if_neg hw]
      exact h.2 w hne

section exits

variable {n : ℕ} {startTime : ℚ}

theorem reachable_exitWorker {p : Pool} (h : Pool.Reachable n startTime p) {worker : ℕ} (code : ℤ)
    (hlt : worker < p.created) (hrun : p.exitcode worker = none) :
    Pool.Reachable n startTime (p.exitWorker worker code) :=
  h.next (.exited worker code) trivial (by rw [Pool.step, if_pos ⟨hlt, hrun⟩])

theorem reachable_nodup {p : Pool} (h : Pool.Reachable n startTime p) : p.pool.Nodup :=
  List.nodup_iff_count_le_one.mpr fun w => by
    have honce := (Pool.reachable_kept h).once w
    split at honce <;> omega

theorem reachable_created {p : Pool} (h : Pool.Reachable n startTime p) {w : ℕ} (hw : w ∈ p.pool) : w < p.created := by
  have honce := (Pool.reachable_kept h).once w
  have hcount := List.count_pos_iff.mpr hw
  by_contra hge
  rw [if_neg hge] at honce
  omega

theorem reachable_exits {l : List ℕ} {f : ℕ → Option ℤ} {u : Pool} (h : Pool.Reachable n startTime u)
    (hf : ∀ w, f w ≠ u.exitcode w → u.exitcode w = none ∧ w ∈ l ∧ w < u.created) :
    Pool.Reachable n startTime { u with exitcode := f } := by
  induction l generalizing u with
  | nil =>
    have heq : f = u.exitcode := funext fun w => by
      by_contra hne
      exact absurd (hf w hne).2.1 List.not_mem_nil
    rw [heq]
    exact h
  | cons worker l ih =>
    by_cases heq : f worker = u.exitcode worker
    · refine ih h fun w hne => ?_
      obtain ⟨hrun, hw, hlt⟩ := hf w hne
      rcases List.mem_cons.mp hw with rfl | hw
      · exact absurd heq hne
      · exact ⟨hrun, hw, hlt⟩
    · obtain ⟨hrun, -, hlt⟩ := hf worker heq
      obtain ⟨code, hcode⟩ := Option.ne_none_iff_exists'.mp (hrun ▸ heq)
      refine ih (u := u.exitWorker worker code) (reachable_exitWorker h code hlt hrun) fun w hne => ?_
      rw [exitcode_exitWorker] at hne ⊢
      split at hne
      · rename_i hw
        exact absurd (hw ▸ hcode) hne
      · rename_i hw
        obtain ⟨hrun', hmem, hlt'⟩ := hf w hne
        rw [if_neg hw]
        exact ⟨hrun', (List.mem_cons.mp hmem).resolve_left hw, hlt'⟩

end exits

def Linearized (n : ℕ) (startTime : ℚ) (p : Pool) : Point → Prop
  | .test | .sleep => Pool.Reachable n startTime p
  | .walk i cleaned => ∃ a u, Pool.Reachable n startTime a ∧ Walked a i u cleaned ∧ Late (u.pool.drop i) u p
  | .reap i worker => ∃ a u cleaned time code, Pool.Reachable n startTime a ∧ Walked a (i + 1) u cleaned ∧
      u.pool[i]? = some worker ∧ u.exitcode worker = some code ∧ Late (u.pool.drop (i + 1)) (u.noteFailure time code) p
  | .populate k => Pool.Reachable n startTime (Pool.startWorker^[k] p)
  | .start k => Pool.Reachable n startTime (Pool.startWorker^[k] p.startAppended)
  | .terminate _ _ | .join _ _ | .ended _ => True

section steps

variable {n : ℕ} {startTime : ℚ} {handled : Bool} {p : Pool} {s t : PoolProcess}

theorem startWorkers_exitWorker (k : ℕ) (p : Pool) (worker : ℕ) (code : ℤ) :
    Pool.startWorker^[k] (p.exitWorker worker code) = (Pool.startWorker^[k] p).exitWorker worker code := by
  rw [Pool.startWorkers, Pool.startWorkers]
  rfl

theorem startWorkers_exits (k : ℕ) (p : Pool) (f : ℕ → Option ℤ) :
    Pool.startWorker^[k] { p with exitcode := f } = { Pool.startWorker^[k] p with exitcode := f } := by
  rw [Pool.startWorkers, Pool.startWorkers]

theorem startWorkers_reachable_exit {k : ℕ} (h : Pool.Reachable n startTime (Pool.startWorker^[k] p)) {worker : ℕ}
    (code : ℤ) (hlt : worker < p.created) (hrun : p.exitcode worker = none) :
    Pool.Reachable n startTime (Pool.startWorker^[k] (p.exitWorker worker code)) := by
  rw [startWorkers_exitWorker]
  refine reachable_exitWorker h code ?_ ?_
  · rw [Pool.startWorkers]
    exact Nat.lt_add_right k hlt
  · rw [Pool.startWorkers]
    exact hrun

theorem exited_linearized {point : Point} (hsorted : Sorted n p) (h : Linearized n startTime p point) {worker : ℕ}
    (code : ℤ) (hlt : worker < p.created) (hrun : p.exitcode worker = none) :
    Linearized n startTime (p.exitWorker worker code) point := by
  have hmem := hsorted.running worker hlt hrun
  cases point with
  | test | sleep => exact reachable_exitWorker h code hlt hrun
  | walk i cleaned =>
    obtain ⟨a, u, ha, hwalked, hlate⟩ := h
    have hpool : p.pool = u.pool := hlate.pool
    rw [hpool, ← List.take_append_drop i u.pool] at hmem
    rcases List.mem_append.mp hmem with htake | hdrop
    · have hsame := hwalked.same
      have hcreated : p.created = a.created := hlate.created.trans hsame.created
      have hrun' : a.exitcode worker = none := hsame.exitcode ▸ hlate.none hrun
      exact ⟨_, _, reachable_exitWorker ha code (hcreated ▸ hlt) hrun',
        hwalked.exitWorker (reachable_nodup ha) code htake, hlate.early_exit code⟩
    · exact ⟨a, u, ha, hwalked, hlate.late_exit code hrun hdrop⟩
  | reap i joined =>
    obtain ⟨a, u, cleaned, time, code', ha, hwalked, hi, hexit, hlate⟩ := h
    have hpool : p.pool = u.pool := hlate.pool
    rw [hpool, ← List.take_append_drop (i + 1) u.pool] at hmem
    rcases List.mem_append.mp hmem with htake | hdrop
    · have hsame := hwalked.same
      have hcreated : p.created = a.created := hlate.created.trans hsame.created
      have hrun' : u.exitcode worker = none := hlate.none hrun
      have hne : joined ≠ worker := by
        rintro rfl
        rw [hrun'] at hexit
        cases hexit
      exact ⟨_, _, _, time, code', reachable_exitWorker ha code (hcreated ▸ hlt) (hsame.exitcode ▸ hrun'),
        hwalked.exitWorker (reachable_nodup ha) code htake, hi, (Function.update_of_ne hne _ _).trans hexit,
        hlate.early_exit code⟩
    · exact ⟨a, u, cleaned, time, code', ha, hwalked, hi, hexit, hlate.late_exit code hrun hdrop⟩
  | populate k => exact startWorkers_reachable_exit h code hlt hrun
  | start k => exact startWorkers_reachable_exit h code (Nat.lt_succ_of_lt hlt) hrun
  | terminate | join | ended => trivial

theorem walk_reachable {a u : Pool} {cleaned : Bool} (ha : Pool.Reachable n startTime a) (h : Walked a 0 u cleaned) :
    Pool.Reachable n startTime (if cleaned then u.repopulatePool else u) := by
  obtain ⟨clock, hclock⟩ := h.joinExitedWorkers
  refine ha.next (.maintain clock) trivial ?_
  rw [Pool.step, Pool.maintainPool, hclock, Option.map_some]

theorem late_created {a u : Pool} {i : ℕ} {cleaned : Bool} (ha : Pool.Reachable n startTime a)
    (h : Walked a i u cleaned) {l : List ℕ} (hl : l ⊆ u.pool) (hlate : Late l u p) :
    ∀ w, p.exitcode w ≠ u.exitcode w → u.exitcode w = none ∧ w ∈ l ∧ w < u.created := by
  intro w hne
  obtain ⟨hrun, hw⟩ := hlate.2 w hne
  refine ⟨hrun, hw, ?_⟩
  rw [h.same.created]
  exact reachable_created ha (h.sublist.subset (hl hw))

theorem walked_linearized {cleaned : Bool} (h : Linearized n startTime p (.walk 0 cleaned)) :
    Pool.Reachable n startTime
      (if cleaned then Pool.startWorker^[p.numWorkers - p.pool.length] p else p) := by
  obtain ⟨a, u, ha, hwalked, hlate⟩ := h
  rw [List.drop_zero] at hlate
  have hreach := walk_reachable ha hwalked
  have hlater := late_created ha hwalked (List.Subset.refl _) hlate
  rw [hlate.1]
  cases cleaned with
  | false => exact reachable_exits hreach hlater
  | true =>
    simp only [if_true] at hreach ⊢
    rw [startWorkers_exits]
    refine reachable_exits (l := u.pool) hreach fun w hne => ?_
    rw [Pool.startWorkers] at hne ⊢
    obtain ⟨hrun, hw, hlt⟩ := hlater w hne
    exact ⟨hrun, hw, Nat.lt_add_right _ hlt⟩

theorem late_at {a u : Pool} {i : ℕ} {cleaned : Bool} (ha : Pool.Reachable n startTime a)
    (h : Walked a (i + 1) u cleaned) (hlate : Late (u.pool.drop (i + 1)) u p) {worker : ℕ}
    (hi : u.pool[i]? = some worker) : p.exitcode worker = u.exitcode worker := by
  have hmem : worker ∈ u.pool.take (i + 1) := List.mem_of_getElem? (i := i) (by simpa using hi)
  exact hlate.eq fun hdrop => List.disjoint_take_drop (h.sublist.nodup (reachable_nodup ha)) le_rfl hmem hdrop

theorem late_noteFailure {l : List ℕ} {u : Pool} (h : Late l u p) (time : ℚ) (code : ℤ) :
    Late l (u.noteFailure time code) (p.noteFailure time code) := by
  refine ⟨?_, h.2⟩
  rw [h.1]
  rfl

theorem late_deleteAt {i worker : ℕ} {u : Pool} (hi : u.pool[i]? = some worker) (h : Late (u.pool.drop (i + 1)) u p) :
    Late ((u.deleteAt i worker).pool.drop i) (u.deleteAt i worker) (p.deleteAt i worker) := by
  have hlt : i < u.pool.length := (List.getElem?_eq_some_iff.mp hi).1
  have hdrop : (u.deleteAt i worker).pool.drop i = u.pool.drop (i + 1) := by
    rw [Pool.deleteAt, List.eraseIdx_eq_take_drop_succ]
    exact List.drop_left' (List.length_take_of_le hlt.le)
  refine ⟨?_, fun w hne => ?_⟩
  · rw [h.1]
    rfl
  · rw [hdrop]
    exact h.2 w hne

theorem walk_linearized {time : ℚ} {i : ℕ} {cleaned : Bool} (hpoint : s.point = .walk i cleaned)
    (h : Linearized n startTime s.pool (.walk i cleaned)) (ht : s.advance handled time = some t) :
    Linearized n startTime t.pool t.point := by
  cases i with
  | zero =>
    have hreach := walked_linearized h
    cases cleaned with
    | true =>
      simp only [advance, hpoint, Option.some.injEq] at ht
      exact ht ▸ hreach
    | false =>
      simp only [advance, hpoint, Option.some.injEq] at ht
      exact ht ▸ hreach
  | succ i =>
    obtain ⟨a, u, ha, hwalked, hlate⟩ := h
    have hpool := hlate.pool
    cases hi : s.pool.pool[i]? with
    | none =>
      simp only [advance, hpoint, hi, Option.some.injEq] at ht
      exact ht ▸ trivial
    | some worker =>
      have hi' : u.pool[i]? = some worker := hpool ▸ hi
      have hexit := late_at ha hwalked hlate hi'
      cases hcode : s.pool.exitcode worker with
      | none =>
        simp only [advance, hpoint, hi, hcode, Option.some.injEq] at ht
        exact ht ▸ ⟨a, u, ha, .stay hwalked hi' (hexit ▸ hcode),
          hlate.subset (List.drop_subset_drop_left _ (Nat.le_succ i))⟩
      | some code =>
        simp only [advance, hpoint, hi, hcode, Option.some.injEq, reapPoint] at ht
        split at ht
        · exact ht ▸ trivial
        · exact ht ▸ ⟨a, u, cleaned, time, code, ha, hwalked, hi', hexit ▸ hcode, late_noteFailure hlate time code⟩

theorem advance_linearized {time : ℚ} (h : Linearized n startTime s.pool s.point)
    (ht : s.advance handled time = some t) : Linearized n startTime t.pool t.point := by
  cases hpoint : s.point with
  | test =>
    simp only [advance, hpoint, Option.some.injEq] at ht h
    subst ht
    split
    · trivial
    · exact ⟨s.pool, s.pool, h, .begin, late_refl _ _⟩
  | walk i cleaned => exact walk_linearized hpoint (hpoint ▸ h) ht
  | reap i worker =>
    simp only [advance, hpoint, Option.some.injEq] at ht
    rw [hpoint] at h
    obtain ⟨a, u, cleaned, time, code, ha, hwalked, hi, hexit, hlate⟩ := h
    exact ht ▸ ⟨a, _, ha, .reap time hwalked hi hexit, late_deleteAt (u := u.noteFailure time code) hi hlate⟩
  | populate k =>
    rw [hpoint] at h
    cases k with
    | zero =>
      simp only [advance, hpoint, Option.some.injEq] at ht
      exact ht ▸ h
    | succ k =>
      simp only [advance, hpoint, Option.some.injEq] at ht
      exact ht ▸ h
  | start k =>
    rw [hpoint] at h
    simp only [advance, hpoint, Option.some.injEq] at ht
    exact ht ▸ h
  | sleep =>
    rw [hpoint] at h
    simp only [advance, hpoint, Option.some.injEq] at ht
    exact ht ▸ h
  | terminate left ending =>
    cases left with
    | nil =>
      simp only [advance, hpoint, Option.some.injEq] at ht
      exact ht ▸ trivial
    | cons worker left =>
      simp only [advance, hpoint] at ht
      split at ht
      · exact Option.some.inj ht ▸ trivial
      · split at ht
        · exact Option.some.inj ht ▸ trivial
        · exact Option.some.inj ht ▸ trivial
  | join left ending =>
    cases left with
    | nil =>
      simp only [advance, hpoint, Option.some.injEq] at ht
      exact ht ▸ trivial
    | cons worker left =>
      simp only [advance, hpoint] at ht
      split at ht
      · cases ht
      · exact Option.some.inj ht ▸ trivial
  | ended ending => simp [advance, hpoint] at ht

theorem interrupt_linearized (ht : s.interrupt = some t) : Linearized n startTime t.pool t.point := by
  rw [interrupt] at ht
  split at ht
  · cases ht
  · exact Option.some.inj ht ▸ trivial
  · exact Option.some.inj ht ▸ trivial
  · exact Option.some.inj ht ▸ trivial

theorem step_linearized {a : Action} (hsound : Sound handled n s) (h : Linearized n startTime s.pool s.point)
    (ha : s.step handled a = some t) : Linearized n startTime t.pool t.point := by
  cases a with
  | exited worker code =>
    rw [step] at ha
    split at ha
    · rename_i hexit
      exact Option.some.inj ha ▸ exited_linearized hsound.sorted h code hexit.1 hexit.2
    · cases ha
  | advance time => exact advance_linearized h ha
  | term => exact interrupt_linearized ha

theorem sleeping_pool_reachable (h : Reachable handled n startTime s) (hsleep : s.point = .sleep) :
    Pool.Reachable n startTime s.pool := by
  have hlinearized : Sound handled n s ∧ Linearized n startTime s.pool s.point := by
    refine h.invariant (I := fun s => Sound handled n s ∧ Linearized n startTime s.pool s.point) ?_ ?_
    · exact ⟨init_sound startTime, Reach.start⟩
    · exact fun _ _ _ hs _ ha => ⟨step_sound hs.1 ha, step_linearized hs.1 hs.2 ha⟩
  have hpool := hlinearized.2
  rw [hsleep] at hpool
  exact hpool

theorem sleeping_pool_reachable_two : ∃ s : PoolProcess, s.pool.pool = [1, 2] ∧ s.pool.exitcode 1 = some 0 ∧
    Pool.Reachable 2 0 s.pool := by
  have hm : Meets (step false) (fun _ _ => True) (init 2 0)
      ([.advance 9, .advance 9, .exited 1 0, .exited 0 0] ++ List.replicate 6 (.advance 9)) :=
    .of_forall (fun _ _ _ => trivial) _
  obtain ⟨s, hs, hp⟩ := Reach.exists_of_run (fun s : PoolProcess => decide (s.point = .sleep) &&
    (decide (s.pool.pool = [1, 2]) && decide (s.pool.exitcode 1 = some 0))) hm (by decide)
  simp only [Bool.and_eq_true, decide_eq_true_eq] at hp
  exact ⟨s, hp.2.1, hp.2.2, sleeping_pool_reachable hs hp.1⟩

end steps

end PoolProcess

end Workers
