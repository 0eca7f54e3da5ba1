import Mathlib.Data.List.Count
import Mathlib.Data.List.Induction
import Mathlib.Data.List.Nodup
import Mathlib.Data.Rat.Defs
import Mathlib.Logic.Function.Iterate
import PyQgisServer.Library.Transition

namespace Workers

open Transition

-- processes are numbered as they are created; join is called on those that are joined, the last first
structure Pool where
  numWorkers : ℕ
  startTime : ℚ
  criticalFailure : Bool
  pool : List ℕ
  created : ℕ
  exitcode : ℕ → Option ℤ
  joined : List ℕ

def earlyFailureDelay : ℚ := 5

namespace Pool

def startWorker (s : Pool) : Pool := { s with pool := s.pool ++ [s.created], created := s.created + 1 }

def repopulatePool (s : Pool) : Pool := startWorker^[s.numWorkers - s.pool.length] s

def init (numWorkers : ℕ) (startTime : ℚ) : Pool :=
  repopulatePool ⟨numWorkers, startTime, false, [], 0, fun _ => none, []⟩

section joinExitedWorkers

def failed (s : Pool) (time : ℚ) (code : ℤ) : Bool := code ≠ 0 ∧ time - s.startTime < earlyFailureDelay

-- a critical failure also sends SIGABRT to the process, and the walk goes on where that is handled
def joinWorker (s : Pool) (time : ℚ) (i : ℕ) (worker : ℕ) (code : ℤ) : Pool where
  numWorkers := s.numWorkers
  startTime := s.startTime
  criticalFailure := s.criticalFailure || s.failed time code
  pool := s.pool.eraseIdx i
  created := s.created
  exitcode := s.exitcode
  joined := worker :: s.joined

-- one turn of the loop and whether it cleaned, none for IndexError
def joinAt (s : Pool) (time : ℚ) (i : ℕ) : Option (Pool × Bool) :=
  match s.pool[i]? with
  | none => none
  | some worker =>
    match s.exitcode worker with
    | none => some (s, false)
    | some code => some (s.joinWorker time i worker code, true)

-- the indexes under the bound, the last one first
def joinBelow (clock : ℕ → ℚ) : ℕ → Pool → Option (Pool × Bool)
  | 0, s => some (s, false)
  | i + 1, s => (s.joinAt (clock i) i).bind fun x => (joinBelow clock i x.1).map fun y => (y.1, x.2 || y.2)

def joinExitedWorkers (clock : ℕ → ℚ) (s : Pool) : Option (Pool × Bool) := joinBelow clock s.pool.length s

end joinExitedWorkers

def maintainPool (clock : ℕ → ℚ) (s : Pool) : Option Pool :=
  (s.joinExitedWorkers clock).map fun x => if x.2 then x.1.repopulatePool else x.1

def exitWorker (s : Pool) (worker : ℕ) (code : ℤ) : Pool :=
  { s with exitcode := Function.update s.exitcode worker (some code) }

inductive Action where
  | exited (worker : ℕ) (code : ℤ)
  | maintain (clock : ℕ → ℚ)

def step (s : Pool) : Action → Option Pool
  | .exited worker code =>
    if worker < s.created ∧ s.exitcode worker = none then some (s.exitWorker worker code) else none
  | .maintain clock => s.maintainPool clock

def Runs (s : Pool) (worker : ℕ) : Bool := (s.exitcode worker).isNone

structure Same (s t : Pool) : Prop where
  numWorkers : t.numWorkers = s.numWorkers
  created : t.created = s.created
  exitcode : t.exitcode = s.exitcode

theorem Same.runs {s t : Pool} (h : Same s t) : t.Runs = s.Runs := by
  funext w
  rw [Runs, h.exitcode, Runs]

theorem Same.trans {s t u : Pool} (h : Same s t) (h' : Same t u) : Same s u :=
  ⟨h'.numWorkers.trans h.numWorkers, h'.created.trans h.created, h'.exitcode.trans h.exitcode⟩

structure Joined (s t : Pool) (passed left : List ℕ) : Prop where
  pool : t.pool = passed.filter s.Runs ++ left
  joined : t.joined = passed.filter (fun w => !s.Runs w) ++ s.joined
  same : Same s t

theorem joinAt_joined {s : Pool} (time : ℚ) {before after : List ℕ} {worker : ℕ}
    (h : s.pool = before ++ worker :: after) :
    ∃ t, s.joinAt time before.length = some (t, !s.Runs worker) ∧ t.pool = before ++ ([worker].filter s.Runs ++ after) ∧
      t.joined = [worker].filter (fun w => !s.Runs w) ++ s.joined ∧ Same s t := by
  have hworker : s.pool[before.length]? = some worker := by simp [h]
  rw [joinAt, hworker]
  cases hexit : s.exitcode worker with
  | none =>
    have hruns : s.Runs worker = true := by rw [Runs, hexit]; rfl
    refine ⟨s, by simp [hruns, hexit], ?_, ?_, rfl, rfl, rfl⟩
    · simp [hruns, h]
    · simp [hruns]
  | some code =>
    have hruns : s.Runs worker = false := by rw [Runs, hexit]; rfl
    refine ⟨s.joinWorker time before.length worker code, by simp [hexit, hruns], ?_, ?_, rfl, rfl, rfl⟩
    · simp [joinWorker, hruns, h, List.eraseIdx_append_of_length_le (Nat.le_refl before.length)]
    · simp [joinWorker, hruns]

theorem joinBelow_joined (clock : ℕ → ℚ) {s : Pool} {passed left : List ℕ} (h : s.pool = passed ++ left) :
    ∃ t, joinBelow clock passed.length s = some (t, passed.any fun w => !s.Runs w) ∧ Joined s t passed left := by
  induction passed using List.reverseRecOn generalizing s left with
  | nil => exact ⟨s, rfl, h, rfl, rfl, rfl, rfl⟩
  | append_singleton before worker ih =>
    obtain ⟨t, ht, hpool, hjoined, hsame⟩ := joinAt_joined (clock before.length)
      (h.trans (List.append_assoc before [worker] left))
    obtain ⟨u, hu, hpool', hjoined', hsame'⟩ := ih hpool
    rw [hsame.runs] at hu hpool' hjoined'
    refine ⟨u, ?_, ?_, ?_, hsame.trans hsame'⟩
    · rw [List.length_append, List.length_singleton, joinBelow, ht, Option.bind_some, hu, Option.map_some]
      simp [Bool.or_comm]
    · rw [hpool', List.filter_append, List.append_assoc]
      rfl
    · rw [hjoined', hjoined, List.filter_append, List.append_assoc]

structure Kept (n : ℕ) (s : Pool) : Prop where
  workers : s.numWorkers = n
  size : s.pool.length = n
  once : ∀ w, s.pool.count w + s.joined.count w = if w < s.created then 1 else 0
  joined : ∀ w ∈ s.joined, s.Runs w = false
  fresh : ∀ w, s.created ≤ w → s.Runs w = true

theorem startWorkers (n : ℕ) (s : Pool) :
    startWorker^[n] s = { s with pool := s.pool ++ List.range' s.created n, created := s.created + n } := by
  induction n generalizing s with
  | zero => simp
  | succ n ih =>
    rw [Function.iterate_succ_apply, ih]
    simp [startWorker, List.range'_succ, Nat.add_assoc, Nat.add_comm 1 n]

theorem count_range' (a n w : ℕ) : (List.range' a n).count w = if a ≤ w ∧ w < a + n then 1 else 0 := by
  rw [List.Nodup.count List.nodup_range']
  simp [List.mem_range'_1]

theorem repopulatePool_kept {n : ℕ} {s : Pool} (hworkers : s.numWorkers = n) (hsize : s.pool.length ≤ n)
    (honce : ∀ w, s.pool.count w + s.joined.count w = if w < s.created then 1 else 0)
    (hjoined : ∀ w ∈ s.joined, s.Runs w = false) (hfresh : ∀ w, s.created ≤ w → s.Runs w = true) :
    Kept n s.repopulatePool := by
  rw [repopulatePool, startWorkers]
  refine ⟨hworkers, ?_, fun w => ?_, hjoined, fun w hw => hfresh w (Nat.le_of_add_right_le hw)⟩
  · simp
    omega
  · have hcount := honce w
    simp only [List.count_append, count_range']
    split at hcount <;> split <;> split <;> omega

theorem repopulatePool_of_size {s : Pool} (h : s.pool.length = s.numWorkers) : s.repopulatePool = s := by
  rw [repopulatePool, h, Nat.sub_self]
  rfl

theorem maintainPool_eq (clock : ℕ → ℚ) {s : Pool} (h : s.pool.length = s.numWorkers) :
    ∃ t, s.maintainPool clock = some t.repopulatePool ∧ Joined s t s.pool [] := by
  have hpool : s.pool = s.pool ++ [] := (List.append_nil _).symm
  obtain ⟨t, ht, hjoined⟩ := joinBelow_joined clock hpool
  refine ⟨t, ?_, hjoined⟩
  rw [maintainPool, joinExitedWorkers, ht, Option.map_some]
  simp only
  split
  · rfl
  · rename_i hnone
    have hall : ∀ w ∈ s.pool, s.Runs w = true := by simpa using hnone
    have hsize : t.pool.length = t.numWorkers := by
      rw [hjoined.pool, List.filter_eq_self.mpr hall, List.append_nil, hjoined.same.numWorkers, h]
    rw [repopulatePool_of_size hsize]

theorem count_partition (p : ℕ → Bool) (l : List ℕ) (w : ℕ) :
    (l.filter p).count w + (l.filter fun w => !p w).count w = l.count w := by
  induction l with
  | nil => rfl
  | cons a l ih =>
    cases h : p a with
    | false =>
      rw [List.filter_cons_of_neg (by simp [h]), List.filter_cons_of_pos (by simp [h]), List.count_cons, List.count_cons,
        ← ih, Nat.add_assoc]
    | true =>
      rw [List.filter_cons_of_pos h, List.filter_cons_of_neg (by simp [h]), List.count_cons, List.count_cons, ← ih,
        Nat.add_right_comm]

theorem joined_kept {n : ℕ} {s t : Pool} (h : Kept n s) (ht : Joined s t s.pool []) : Kept n t.repopulatePool := by
  obtain ⟨hpool, hjoined, hsame⟩ := ht
  refine repopulatePool_kept (hsame.numWorkers.trans h.workers) ?_ (fun w => ?_) (fun w hw => ?_) fun w hw => ?_
  · rw [hpool, List.append_nil, ← h.size]
    exact List.length_filter_le _ _
  · rw [hpool, hjoined, hsame.created, List.append_nil, List.count_append, ← Nat.add_assoc, count_partition]
    exact h.once w
  · rw [hjoined] at hw
    rw [hsame.runs]
    rcases List.mem_append.mp hw with hexited | hbefore
    · simpa using (List.mem_filter.mp hexited).2
    · exact h.joined w hbefore
  · rw [hsame.runs]
    exact h.fresh w (hsame.created ▸ hw)

structure Maintained (n : ℕ) (s t : Pool) : Prop where
  size : t.pool.length = n
  survivors : ∃ fresh, t.pool = s.pool.filter s.Runs ++ fresh ∧ ∀ w ∈ fresh, s.created ≤ w
  running : ∀ w ∈ t.pool, s.exitcode w = none
  joinedNow : t.joined = s.pool.filter (fun w => !s.Runs w) ++ s.joined
  joinedOnce : ∀ w, t.joined.count w = if (s.exitcode w).isSome then 1 else 0

theorem runs_iff {s : Pool} {w : ℕ} : s.Runs w = true ↔ s.exitcode w = none := Option.isNone_iff_eq_none

theorem maintainPool_step (clock : ℕ → ℚ) {n : ℕ} {s : Pool} (h : Kept n s) :
    ∃ t, s.maintainPool clock = some t ∧ Kept n t ∧ Maintained n s t := by
  obtain ⟨t, hmaintain, hjoined⟩ := maintainPool_eq clock (h.size.trans h.workers.symm)
  have hkept := joined_kept h hjoined
  refine ⟨_, hmaintain, hkept, ?_⟩
  obtain ⟨hpool, hjoins, hsame⟩ := hjoined
  have hsurvivors : t.repopulatePool.pool = s.pool.filter s.Runs ++ List.range' s.created (t.numWorkers - t.pool.length) := by
    rw [repopulatePool, startWorkers]
    simp only
    rw [hpool, hsame.created, List.append_nil]
  have hexitcode : t.repopulatePool.exitcode = s.exitcode := by
    rw [repopulatePool, startWorkers]
    exact hsame.exitcode
  have hruns : t.repopulatePool.Runs = s.Runs := by
    funext w
    rw [Runs, hexitcode, Runs]
  have hnow : t.repopulatePool.joined = s.pool.filter (fun w => !s.Runs w) ++ s.joined := by
    rw [repopulatePool, startWorkers]
    exact hjoins
  have hrunning : ∀ w ∈ t.repopulatePool.pool, s.Runs w = true := by
    intro w hw
    rw [hsurvivors] at hw
    rcases List.mem_append.mp hw with hw | hw
    · exact (List.mem_filter.mp hw).2
    · exact h.fresh w (List.mem_range'_1.mp hw).1
  refine ⟨hkept.size, ⟨_, hsurvivors, fun w hw => (List.mem_range'_1.mp hw).1⟩,
    fun w hw => runs_iff.mp (hrunning w hw), hnow, fun w => ?_⟩
  split
  · rename_i hexited
    have hnot : s.Runs w ≠ true := fun hruns => by
      rw [runs_iff.mp hruns] at hexited
      cases hexited
    have hzero : t.repopulatePool.pool.count w = 0 := List.count_eq_zero.mpr fun hmem => hnot (hrunning w hmem)
    have hcreated : w < t.repopulatePool.created := by
      by_contra hge
      exact hnot (hruns ▸ hkept.fresh w (not_lt.mp hge))
    have honce := hkept.once w
    rwa [hzero, if_pos hcreated, Nat.zero_add] at honce
  · rename_i hrun
    refine List.count_eq_zero.mpr fun hmem => ?_
    have hnot := hkept.joined w hmem
    rw [hruns, Runs] at hnot
    simp [hnot] at hrun

theorem runs_exitWorker (s : Pool) (worker : ℕ) (code : ℤ) (w : ℕ) :
    (s.exitWorker worker code).Runs w = if w = worker then false else s.Runs w := by
  have hcode : (s.exitWorker worker code).exitcode w = if w = worker then some code else s.exitcode w :=
    Function.update_apply ..
  rw [Runs, hcode]
  split
  · rfl
  · rfl

theorem exitWorker_kept {n : ℕ} {s : Pool} (h : Kept n s) {worker : ℕ} (code : ℤ) (hcreated : worker < s.created) :
    Kept n (s.exitWorker worker code) := by
  refine ⟨h.workers, h.size, h.once, fun w hw => ?_, fun w hw => ?_⟩
  · rw [runs_exitWorker]
    split
    · rfl
    · exact h.joined w hw
  · have hne : w ≠ worker := by
      rintro rfl
      exact absurd hcreated (not_lt.mpr hw)
    rw [runs_exitWorker, if_neg hne]
    exact h.fresh w hw

theorem init_kept (numWorkers : ℕ) (startTime : ℚ) : Kept numWorkers (init numWorkers startTime) :=
  repopulatePool_kept rfl (Nat.zero_le _) (fun _ => rfl) (fun _ hw => absurd hw List.not_mem_nil) fun _ _ => rfl

theorem step_kept {n : ℕ} {s t : Pool} {a : Action} (h : Kept n s) (ha : s.step a = some t) : Kept n t := by
  cases a with
  | exited worker code =>
    rw [step] at ha
    split at ha
    · rename_i hexit
      obtain rfl := Option.some.inj ha
      exact exitWorker_kept h code hexit.1
    · cases ha
  | maintain clock =>
    obtain ⟨u, hu, hkept, -⟩ := maintainPool_step clock h
    obtain rfl := Option.some.inj (hu.symm.trans ha)
    exact hkept

-- the pool as it may be found: any workers exit between two walks
def Reachable (numWorkers : ℕ) (startTime : ℚ) : Pool → Prop :=
  Reach step (fun _ _ => True) (init numWorkers startTime)

theorem reachable_kept {numWorkers : ℕ} {startTime : ℚ} {s : Pool} (h : Reachable numWorkers startTime s) :
    Kept numWorkers s :=
  h.invariant (init_kept numWorkers startTime) fun _ _ _ hs _ ha => step_kept hs ha

theorem maintainPool_maintained {numWorkers : ℕ} {startTime : ℚ} {s : Pool} (h : Reachable numWorkers startTime s)
    (clock : ℕ → ℚ) : ∃ t, s.maintainPool clock = some t ∧ Maintained numWorkers s t := by
  obtain ⟨t, ht, -, hmaintained⟩ := maintainPool_step clock (reachable_kept h)
  exact ⟨t, ht, hmaintained⟩

theorem maintainPool_maintained_two :
    Reachable 2 0 ((init 2 0).exitWorker 0 1) ∧
      ∃ t, ((init 2 0).exitWorker 0 1).maintainPool (fun _ => 9) = some t ∧
        Maintained 2 ((init 2 0).exitWorker 0 1) t := by
  have hstep : (init 2 0).step (.exited 0 1) = some ((init 2 0).exitWorker 0 1) := by
    rw [step, if_pos ⟨by decide, rfl⟩]
  have hreach : Reachable 2 0 ((init 2 0).exitWorker 0 1) := Reach.start.next (.exited 0 1) trivial hstep
  exact ⟨hreach, maintainPool_maintained hreach _⟩

end Pool

end Workers
