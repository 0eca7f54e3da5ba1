import PyQgisServer.Workers.Pool

namespace Workers

open Transition

namespace Pool

def noteFailure (s : Pool) (time : ℚ) (code : ℤ) : Pool :=
  { s with criticalFailure := s.criticalFailure || s.failed time code }

def deleteAt (s : Pool) (i worker : ℕ) : Pool := { s with pool := s.pool.eraseIdx i, joined := worker :: s.joined }

-- the process is in the list before it is started
def appendWorker (s : Pool) : Pool := { s with pool := s.pool ++ [s.created] }

def startAppended (s : Pool) : Pool := { s with created := s.created + 1 }

end Pool

inductive Ending where
  | returned
  | runtimeError
  | indexError
  | attributeError
  | interrupted
  | aborted
  deriving DecidableEq

-- where the main thread of the pool stands in run_worker_pool
inductive Point where
  | test
  | walk (i : ℕ) (cleaned : Bool)
  | reap (i worker : ℕ)
  | populate (k : ℕ)
  | start (k : ℕ)
  | sleep
  | terminate (left : List ℕ) (ending : Ending)
  | join (left : List ℕ) (ending : Ending)
  | ended (ending : Ending)
  deriving DecidableEq

structure PoolProcess where
  pool : Pool
  point : Point
  terminated : List ℕ
  signals : ℕ

namespace PoolProcess

def init (numWorkers : ℕ) (startTime : ℚ) : PoolProcess := ⟨.init numWorkers startTime, .test, [], 0⟩

def goto (s : PoolProcess) (point : Point) : PoolProcess := { s with point := point }

def finish (s : PoolProcess) (ending : Ending) : PoolProcess := s.goto (.terminate s.pool.pool ending)

-- SIGABRT ends the process where nothing handles it
def reapPoint (handled : Bool) (s : Pool) (time : ℚ) (code : ℤ) (i worker : ℕ) : Point :=
  if s.failed time code && !handled then .ended .aborted else .reap i worker

-- the main thread goes on by one statement, none where it waits or has ended
def advance (handled : Bool) (time : ℚ) (s : PoolProcess) : Option PoolProcess :=
  match s.point with
  | .test => some (if s.pool.criticalFailure then s.finish .runtimeError else s.goto (.walk s.pool.pool.length false))
  | .walk 0 true => some (s.goto (.populate (s.pool.numWorkers - s.pool.pool.length)))
  | .walk 0 false => some (s.goto .sleep)
  | .walk (i + 1) cleaned =>
    match s.pool.pool[i]? with
    | none => some (s.finish .indexError)
    | some worker =>
      match s.pool.exitcode worker with
      | none => some (s.goto (.walk i cleaned))
      | some code =>
        some { s with pool := s.pool.noteFailure time code, point := reapPoint handled s.pool time code i worker }
  | .reap i worker => some { s with pool := s.pool.deleteAt i worker, point := .walk i true }
  | .populate 0 => some (s.goto .sleep)
  | .populate (k + 1) => some { s with pool := s.pool.appendWorker, point := .start k }
  | .start k => some { s with pool := s.pool.startAppended, point := .populate k }
  | .sleep => some (s.goto .test)
  | .terminate [] ending => some (s.goto (.join s.pool.pool ending))
  | .terminate (worker :: left) ending =>
    if s.pool.exitcode worker ≠ none then some (s.goto (.terminate left ending))
    else if worker < s.pool.created then
      some { s with terminated := worker :: s.terminated, point := .terminate left ending }
    else some (s.goto (.ended .attributeError))
  | .join [] ending => some (s.goto (.ended ending))
  | .join (worker :: left) ending =>
    if s.pool.exitcode worker = none then none else some (s.goto (.join left ending))
  | .ended _ => none

-- SIGTERM raises SystemExit in the main thread: the loop catches it, the finally clause does not
def interrupt (s : PoolProcess) : Option PoolProcess :=
  match s.point with
  | .ended _ => none
  | .terminate _ _ | .join _ _ => some { s with point := .ended .interrupted, signals := s.signals + 1 }
  | _ => some { s with point := .terminate s.pool.pool .returned, signals := s.signals + 1 }

inductive Action where
  | exited (worker : ℕ) (code : ℤ)
  | advance (time : ℚ)
  | term

def step (handled : Bool) (s : PoolProcess) : Action → Option PoolProcess
  | .exited worker code =>
    if worker < s.pool.created ∧ s.pool.exitcode worker = none then
      some { s with pool := s.pool.exitWorker worker code }
    else none
  | .advance time => s.advance handled time
  | .term => s.interrupt

def Reachable (handled : Bool) (numWorkers : ℕ) (startTime : ℚ) : PoolProcess → Prop :=
  Reach (step handled) (fun _ _ => True) (init numWorkers startTime)

structure Sorted (n : ℕ) (p : Pool) : Prop where
  workers : p.numWorkers = n
  size : p.pool.length ≤ n
  sorted : p.pool.Pairwise (· < ·)
  bounded : ∀ w ∈ p.pool, w ≤ p.created
  fresh : ∀ w, p.created ≤ w → p.exitcode w = none
  running : ∀ w < p.created, p.exitcode w = none → w ∈ p.pool

def Started (p : Pool) : Prop := ∀ w ∈ p.pool, w < p.created

def Left (signals : ℕ) (criticalFailure : Bool) : Ending → Prop
  | .returned => 1 ≤ signals
  | .runtimeError => criticalFailure = true
  | _ => False

def Terminated (s : PoolProcess) (ws : List ℕ) : Prop := ∀ w ∈ ws, s.pool.exitcode w = none → w ∈ s.terminated

def Exited (s : PoolProcess) (ws : List ℕ) : Prop := ∀ w ∈ ws, s.pool.exitcode w ≠ none

def Ended (handled : Bool) (s : PoolProcess) : Ending → Prop
  | .returned | .runtimeError => Exited s s.pool.pool
  | .indexError => False
  | .attributeError => s.pool.created ∈ s.pool.pool ∧ Terminated s (s.pool.pool.filter (· ≠ s.pool.created))
  | .interrupted => 2 ≤ s.signals ∨ 1 ≤ s.signals ∧ s.pool.criticalFailure = true
  | .aborted => handled = false ∧ s.pool.criticalFailure = true

def Placed (handled : Bool) (n : ℕ) (s : PoolProcess) : Point → Prop
  | .test | .sleep => Started s.pool ∧ s.pool.pool.length = n ∧ s.terminated = []
  | .walk i cleaned =>
    Started s.pool ∧ i ≤ s.pool.pool.length ∧ (cleaned = false → s.pool.pool.length = n) ∧ s.terminated = []
  | .reap i worker =>
    Started s.pool ∧ s.pool.pool[i]? = some worker ∧ s.pool.exitcode worker ≠ none ∧ s.terminated = []
  | .populate k => Started s.pool ∧ s.pool.pool.length + k = n ∧ s.terminated = []
  | .start k => s.pool.created ∈ s.pool.pool ∧ s.pool.pool.length + k = n ∧ s.terminated = []
  | .terminate left ending => Left s.signals s.pool.criticalFailure ending ∧ s.terminated.Nodup ∧
      (∀ w ∈ s.terminated, w < s.pool.created) ∧
      ∃ before, s.pool.pool = before ++ left ∧ (∀ w ∈ s.terminated, w ∈ before) ∧ Terminated s before
  | .join left ending => Left s.signals s.pool.criticalFailure ending ∧ s.terminated.Nodup ∧
      Terminated s s.pool.pool ∧ ∃ before, s.pool.pool = before ++ left ∧ Exited s before
  | .ended ending => s.terminated.Nodup ∧ Ended handled s ending

structure Sound (handled : Bool) (n : ℕ) (s : PoolProcess) : Prop where
  sorted : Sorted n s.pool
  placed : Placed handled n s s.point

section sorted

variable {n : ℕ} {p : Pool}

theorem exitWorker_running {worker : ℕ} {code : ℤ} {w : ℕ} (h : (p.exitWorker worker code).exitcode w = none) :
    p.exitcode w = none := by
  have happly : (p.exitWorker worker code).exitcode w = if w = worker then some code else p.exitcode w :=
    Function.update_apply ..
  rw [happly] at h
  split at h
  · cases h
  · exact h

theorem sorted_exitWorker (h : Sorted n p) {worker : ℕ} (code : ℤ) (hw : worker < p.created) :
    Sorted n (p.exitWorker worker code) where
  workers := h.workers
  size := h.size
  sorted := h.sorted
  bounded := h.bounded
  fresh := fun w hge => by
    have hne : w ≠ worker := by
      rintro rfl
      exact absurd hw (not_lt.mpr hge)
    exact (Function.update_of_ne hne _ _).trans (h.fresh w hge)
  running := fun w hlt hrun => h.running w hlt (exitWorker_running hrun)

theorem sorted_noteFailure (h : Sorted n p) (time : ℚ) (code : ℤ) : Sorted n (p.noteFailure time code) :=
  ⟨h.workers, h.size, h.sorted, h.bounded, h.fresh, h.running⟩

theorem sorted_deleteAt (h : Sorted n p) {i worker : ℕ} (hi : p.pool[i]? = some worker)
    (hexit : p.exitcode worker ≠ none) : Sorted n (p.deleteAt i worker) where
  workers := h.workers
  size := (List.eraseIdx_sublist _ _).length_le.trans h.size
  sorted := h.sorted.sublist (List.eraseIdx_sublist _ _)
  bounded := fun w hw => h.bounded w ((List.eraseIdx_sublist _ _).subset hw)
  fresh := h.fresh
  running := fun w hlt hrun => by
    have hmem := h.running w hlt hrun
    obtain ⟨j, hj⟩ := List.mem_iff_getElem?.mp hmem
    have hne : j ≠ i := by
      rintro rfl
      rw [hi] at hj
      exact hexit (Option.some.inj hj ▸ hrun)
    exact List.mem_eraseIdx_iff_getElem?.mpr ⟨j, hne, hj⟩

theorem sorted_appendWorker (h : Sorted n p) (hs : Started p) (hlt : p.pool.length < n) : Sorted n p.appendWorker where
  workers := h.workers
  size := by
    rw [Pool.appendWorker, List.length_append, List.length_singleton]
    exact hlt
  sorted := List.pairwise_append.mpr
    ⟨h.sorted, List.pairwise_singleton _ _, fun w hw v hv => List.mem_singleton.mp hv ▸ hs w hw⟩
  bounded := fun w hw => by
    rcases List.mem_append.mp hw with hw | hw
    · exact h.bounded w hw
    · exact (List.mem_singleton.mp hw).le
  fresh := h.fresh
  running := fun w hlt hrun => List.mem_append_left _ (h.running w hlt hrun)

theorem sorted_startAppended (h : Sorted n p) (hmem : p.created ∈ p.pool) : Sorted n p.startAppended where
  workers := h.workers
  size := h.size
  sorted := h.sorted
  bounded := fun w hw => (h.bounded w hw).trans (Nat.le_succ _)
  fresh := fun w hge => h.fresh w ((Nat.le_succ _).trans hge)
  running := fun w hlt hrun => by
    rcases Nat.lt_succ_iff_lt_or_eq.mp hlt with hlt | rfl
    · exact h.running w hlt hrun
    · exact hmem

end sorted

section placed

variable {handled : Bool} {n : ℕ} {s t : PoolProcess}

theorem terminated_exitWorker {worker : ℕ} {code : ℤ} {ws : List ℕ} (h : Terminated s ws) :
    Terminated { s with pool := s.pool.exitWorker worker code } ws :=
  fun w hw hrun => h w hw (exitWorker_running hrun)

theorem exited_exitWorker {worker : ℕ} {code : ℤ} {ws : List ℕ} (h : Exited s ws) :
    Exited { s with pool := s.pool.exitWorker worker code } ws :=
  fun w hw hrun => h w hw (exitWorker_running hrun)

theorem ended_exitWorker {worker : ℕ} {code : ℤ} {ending : Ending} (h : Ended handled s ending) :
    Ended handled { s with pool := s.pool.exitWorker worker code } ending := by
  cases ending with
  | returned | runtimeError => exact exited_exitWorker h
  | indexError => exact h
  | attributeError => exact ⟨h.1, terminated_exitWorker h.2⟩
  | interrupted => exact h
  | aborted => exact h

theorem placed_exitWorker {worker : ℕ} {code : ℤ} {point : Point} (h : Placed handled n s point) :
    Placed handled n { s with pool := s.pool.exitWorker worker code } point := by
  cases point with
  | test | sleep | walk | populate | start => exact h
  | reap i w =>
    obtain ⟨hstarted, hi, hexit, hterm⟩ := h
    exact ⟨hstarted, hi, fun hrun => hexit (exitWorker_running hrun), hterm⟩
  | terminate left ending =>
    obtain ⟨hleft, hnodup, hlt, before, hpool, hmem, hterm⟩ := h
    exact ⟨hleft, hnodup, hlt, before, hpool, hmem, terminated_exitWorker hterm⟩
  | join left ending =>
    obtain ⟨hleft, hnodup, hterm, before, hpool, hexit⟩ := h
    exact ⟨hleft, hnodup, terminated_exitWorker hterm, before, hpool, exited_exitWorker hexit⟩
  | ended ending => exact ⟨h.1, ended_exitWorker h.2⟩

theorem finish_placed {ending : Ending} (hleft : Left s.signals s.pool.criticalFailure ending)
    (hterm : s.terminated = []) : Placed handled n (s.finish ending) (.terminate s.pool.pool ending) := by
  have hnone : (s.finish ending).terminated = [] := hterm
  refine ⟨hleft, hnone ▸ List.nodup_nil, ?_, [], rfl, ?_, ?_⟩
  · rw [hnone]
    exact fun w hw => absurd hw List.not_mem_nil
  · rw [hnone]
    exact fun w hw => absurd hw List.not_mem_nil
  · exact fun w hw => absurd hw List.not_mem_nil

theorem finish_sound {ending : Ending} (h : Sorted n s.pool) (hleft : Left s.signals s.pool.criticalFailure ending)
    (hterm : s.terminated = []) : Sound handled n (s.finish ending) :=
  ⟨h, finish_placed hleft hterm⟩

theorem interrupted_sound (h : Sorted n s.pool) (hterm : s.terminated = []) :
    Sound handled n { s with point := .terminate s.pool.pool .returned, signals := s.signals + 1 } := by
  have hleft : Left (s.signals + 1) s.pool.criticalFailure .returned := Nat.le_add_left 1 _
  exact finish_sound (s := { s with signals := s.signals + 1 }) h hleft hterm

theorem left_interrupted {ending : Ending} (h : Left s.signals s.pool.criticalFailure ending) :
    2 ≤ s.signals + 1 ∨ 1 ≤ s.signals + 1 ∧ s.pool.criticalFailure = true := by
  cases ending with
  | returned => exact .inl (Nat.succ_le_succ h)
  | runtimeError => exact .inr ⟨Nat.le_add_left 1 _, h⟩
  | _ => exact h.elim

theorem interrupt_sound (h : Sound handled n s) (ht : s.interrupt = some t) : Sound handled n t := by
  obtain ⟨hsorted, hplaced⟩ := h
  cases hpoint : s.point with
  | ended ending => simp [interrupt, hpoint] at ht
  | terminate left ending =>
    simp only [interrupt, hpoint, Option.some.injEq] at ht hplaced
    obtain ⟨hleft, hnodup, -⟩ := hplaced
    exact ht ▸ ⟨hsorted, hnodup, left_interrupted hleft⟩
  | join left ending =>
    simp only [interrupt, hpoint, Option.some.injEq] at ht hplaced
    obtain ⟨hleft, hnodup, -⟩ := hplaced
    exact ht ▸ ⟨hsorted, hnodup, left_interrupted hleft⟩
  | test | sleep | populate | start =>
    simp only [interrupt, hpoint, Option.some.injEq] at ht hplaced
    exact ht ▸ interrupted_sound hsorted hplaced.2.2
  | walk | reap =>
    simp only [interrupt, hpoint, Option.some.injEq] at ht hplaced
    exact ht ▸ interrupted_sound hsorted hplaced.2.2.2

theorem sorted_last {before left : List ℕ} {worker : ℕ} (h : Sorted n s.pool)
    (hpool : s.pool.pool = before ++ worker :: left) (hge : ¬worker < s.pool.created) :
    worker = s.pool.created ∧ s.pool.pool.filter (· ≠ s.pool.created) = before := by
  have hmem : worker ∈ s.pool.pool := by simp [hpool]
  have heq : worker = s.pool.created := (h.bounded worker hmem).antisymm (not_lt.mp hge)
  have hsorted := h.sorted
  rw [hpool, List.pairwise_append, List.pairwise_cons] at hsorted
  obtain ⟨-, ⟨hleft, -⟩, hbefore⟩ := hsorted
  have hnil : left = [] := List.eq_nil_iff_forall_not_mem.mpr fun w hw =>
    absurd (h.bounded w (by simp [hpool, hw])) (not_le.mpr (heq ▸ hleft w hw))
  have hne : ∀ w ∈ before, w ≠ s.pool.created := fun w hw => heq ▸ (hbefore w hw worker List.mem_cons_self).ne
  refine ⟨heq, ?_⟩
  rw [hpool, hnil, heq, List.filter_append, List.filter_eq_self.mpr fun w hw => decide_eq_true (hne w hw)]
  simp

section terminate

variable {worker : ℕ} {left : List ℕ} {ending : Ending}

theorem passOver_placed (h : Placed handled n s (.terminate (worker :: left) ending))
    (hexit : s.pool.exitcode worker ≠ none) :
    Placed handled n (s.goto (.terminate left ending)) (.terminate left ending) := by
  obtain ⟨hleft, hnodup, hcreated, before, hpool, hmem, hterm⟩ := h
  refine ⟨hleft, hnodup, hcreated, before ++ [worker], ?_, fun w hw => List.mem_append_left _ (hmem w hw), ?_⟩
  · rw [List.append_assoc]
    exact hpool
  · intro w hw hrun
    rcases List.mem_append.mp hw with hw | hw
    · exact hterm w hw hrun
    · exact absurd hrun (List.mem_singleton.mp hw ▸ hexit)

theorem terminated_placed (hsorted : Sorted n s.pool) (h : Placed handled n s (.terminate (worker :: left) ending))
    (hlt : worker < s.pool.created) :
    Placed handled n { s with terminated := worker :: s.terminated, point := .terminate left ending }
      (.terminate left ending) := by
  obtain ⟨hleft, hnodup, hcreated, before, hpool, hmem, hterm⟩ := h
  have hpairwise := hsorted.sorted
  rw [hpool, List.pairwise_append] at hpairwise
  have hnew : worker ∉ s.terminated := fun hw =>
    absurd (hpairwise.2.2 worker (hmem worker hw) worker List.mem_cons_self) (lt_irrefl worker)
  refine ⟨hleft, List.nodup_cons.mpr ⟨hnew, hnodup⟩, List.forall_mem_cons.mpr ⟨hlt, hcreated⟩,
    before ++ [worker], ?_, ?_, ?_⟩
  · rw [List.append_assoc]
    exact hpool
  · exact List.forall_mem_cons.mpr ⟨by simp, fun w hw => List.mem_append_left _ (hmem w hw)⟩
  · intro w hw hrun
    rcases List.mem_append.mp hw with hw | hw
    · exact List.mem_cons_of_mem _ (hterm w hw hrun)
    · exact List.mem_singleton.mp hw ▸ List.mem_cons_self

end terminate

theorem walk_sound {time : ℚ} {i : ℕ} {cleaned : Bool} (hpoint : s.point = .walk i cleaned) (h : Sound handled n s)
    (ht : s.advance handled time = some t) : Sound handled n t := by
  obtain ⟨hsorted, hplaced⟩ := h
  rw [hpoint] at hplaced
  obtain ⟨hstarted, hi, hsize, hterm⟩ := hplaced
  cases i with
  | zero =>
    cases cleaned with
    | true =>
      simp only [advance, hpoint, Option.some.injEq] at ht
      refine ht ▸ ⟨hsorted, hstarted, ?_, hterm⟩
      have hle := hsorted.size
      have hworkers := hsorted.workers
      simp only [goto]
      omega
    | false =>
      simp only [advance, hpoint, Option.some.injEq] at ht
      exact ht ▸ ⟨hsorted, hstarted, hsize rfl, hterm⟩
  | succ i =>
    obtain ⟨worker, hworker⟩ : ∃ worker, s.pool.pool[i]? = some worker := ⟨_, List.getElem?_eq_getElem hi⟩
    cases hcode : s.pool.exitcode worker with
    | none =>
      simp only [advance, hpoint, hworker, hcode, Option.some.injEq] at ht
      exact ht ▸ ⟨hsorted, hstarted, Nat.le_of_succ_le hi, hsize, hterm⟩
    | some code =>
      simp only [advance, hpoint, hworker, hcode, Option.some.injEq, reapPoint] at ht
      split at ht
      · rename_i habort
        simp only [Bool.and_eq_true, Bool.not_eq_true'] at habort
        refine ht ▸ ⟨sorted_noteFailure hsorted time code, hterm ▸ List.nodup_nil, habort.2, ?_⟩
        simp [Pool.noteFailure, habort.1]
      · refine ht ▸ ⟨sorted_noteFailure hsorted time code, hstarted, hworker, ?_, hterm⟩
        rw [Pool.noteFailure, hcode]
        exact Option.some_ne_none code

theorem reap_sound {i worker : ℕ} (h : Sorted n s.pool) (hplaced : Placed handled n s (.reap i worker)) :
    Sound handled n { s with pool := s.pool.deleteAt i worker, point := .walk i true } := by
  obtain ⟨hstarted, hworker, hexit, hterm⟩ := hplaced
  have hi : i < s.pool.pool.length := (List.getElem?_eq_some_iff.mp hworker).1
  have hlength : (s.pool.deleteAt i worker).pool.length = s.pool.pool.length - 1 := List.length_eraseIdx_of_lt hi
  refine ⟨sorted_deleteAt h hworker hexit, ?_, ?_, ?_, hterm⟩
  · exact fun w hw => hstarted w ((List.eraseIdx_sublist _ _).subset hw)
  · rw [hlength]
    omega
  · exact fun hfalse => absurd hfalse (by decide)

theorem populate_sound {time : ℚ} {k : ℕ} (hpoint : s.point = .populate k) (h : Sound handled n s)
    (ht : s.advance handled time = some t) : Sound handled n t := by
  obtain ⟨hsorted, hplaced⟩ := h
  rw [hpoint] at hplaced
  obtain ⟨hstarted, hsize, hterm⟩ := hplaced
  cases k with
  | zero =>
    simp only [advance, hpoint, Option.some.injEq] at ht
    exact ht ▸ ⟨hsorted, hstarted, hsize, hterm⟩
  | succ k =>
    simp only [advance, hpoint, Option.some.injEq] at ht
    refine ht ▸ ⟨sorted_appendWorker hsorted hstarted (by omega), ?_, ?_, hterm⟩
    · exact List.mem_append_right _ (List.mem_singleton_self _)
    · simp only [Pool.appendWorker, List.length_append, List.length_singleton]
      omega

theorem terminate_sound {time : ℚ} {left : List ℕ} {ending : Ending} (hpoint : s.point = .terminate left ending)
    (h : Sound handled n s) (ht : s.advance handled time = some t) : Sound handled n t := by
  obtain ⟨hsorted, hplaced⟩ := h
  rw [hpoint] at hplaced
  cases left with
  | nil =>
    simp only [advance, hpoint, Option.some.injEq] at ht
    obtain ⟨hleft, hnodup, -, before, hpool, -, hterm⟩ := hplaced
    rw [List.append_nil] at hpool
    exact ht ▸ ⟨hsorted, hleft, hnodup, hpool ▸ hterm, [], rfl, by simp [Exited]⟩
  | cons worker left =>
    simp only [advance, hpoint] at ht
    split at ht
    · rename_i hexit
      exact Option.some.inj ht ▸ ⟨hsorted, passOver_placed hplaced hexit⟩
    · split at ht
      · rename_i hlt
        exact Option.some.inj ht ▸ ⟨hsorted, terminated_placed hsorted hplaced hlt⟩
      · rename_i hge
        obtain ⟨-, hnodup, -, before, hpool, -, hterm⟩ := hplaced
        obtain ⟨heq, hfilter⟩ := sorted_last hsorted hpool hge
        have hmem : s.pool.created ∈ s.pool.pool := by
          rw [hpool, ← heq]
          simp
        exact Option.some.inj ht ▸ ⟨hsorted, hnodup, hmem, hfilter ▸ hterm⟩

theorem join_sound {time : ℚ} {left : List ℕ} {ending : Ending} (hpoint : s.point = .join left ending)
    (h : Sound handled n s) (ht : s.advance handled time = some t) : Sound handled n t := by
  obtain ⟨hsorted, hplaced⟩ := h
  rw [hpoint] at hplaced
  obtain ⟨hleft, hnodup, hterm, before, hpool, hexit⟩ := hplaced
  cases left with
  | nil =>
    simp only [advance, hpoint, Option.some.injEq] at ht
    rw [List.append_nil] at hpool
    have hended : Ended handled (s.goto (.ended ending)) ending := by
      cases ending with
      | returned | runtimeError => exact fun w hw => hexit w (hpool ▸ hw)
      | _ => exact hleft.elim
    exact ht ▸ ⟨hsorted, hnodup, hended⟩
  | cons worker left =>
    simp only [advance, hpoint] at ht
    split at ht
    · cases ht
    · rename_i hrun
      refine Option.some.inj ht ▸ ⟨hsorted, hleft, hnodup, hterm, before ++ [worker], ?_, ?_⟩
      · rw [List.append_assoc]
        exact hpool
      · intro w hw
        rcases List.mem_append.mp hw with hw | hw
        · exact hexit w hw
        · exact List.mem_singleton.mp hw ▸ hrun

theorem advance_sound {time : ℚ} (h : Sound handled n s) (ht : s.advance handled time = some t) :
    Sound handled n t := by
  cases hpoint : s.point with
  | test =>
    obtain ⟨hsorted, hplaced⟩ := h
    simp only [advance, hpoint, Option.some.injEq] at ht hplaced
    obtain ⟨hstarted, hsize, hterm⟩ := hplaced
    subst ht
    split
    · rename_i hcritical
      exact finish_sound hsorted hcritical hterm
    · exact ⟨hsorted, hstarted, le_rfl, fun _ => hsize, hterm⟩
  | walk i cleaned => exact walk_sound hpoint h ht
  | reap i worker =>
    simp only [advance, hpoint, Option.some.injEq] at ht
    exact ht ▸ reap_sound h.sorted (hpoint ▸ h.placed)
  | populate k => exact populate_sound hpoint h ht
  | start k =>
    obtain ⟨hsorted, hplaced⟩ := h
    simp only [advance, hpoint, Option.some.injEq] at ht hplaced
    obtain ⟨hmem, hsize, hterm⟩ := hplaced
    exact ht ▸ ⟨sorted_startAppended hsorted hmem, fun w hw => Nat.lt_succ_of_le (hsorted.bounded w hw), hsize, hterm⟩
  | sleep =>
    obtain ⟨hsorted, hplaced⟩ := h
    simp only [advance, hpoint, Option.some.injEq] at ht hplaced
    exact ht ▸ ⟨hsorted, hplaced⟩
  | terminate left ending => exact terminate_sound hpoint h ht
  | join left ending => exact join_sound hpoint h ht
  | ended ending => simp [advance, hpoint] at ht

theorem step_sound {a : Action} (h : Sound handled n s) (ha : s.step handled a = some t) : Sound handled n t := by
  cases a with
  | exited worker code =>
    rw [step] at ha
    split at ha
    · rename_i hexit
      exact Option.some.inj ha ▸ ⟨sorted_exitWorker h.sorted code hexit.1, placed_exitWorker h.placed⟩
    · cases ha
  | advance time => exact advance_sound h ha
  | term => exact interrupt_sound h ha

theorem init_sound (startTime : ℚ) : Sound handled n (init n startTime) := by
  have hinit : (init n startTime).pool = ⟨n, startTime, false, List.range' 0 n, n, fun _ => none, []⟩ := by
    rw [init, Pool.init, Pool.repopulatePool, Pool.startWorkers]
    simp
  have hstarted : Started (init n startTime).pool := fun w hw => by
    rw [hinit] at hw ⊢
    simpa using hw
  have hlength : (init n startTime).pool.pool.length = n := by
    rw [hinit]
    exact List.length_range'
  refine ⟨⟨by rw [hinit], hlength.le, ?_, fun w hw => (hstarted w hw).le, ?_, ?_⟩, hstarted, hlength, rfl⟩
  · rw [hinit]
    exact List.pairwise_lt_range'
  · rw [hinit]
    exact fun _ _ => rfl
  · rw [hinit]
    intro w hw _
    simpa using hw

end placed

section orderly

variable {handled : Bool} {n : ℕ} {s : PoolProcess}

end orderly

end PoolProcess

end Workers
