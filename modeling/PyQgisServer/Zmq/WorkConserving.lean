import PyQgisServer.Library.Transition
import PyQgisServer.Zmq.Broker

namespace Zmq

open Transition

namespace Broker

-- where the dispatch phase is: at the head of the outer loop, at that of the inner one with the
-- request it has in hand, or past both
inductive Point where
  | outer
  | inner (e : Entry)
  | ended

structure Phase where
  point : Point
  broker : Broker

def Idle (b : Broker) : Prop := b.workers.elems = [] ∨ b.waiting = []

-- a pop takes any worker, and a send succeeds or raises ZMQError
inductive Turn (timeout now : ℚ) : Phase → Phase → Prop
  | leave {b : Broker} (h : b.Idle) : Turn timeout now ⟨.outer, b⟩ ⟨.ended, b⟩
  | drop {b : Broker} {e : Entry} {rest : List Entry} (hw : b.workers.elems ≠ []) (hb : b.waiting = e :: rest)
      (ht : now - e.tm > timeout) : Turn timeout now ⟨.outer, b⟩ ⟨.outer, ⟨b.workers, rest⟩⟩
  | take {b : Broker} {e : Entry} {rest : List Entry} (hw : b.workers.elems ≠ []) (hb : b.waiting = e :: rest)
      (ht : now - e.tm ≤ timeout) : Turn timeout now ⟨.outer, b⟩ ⟨.inner e, ⟨b.workers, rest⟩⟩
  | sent {b : Broker} {e : Entry} {w : Frame} (hw : w ∈ b.workers) :
      Turn timeout now ⟨.inner e, b⟩ ⟨.outer, ⟨b.workers.remove w, b.waiting⟩⟩
  | failed {b : Broker} {e : Entry} {w : Frame} (hw : w ∈ b.workers) :
      Turn timeout now ⟨.inner e, b⟩ ⟨.inner e, ⟨b.workers.remove w,
        if (b.workers.remove w).isEmpty then e :: b.waiting else b.waiting⟩⟩
  | exhausted {b : Broker} {e : Entry} (h : b.workers.elems = []) : Turn timeout now ⟨.inner e, b⟩ ⟨.outer, b⟩

namespace Phase

-- a worker outweighs the request that its failure may push back
def weight (p : Phase) : ℕ :=
  3 * p.broker.workers.elems.length + 2 * p.broker.waiting.length +
    match p.point with
    | .outer => 1
    | .inner _ => 2
    | .ended => 0

def Left (p : Phase) : Prop := p.point = .ended → p.broker.Idle

end Phase

section turn

variable {timeout now : ℚ} {p q : Phase}

theorem length_remove {s : PySet Frame} {w : Frame} (h : w ∈ s) :
    (s.remove w).elems.length + 1 = s.elems.length := by
  have hpos := List.length_pos_of_mem h
  simp only [PySet.remove, List.length_erase_of_mem h]
  omega

theorem turn_weight (h : Turn timeout now p q) : q.weight < p.weight := by
  cases h with
  | leave h =>
    simp only [Phase.weight]
    omega
  | drop hw hb ht =>
    simp only [Phase.weight, hb, List.length_cons]
    omega
  | take hw hb ht =>
    simp only [Phase.weight, hb, List.length_cons]
    omega
  | @sent b e w hw =>
    have hlen := length_remove hw
    simp only [Phase.weight]
    omega
  | @failed b e w hw =>
    have hlen := length_remove hw
    simp only [Phase.weight]
    split
    · rw [List.length_cons]
      omega
    · omega
  | exhausted h =>
    simp only [Phase.weight]
    omega

theorem turn_left (h : Turn timeout now p q) : q.Left := by
  cases h with
  | leave h => exact fun _ => h
  | drop hw hb ht => exact nofun
  | take hw hb ht => exact nofun
  | sent hw => exact nofun
  | failed hw => exact nofun
  | exhausted h => exact nofun

theorem turn_progress (timeout now : ℚ) (p : Phase) : (∃ q, Turn timeout now p q) ∨ p.point = .ended := by
  obtain ⟨point, b⟩ := p
  cases point with
  | ended => exact .inr rfl
  | outer =>
    by_cases hw : b.workers.elems = []
    · exact .inl ⟨_, .leave (.inl hw)⟩
    · cases hb : b.waiting with
      | nil => exact .inl ⟨_, .leave (.inr hb)⟩
      | cons e rest =>
        by_cases ht : now - e.tm > timeout
        · exact .inl ⟨_, .drop hw hb ht⟩
        · exact .inl ⟨_, .take hw hb (not_lt.mp ht)⟩
  | inner e =>
    by_cases hw : b.workers.elems = []
    · exact .inl ⟨_, .exhausted hw⟩
    · obtain ⟨w, hw⟩ := List.exists_mem_of_ne_nil _ hw
      exact .inl ⟨_, .sent hw⟩

theorem sendToWorker_turns (timeout now : ℚ) (env : Sends) (e : Entry) (n : ℕ) (b : Broker) :
    ∃ k, Steps (Turn timeout now) k ⟨.inner e, b⟩ ⟨.outer, (sendToWorker env now e n b).broker⟩ := by
  fun_induction sendToWorker env now e n b with
  | case1 n b h => exact ⟨1, .next (.exhausted (PySet.pop_eq_none.mp h)) (.none _)⟩
  | case2 n b w ws h hok =>
    obtain ⟨hw, rfl⟩ := PySet.pop_mem h
    exact ⟨1, .next (.sent hw) (.none _)⟩
  | case3 n b w ws h hfail waiting r ih =>
    obtain ⟨hw, rfl⟩ := PySet.pop_mem h
    obtain ⟨k, hk⟩ := ih
    exact ⟨k + 1, .next (.failed hw) hk⟩

theorem dispatchLoop_turns (timeout now : ℚ) (env : Sends) (n : ℕ) (b : Broker) :
    ∃ k, Steps (Turn timeout now) k ⟨.outer, b⟩ ⟨.ended, (dispatchLoop timeout now env n b).1⟩ := by
  fun_induction dispatchLoop timeout now env n b with
  | case1 n b hb => exact ⟨1, .next (.leave (.inr hb)) (.none _)⟩
  | case2 n b e rest hb hw => exact ⟨1, .next (.leave (.inl (List.isEmpty_iff.mp hw))) (.none _)⟩
  | case3 n b e rest hb hw ht r ih =>
    obtain ⟨k, hk⟩ := ih
    exact ⟨k + 1, .next (.drop (by simpa [PySet.isEmpty] using hw) hb ht) hk⟩
  | case4 n b e rest hb hw ht s r ih =>
    obtain ⟨k, hk⟩ := ih
    obtain ⟨j, hj⟩ := sendToWorker_turns timeout now env e n { b with waiting := rest }
    refine ⟨_, .next (.take (by simpa [PySet.isEmpty] using hw) hb (not_lt.mp ht)) (hj.append hk)⟩

theorem dispatch_turns (timeout : ℤ) (now : ℚ) (env : Sends) (b : Broker) :
    ∃ k, Steps (Turn (timeout / 1000) now) k ⟨.outer, b⟩ ⟨.ended, (dispatch timeout now env b).1⟩ := by
  unfold dispatch
  split
  · rename_i h
    refine ⟨1, .next (.leave ?_) (.none _)⟩
    simpa [PySet.isEmpty, Idle] using h
  · exact dispatchLoop_turns _ now env 0 b

end turn

theorem dispatch_idle (timeout : ℤ) (now : ℚ) (env : Sends) (b : Broker) : (dispatch timeout now env b).1.Idle := by
  obtain ⟨k, hk⟩ := dispatch_turns timeout now env b
  exact hk.invariant (I := Phase.Left) (fun _ _ _ => turn_left) nofun rfl

theorem runBroker_idle (maxqueue timeout : ℤ) {b : Broker} (h : b.Idle) (ps : List Poll) :
    (runBroker maxqueue timeout b ps).1.Idle := by
  induction ps generalizing b with
  | nil => exact h
  | cons p ps ih => exact ih (dispatch_idle timeout p.now p.sends _)

theorem dispatch_work_conserving (maxqueue timeout : ℤ) (now : ℚ) (b : Broker) :
    (∀ n p, Steps (Turn (timeout / 1000) now) n ⟨.outer, b⟩ p →
      n ≤ 3 * b.workers.elems.length + 2 * b.waiting.length + 1 ∧
        ((∃ q, Turn (timeout / 1000) now p q) ∨ p.point = .ended ∧ p.broker.Idle)) ∧
    (∀ env, (dispatch timeout now env b).1.Idle ∧
      ∃ n, Steps (Turn (timeout / 1000) now) n ⟨.outer, b⟩ ⟨.ended, (dispatch timeout now env b).1⟩) ∧
    ∀ ps, (runBroker maxqueue timeout init ps).1.Idle := by
  refine ⟨fun n p hp => ⟨?_, ?_⟩, fun env => ⟨dispatch_idle timeout now env b, dispatch_turns timeout now env b⟩,
    runBroker_idle maxqueue timeout (.inr rfl)⟩
  · have hlower : ∀ p q, Turn (timeout / 1000) now p q → q.weight < p.weight := fun _ _ => turn_weight
    have hweight := hp.le_weight hlower
    simp only [Phase.weight] at hweight
    omega
  · rcases turn_progress (timeout / 1000) now p with hq | hover
    · exact .inl hq
    · exact .inr ⟨hover, hp.invariant (I := Phase.Left) (fun _ _ _ => turn_left) nofun hover⟩

end Broker

end Zmq
