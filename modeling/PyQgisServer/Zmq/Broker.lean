import Mathlib.Algebra.Order.Ring.Rat
import PyQgisServer.Library.PySet
import PyQgisServer.Zmq.Messages

namespace Zmq

structure Entry extends Envelope where
  tm : ℚ
  deriving DecidableEq

-- waiting lists the deque from its right end: pop takes the head, appendleft adds at the tail
structure Broker where
  workers : PySet Frame
  waiting : List Entry

inductive Event where
  | forward (clientId msgid data : Frame) (ok : Bool)
  | reject (clientId msgid data : Frame) (len : ℕ) (ok : Bool)
  | accept (e : Entry) (len : ℕ)
  | drop (e : Entry) (now : ℚ)
  | send (workerId : Frame) (e : Entry) (now : ℚ)
  | fail (workerId : Frame) (e : Entry)
  deriving DecidableEq

def Event.frontend : Event → Option (List Frame)
  | .forward c m d _ => some [c, m, d]
  | .reject c m _ _ _ => some [c, m, err, busy]
  | _ => none

-- the environment in one dispatch phase: pop n settles the n-th set.pop(); a worker is popped
-- at most once in a phase, so one outcome a worker covers every pattern of failures
structure Sends where
  pop : ℕ → ℕ
  delivers : Frame → Bool

namespace Broker

def init : Broker := ⟨.empty, []⟩

def onBackend (b : Broker) (msg : List Frame) (ok : Bool) : Broker × List Event :=
  match msg with
  | workerId :: clientId :: rest =>
    if clientId = workerReady then ({ b with workers := b.workers.add workerId }, [])
    else match rest with
      | [msgid, data] => (b, [.forward clientId msgid data ok])
      | _ => (b, [])
  | _ => (b, [])

def onFrontend (maxqueue : ℤ) (b : Broker) (msg : List Frame) (tm : ℚ) (ok : Bool) :
    Broker × List Event :=
  match msg with
  | [clientId, msgid, data] =>
    if (b.waiting.length : ℤ) ≥ maxqueue then
      (b, [.reject clientId msgid data b.waiting.length ok])
    else
      let e : Entry := ⟨⟨clientId, msgid, data⟩, tm⟩
      ({ b with waiting := b.waiting ++ [e] }, [.accept e b.waiting.length])
  | _ => (b, [])

theorem onBackend_waiting (b : Broker) (msg : List Frame) (ok : Bool) :
    (b.onBackend msg ok).1.waiting = b.waiting := by
  unfold onBackend
  split
  · split
    · rfl
    · split <;> rfl
  · rfl

theorem onBackend_workers {b : Broker} {w x : Frame} {msg : List Frame} {ok : Bool}
    (h : x ∈ (b.onBackend (w :: msg) ok).1.workers) :
    x ∈ b.workers ∨ x = w ∧ msg.head? = some workerReady := by
  cases msg with
  | nil => exact .inl h
  | cons clientId rest =>
    simp only [onBackend] at h
    split at h
    · rename_i hr
      rcases PySet.mem_add.mp h with rfl | hx
      · exact .inr ⟨rfl, by simp [hr]⟩
      · exact .inl hx
    · split at h <;> exact .inl h

theorem onFrontend_workers (maxqueue : ℤ) (b : Broker) (msg : List Frame) (tm : ℚ)
    (ok : Bool) : (b.onFrontend maxqueue msg tm ok).1.workers = b.workers := by
  unfold onFrontend
  split
  · split <;> rfl
  · rfl

structure Sent where
  broker : Broker
  count : ℕ
  log : List Event

def sendToWorker (env : Sends) (now : ℚ) (e : Entry) (n : ℕ) (b : Broker) : Sent :=
  match h : b.workers.pop (env.pop n) with
  | none => ⟨b, n, []⟩
  | some (w, ws) =>
    if env.delivers w then ⟨{ b with workers := ws }, n + 1, [.send w e now]⟩
    else
      let waiting := if ws.isEmpty then e :: b.waiting else b.waiting
      let r := sendToWorker env now e (n + 1) ⟨ws, waiting⟩
      { r with log := .fail w e :: r.log }
termination_by b.workers.elems.length
decreasing_by
  have := PySet.pop_length h
  omega

def load (b : Broker) : ℕ := b.workers.elems.length + b.waiting.length

theorem sendToWorker_load (env : Sends) (now : ℚ) (e : Entry) (n : ℕ) (b : Broker) :
    (sendToWorker env now e n b).broker.load ≤ b.load := by
  fun_induction sendToWorker env now e n b with
  | case1 n b h => exact le_rfl
  | case2 n b w ws h hok =>
    have := PySet.pop_length h
    simp only [load]
    omega
  | case3 n b w ws h hfail waiting r ih =>
    have hlen := PySet.pop_length h
    have hwait : waiting.length ≤ b.waiting.length + 1 := by
      simp only [waiting]
      split <;> simp
    refine ih.trans ?_
    simp only [load]
    omega

def dispatchLoop (timeout now : ℚ) (env : Sends) (n : ℕ) (b : Broker) : Broker × List Event :=
  match _hb : b.waiting with
  | [] => (b, [])
  | e :: rest =>
    if b.workers.isEmpty then (b, [])
    else if now - e.tm > timeout then
      let r := dispatchLoop timeout now env n { b with waiting := rest }
      (r.1, .drop e now :: r.2)
    else
      let s := sendToWorker env now e n { b with waiting := rest }
      let r := dispatchLoop timeout now env s.count s.broker
      (r.1, s.log ++ r.2)
termination_by b.load
decreasing_by
  · simp [load, _hb]
  · refine (sendToWorker_load env now e n _).trans_lt ?_
    simp [load, _hb]

def dispatch (timeout : ℤ) (now : ℚ) (env : Sends) (b : Broker) : Broker × List Event :=
  if b.workers.isEmpty || b.waiting.isEmpty then (b, [])
  else dispatchLoop (timeout / 1000) now env 0 b

-- one effect of the dispatch phase at a time: a request stays at the head of the queue
-- while the sends of it fail, which is what pushing it back on the last failure amounts to
inductive Dispatches (timeout now : ℚ) (env : Sends) : Broker → List Event → Broker → Prop where
  | done (b : Broker) : Dispatches timeout now env b [] b
  | drop {b c : Broker} {log : List Event} {e : Entry} {rest : List Entry}
      (hb : b.waiting = e :: rest) (ht : now - e.tm > timeout)
      (h : Dispatches timeout now env ⟨b.workers, rest⟩ log c) :
      Dispatches timeout now env b (.drop e now :: log) c
  | fail {b c : Broker} {log : List Event} {e : Entry} {rest : List Entry} {w : Frame}
      (hb : b.waiting = e :: rest) (hw : w ∈ b.workers) (hf : env.delivers w = false)
      (h : Dispatches timeout now env ⟨b.workers.remove w, e :: rest⟩ log c) :
      Dispatches timeout now env b (.fail w e :: log) c
  | send {b c : Broker} {log : List Event} {e : Entry} {rest : List Entry} {w : Frame}
      (hb : b.waiting = e :: rest) (hw : w ∈ b.workers) (hd : env.delivers w = true)
      (ht : now - e.tm ≤ timeout)
      (h : Dispatches timeout now env ⟨b.workers.remove w, rest⟩ log c) :
      Dispatches timeout now env b (.send w e now :: log) c

theorem sendToWorker_dispatches {timeout now : ℚ} {env : Sends} {e : Entry} {n : ℕ} {b c : Broker}
    {log : List Event} (ht : now - e.tm ≤ timeout) (hb : b.workers.elems ≠ [])
    (h : Dispatches timeout now env (sendToWorker env now e n b).broker log c) :
    Dispatches timeout now env ⟨b.workers, e :: b.waiting⟩
      ((sendToWorker env now e n b).log ++ log) c := by
  fun_induction sendToWorker env now e n b with
  | case1 n b hp => exact absurd (PySet.pop_eq_none.mp hp) hb
  | case2 n b w ws hp hok =>
    obtain ⟨hw, rfl⟩ := PySet.pop_mem hp
    exact .send rfl hw hok ht h
  | case3 n b w ws hp hfail waiting r ih =>
    obtain ⟨hw, rfl⟩ := PySet.pop_mem hp
    refine .fail rfl hw (by simpa using hfail) ?_
    by_cases hws : (b.workers.remove w).elems = []
    · have hr : r = ⟨⟨b.workers.remove w, e :: b.waiting⟩, n + 1, []⟩ := by
        simp only [r, waiting, PySet.isEmpty, hws, List.isEmpty_nil]
        rw [sendToWorker]
        split
        · rfl
        · rename_i hq
          have := PySet.pop_length hq
          simp [hws] at this
      simpa [hr] using h
    · have hq : waiting = b.waiting := by simp [waiting, PySet.isEmpty, hws]
      simpa [r, hq] using ih hws h

theorem dispatchLoop_dispatches (timeout now : ℚ) (env : Sends) (n : ℕ) (b : Broker) :
    Dispatches timeout now env b (dispatchLoop timeout now env n b).2
      (dispatchLoop timeout now env n b).1 := by
  fun_induction dispatchLoop timeout now env n b with
  | case1 n b hb => exact .done b
  | case2 n b e rest hb hw => exact .done b
  | case3 n b e rest hb hw ht r ih => exact .drop hb ht ih
  | case4 n b e rest hb hw ht s r ih =>
    have hne : b.workers.elems ≠ [] := by simpa [PySet.isEmpty] using hw
    have := sendToWorker_dispatches (b := { b with waiting := rest }) (not_lt.mp ht) hne ih
    simpa [← hb] using this

theorem dispatch_dispatches (timeout : ℤ) (now : ℚ) (env : Sends) (b : Broker) :
    Dispatches (timeout / 1000) now env b (dispatch timeout now env b).2
      (dispatch timeout now env b).1 := by
  unfold dispatch
  split
  · exact .done b
  · exact dispatchLoop_dispatches _ now env 0 b

structure Poll where
  backend : Option (List Frame)
  forwarded : Bool
  frontend : Option (List Frame)
  received : ℚ
  rejected : Bool
  now : ℚ
  sends : Sends

def backendPhase (p : Poll) (b : Broker) : Broker × List Event :=
  match p.backend with
  | none => (b, [])
  | some msg => b.onBackend msg p.forwarded

def frontendPhase (maxqueue : ℤ) (p : Poll) (b : Broker) : Broker × List Event :=
  match p.frontend with
  | none => (b, [])
  | some msg => b.onFrontend maxqueue msg p.received p.rejected

def iterate (maxqueue timeout : ℤ) (b : Broker) (p : Poll) : Broker × List Event :=
  let r := b.backendPhase p
  let s := r.1.frontendPhase maxqueue p
  let t := dispatch timeout p.now p.sends s.1
  (t.1, r.2 ++ s.2 ++ t.2)

def runBroker (maxqueue timeout : ℤ) : Broker → List Poll → Broker × List Event
  | b, [] => (b, [])
  | b, p :: ps =>
    let r := iterate maxqueue timeout b p
    let s := runBroker maxqueue timeout r.1 ps
    (s.1, r.2 ++ s.2)

end Broker

end Zmq
