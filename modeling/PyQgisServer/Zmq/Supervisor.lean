import PyQgisServer.Library.EventLoop
import PyQgisServer.Library.Transition

namespace Zmq

open EventLoop Transition

inductive SupervisorMessage (D : Type) where
  | busy
  | done
  | report (data : D)

structure Supervisor (D : Type) where
  loop : EventLoop.Loop ℕ
  timeout : ℤ
  busy : PyDict ℕ ℕ
  stopped : Bool
  reports : PyDict ℕ D

namespace Supervisor

variable {D : Type}

-- run has begun to wait for messages
def init (timeout : ℤ) : Supervisor D := ⟨.init, timeout, .empty, false, .empty⟩

-- none stands for KeyError, raised before os.kill; a process that is gone is ignored
def kill (s : Supervisor D) (pid : ℕ) : Option (Supervisor D) :=
  match s.busy.get? pid with
  | none => none
  | some _ => some { s with busy := s.busy.erase pid }

-- one turn of the loop of run_async
def receive (s : Supervisor D) (pid : ℕ) : SupervisorMessage D → Supervisor D
  | .busy => { s with loop := s.loop.callLater s.timeout pid, busy := s.busy.set pid s.loop.created }
  | .done =>
    match s.busy.get? pid with
    | none => s
    | some th => { s with loop := s.loop.cancel th, busy := s.busy.erase pid }
  | .report data => { s with reports := s.reports.set pid data }

def stop (s : Supervisor D) : Supervisor D :=
  { s with stopped := true, loop := s.busy.values.foldl EventLoop.Loop.cancel s.loop, busy := .empty }

inductive Event where
  | received (pid : ℕ) (busy : Bool) (t : ℚ)
  | killed (pid : ℕ) (t : ℚ)
  | raised (pid : ℕ) (t : ℚ)
  deriving DecidableEq

-- the last event first
structure Run (D : Type) where
  supervisor : Supervisor D
  log : List Event

def received (log : List Event) (pid : ℕ) (t : ℚ) : SupervisorMessage D → List Event
  | .busy => .received pid true t :: log
  | .done => .received pid false t :: log
  | .report _ => log

inductive Action (D : Type) where
  | wait (d : ℚ)
  | receive (pid : ℕ) (msg : SupervisorMessage D)
  | fire (th : ℕ)
  | stop

-- stop cancels the task that receives, before its next message
def step (r : Run D) : Action D → Option (Run D)
  | .wait d =>
    if 0 ≤ d then some { r with supervisor := { r.supervisor with loop := r.supervisor.loop.wait d } } else none
  | .receive pid msg =>
    if r.supervisor.stopped then none
    else some ⟨r.supervisor.receive pid msg, received r.log pid r.supervisor.loop.time msg⟩
  | .fire th =>
    match r.supervisor.loop.pop th with
    | none => none
    | some (pid, loop) =>
      match { r.supervisor with loop := loop }.kill pid with
      | none => some ⟨{ r.supervisor with loop := loop }, .raised pid loop.time :: r.log⟩
      | some supervisor => some ⟨supervisor, .killed pid loop.time :: r.log⟩
  | .stop => some { r with supervisor := r.supervisor.stop }

def start (timeout : ℤ) : Run D := ⟨.init timeout, []⟩

def Event.message (pid : ℕ) : Event → Option (Bool × ℚ)
  | .received p busy t => if p = pid then some (busy, t) else none
  | _ => none

def lastMessage (log : List Event) (pid : ℕ) : Option (Bool × ℚ) := log.findSome? (Event.message pid)

def Stalled (timeout : ℤ) (log : List Event) (pid : ℕ) (t : ℚ) : Prop :=
  ∃ u, lastMessage log pid = some (true, u) ∧ u + timeout ≤ t

def OnlyStalled (timeout : ℤ) : List Event → Prop
  | [] => True
  | .killed pid t :: log => Stalled timeout log pid t ∧ OnlyStalled timeout log
  | _ :: log => OnlyStalled timeout log

structure Safe (r : Run D) : Prop where
  stalled : OnlyStalled r.supervisor.timeout r.log
  quiet : ∀ pid t, .raised pid t ∉ r.log
  disarmed : r.supervisor.stopped = true → ∀ th, r.supervisor.loop.armed th = none

def Answered (r : Run D) : Action D → Prop
  | .receive pid .busy => r.supervisor.busy.get? pid = none
  | _ => True

section step

variable {r q : Run D} {a : Action D}

theorem fire_eq_some {th : ℕ} (h : step r (.fire th) = some q) :
    ∃ pid due, r.supervisor.loop.armed th = some ⟨pid, due⟩ ∧ due ≤ r.supervisor.loop.time ∧
      (r.supervisor.busy.get? pid = none ∧
        q = ⟨{ r.supervisor with loop := r.supervisor.loop.cancel th },
          .raised pid r.supervisor.loop.time :: r.log⟩ ∨
      r.supervisor.busy.get? pid ≠ none ∧
        q = ⟨{ r.supervisor with loop := r.supervisor.loop.cancel th, busy := r.supervisor.busy.erase pid },
          .killed pid r.supervisor.loop.time :: r.log⟩) := by
  cases hp : r.supervisor.loop.pop th with
  | none => simp [step, hp] at h
  | some popped =>
    obtain ⟨pid, loop⟩ := popped
    obtain ⟨due, harmed, hdue, rfl⟩ := EventLoop.Loop.pop_eq_some hp
    refine ⟨pid, due, harmed, hdue, ?_⟩
    cases hb : r.supervisor.busy.get? pid with
    | none =>
      refine .inl ⟨rfl, ?_⟩
      simpa [step, hp, kill, hb] using h.symm
    | some entry =>
      refine .inr ⟨by simp, ?_⟩
      simpa [step, hp, kill, hb] using h.symm

theorem wait_eq_some {d : ℚ} (h : step r (.wait d) = some q) :
    q = { r with supervisor := { r.supervisor with loop := r.supervisor.loop.wait d } } := by
  simp only [step] at h
  split at h
  · exact (Option.some.inj h).symm
  · cases h

theorem receive_eq_some {pid : ℕ} {msg : SupervisorMessage D} (h : step r (.receive pid msg) = some q) :
    r.supervisor.stopped = false ∧
      q = ⟨r.supervisor.receive pid msg, received r.log pid r.supervisor.loop.time msg⟩ := by
  cases hs : r.supervisor.stopped with
  | true => simp [step, hs] at h
  | false => exact ⟨rfl, by simpa [step, hs] using h.symm⟩

end step

theorem armed_stop (s : Supervisor D) (th : ℕ) :
    s.stop.loop.armed th = if th ∈ s.busy.values then none else s.loop.armed th :=
  EventLoop.Loop.armed_cancelAll s.loop s.busy.values th

def Held (s : Supervisor D) : Prop := ∀ pid th, s.busy.get? pid = some th → ∃ due, s.loop.armed th = some ⟨pid, due⟩

theorem Held.pid_eq {s : Supervisor D} (h : Held s) {pid qid th : ℕ} {due : ℚ} (hb : s.busy.get? pid = some th)
    (ha : s.loop.armed th = some ⟨qid, due⟩) : pid = qid := by
  obtain ⟨due', ha'⟩ := h pid th hb
  rw [ha] at ha'
  exact (congrArg TimerHandle.arg (Option.some.inj ha')).symm

theorem held_erase {s : Supervisor D} (h : Held s) {pid th : ℕ} {due : ℚ} (ha : s.loop.armed th = some ⟨pid, due⟩) :
    Held { s with loop := s.loop.cancel th, busy := s.busy.erase pid } := by
  intro qid k hk
  simp only [PyDict.get?_erase] at hk
  split at hk
  · cases hk
  · rename_i hne
    obtain ⟨due', hk'⟩ := h qid k hk
    refine ⟨due', ?_⟩
    rw [EventLoop.Loop.armed_cancel, if_neg ?_, hk']
    rintro rfl
    exact hne (h.pid_eq hk ha)

theorem held_step {r q : Run D} {a : Action D} (h : Held r.supervisor) (hs : step r a = some q) :
    Held q.supervisor := by
  cases a with
  | wait d =>
    obtain rfl := wait_eq_some hs
    exact h
  | stop =>
    cases hs
    intro pid th hb
    cases hb
  | fire th =>
    obtain ⟨pid, due, ha, -, ⟨hb, rfl⟩ | ⟨-, rfl⟩⟩ := fire_eq_some hs
    · intro qid k hk
      obtain ⟨due', hk'⟩ := h qid k hk
      refine ⟨due', ?_⟩
      rw [EventLoop.Loop.armed_cancel, if_neg ?_, hk']
      rintro rfl
      rw [h.pid_eq hk ha, hb] at hk
      cases hk
    · exact held_erase h ha
  | receive pid msg =>
    obtain ⟨-, rfl⟩ := receive_eq_some hs
    cases msg with
    | report data => exact h
    | done =>
      simp only [receive]
      split
      · exact h
      · rename_i th hb
        obtain ⟨due, ha⟩ := h pid th hb
        exact held_erase h ha
    | busy =>
      intro qid th hb
      simp only [receive, PyDict.get?_set] at hb ⊢
      rw [EventLoop.Loop.armed_callLater]
      split at hb
      · rename_i heq
        obtain rfl := Option.some.inj hb
        exact ⟨_, by rw [if_pos rfl, heq]⟩
      · obtain ⟨due, ha⟩ := h qid th hb
        have hlt := EventLoop.Loop.lt_created ha
        exact ⟨due, by rw [if_neg hlt.ne, ha]⟩

structure Matched (r : Run D) : Prop where
  held : Held r.supervisor
  entry : ∀ pid th due, r.supervisor.loop.armed th = some ⟨pid, due⟩ → r.supervisor.busy.get? pid = some th
  since : ∀ pid th due, r.supervisor.loop.armed th = some ⟨pid, due⟩ →
    ∃ u, lastMessage r.log pid = some (true, u) ∧ u + r.supervisor.timeout = due
  safe : Safe r

theorem matched_start (timeout : ℤ) : Matched (start timeout : Run D) where
  held := fun pid th h => by cases h
  entry := fun pid th due h => by cases h
  since := fun pid th due h => by cases h
  safe := ⟨trivial, by simp [start], fun _ _ => rfl⟩

section matched

variable {r : Run D} {log : List Event}

theorem matched_wait (h : Matched r) (d : ℚ) :
    Matched { r with supervisor := { r.supervisor with loop := r.supervisor.loop.wait d } } :=
  ⟨h.held, h.entry, h.since, h.safe.stalled, h.safe.quiet, h.safe.disarmed⟩

theorem matched_stop (h : Matched r) : Matched { r with supervisor := r.supervisor.stop } := by
  have hgone : ∀ th, r.supervisor.stop.loop.armed th = none := by
    intro th
    rw [armed_stop]
    split
    · rfl
    · rename_i hnot
      cases ha : r.supervisor.loop.armed th with
      | none => rfl
      | some timer => exact absurd (PyDict.mem_values.mpr ⟨timer.arg, h.entry _ th timer.due ha⟩) hnot
  refine ⟨fun pid th hb => ?_, fun pid th due ha => ?_, fun pid th due ha => ?_, h.safe.stalled, h.safe.quiet,
    fun _ => hgone⟩
  · cases hb
  · rw [hgone] at ha
    cases ha
  · rw [hgone] at ha
    cases ha

theorem matched_erase (h : Matched r) {pid th : ℕ} {due : ℚ} (ha : r.supervisor.loop.armed th = some ⟨pid, due⟩)
    (hlog : ∀ qid, qid ≠ pid → lastMessage log qid = lastMessage r.log qid)
    (hstalled : OnlyStalled r.supervisor.timeout log) (hquiet : ∀ qid t, .raised qid t ∉ log) :
    Matched ⟨{ r.supervisor with loop := r.supervisor.loop.cancel th, busy := r.supervisor.busy.erase pid }, log⟩ := by
  have hother : ∀ qid k due', (r.supervisor.loop.cancel th).armed k = some ⟨qid, due'⟩ →
      qid ≠ pid ∧ r.supervisor.loop.armed k = some ⟨qid, due'⟩ := by
    intro qid k due' hk
    rw [EventLoop.Loop.armed_cancel] at hk
    split at hk
    · cases hk
    · rename_i hne
      refine ⟨?_, hk⟩
      rintro rfl
      exact hne (Option.some.inj ((h.entry qid k due' hk).symm.trans (h.entry qid th due ha)))
  refine ⟨held_erase h.held ha, fun qid k due' hk => ?_, fun qid k due' hk => ?_, hstalled, hquiet, fun hs k => ?_⟩
  · obtain ⟨hne, hk⟩ := hother qid k due' hk
    simp only [PyDict.get?_erase]
    rw [if_neg hne, h.entry qid k due' hk]
  · obtain ⟨hne, hk⟩ := hother qid k due' hk
    simp only [hlog qid hne]
    exact h.since qid k due' hk
  · rw [EventLoop.Loop.armed_cancel, h.safe.disarmed hs k, ite_self]

theorem matched_busy (h : Matched r) {pid : ℕ} (hs : r.supervisor.stopped = false)
    (hb : r.supervisor.busy.get? pid = none) :
    Matched ⟨r.supervisor.receive pid .busy, .received pid true r.supervisor.loop.time :: r.log⟩ := by
  have hheld : Held (r.supervisor.receive pid .busy) :=
    held_step (a := .receive pid .busy) h.held (by simp [step, hs]; rfl)
  refine ⟨hheld, fun qid th due ha => ?_, fun qid th due ha => ?_, h.safe.stalled, fun qid t hr => ?_, fun hc => ?_⟩
  · simp only [receive, EventLoop.Loop.armed_callLater, PyDict.get?_set] at ha ⊢
    split at ha
    · rename_i hth
      rw [if_pos (congrArg TimerHandle.arg (Option.some.inj ha)).symm, hth]
    · have hentry := h.entry qid th due ha
      rw [if_neg ?_, hentry]
      rintro rfl
      rw [hb] at hentry
      cases hentry
  · simp only [receive, EventLoop.Loop.armed_callLater] at ha ⊢
    split at ha
    · cases ha
      exact ⟨r.supervisor.loop.time, by simp [lastMessage, Event.message], rfl⟩
    · obtain ⟨u, hu, hdue⟩ := h.since qid th due ha
      have hne : pid ≠ qid := by
        rintro rfl
        rw [h.entry pid th due ha] at hb
        cases hb
      exact ⟨u, by rw [← hu]; simp [lastMessage, Event.message, hne], hdue⟩
  · exact h.safe.quiet qid t (by simpa using hr)
  · exact absurd hc (by simp [receive, hs])

end matched

theorem lastMessage_cons_ne {log : List Event} {e : Event} {pid : ℕ} (h : e.message pid = none) :
    lastMessage (e :: log) pid = lastMessage log pid := by
  rw [lastMessage, List.findSome?_cons, h]
  rfl

theorem matched_done {r : Run D} (h : Matched r) (pid : ℕ) :
    Matched ⟨r.supervisor.receive pid .done, .received pid false r.supervisor.loop.time :: r.log⟩ := by
  have hlog : ∀ qid, qid ≠ pid →
      lastMessage (.received pid false r.supervisor.loop.time :: r.log) qid = lastMessage r.log qid :=
    fun qid hne => lastMessage_cons_ne (by simp [Event.message, hne.symm])
  have hquiet : ∀ qid t, .raised qid t ∉ .received pid false r.supervisor.loop.time :: r.log := by
    intro qid t hr
    exact h.safe.quiet qid t (by simpa using hr)
  cases hb : r.supervisor.busy.get? pid with
  | some th =>
    obtain ⟨due, ha⟩ := h.held pid th hb
    have hdone := matched_erase h ha hlog h.safe.stalled hquiet
    simpa only [receive, hb] using hdone
  | none =>
    simp only [receive, hb]
    refine ⟨h.held, h.entry, fun qid th due ha => ?_, h.safe.stalled, hquiet, h.safe.disarmed⟩
    rw [hlog qid]
    · exact h.since qid th due ha
    · rintro rfl
      rw [h.entry qid th due ha] at hb
      cases hb

theorem matched_step {r q : Run D} {a : Action D} (h : Matched r) (ha : Answered r a) (hs : step r a = some q) :
    Matched q := by
  cases a with
  | wait d =>
    obtain rfl := wait_eq_some hs
    exact matched_wait h d
  | stop =>
    cases hs
    exact matched_stop h
  | receive pid msg =>
    obtain ⟨hstopped, rfl⟩ := receive_eq_some hs
    cases msg with
    | busy => exact matched_busy h hstopped ha
    | done => exact matched_done h pid
    | report data => exact ⟨h.held, h.entry, h.since, h.safe.stalled, h.safe.quiet, h.safe.disarmed⟩
  | fire th =>
    obtain ⟨pid, due, harmed, hdue, ⟨hb, -⟩ | ⟨-, rfl⟩⟩ := fire_eq_some hs
    · rw [h.entry pid th due harmed] at hb
      cases hb
    · obtain ⟨u, hu, rfl⟩ := h.since pid th due harmed
      refine matched_erase h harmed (fun qid _ => lastMessage_cons_ne rfl) ⟨⟨u, hu, hdue⟩, h.safe.stalled⟩ ?_
      intro qid t hr
      exact h.safe.quiet qid t (by simpa using hr)

def Orphan (s : Supervisor D) : Prop := ∃ pid th due, s.loop.armed th = some ⟨pid, due⟩ ∧ s.busy.get? pid ≠ some th

def Stray (r : Run D) : Prop := Orphan r.supervisor ∨ ∃ pid t, .raised pid t ∈ r.log

theorem orphan_busy {r : Run D} {pid : ℕ} (h : Held r.supervisor) (hb : r.supervisor.busy.get? pid ≠ none) :
    Orphan (r.supervisor.receive pid .busy) := by
  obtain ⟨th, hth⟩ := Option.ne_none_iff_exists'.mp hb
  obtain ⟨due, ha⟩ := h pid th hth
  have hlt := EventLoop.Loop.lt_created ha
  refine ⟨pid, th, due, ?_, ?_⟩
  · simp only [receive, EventLoop.Loop.armed_callLater]
    rw [if_neg hlt.ne, ha]
  · simp only [receive, PyDict.get?_set, if_pos]
    exact fun heq => hlt.ne' (Option.some.inj heq)

theorem orphan_erase {s : Supervisor D} (h : Held s) {pid qid th k : ℕ} {due due' : ℚ}
    (ha : s.loop.armed th = some ⟨pid, due⟩) (hb : s.busy.get? pid ≠ some th)
    (hk : s.loop.armed k = some ⟨qid, due'⟩) (hentry : s.busy.get? qid ≠ none) :
    Orphan { s with loop := s.loop.cancel k, busy := s.busy.erase qid } := by
  by_cases heq : th = k
  · -- the entry that goes is that of a later timer, which stays armed
    subst heq
    obtain rfl : pid = qid := congrArg TimerHandle.arg (Option.some.inj (ha.symm.trans hk))
    obtain ⟨later, hlater⟩ := Option.ne_none_iff_exists'.mp hentry
    obtain ⟨due'', ha'⟩ := h pid later hlater
    have hne : later ≠ th := by
      rintro rfl
      exact hb hlater
    refine ⟨pid, later, due'', ?_, by simp [PyDict.get?_erase]⟩
    rw [EventLoop.Loop.armed_cancel, if_neg hne, ha']
  · refine ⟨pid, th, due, ?_, ?_⟩
    · rw [EventLoop.Loop.armed_cancel, if_neg heq, ha]
    · simp only [PyDict.get?_erase]
      split
      · simp
      · exact hb

theorem log_step {r q : Run D} {a : Action D} (hs : step r a = some q) : r.log <:+ q.log := by
  cases a with
  | wait d =>
    obtain rfl := wait_eq_some hs
    exact List.suffix_rfl
  | stop =>
    cases hs
    exact List.suffix_rfl
  | fire k =>
    obtain ⟨qid, due, -, -, ⟨-, rfl⟩ | ⟨-, rfl⟩⟩ := fire_eq_some hs
    · exact List.suffix_cons _ _
    · exact List.suffix_cons _ _
  | receive qid msg =>
    obtain ⟨-, rfl⟩ := receive_eq_some hs
    cases msg with
    | report data => exact List.suffix_rfl
    | done => exact List.suffix_cons _ _
    | busy => exact List.suffix_cons _ _

theorem orphan_receive {r : Run D} (hheld : Held r.supervisor) {pid th : ℕ} {due : ℚ}
    (ha : r.supervisor.loop.armed th = some ⟨pid, due⟩) (hb : r.supervisor.busy.get? pid ≠ some th) (qid : ℕ)
    (msg : SupervisorMessage D) : Orphan (r.supervisor.receive qid msg) := by
  cases msg with
  | report data => exact ⟨pid, th, due, ha, hb⟩
  | done =>
    simp only [receive]
    split
    · exact ⟨pid, th, due, ha, hb⟩
    · rename_i k hk
      obtain ⟨due', hk'⟩ := hheld qid k hk
      exact orphan_erase hheld ha hb hk' (by simp [hk])
  | busy =>
    have hlt := EventLoop.Loop.lt_created ha
    refine ⟨pid, th, due, ?_, ?_⟩
    · simp only [receive, EventLoop.Loop.armed_callLater]
      rw [if_neg hlt.ne, ha]
    · simp only [receive, PyDict.get?_set]
      split
      · exact fun heq => hlt.ne' (Option.some.inj heq)
      · exact hb

theorem stray_step {r q : Run D} {a : Action D} (hheld : Held r.supervisor) (h : Stray r) (hs : step r a = some q) :
    Stray q := by
  rcases h with ⟨pid, th, due, ha, hb⟩ | ⟨pid, t, hr⟩
  · cases a with
    | wait d =>
      obtain rfl := wait_eq_some hs
      exact .inl ⟨pid, th, due, ha, hb⟩
    | stop =>
      cases hs
      refine .inl ⟨pid, th, due, ?_, by simp [Supervisor.stop, PyDict.get?, PyDict.empty]⟩
      rw [armed_stop, if_neg ?_, ha]
      intro hmem
      obtain ⟨qid, hq⟩ := PyDict.mem_values.mp hmem
      obtain rfl := hheld.pid_eq hq ha
      exact hb hq
    | fire k =>
      obtain ⟨qid, due', hk, -, ⟨hnone, rfl⟩ | ⟨hentry, rfl⟩⟩ := fire_eq_some hs
      · exact .inr ⟨qid, _, List.mem_cons_self⟩
      · exact .inl (orphan_erase hheld ha hb hk hentry)
    | receive qid msg =>
      obtain ⟨-, rfl⟩ := receive_eq_some hs
      exact .inl (orphan_receive hheld ha hb qid msg)
  · exact .inr ⟨pid, t, (log_step hs).subset hr⟩

theorem stray_run {r q : Run D} {as : List (Action D)} (hheld : Held r.supervisor) (h : Stray r)
    (hr : run step r as = some q) : Stray q := by
  induction as generalizing r with
  | nil => exact Option.some.inj hr ▸ h
  | cons a as ih =>
    obtain ⟨u, hu, hr⟩ := Option.bind_eq_some_iff.mp hr
    exact ih (held_step hheld hu) (stray_step hheld h hu) hr

theorem meets_or_stray {r q : Run D} {as : List (Action D)} (hheld : Held r.supervisor)
    (hr : run step r as = some q) : Meets step Answered r as ∨ Stray q := by
  induction as generalizing r with
  | nil => exact .inl trivial
  | cons a as ih =>
    obtain ⟨u, hu, hr⟩ := Option.bind_eq_some_iff.mp hr
    have hrest := ih (held_step hheld hu) hr
    by_cases ha : Answered r a
    · refine hrest.imp_left fun hm => ⟨ha, fun t ht => ?_⟩
      obtain rfl := Option.some.inj (hu.symm.trans ht)
      exact hm
    · cases a with
      | receive pid msg =>
        obtain ⟨-, rfl⟩ := receive_eq_some hu
        cases msg with
        | busy => exact .inr (stray_run (held_step hheld hu) (.inl (orphan_busy hheld ha)) hr)
        | done => exact absurd trivial ha
        | report data => exact absurd trivial ha
      | wait d => exact absurd trivial ha
      | fire th => exact absurd trivial ha
      | stop => exact absurd trivial ha

theorem Safe.not_stray {r : Run D} (h : Safe r) (hs : r.supervisor.stopped = true) : ¬ Stray r := by
  rintro (⟨pid, th, due, ha, -⟩ | ⟨pid, t, hr⟩)
  · rw [h.disarmed hs th] at ha
    cases ha
  · exact h.quiet pid t hr

theorem run_safe_iff_answered (timeout : ℤ) (as : List (Action D)) (r : Run D)
    (hr : run step (start timeout) as = some r) :
    (Meets step Answered (start timeout) as → Safe r) ∧
      (r.supervisor.stopped = true → Safe r → Meets step Answered (start timeout) as) := by
  constructor
  · intro hm
    have hreach := Reach.start.of_run hm hr
    have hmatched : Matched r := hreach.invariant (matched_start timeout) fun _ _ _ => matched_step
    exact hmatched.safe
  · intro hs hsafe
    exact (meets_or_stray (matched_start timeout).held hr).resolve_right (hsafe.not_stray hs)

theorem stalled_worker_is_killed : ∃ r : Run Unit,
    r.log = [.killed 7 10, .received 7 true 0] ∧ r.supervisor.stopped = true ∧ Safe r := by
  have hrun : (run step (start 10 : Run Unit) [.receive 7 .busy, .wait 10, .fire 0, .stop]).any
      (fun r => r.log = [.killed 7 10, .received 7 true 0] ∧ r.supervisor.stopped = true) = true := by
    decide +kernel
  obtain ⟨r, hr, hstate⟩ := (Option.any_eq_true _ _).mp hrun
  obtain ⟨hlog, hstopped⟩ := of_decide_eq_true hstate
  refine ⟨r, hlog, hstopped, (run_safe_iff_answered _ _ r hr).1 ⟨rfl, fun _ _ => ⟨trivial, fun _ _ => ?_⟩⟩⟩
  exact ⟨trivial, fun _ _ => ⟨trivial, fun _ _ => trivial⟩⟩

-- the DONE of the first request is lost, and the second is killed after half of the timeout
theorem lost_done_kills_busy_worker : ∃ r : Run Unit,
    run step (start 10 : Run Unit) [.receive 7 .busy, .wait 5, .receive 7 .busy, .wait 5, .fire 0] = some r ∧
      r.log = [.killed 7 10, .received 7 true 5, .received 7 true 0] ∧ ¬ Safe r := by
  have hrun : (run step (start 10 : Run Unit)
      [.receive 7 .busy, .wait 5, .receive 7 .busy, .wait 5, .fire 0]).any (fun r =>
        r.log = [.killed 7 10, .received 7 true 5, .received 7 true 0] ∧ r.supervisor.timeout = 10) = true := by
    decide +kernel
  obtain ⟨r, hr, hstate⟩ := (Option.any_eq_true _ _).mp hrun
  obtain ⟨hlog, htimeout⟩ := of_decide_eq_true hstate
  refine ⟨r, hr, hlog, fun h => ?_⟩
  have hstalled := h.stalled
  rw [hlog, htimeout] at hstalled
  obtain ⟨⟨u, hu, hle⟩, -⟩ := hstalled
  obtain rfl : (5 : ℚ) = u := congrArg Prod.snd (Option.some.inj hu)
  exact absurd hle (by decide +kernel)

end Supervisor

end Zmq
