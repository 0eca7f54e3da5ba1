import PyQgisServer.Zmq.Outstanding
import PyQgisServer.Zmq.Supervisor

namespace Zmq

open Links Transition

section alternates

def Alternates : Bool → List Bool → Bool → Prop
  | a, [], b => a = b
  | a, x :: xs, b => x = !a ∧ Alternates x xs b

theorem Alternates.concat {a b : Bool} {xs : List Bool} (h : Alternates a xs b) : Alternates a (xs ++ [!b]) (!b) := by
  induction xs generalizing a with
  | nil =>
    obtain rfl : a = b := h
    exact ⟨rfl, rfl⟩
  | cons x xs ih => exact ⟨h.1, ih h.2⟩

end alternates

structure SupervisorClient where
  busy : Bool

abbrev Notice (D : Type) := SupervisorClient × Option (SupervisorMessage D)

namespace SupervisorClient

variable {D : Type}

def notifyDone (c : SupervisorClient) : Notice D :=
  if c.busy then (⟨false⟩, some .done) else (c, none)

def notifyBusy (c : SupervisorClient) : Notice D :=
  if c.busy then (c, none) else (⟨true⟩, some .busy)

end SupervisorClient

def SupervisorMessage.flag {D : Type} : SupervisorMessage D → Option Bool
  | .busy => some true
  | .done => some false
  | .report _ => none

-- a worker process has its own pid and its own identity at the broker; the pipe goes to the supervisor
structure Supervised (D : Type) where
  pool : Pool
  client : ℕ → SupervisorClient
  pipe : Links ℕ (SupervisorMessage D)
  run : Supervisor.Run D

-- sent is false for a message that is dropped on EAGAIN
inductive SupervisedAct (D : Type) where
  | pool (a : Act)
  | work (pid : ℕ) (a : Work) (sent : Bool)
  | report (pid : ℕ) (data : D) (sent : Bool)
  | crash (pid : ℕ)
  | deliver (pid : ℕ)
  | wait (d : ℚ)
  | fire (th : ℕ)
  | stop

def SupervisedAct.delivered {D : Type} : SupervisedAct D → Bool
  | .work _ _ sent => sent
  | .report _ _ sent => sent
  | _ => true

def Act.ofWorker : Act → Bool
  | .work _ _ | .crash _ => true
  | _ => false

namespace Supervised

variable {D : Type}

def init (timeout : ℤ) : Supervised D := ⟨.init, fun _ => ⟨false⟩, [], Supervisor.start timeout⟩

def notification (s : Pool) (w : Frame) (a : Work) (c : SupervisorClient) : Notice D :=
  match a with
  | .recv =>
    match Links.recv w s.down with
    | some (m, _) =>
      match m.data.loads with
      | some (.request _) => c.notifyBusy
      | _ => c.notifyDone
    | none => (c, none)
  | .again | .done | .fail => c.notifyDone
  | _ => (c, none)

def push (pid : ℕ) (sent : Bool) (msg : Option (SupervisorMessage D)) : Links ℕ (SupervisorMessage D) :=
  if sent then msg.toList.map (pid, ·) else []

def kill (ident : ℕ ↪ Frame) (log : List Supervisor.Event) (s : Pool) : Pool :=
  match log with
  | .killed pid _ :: _ => s.goto (ident pid) (.closed false)
  | _ => s

def step (ident : ℕ ↪ Frame) (maxqueue timeout : ℤ) (s : Supervised D) : SupervisedAct D → Option (Supervised D)
  | .pool a => if a.ofWorker then none else (Pool.step maxqueue timeout s.pool a).map fun pool => { s with pool }
  | .work pid a sent =>
    (s.pool.work (ident pid) a).map fun pool =>
      let n := notification s.pool (ident pid) a (s.client pid)
      { s with pool, client := Function.update s.client pid n.1, pipe := s.pipe ++ push pid sent n.2 }
  | .report pid data sent =>
    if s.pool.worker (ident pid) = .checking then
      some { s with pipe := s.pipe ++ push pid sent (some (.report data)) }
    else none
  | .crash pid => some { s with pool := s.pool.goto (ident pid) (.closed false) }
  | .deliver pid =>
    match Links.recv pid s.pipe with
    | some (msg, pipe) => (Supervisor.step s.run (.receive pid msg)).map fun run => { s with pipe, run }
    | none => none
  | .wait d => (Supervisor.step s.run (.wait d)).map fun run => { s with run }
  | .fire th =>
    (Supervisor.step s.run (.fire th)).map fun run => { s with pool := kill ident run.log s.pool, run }
  | .stop => (Supervisor.step s.run .stop).map fun run => { s with run }

def pending (s : Supervised D) (pid : ℕ) : List Bool := (queue pid s.pipe).filterMap SupervisorMessage.flag

def received (s : Supervised D) (pid : ℕ) : Bool := (Supervisor.lastMessage s.run.log pid).any (·.1)

structure Tracks (l : Loop) (c : SupervisorClient) : Prop where
  busy : c.busy = true → (∃ h, l = .handling h) ∨ ∃ restart, l = .closed restart
  handling : ∀ h, l = .handling h → c.busy = true

structure Notified (c : SupervisorClient) (n : Notice D) : Prop where
  flag : n.2.toList.filterMap SupervisorMessage.flag = if n.1.busy = c.busy then [] else [n.1.busy]

theorem notifyDone_notified (c : SupervisorClient) : Notified c (c.notifyDone : Notice D) := by
  constructor
  cases hb : c.busy with
  | false => simp [SupervisorClient.notifyDone, hb]
  | true => simp [SupervisorClient.notifyDone, hb, SupervisorMessage.flag]

theorem notifyBusy_notified (c : SupervisorClient) : Notified c (c.notifyBusy : Notice D) := by
  constructor
  cases hb : c.busy with
  | false => simp [SupervisorClient.notifyBusy, hb, SupervisorMessage.flag]
  | true => simp [SupervisorClient.notifyBusy, hb]

theorem notification_notified (s : Pool) (w : Frame) (a : Work) (c : SupervisorClient) :
    Notified c (notification s w a c : Notice D) := by
  have hnone : Notified c ((c, none) : Notice D) := ⟨by simp⟩
  cases a with
  | recv =>
    simp only [notification]
    split
    · split
      · exact notifyBusy_notified c
      · exact notifyDone_notified c
    · exact hnone
  | again | done | fail => exact notifyDone_notified c
  | _ => exact hnone

theorem tracks_idle {l : Loop} {c : SupervisorClient} (hb : c.busy = false) (hl : ∀ h, l ≠ .handling h) :
    Tracks l c where
  busy := fun ht => by rw [hb] at ht; cases ht
  handling := fun g hg => absurd hg (hl g)

theorem tracks_closed (c : SupervisorClient) (restart : Bool) : Tracks (.closed restart) c where
  busy := fun _ => .inr ⟨restart, rfl⟩
  handling := fun g hg => by cases hg

theorem busy_notifyDone (c : SupervisorClient) : (c.notifyDone : Notice D).1.busy = false := by
  cases hc : c.busy with
  | false => simp [SupervisorClient.notifyDone, hc]
  | true => simp [SupervisorClient.notifyDone, hc]

theorem Tracks.idle {l : Loop} {c : SupervisorClient} (h : Tracks l c) (hh : ∀ h, l ≠ .handling h)
    (hc : ∀ r, l ≠ .closed r) : c.busy = false := by
  by_contra hb
  rcases h.busy (by simpa using hb) with ⟨g, hg⟩ | ⟨r, hr⟩
  · exact hh g hg
  · exact hc r hr

theorem work_tracks {s t : Pool} {w : Frame} {a : Work} {c : SupervisorClient} (h : Tracks (s.worker w) c)
    (hw : s.work w a = some t) : Tracks (t.worker w) (notification s w a c : Notice D).1 := by
  have hdone : ∀ l, (∀ h, l ≠ .handling h) → Tracks l (c.notifyDone : Notice D).1 :=
    fun l => tracks_idle (busy_notifyDone c)
  cases Pool.work_works hw with
  | ready hl | restart hl | next hl | close hl =>
    exact tracks_idle (h.idle (by simp [hl]) (by simp [hl])) (by simp)
  | again hl => exact hdone _ (by simp)
  | @recv m down r hl hr hm =>
    have hb : c.busy = false := h.idle (by simp [hl]) (by simp [hl])
    simp only [notification, hr, hm, SupervisorClient.notifyBusy, hb]
    exact ⟨fun _ => .inl ⟨_, Pool.goto_self _ _ _⟩, fun _ _ => rfl⟩
  | @garbage m down hl hr hm =>
    simp only [notification, hr]
    exact hdone _ (by simp)
  | @write g statusCode headers data sendMore metadata ok hl =>
    exact ⟨fun _ => .inl ⟨_, Pool.goto_self _ _ _⟩, fun _ _ => h.handling g hl⟩
  | done hl => exact hdone _ (by simp)
  | fail hl hh => exact hdone _ (by simp)

theorem work_running {s t : Pool} {w : Frame} {a : Work} (hw : s.work w a = some t) (r : Bool) :
    s.worker w ≠ .closed r := by
  cases Pool.work_works hw with
  | _ => simp_all

theorem pool_worker {maxqueue timeout : ℤ} {s t : Pool} {a : Act} (ha : a.ofWorker = false)
    (h : Pool.step maxqueue timeout s a = some t) : t.worker = s.worker := by
  cases a with
  | backend w ok =>
    obtain ⟨msg, up, -, rfl⟩ := Pool.step_backend h
    rfl
  | frontend c m q tm ok => rw [Pool.step_frontend h]
  | dispatch now env =>
    obtain ⟨b, log, -, rfl⟩ := Pool.step_dispatch h
    rfl
  | work w a => cases ha
  | crash w => cases ha
  | loseUp i | loseDown i =>
    cases h
    rfl

structure Synced (ident : ℕ ↪ Frame) (timeout : ℤ) (s : Supervised D) : Prop where
  timeout : s.run.supervisor.timeout = timeout
  matched : Supervisor.Matched s.run
  tracks : ∀ pid, Tracks (s.pool.worker (ident pid)) (s.client pid)
  alternates : ∀ pid, Alternates (s.received pid) (s.pending pid) (s.client pid).busy
  entry : ∀ pid, s.run.supervisor.busy.get? pid ≠ none → s.received pid = true
  armed : s.run.supervisor.stopped = false → ∀ pid, (∀ r, s.pool.worker (ident pid) ≠ .closed r) →
    s.received pid = true → s.run.supervisor.busy.get? pid ≠ none

section synced

variable {ident : ℕ ↪ Frame} {maxqueue timeout killTimeout : ℤ} {s : Supervised D}

theorem init_synced : Synced ident killTimeout (init killTimeout : Supervised D) where
  timeout := rfl
  matched := Supervisor.matched_start killTimeout
  tracks := fun pid => tracks_idle rfl (by simp [init, Pool.init])
  alternates := fun pid => rfl
  entry := fun pid h => absurd rfl h
  armed := fun _ pid _ h => by cases h

theorem pending_push (s : Supervised D) (pid qid : ℕ) (msg : Option (SupervisorMessage D)) :
    (queue qid (s.pipe ++ push pid true msg)).filterMap SupervisorMessage.flag =
      s.pending qid ++ if qid = pid then msg.toList.filterMap SupervisorMessage.flag else [] := by
  rw [queue_append, List.filterMap_append]
  refine congrArg (s.pending qid ++ ·) ?_
  cases msg with
  | none => simp [push]
  | some m =>
    by_cases h : qid = pid
    · simp [push, h]
    · simp [push, h, queue_cons_ne (Ne.symm h)]

theorem work_synced {pid : ℕ} {a : Work} {pool : Pool} (h : s.Synced ident killTimeout)
    (hw : s.pool.work (ident pid) a = some pool) :
    Synced ident killTimeout { s with
      pool, client := Function.update s.client pid (notification s.pool (ident pid) a (s.client pid) : Notice D).1
      pipe := s.pipe ++ push pid true (notification s.pool (ident pid) a (s.client pid)).2 } := by
  have hothers : ∀ qid, qid ≠ pid → pool.worker (ident qid) = s.pool.worker (ident qid) :=
    fun qid hq => (Pool.work_worked hw).others _ fun hc => hq (ident.injective hc)
  refine ⟨h.timeout, h.matched, fun qid => ?_, fun qid => ?_, h.entry, fun hs qid hopen => ?_⟩
  · by_cases hq : qid = pid
    · subst hq
      simp only [Function.update_self]
      exact work_tracks (h.tracks qid) hw
    · simp only [Function.update_of_ne hq, hothers qid hq]
      exact h.tracks qid
  · have halt := h.alternates qid
    simp only [pending, pending_push]
    by_cases hq : qid = pid
    · subst hq
      rw [if_pos rfl, (notification_notified s.pool (ident qid) a (s.client qid)).flag, Function.update_self]
      split
      · rename_i hsame
        rw [List.append_nil, hsame]
        exact halt
      · rename_i hne
        rw [Bool.eq_not_of_ne hne]
        exact halt.concat
    · rw [if_neg hq, List.append_nil, Function.update_of_ne hq]
      exact halt
  · refine h.armed hs qid fun r => ?_
    by_cases hq : qid = pid
    · subst hq
      exact work_running hw r
    · rw [← hothers qid hq]
      exact hopen r

theorem Synced.close {pid : ℕ} (h : s.Synced ident killTimeout) :
    Synced ident killTimeout { s with pool := s.pool.goto (ident pid) (.closed false) } := by
  refine ⟨h.timeout, h.matched, fun qid => ?_, h.alternates, h.entry, fun hs qid hopen => h.armed hs qid fun r => ?_⟩
  · by_cases hq : qid = pid
    · subst hq
      simp only [Pool.goto_self]
      exact tracks_closed _ _
    · simp only [Pool.goto_ne _ _ _ fun hc => hq (ident.injective hc)]
      exact h.tracks qid
  · by_cases hq : qid = pid
    · subst hq
      exact absurd (Pool.goto_self _ _ _) (hopen false)
    · have hr := hopen r
      rwa [Pool.goto_ne _ _ _ fun hc => hq (ident.injective hc)] at hr

theorem received_cons (s : Supervised D) (pid qid : ℕ) (flag : Bool) (t : ℚ) :
    (Supervisor.lastMessage (.received pid flag t :: s.run.log) qid).any (·.1) =
      if qid = pid then flag else s.received qid := by
  by_cases h : qid = pid
  · simp [Supervisor.lastMessage, Supervisor.Event.message, h]
  · rw [Supervisor.lastMessage_cons_ne (by simp [Supervisor.Event.message, Ne.symm h]), if_neg h]
    rfl

theorem deliver_synced {pid : ℕ} {msg : SupervisorMessage D} {pipe : Links ℕ (SupervisorMessage D)}
    {run : Supervisor.Run D} (h : s.Synced ident killTimeout) (hr : Links.recv pid s.pipe = some (msg, pipe))
    (hstep : Supervisor.step s.run (.receive pid msg) = some run) :
    Synced ident killTimeout { s with pipe, run } := by
  have hothers : ∀ qid, qid ≠ pid → queue qid pipe = queue qid s.pipe := fun qid hq => (queue_recv_ne hr hq).symm
  have hself := queue_recv_self hr
  have halt := h.alternates pid
  rw [pending, hself, List.filterMap_cons] at halt
  obtain ⟨hstopped, hrun⟩ := Supervisor.receive_eq_some hstep
  have hmatched : ∀ ha : Supervisor.Answered s.run (.receive pid msg), Supervisor.Matched run :=
    fun ha => Supervisor.matched_step h.matched ha hstep
  cases msg with
  | report data =>
    subst hrun
    refine ⟨h.timeout, hmatched trivial, h.tracks, fun qid => ?_, h.entry, h.armed⟩
    by_cases hq : qid = pid
    · subst hq
      exact halt
    · have hqid := h.alternates qid
      rwa [pending, ← hothers qid hq] at hqid
  | busy =>
    obtain ⟨hreceived, hrest⟩ : true = !s.received pid ∧ _ := halt
    have hfalse : s.received pid = false := by simpa using hreceived.symm
    have hnone : s.run.supervisor.busy.get? pid = none := by
      by_contra hne
      rw [h.entry pid hne] at hfalse
      cases hfalse
    have hm := hmatched hnone
    subst hrun
    refine ⟨h.timeout, hm, h.tracks, fun qid => ?_, fun qid hq => ?_, fun hs qid hopen hq => ?_⟩
    · simp only [received, Supervisor.received, received_cons, pending]
      split
      · rename_i hq
        subst hq
        exact hrest
      · rename_i hq
        have hqid := h.alternates qid
        rwa [pending, ← hothers qid hq] at hqid
    · simp only [received, Supervisor.received, received_cons]
      split
      · rfl
      · rename_i hne
        rw [Supervisor.receive, PyDict.get?_set, if_neg hne] at hq
        exact h.entry qid hq
    · rw [Supervisor.receive, PyDict.get?_set]
      split
      · rintro ⟨⟩
      · rename_i hne
        simp only [received, Supervisor.received, received_cons, if_neg hne] at hq
        exact h.armed hstopped qid hopen hq
  | done =>
    obtain ⟨hreceived, hrest⟩ : false = !s.received pid ∧ _ := halt
    have hm := hmatched trivial
    have herase : ∀ qid, (s.run.supervisor.receive pid (.done : SupervisorMessage D)).busy.get? qid =
        if qid = pid then none else s.run.supervisor.busy.get? qid := by
      intro qid
      rw [Supervisor.receive]
      split
      · rename_i hnone
        split
        · rename_i hq
          rw [hq, hnone]
        · rfl
      · exact PyDict.get?_erase _ _ _
    subst hrun
    refine ⟨?_, hm, h.tracks, fun qid => ?_, fun qid hq => ?_, fun hs qid hopen hq => ?_⟩
    · rw [Supervisor.receive]
      split <;> exact h.timeout
    · simp only [received, Supervisor.received, received_cons, pending]
      split
      · rename_i hq
        subst hq
        exact hrest
      · rename_i hq
        have hqid := h.alternates qid
        rwa [pending, ← hothers qid hq] at hqid
    · simp only [received, Supervisor.received, received_cons]
      rw [herase] at hq
      split at hq
      · exact absurd rfl hq
      · rename_i hne
        rw [if_neg hne]
        exact h.entry qid hq
    · rw [herase]
      simp only [received, Supervisor.received, received_cons] at hq
      split at hq
      · cases hq
      · rename_i hne
        rw [if_neg hne]
        exact h.armed hstopped qid hopen hq

theorem fire_synced {th : ℕ} {run : Supervisor.Run D} (h : s.Synced ident killTimeout)
    (hstep : Supervisor.step s.run (.fire th) = some run) :
    Synced ident killTimeout { s with pool := kill ident run.log s.pool, run } := by
  have hmatched : Supervisor.Matched run := Supervisor.matched_step (a := .fire th) h.matched trivial hstep
  obtain ⟨pid, due, harmed, -, ⟨hnone, -⟩ | ⟨-, rfl⟩⟩ := Supervisor.fire_eq_some hstep
  · rw [h.matched.entry pid th due harmed] at hnone
    cases hnone
  · have hclosed : Synced ident killTimeout { s with pool := s.pool.goto (ident pid) (.closed false) } := h.close
    have hlog : ∀ qid, Supervisor.lastMessage (.killed pid s.run.supervisor.loop.time :: s.run.log) qid =
        Supervisor.lastMessage s.run.log qid := fun qid => Supervisor.lastMessage_cons_ne rfl
    refine ⟨h.timeout, hmatched, hclosed.tracks, fun qid => ?_, fun qid hq => ?_, fun hs qid hopen hq => ?_⟩
    · simp only [received, hlog]
      exact h.alternates qid
    · simp only [received, hlog]
      rw [PyDict.get?_erase] at hq
      split at hq
      · exact absurd rfl hq
      · exact h.entry qid hq
    · rw [PyDict.get?_erase]
      split
      · rename_i hq'
        subst hq'
        exact absurd (Pool.goto_self _ _ _) (hopen false)
      · simp only [received, hlog] at hq
        exact hclosed.armed hs qid hopen hq

theorem step_synced {a : SupervisedAct D} {t : Supervised D} (h : s.Synced ident killTimeout)
    (ha : a.delivered = true) (hs : step ident maxqueue timeout s a = some t) : t.Synced ident killTimeout := by
  cases a with
  | pool a =>
    simp only [step] at hs
    split at hs
    · cases hs
    · rename_i hworker
      obtain ⟨pool, hpool, rfl⟩ := Option.map_eq_some_iff.mp hs
      have hw := pool_worker (by simpa using hworker) hpool
      refine ⟨h.timeout, h.matched, fun pid => ?_, h.alternates, h.entry, fun hstopped pid hopen => ?_⟩
      · rw [hw]
        exact h.tracks pid
      · rw [hw] at hopen
        exact h.armed hstopped pid hopen
  | work pid a sent =>
    obtain ⟨pool, hw, rfl⟩ := Option.map_eq_some_iff.mp hs
    obtain rfl : sent = true := ha
    exact work_synced h hw
  | report pid data sent =>
    simp only [step] at hs
    split at hs
    · obtain rfl := Option.some.inj hs
      obtain rfl : sent = true := ha
      refine ⟨h.timeout, h.matched, h.tracks, fun qid => ?_, h.entry, h.armed⟩
      have hpending := pending_push s pid qid (some (.report data))
      have hnone : (if qid = pid then
          [SupervisorMessage.report data].filterMap SupervisorMessage.flag else []) = [] := by
        split <;> rfl
      rw [Option.toList_some, hnone, List.append_nil] at hpending
      simp only [pending, hpending]
      exact h.alternates qid
    · cases hs
  | crash pid =>
    obtain rfl := Option.some.inj hs
    exact h.close
  | deliver pid =>
    simp only [step] at hs
    split at hs
    · rename_i msg pipe hr
      obtain ⟨run, hrun, rfl⟩ := Option.map_eq_some_iff.mp hs
      exact deliver_synced h hr hrun
    · cases hs
  | wait d =>
    obtain ⟨run, hrun, rfl⟩ := Option.map_eq_some_iff.mp hs
    have hm := Supervisor.matched_step (a := .wait d) h.matched trivial hrun
    obtain rfl := Supervisor.wait_eq_some hrun
    exact ⟨h.timeout, hm, h.tracks, h.alternates, h.entry, h.armed⟩
  | fire th =>
    obtain ⟨run, hrun, rfl⟩ := Option.map_eq_some_iff.mp hs
    exact fire_synced h hrun
  | stop =>
    obtain rfl := Option.some.inj hs
    refine ⟨h.timeout, Supervisor.matched_stop h.matched, h.tracks, h.alternates, fun pid hp => absurd rfl hp, ?_⟩
    rintro ⟨⟩

theorem Synced.timer_guards (h : s.Synced ident killTimeout) {pid th : ℕ} {due : ℚ}
    (ha : s.run.supervisor.loop.armed th = some ⟨pid, due⟩) :
    (∃ g, s.pool.worker (ident pid) = .handling g) ∨ (∃ r, s.pool.worker (ident pid) = .closed r) ∨
      .done ∈ queue pid s.pipe := by
  have hreceived := h.entry pid (by rw [h.matched.entry pid th due ha]; rintro ⟨⟩)
  have halt := h.alternates pid
  rw [hreceived] at halt
  cases hp : s.pending pid with
  | nil =>
    rw [hp] at halt
    exact ((h.tracks pid).busy halt.symm).imp_right .inl
  | cons flag flags =>
    rw [hp] at halt
    obtain rfl : flag = false := halt.1
    have hmem : false ∈ s.pending pid := by rw [hp]; exact List.mem_cons_self
    obtain ⟨msg, hmsg, hflag⟩ := List.mem_filterMap.mp hmem
    cases msg with
    | done => exact .inr (.inr hmsg)
    | busy | report data => cases hflag

theorem Synced.handling_guarded (h : s.Synced ident killTimeout) {pid : ℕ} {g : RequestHandler}
    (hstopped : s.run.supervisor.stopped = false) (hg : s.pool.worker (ident pid) = .handling g)
    (hp : s.pending pid = []) :
    ∃ th u, Supervisor.lastMessage s.run.log pid = some (true, u) ∧
      s.run.supervisor.loop.armed th = some ⟨pid, u + killTimeout⟩ := by
  have halt := h.alternates pid
  rw [hp, (h.tracks pid).handling g hg] at halt
  obtain ⟨th, hth⟩ := Option.ne_none_iff_exists'.mp (h.armed hstopped pid (by simp [hg]) halt)
  obtain ⟨due, harmed⟩ := h.matched.held pid th hth
  obtain ⟨u, hu, rfl⟩ := h.matched.since pid th due harmed
  exact ⟨th, u, hu, by rw [harmed, h.timeout]⟩

theorem supervisor_kills_only_stalled_workers
    (hs : Reach (step ident maxqueue timeout) (fun _ a => a.delivered = true) (init killTimeout) s) :
    Supervisor.Safe s.run ∧
      (∀ pid th due, s.run.supervisor.loop.armed th = some ⟨pid, due⟩ →
        (∃ g, s.pool.worker (ident pid) = .handling g) ∨ (∃ r, s.pool.worker (ident pid) = .closed r) ∨
          .done ∈ queue pid s.pipe) ∧
      ∀ pid g, s.run.supervisor.stopped = false → s.pool.worker (ident pid) = .handling g → s.pending pid = [] →
        ∃ th u, Supervisor.lastMessage s.run.log pid = some (true, u) ∧
          s.run.supervisor.loop.armed th = some ⟨pid, u + killTimeout⟩ := by
  have h : s.Synced ident killTimeout := hs.invariant init_synced fun _ _ _ => step_synced
  exact ⟨h.matched.safe, fun pid th due => h.timer_guards, fun pid g => h.handling_guarded⟩

end synced

def zeros : ℕ ↪ Frame where
  toFun := fun n => .bytes (List.replicate n 0)
  inj' := fun m n h => by simpa using congrArg List.length (Frame.bytes.inj h)

def stalling : List (SupervisedAct Unit) :=
  [.work 1 .ready true, .pool (.backend (zeros 1) true),
    .pool (.frontend Pool.client1 (.bytes [1]) (Pool.getMap none) 0 true), .pool (.dispatch 1 Pool.sendAll),
    .work 1 .recv true, .deliver 1, .wait 20]

theorem supervisor_kills_only_stalled_workers_stalling : ∃ (s : Supervised Unit) (th : ℕ) (u : ℚ),
    s.run.supervisor.loop.time = 20 ∧ Supervisor.Safe s.run ∧
      s.run.supervisor.loop.armed th = some ⟨1, u + (20 : ℤ)⟩ := by
  have hm : Meets (step zeros 100 3000) (fun _ a => a.delivered = true) (init 20 : Supervised Unit) stalling :=
    .of_forall (fun a ha _ => (by decide : ∀ a ∈ stalling, a.delivered = true) a ha) _
  obtain ⟨s, hs, hp⟩ := Reach.exists_of_run
    (fun s : Supervised Unit => decide (s.run.supervisor.loop.time = 20) && decide (s.pending 1 = []) &&
      decide (s.run.supervisor.stopped = false) && (s.pool.worker (zeros 1)).current != []) hm (by decide +kernel)
  simp only [Bool.and_eq_true, decide_eq_true_eq, bne_iff_ne] at hp
  obtain ⟨⟨⟨htime, hpending⟩, hstopped⟩, hcurrent⟩ := hp
  obtain ⟨hsafe, -, hguarded⟩ := supervisor_kills_only_stalled_workers hs
  cases hg : s.pool.worker (zeros 1) with
  | handling g =>
    obtain ⟨th, u, -, harmed⟩ := hguarded 1 g hstopped hg hpending
    exact ⟨s, th, u, htime, hsafe, harmed⟩
  | _ =>
    rw [hg] at hcurrent
    exact absurd rfl hcurrent

end Supervised

end Zmq
