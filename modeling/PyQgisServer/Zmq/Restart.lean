import PyQgisServer.Zmq.Outstanding

namespace Zmq

open Links

theorem Broker.Dispatches.moves {timeout now : ℚ} {env : Sends} {b c : Broker} {log : List Event}
    (h : Dispatches timeout now env b log c) :
    (∀ e ∈ c.waiting, e ∈ b.waiting) ∧
    ∀ x ∈ log.filterMap Event.delivery, ∃ e ∈ b.waiting, x.2 = e.toEnvelope := by
  induction h with
  | done b => simp
  | drop hb ht h ih =>
    obtain ⟨hw, hx⟩ := ih
    refine ⟨fun e he => by simp [hb, hw e he], fun x hx' => ?_⟩
    obtain ⟨e, he, hxe⟩ := hx x hx'
    exact ⟨e, by simp [hb, he], hxe⟩
  | fail hb hw hf h ih =>
    rw [hb]
    exact ih
  | @send b c log e rest w hb hv hd ht h ih =>
    obtain ⟨hw, hx⟩ := ih
    refine ⟨fun e he => by simp [hb, hw e he], fun x hx' => ?_⟩
    have hlog : (Event.send w e now :: log).filterMap Event.delivery =
        (w, e.toEnvelope) :: log.filterMap Event.delivery := rfl
    rw [hlog, List.mem_cons] at hx'
    rcases hx' with rfl | hx'
    · exact ⟨e, by simp [hb], rfl⟩
    · obtain ⟨e, he, hxe⟩ := hx x hx'
      exact ⟨e, by simp [hb, he], hxe⟩

theorem Broker.onFrontend_waiting {maxqueue : ℤ} {b : Broker} {c m d : Frame} {tm : ℚ} {ok : Bool}
    {e : Entry} (h : e ∈ (b.onFrontend maxqueue [c, m, d] tm ok).1.waiting) :
    e ∈ b.waiting ∨ e.toEnvelope = ⟨c, m, d⟩ := by
  simp only [onFrontend] at h
  split at h
  · exact .inl h
  · simp only [List.mem_append, List.mem_singleton] at h
    rcases h with h | rfl
    · exact .inl h
    · exact .inr rfl

def Envelope.Pickled (m : Envelope) : Prop := ∃ r, m.data.loads = some (.request r)

namespace Pool

variable {maxqueue timeout : ℤ}

-- links lose nothing, a send fails just when the socket is closed, and handle_message writes
-- a reply before it returns
def reliable (s : Pool) : Act → Bool
  | .crash _ | .loseUp _ | .loseDown _ => false
  | .dispatch _ env => s.broker.workers.elems.all fun w => env.delivers w == (s.worker w).connected
  | .work w .done =>
    match s.worker w with
    | .handling h => h.headerWritten
    | _ => true
  | _ => true

def graceful (s : Pool) : Act → Bool
  | .dispatch _ _ => s.broker.waiting.isEmpty ||
      s.broker.workers.elems.all fun w => s.worker w != .leaving true
  | .work w .restart => (queue w s.down).isEmpty
  | _ => true

theorem reliable_dispatch {s : Pool} {now : ℚ} {env : Sends} {w : Frame}
    (h : s.reliable (.dispatch now env) = true) (hw : w ∈ s.broker.workers) :
    env.delivers w = (s.worker w).connected := by
  simp only [reliable, List.all_eq_true, beq_iff_eq] at h
  exact h w hw

theorem graceful_dispatch {s : Pool} {now : ℚ} {env : Sends} {w : Frame}
    (h : s.graceful (.dispatch now env) = true) (hwait : s.broker.waiting ≠ [])
    (hw : w ∈ s.broker.workers) : s.worker w ≠ .leaving true := by
  simp only [graceful, Bool.or_eq_true, List.isEmpty_iff, List.all_eq_true, bne_iff_ne] at h
  exact h.resolve_left hwait w hw

theorem restarted_delivers {s : Pool} {now : ℚ} {env : Sends} {b : Broker} {log : List Event}
    (hr : s.reliable (.dispatch now env) = true) (hg : s.graceful (.dispatch now env) = true)
    (hd : Broker.Dispatches (timeout / 1000) now env s.broker log b) {v : Frame}
    (hv : (s.worker v).restarted = true) : queue v (log.filterMap Event.delivery) = [] := by
  by_contra hne
  obtain ⟨hmem, -, hwait, hdelivers⟩ := (hd.deliveries v).2.1 hne
  have hrun := graceful_dispatch hg hwait hmem
  rw [reliable_dispatch hr hmem] at hdelivers
  cases hl : s.worker v with
  | leaving restart =>
    rw [hl] at hv hrun
    exact hrun (congrArg _ hv)
  | closed restart => simp [hl, Loop.connected] at hdelivers
  | _ => simp [hl, Loop.restarted] at hv

structure Kept (s : Pool) : Prop where
  balanced : s.Balanced
  waiting : ∀ e ∈ s.broker.waiting, e.Pickled
  down : ∀ x ∈ s.down, x.2.Pickled
  answered : s.answered = s.finished
  left : ∀ w, (s.worker w).restarted = true → s.unfinished w = []

theorem work_down {s t : Pool} {w : Frame} {a : Work} (h : s.work w a = some t) :
    t.down.Sublist s.down := by
  cases work_works h with
  | recv hl hr hm | garbage hl hr hm => exact recv_sublist hr
  | write | fail => simp
  | _ => exact .refl _

theorem work_answered {s t : Pool} {w : Frame} {a : Work} (hs : s.Kept)
    (hr : s.reliable (.work w a) = true) (h : s.work w a = some t) : t.answered = t.finished := by
  cases work_works h with
  | garbage hl hrecv hm =>
    obtain ⟨r, hr⟩ := hs.down _ (recv_mem hrecv)
    exact absurd hr (hm r)
  | @done g hl =>
    have hh : g.headerWritten = true := by simpa [reliable, hl] using hr
    simp [hh, hs.answered]
  | write => simp [hs.answered]
  | fail => simp [hs.answered]
  | _ => exact hs.answered

theorem work_restarted {s t : Pool} {v w : Frame} {a : Work} (h : s.work w a = some t)
    (hv : (t.worker v).restarted = true) :
    (s.worker v).restarted = true ∨ v = w ∧ a = .restart ∧ s.worker w = .checking := by
  by_cases hvw : v = w
  · subst hvw
    cases work_works h with
    | restart hl => exact .inr ⟨rfl, rfl, hl⟩
    | close hl =>
      left
      simpa [hl, Loop.restarted] using hv
    | _ => simp [Loop.restarted] at hv
  · left
    rwa [(work_worked h).others v hvw] at hv

theorem step_kept {s t : Pool} {a : Act} (hs : s.Kept) (hr : s.reliable a = true) (hg : s.graceful a = true)
    (h : step maxqueue timeout s a = some t) : t.Kept := by
  have hbalanced : t.Balanced := step_balanced hs.balanced (by cases a <;> first | rfl | cases hr) h
  cases a with
  | backend w ok =>
    obtain ⟨msg, up, -, rfl⟩ := step_backend h
    refine ⟨hbalanced, ?_, hs.down, hs.answered, hs.left⟩
    rw [Broker.onBackend_waiting]
    exact hs.waiting
  | frontend c m r tm ok =>
    obtain rfl := step_frontend h
    refine ⟨hbalanced, fun e he => ?_, hs.down, hs.answered, hs.left⟩
    rcases Broker.onFrontend_waiting he with he | he
    · exact hs.waiting e he
    · exact ⟨r, by simp [he, Frame.loads]⟩
  | dispatch now env =>
    obtain ⟨b, log, hd, rfl⟩ := step_dispatch h
    obtain ⟨hw, hx⟩ := hd.moves
    refine ⟨hbalanced, fun e he => hs.waiting e (hw e he), fun x hx' => ?_, hs.answered, ?_⟩
    · rcases List.mem_append.mp hx' with hx' | hx'
      · exact hs.down x hx'
      · obtain ⟨e, he, hxe⟩ := hx x hx'
        exact hxe ▸ hs.waiting e he
    · intro v hv
      have hnil := restarted_delivers hr hg hd hv
      simpa [unfinished, hnil] using hs.left v hv
  | work w a =>
    have hk := step_work h
    have hw := work_worked hk
    refine ⟨hbalanced, hw.broker ▸ hs.waiting, fun x hx => hs.down x ((work_down hk).subset hx),
      work_answered hs hr hk, fun v hv => ?_⟩
    have hsuf := hw.shrinks v
    suffices s.unfinished v = [] by
      rw [this] at hsuf
      exact List.suffix_nil.mp hsuf
    rcases work_restarted hk hv with hv | ⟨rfl, rfl, hl⟩
    · exact hs.left v hv
    · simpa [unfinished, hl, Loop.current, graceful] using hg
  | crash w => cases hr
  | loseUp i => cases hr
  | loseDown i => cases hr

theorem init_kept : init.Kept where
  balanced := init_balanced
  waiting := by simp [init, Broker.init]
  down := by simp [init]
  answered := rfl
  left := by simp [init, Loop.restarted]

theorem restart_drops_no_request {s : Pool}
    (hs : Transition.Reach (step maxqueue timeout)
      (fun s a => (s.reliable a && s.graceful a) = true) init s)
    (w : Frame) (hw : (s.worker w).restarted = true) :
    queue w s.sent = queue w s.answered := by
  have h : s.Kept := hs.invariant init_kept fun s a t hI hok ha => by
    rw [Bool.and_eq_true] at hok
    exact step_kept hI hok.1 hok.2 ha
  rw [h.balanced w, h.left w hw, h.answered, List.append_nil]

def restartAfterAnswer : List Act :=
  [.work worker1 .ready, .backend worker1 true,
    .frontend client1 (.bytes [1]) (getMap none) 0 true, .dispatch 1 sendAll,
    .work worker1 .recv, .work worker1 (.write 200 [] [79, 75] false none true),
    .work worker1 .done, .work worker1 .restart, .work worker1 .close]

theorem restart_drops_no_request_after_answer :
    ∃ s : Pool, queue worker1 s.sent ≠ [] ∧ queue worker1 s.sent = queue worker1 s.answered := by
  have hm : Transition.Meets (step 100 3000) (fun s a => (s.reliable a && s.graceful a) = true)
      init restartAfterAnswer := .of_meets (by decide +kernel)
  obtain ⟨s, hs, hp⟩ := Transition.Reach.exists_of_run
    (fun s => queue worker1 s.sent != [] && (s.worker worker1).restarted) hm (by decide +kernel)
  simp only [Bool.and_eq_true, bne_iff_ne] at hp
  exact ⟨s, hp.1, restart_drops_no_request hs worker1 hp.2⟩

-- an idle worker reads RESTART while the broker still holds its READY
def restartWhenIdle : List Act :=
  [.work worker1 .ready, .backend worker1 true, .dispatch 0 sendAll,
    .work worker1 .again, .work worker1 .restart,
    .frontend client1 (.bytes [1]) (getMap none) 1 true, .dispatch 1 sendAll,
    .work worker1 .close]

theorem restart_drops_request :
    ¬ ∀ s, Transition.Reach (step 100 3000) (fun s a => s.reliable a = true) init s →
      ∀ w, (s.worker w).restarted = true → queue w s.sent = queue w s.answered := by
  intro h
  have hm : Transition.Meets (step 100 3000) (fun s a => s.reliable a = true) init
      restartWhenIdle := .of_meets (by decide)
  obtain ⟨s, hs, hp⟩ := Transition.Reach.exists_of_run
    (fun s => (s.worker worker1).restarted && queue worker1 s.sent != queue worker1 s.answered) hm
    (by decide +kernel)
  simp only [Bool.and_eq_true, bne_iff_ne] at hp
  exact hp.2 (h s hs worker1 hp.1)

end Pool

end Zmq
