import PyQgisServer.Zmq.Pool

namespace Zmq

open Links

theorem Broker.Dispatches.deliveries {timeout now : ℚ} {env : Sends} {b c : Broker}
    {log : List Event} (h : Dispatches timeout now env b log c) (w : Frame) :
    (w ∈ c.workers → w ∈ b.workers) ∧
    (queue w (log.filterMap Event.delivery) ≠ [] →
      w ∈ b.workers ∧ w ∉ c.workers ∧ b.waiting ≠ [] ∧ env.delivers w = true) ∧
    (queue w (log.filterMap Event.delivery)).length ≤ 1 := by
  induction h with
  | done b => simp
  | drop hb ht h ih =>
    obtain ⟨hsub, hout, hone⟩ := ih
    refine ⟨hsub, fun hne => ?_, hone⟩
    obtain ⟨hw, hc, -, hn⟩ := hout hne
    exact ⟨hw, hc, by simp [hb], hn⟩
  | fail hb hw hf h ih =>
    obtain ⟨hsub, hout, hone⟩ := ih
    refine ⟨fun hc => (PySet.mem_remove.mp (hsub hc)).2, fun hne => ?_, hone⟩
    obtain ⟨hv, hc, -, hn⟩ := hout hne
    exact ⟨(PySet.mem_remove.mp hv).2, hc, by simp [hb], hn⟩
  | @send b c log e rest v hb hv hd ht h ih =>
    obtain ⟨hsub, hout, hone⟩ := ih
    have hlog : (Event.send v e now :: log).filterMap Event.delivery =
        (v, e.toEnvelope) :: log.filterMap Event.delivery := rfl
    refine ⟨fun hc => (PySet.mem_remove.mp (hsub hc)).2, ?_, ?_⟩
    · rw [hlog]
      intro hne
      by_cases hvw : v = w
      · subst hvw
        refine ⟨hv, fun hc => ?_, by simp [hb], hd⟩
        exact (PySet.mem_remove.mp (hsub hc)).1 rfl
      · rw [queue_cons_ne hvw] at hne
        obtain ⟨hw, hc, -, hn⟩ := hout hne
        exact ⟨(PySet.mem_remove.mp hw).2, hc, by simp [hb], hn⟩
    · rw [hlog]
      by_cases hvw : v = w
      · subst hvw
        have hnil : queue v (log.filterMap Event.delivery) = [] := by
          by_contra hne
          exact (PySet.mem_remove.mp (hout hne).1).1 rfl
        simp [hnil]
      · rw [queue_cons_ne hvw]
        exact hone

namespace Pool

variable {maxqueue timeout : ℤ}

def unfinished (s : Pool) (w : Frame) : List Envelope := (s.worker w).current ++ queue w s.down

def Balanced (s : Pool) : Prop := ∀ w, queue w s.sent = queue w s.finished ++ s.unfinished w

structure Worked (s : Pool) (w : Frame) (t : Pool) : Prop where
  broker : t.broker = s.broker
  sent : t.sent = s.sent
  others : ∀ v, v ≠ w → t.worker v = s.worker v
  moved : ∀ v, queue v t.finished ++ t.unfinished v = queue v s.finished ++ s.unfinished v
  shrinks : ∀ v, t.unfinished v <:+ s.unfinished v

theorem Worked.of_move {s t : Pool} {w : Frame} (fin : List Envelope)
    (hb : t.broker = s.broker) (hs : t.sent = s.sent)
    (hf : t.finished = s.finished ++ fin.map (w, ·))
    (ho : ∀ v, v ≠ w → t.worker v = s.worker v)
    (hd : ∀ v, v ≠ w → queue v t.down = queue v s.down)
    (hw : s.unfinished w = fin ++ t.unfinished w) : Worked s w t := by
  have hfin (v : Frame) : queue v (fin.map (w, ·)) = if v = w then fin else [] := by
    unfold queue
    split
    · rename_i hv
      simp [hv, List.filter_map, Function.comp_def]
    · rename_i hv
      simp [Ne.symm hv, List.filter_map, Function.comp_def]
  have hu (v : Frame) (hv : v ≠ w) : t.unfinished v = s.unfinished v := by
    simp only [unfinished, ho v hv, hd v hv]
  refine ⟨hb, hs, ho, fun v => ?_, fun v => ?_⟩
  · rw [hf, queue_append, hfin]
    by_cases hv : v = w
    · simp [hv, hw]
    · simp [hv, hu v hv]
  · by_cases hv : v = w
    · rw [hv, hw]
      exact List.suffix_append _ _
    · exact ⟨[], hu v hv⟩

theorem work_worked {s t : Pool} {w : Frame} {a : Work} (h : s.work w a = some t) :
    Worked s w t := by
  cases work_works h with
  | ready hl | again hl | restart hl | next hl | close hl =>
    exact .of_move [] rfl rfl (by simp) (fun _ => s.goto_ne w _) (fun _ _ => rfl)
      (by simp [unfinished, hl, Loop.current])
  | @recv m down r hl hr hm =>
    refine .of_move [] rfl rfl (by simp) (fun _ => s.goto_ne w _)
      (fun v hv => (queue_recv_ne hr hv).symm) ?_
    simp [unfinished, hl, Loop.current, queue_recv_self hr, RequestHandler.origin_new hm]
  | @garbage m down hl hr hm =>
    refine .of_move [m] rfl rfl rfl (fun _ => s.goto_ne w _)
      (fun v hv => (queue_recv_ne hr hv).symm) ?_
    simp [unfinished, hl, Loop.current, queue_recv_self hr]
  | write statusCode headers data sendMore metadata ok hl =>
    refine .of_move [] (by simp) (by simp) (by simp) (fun v hv => ?_) (fun v _ => by simp) ?_
    · rw [goto_ne _ w _ hv, reply_worker]
    · simp only [unfinished, goto_self, hl, Loop.current, goto_down, reply_down, List.nil_append,
        RequestHandler.send_origin]
      rfl
  | @done g hl =>
    exact .of_move [g.origin] rfl rfl rfl (fun _ => s.goto_ne w _) (fun _ _ => rfl)
      (by simp [unfinished, hl, Loop.current])
  | @fail g hl hh =>
    refine .of_move [g.origin] (by simp) (by simp) rfl (fun v hv => ?_) (fun v _ => by simp) ?_
    · exact (goto_ne _ w _ hv).trans (by rw [reply_worker])
    · simp [unfinished, hl, Loop.current]

end Pool

def Act.lossless : Act → Bool
  | .crash _ | .loseUp _ | .loseDown _ => false
  | _ => true

namespace Pool

theorem step_balanced {s t : Pool} {a : Act} (hs : s.Balanced) (ha : a.lossless = true)
    (h : step maxqueue timeout s a = some t) : t.Balanced := by
  intro v
  cases a with
  | backend w ok =>
    obtain ⟨msg, up, -, rfl⟩ := step_backend h
    exact hs v
  | frontend c m r tm ok =>
    obtain rfl := step_frontend h
    exact hs v
  | dispatch now env =>
    obtain ⟨b, log, -, rfl⟩ := step_dispatch h
    have hv := hs v
    simp only [unfinished, queue_append] at hv ⊢
    rw [hv]
    simp only [List.append_assoc]
  | work w a =>
    have hw := work_worked (step_work h)
    rw [hw.sent, hs v, hw.moved v]
  | crash w => cases ha
  | loseUp i => cases ha
  | loseDown i => cases ha

def fresh (s : Pool) : Act → Bool
  | .backend w _ =>
    match Links.recv w s.up with
    | some (msg, _) =>
      msg.head? != some workerReady || queue w s.sent == queue w s.finished
    | none => true
  | _ => true

theorem fresh_of_ready {s : Pool} {w : Frame} {ok : Bool} {msg : List Frame}
    {up : Links Frame (List Frame)} (h : s.fresh (.backend w ok) = true)
    (hr : Links.recv w s.up = some (msg, up)) (hready : msg.head? = some workerReady) :
    queue w s.sent = queue w s.finished := by
  simpa [fresh, hr, hready] using h

structure Exclusive (s : Pool) : Prop where
  balanced : s.Balanced
  idle : ∀ w, w ∈ s.broker.workers → s.unfinished w = []
  single : ∀ w, (s.unfinished w).length ≤ 1

theorem step_exclusive {s t : Pool} {a : Act} (hs : s.Exclusive) (ha : a.lossless = true)
    (hf : s.fresh a = true) (h : step maxqueue timeout s a = some t) : t.Exclusive := by
  have hbalanced := step_balanced hs.balanced ha h
  cases a with
  | backend w ok =>
    obtain ⟨msg, up, hr, rfl⟩ := step_backend h
    refine ⟨hbalanced, fun v hv => ?_, hs.single⟩
    rcases Broker.onBackend_workers hv with hv | ⟨rfl, hready⟩
    · exact hs.idle v hv
    · have hsent := hs.balanced v
      rw [fresh_of_ready hf hr hready] at hsent
      have hnil : s.unfinished v = [] := by simpa using hsent
      exact hnil
  | frontend c m r tm ok =>
    obtain rfl := step_frontend h
    exact ⟨hbalanced, fun v hv => hs.idle v (by simpa only [Broker.onFrontend_workers] using hv), hs.single⟩
  | dispatch now env =>
    obtain ⟨b, log, hd, rfl⟩ := step_dispatch h
    refine ⟨hbalanced, fun v hv => ?_, fun v => ?_⟩
    · obtain ⟨hsub, hout, -⟩ := hd.deliveries v
      have hnil : queue v (log.filterMap Event.delivery) = [] := by
        by_contra hne
        exact (hout hne).2.1 hv
      simpa [unfinished, hnil] using hs.idle v (hsub hv)
    · obtain ⟨-, hout, hone⟩ := hd.deliveries v
      by_cases hnil : queue v (log.filterMap Event.delivery) = []
      · simpa [unfinished, hnil] using hs.single v
      · have hidle := hs.idle v (hout hnil).1
        simp only [unfinished, List.append_eq_nil_iff] at hidle
        simpa [unfinished, hidle.1, hidle.2] using hone
  | work w a =>
    have hw := work_worked (step_work h)
    refine ⟨hbalanced, fun v hv => ?_, fun v => (hw.shrinks v).length_le.trans (hs.single v)⟩
    have hsuf := hw.shrinks v
    rw [hs.idle v (hw.broker ▸ hv)] at hsuf
    exact List.suffix_nil.mp hsuf
  | crash w => cases ha
  | loseUp i => cases ha
  | loseDown i => cases ha

theorem init_balanced : init.Balanced := fun _ => rfl

theorem init_exclusive : init.Exclusive where
  balanced := init_balanced
  idle := by simp [init, Broker.init]
  single := by simp [unfinished, init, Loop.current]

theorem one_outstanding_request {s : Pool}
    (hs : Transition.Reach (step maxqueue timeout)
      (fun s a => (a.lossless && s.fresh a) = true) init s) (w : Frame) :
    (queue w s.sent).length ≤ (queue w s.finished).length + 1 := by
  have h : s.Exclusive := hs.invariant init_exclusive fun s a t hI hok ha => by
    rw [Bool.and_eq_true] at hok
    exact step_exclusive hI hok.1 hok.2 ha
  have hb := congrArg List.length (h.balanced w)
  have hone := h.single w
  simp only [List.length_append] at hb
  omega

def servedOnce : List Act :=
  [.work worker1 .ready, .backend worker1 true,
    .frontend client1 (.bytes [1]) (getMap none) 0 true, .dispatch 1 sendAll]

theorem one_outstanding_request_served :
    ∃ s : Pool, queue worker1 s.sent ≠ [] ∧
      (queue worker1 s.sent).length ≤ (queue worker1 s.finished).length + 1 := by
  have hm : Transition.Meets (step 100 3000) (fun s a => (a.lossless && s.fresh a) = true) init
      servedOnce := .of_meets (by decide)
  obtain ⟨s, hs, hsent⟩ := Transition.Reach.exists_of_run (fun s => queue worker1 s.sent != []) hm
    (by decide +kernel)
  exact ⟨s, by simpa using hsent, one_outstanding_request hs worker1⟩

-- the worker times out once more while its first READY is already with the broker; the READY of
-- its next pass and the request cross
def crossing : List Act :=
  [.work worker1 .ready, .backend worker1 true, .dispatch 0 sendAll,
    .work worker1 .again, .work worker1 .next,
    .frontend client1 (.bytes [1]) (getMap none) 1 true, .dispatch 1 sendAll,
    .work worker1 .ready, .backend worker1 true,
    .frontend client1 (.bytes [2]) (getMap none) 2 true, .dispatch 2 sendAll]

theorem two_outstanding_requests :
    ¬ ∀ s, Transition.Reach (step 100 3000) (fun _ a => a.lossless = true) init s →
      ∀ w, (queue w s.sent).length ≤ (queue w s.finished).length + 1 := by
  intro h
  have hm : Transition.Meets (step 100 3000) (fun _ a => a.lossless = true) init crossing :=
    .of_meets (by decide)
  obtain ⟨s, hs, htwo⟩ := Transition.Reach.exists_of_run
    (fun s => (queue worker1 s.finished).length + 1 < (queue worker1 s.sent).length) hm
    (by decide +kernel)
  have := h s hs worker1
  simp only [decide_eq_true_eq] at htwo
  omega

end Pool

end Zmq
