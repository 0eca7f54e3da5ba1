import PyQgisServer.Zmq.Board
import PyQgisServer.Zmq.Restart
import PyQgisServer.Zmq.WorkConserving

namespace Zmq

open Links Placement

def Loop.serving : Loop → Bool
  | .leaving _ | .closed _ => false
  | _ => true

theorem Loop.connected_of_serving {l : Loop} (h : l.serving = true) : l.connected = true := by
  cases l with
  | closed restart => cases h
  | _ => rfl

def Fate.settled : Fate → Bool
  | .refused | .expired | .finished _ => true
  | _ => false

def Fate.rank : Fate → ℕ
  | .sent => 4
  | .queued => 3
  | .dispatched _ => 2
  | .handled _ => 1
  | _ => 0

theorem Fate.Next.rank_lt (f g : Fate) (h : Next false f g) : g.rank < f.rank := by
  cases h with
  | lostUp h | lostDown w h | crashed w h => cases h
  | _ => simp [Fate.rank]

def Work.serves : Work → Bool
  | .fail | .restart => false
  | _ => true

def Act.serves : Act → Bool
  | .work _ a => a.serves
  | _ => true

namespace Broker

theorem Dispatches.head {timeout now : ℚ} {env : Sends} {b c : Broker} {log : List Event} {e : Entry}
    {rest : List Entry} {w : Frame} (h : Dispatches timeout now env b log c) (hidle : c.Idle)
    (hb : b.waiting = e :: rest) (hw : w ∈ b.workers) (hd : env.delivers w = true) :
    .drop e now ∈ log ∨ ∃ v, .send v e now ∈ log := by
  induction h with
  | done b =>
    rcases hidle with hnone | hnone
    · rw [PySet.mem_def, hnone] at hw
      cases hw
    · rw [hb] at hnone
      cases hnone
  | drop hwait ht h ih =>
    obtain ⟨rfl, rfl⟩ := List.cons.inj (hb.symm.trans hwait)
    exact .inl List.mem_cons_self
  | @fail b c log e' rest' v hwait hv hf h ih =>
    obtain ⟨rfl, rfl⟩ := List.cons.inj (hb.symm.trans hwait)
    have hne : w ≠ v := by
      rintro rfl
      rw [hf] at hd
      cases hd
    rcases ih hidle rfl (PySet.mem_remove.mpr ⟨hne, hw⟩) with hdrop | ⟨u, hsend⟩
    · exact .inl (List.mem_cons_of_mem _ hdrop)
    · exact .inr ⟨u, List.mem_cons_of_mem _ hsend⟩
  | @send b c log e' rest' v hwait hv hdelivers ht h ih =>
    obtain ⟨rfl, rfl⟩ := List.cons.inj (hb.symm.trans hwait)
    exact .inr ⟨v, List.mem_cons_self⟩

end Broker

namespace Pool

variable {maxqueue timeout : ℤ} {s : Pool}

theorem work_serving {p : Pool} {v : Frame} {a : Work} (h : s.work v a = some p) (ha : a.serves = true) (u : Frame) :
    (p.worker u).serving = (s.worker u).serving := by
  by_cases hu : u = v
  · subst hu
    cases work_works h with
    | fail | restart => cases ha
    | write statusCode headers data sendMore metadata ok hl =>
      rw [goto_self, hl]
      rfl
    | ready hl | again hl | next hl | close hl | done hl =>
      rw [hl]
      simp [Loop.serving]
    | recv hl hr hm | garbage hl hr hm =>
      rw [hl]
      simp [Loop.serving]
  · rw [(work_worked h).others u hu]

theorem work_closes {p : Pool} {v : Frame} {a : Work} (h : s.work v a = some p) (hv : (s.worker v).serving = false) :
    ∃ restart, p = s.goto v (.closed restart) := by
  cases work_works h with
  | close hl => exact ⟨_, rfl⟩
  | recv hl | garbage hl | fail hl =>
    rw [hl] at hv
    cases hv
  | _ =>
    rename_i hl
    rw [hl] at hv
    cases hv

theorem work_parked {p : Pool} {v u : Frame} {a : Work} (h : s.work v a = some p)
    (hu : (s.worker u).serving = false) : (p.worker u).serving = false ∧ queue u p.down = queue u s.down := by
  by_cases huv : u = v
  · subst huv
    obtain ⟨restart, rfl⟩ := work_closes h hu
    rw [goto_self]
    exact ⟨rfl, rfl⟩
  · refine ⟨by rw [(work_worked h).others u huv, hu], ?_⟩
    cases work_works h with
    | recv hl hr | garbage hl hr => exact (queue_recv_ne hr huv).symm
    | write | fail => simp
    | _ => rfl

theorem perform_parked {a : Act} {r : Pool × List Event} {v : Frame} (ha : a.lossless = true)
    (h : s.perform maxqueue timeout a = some r) (hv : (s.worker v).serving = false) :
    (r.1.worker v).serving = false ∧ queue v s.down <+: queue v r.1.down := by
  cases a with
  | backend w ok =>
    obtain ⟨msg, up, -, rfl⟩ := perform_backend h
    exact ⟨hv, List.prefix_rfl⟩
  | frontend c m q tm ok =>
    obtain rfl := perform_frontend h
    exact ⟨hv, List.prefix_rfl⟩
  | dispatch now env =>
    obtain ⟨b, log, -, rfl⟩ := perform_dispatch h
    refine ⟨hv, ?_⟩
    rw [queue_append]
    exact List.prefix_append _ _
  | work w a =>
    obtain ⟨hleft, hsame⟩ := work_parked (perform_work h).1 hv
    exact ⟨hleft, hsame ▸ List.prefix_rfl⟩
  | crash w | loseUp i | loseDown i => cases ha

end Pool

theorem Network.step_performs {maxqueue timeout : ℤ} {s t : Network} {a : NetAct}
    (h : s.step maxqueue timeout a = some t) : t.pool = s.pool ∨
      ∃ act r, act.lossless = a.lossless ∧ s.pool.perform maxqueue timeout act = some r ∧ t.pool = r.1 := by
  cases a with
  | frontend c tm ok =>
    simp only [step] at h
    split at h
    · obtain ⟨r, hr, rfl⟩ := Option.map_eq_some_iff.mp h
      exact .inr ⟨_, r, rfl, hr, rfl⟩
    · cases h
  | pool a =>
    simp only [step] at h
    split at h
    · cases h
    · obtain ⟨r, hr, rfl⟩ := Option.map_eq_some_iff.mp h
      exact .inr ⟨a, r, rfl, hr, rfl⟩
  | client c a | loseClientUp i | loseClientDown i =>
    obtain rfl := Option.some.inj h
    exact .inl rfl
  | fetch c m r =>
    simp only [step] at h
    split at h
    · cases h
    · obtain rfl := Option.some.inj h
      exact .inl rfl
  | register c m | poll c =>
    simp only [step] at h
    split at h
    · obtain rfl := Option.some.inj h
      exact .inl rfl
    · cases h

namespace Logged

def Serves (s : Logged) : NetAct → Prop
  | .frontend _ _ _ => True
  | .pool a => s.net.pool.reliable a = true ∧ a.serves = true
  | _ => False

def Tidy (s : Logged) : Prop :=
  ∀ v ∈ s.net.pool.broker.workers, (s.net.pool.worker v).connected = true → (s.net.pool.worker v).serving = true

structure Onward (maxqueue timeout : ℤ) (s t : Logged) : Prop where
  reach : Transition.Reach (step maxqueue timeout) Serves s t
  fetched : t.fetched = s.fetched
  serving : ∀ v, (t.net.pool.worker v).serving = (s.net.pool.worker v).serving
  parked : ∀ v, (s.net.pool.worker v).serving = false → queue v t.net.pool.down = queue v s.net.pool.down

section onward

variable {maxqueue timeout : ℤ} {s t u : Logged}

theorem Onward.refl (s : Logged) : Onward maxqueue timeout s s :=
  ⟨.start, rfl, fun _ => rfl, fun _ _ => rfl⟩

theorem Onward.trans (h : Onward maxqueue timeout s t) (h' : Onward maxqueue timeout t u) :
    Onward maxqueue timeout s u where
  reach := h.reach.trans h'.reach
  fetched := h'.fetched.trans h.fetched
  serving := fun v => (h'.serving v).trans (h.serving v)
  parked := fun v hv => (h'.parked v ((h.serving v).trans hv)).trans (h.parked v hv)

theorem Serves.reach {a : NetAct} (ha : s.Serves a) (h : step maxqueue timeout s a = some t) :
    Transition.Reach (step maxqueue timeout) Serves s t :=
  Transition.Reach.start.next a ha h

theorem step_pool {a : Act} {r : Pool × List Event} (hclient : a.fromClient = false)
    (h : s.net.pool.perform maxqueue timeout a = some r) :
    step maxqueue timeout s (.pool a) = some ⟨s.net.advance r, s.log ++ r.2⟩ := by
  simp [step, Network.step, events, hclient, h]

variable (maxqueue timeout)

theorem frontend_onward {c m : Frame} {q : RequestMessage} {clientUp : Links Frame (Frame × RequestMessage)}
    (hr : Links.recv c s.net.clientUp = some ((m, q), clientUp)) (hturn : s.net.pool.turn = .polling) (tm : ℚ) :
    ∃ t, Onward maxqueue timeout s t ∧ t.net.clientUp = clientUp := by
  obtain ⟨r, hp⟩ : ∃ r, s.net.pool.perform maxqueue timeout (.frontend c m q tm true) = some r := by
    simp only [Pool.perform, Pool.frontend, hturn]
    exact ⟨_, rfl⟩
  have hstep : step maxqueue timeout s (.frontend c tm true) =
      some ⟨({ s.net with clientUp }).advance r, s.log ++ r.2⟩ := by
    simp only [step, Network.step, events, hr, hp, Option.map_some, Option.getD_some]
  obtain rfl := Pool.perform_frontend hp
  have ha : s.Serves (.frontend c tm true) := trivial
  exact ⟨_, ⟨ha.reach hstep, rfl, fun _ => rfl, fun _ _ => rfl⟩, rfl⟩

theorem work_onward {v : Frame} {a : Work} {p : Pool} (h : s.net.pool.work v a = some p) (ha : a.serves = true)
    (hreliable : s.net.pool.reliable (.work v a) = true) :
    Onward maxqueue timeout s ⟨s.net.advance (p, []), s.log ++ []⟩ := by
  have hperform : s.net.pool.perform maxqueue timeout (.work v a) = some (p, []) := by
    simp only [Pool.perform, h, Option.map_some]
  have hserves : s.Serves (.pool (.work v a)) := ⟨hreliable, ha⟩
  exact ⟨hserves.reach (step_pool rfl hperform), rfl, Pool.work_serving h ha, fun u hu => (Pool.work_parked h hu).2⟩

theorem backend_onward {w : Frame} {msg : List Frame} {up : Links Frame (List Frame)}
    (hr : Links.recv w s.net.pool.up = some (msg, up)) (hturn : s.net.pool.turn = .polling) :
    ∃ t, Onward maxqueue timeout s t ∧ t.net.pool.broker = (s.net.pool.broker.onBackend (w :: msg) true).1 ∧
      t.net.pool.turn = .frontend ∧ t.net.pool.up = up ∧ t.net.pool.worker = s.net.pool.worker := by
  obtain ⟨r, hp⟩ : ∃ r, s.net.pool.perform maxqueue timeout (.backend w true) = some r := by
    simp only [Pool.perform, Pool.backend, hturn, hr]
    exact ⟨_, rfl⟩
  have hstep := step_pool rfl hp
  obtain ⟨msg', up', hr', rfl⟩ := Pool.perform_backend hp
  obtain ⟨rfl, rfl⟩ := Prod.mk.inj (Option.some.inj (hr'.symm.trans hr))
  have ha : s.Serves (.pool (.backend w true)) := ⟨rfl, rfl⟩
  exact ⟨_, ⟨ha.reach hstep, rfl, fun _ => rfl, fun _ _ => rfl⟩, rfl, rfl, rfl, rfl⟩

-- sends fail just when the socket is closed
def sends (s : Logged) : Sends := ⟨fun _ => 0, fun v => (s.net.pool.worker v).connected⟩

structure Dispatched (timeout : ℤ) (now : ℚ) (s : Logged) (b : Broker) (log : List Event) (t : Logged) : Prop where
  dispatches : Broker.Dispatches (timeout / 1000) now s.sends s.net.pool.broker log b
  idle : b.Idle
  broker : t.net.pool.broker = b
  turn : t.net.pool.turn = .polling
  up : t.net.pool.up = s.net.pool.up
  worker : t.net.pool.worker = s.net.pool.worker
  down : t.net.pool.down = s.net.pool.down ++ log.filterMap Event.delivery
  log : t.log = s.log ++ log

theorem dispatch_onward (htidy : s.Tidy) (hturn : s.net.pool.turn ≠ .polling) (now : ℚ) :
    ∃ t b log, Onward maxqueue timeout s t ∧ Dispatched timeout now s b log t := by
  have hp : s.net.pool.perform maxqueue timeout (.dispatch now s.sends) =
      some ({ s.net.pool with
        broker := (Broker.dispatch timeout now s.sends s.net.pool.broker).1
        turn := .polling
        down := s.net.pool.down ++
          (Broker.dispatch timeout now s.sends s.net.pool.broker).2.filterMap Event.delivery
        sent := s.net.pool.sent ++
          (Broker.dispatch timeout now s.sends s.net.pool.broker).2.filterMap Event.delivery },
        (Broker.dispatch timeout now s.sends s.net.pool.broker).2) := by
    rw [Pool.perform, Pool.dispatch]
    split
    · rename_i hpolling
      exact absurd hpolling hturn
    · rfl
  have hdispatches := Broker.dispatch_dispatches timeout now s.sends s.net.pool.broker
  have hreliable : s.net.pool.reliable (.dispatch now s.sends) = true := by
    simp [Pool.reliable, sends]
  have ha : s.Serves (.pool (.dispatch now s.sends)) := ⟨hreliable, rfl⟩
  refine ⟨_, _, _, ⟨ha.reach (step_pool rfl hp), rfl, fun _ => rfl, fun v hv => ?_⟩, hdispatches,
    Broker.dispatch_idle timeout now s.sends _, rfl, rfl, rfl, rfl, rfl, rfl⟩
  have hnone : queue v ((Broker.dispatch timeout now s.sends s.net.pool.broker).2.filterMap Event.delivery) = [] := by
    by_contra hne
    obtain ⟨hmem, -, -, hdelivers⟩ := (hdispatches.deliveries v).2.1 hne
    rw [htidy v hmem hdelivers] at hv
    cases hv
  simp only [Network.advance, queue_append, hnone, List.append_nil]

end onward

def Sound (s : Logged) : Prop :=
  ∃ b, Board.Moves false .empty b ∧ s.Simulated b

def Progress (maxqueue timeout : ℤ) (s : Logged) : Prop :=
  ∃ t, Onward maxqueue timeout s t ∧ ∃ k f g, s.Has k f ∧ t.Has k g ∧ f ≠ g

section progress

variable {maxqueue timeout : ℤ} {s t : Logged} {k : Frame × Frame} {f : Fate}

theorem serves_lossless (s : Logged) (a : NetAct) (ha : s.Serves a) : a.lossless = true := by
  cases a with
  | frontend c tm ok => rfl
  | pool a =>
    cases a with
    | crash w | loseUp i | loseDown i => cases ha.1
    | _ => rfl
  | _ => exact absurd ha not_false

theorem Onward.simulated {b : Board} (h : Onward maxqueue timeout s t) (hs : s.Simulated b) :
    ∃ c, Board.Moves false b c ∧ t.Simulated c :=
  reach_simulated (fun s a ha => .inr (serves_lossless s a ha)) hs h.reach

theorem Onward.sound (h : Onward maxqueue timeout s t) (hs : s.Sound) : t.Sound := by
  obtain ⟨b, hmoves, hsim⟩ := hs
  obtain ⟨c, hlater, hsim⟩ := h.simulated hsim
  exact ⟨c, hmoves.trans hlater, hsim⟩

theorem Sound.exists_has (hs : s.Sound) (hk : k ∈ s.fetched) : ∃ f, s.Has k f := by
  obtain ⟨b, hmoves, hsim⟩ := hs
  obtain ⟨f, hf⟩ := Option.ne_none_iff_exists'.mp ((hsim.represents.fetched k).mp hk)
  exact ⟨f, (has_iff hmoves hsim.represents).mpr hf⟩

theorem Sound.fetched (hs : s.Sound) (hk : s.Has k f) : k ∈ s.fetched := by
  obtain ⟨b, hmoves, hsim⟩ := hs
  refine (hsim.represents.fetched k).mpr ?_
  rw [(has_iff hmoves hsim.represents).mp hk]
  rintro ⟨⟩

theorem Sound.nodup (hs : s.Sound) {tokens : List (Frame × Frame)} (hf : s.place f = some tokens) :
    tokens.Nodup := by
  obtain ⟨b, -, hsim⟩ := hs
  exact (hsim.represents.place f tokens hf).nodup

theorem Onward.still (h : Onward maxqueue timeout s t) (hs : s.Sound) (hk : s.Has k f) :
    s.Progress maxqueue timeout ∨ t.Has k f := by
  obtain ⟨g, hg⟩ := (h.sound hs).exists_has (h.fetched.symm ▸ hs.fetched hk)
  by_cases hfg : f = g
  · exact .inr (hfg ▸ hg)
  · exact .inl ⟨t, h, k, f, g, hk, hg, hfg⟩

theorem Progress.of_onward (hs : s.Sound) (h : Onward maxqueue timeout s t)
    (hp : t.Progress maxqueue timeout) : s.Progress maxqueue timeout := by
  obtain ⟨u, hu, k, f, g, hf, hg, hfg⟩ := hp
  obtain ⟨e, he⟩ := hs.exists_has (h.fetched ▸ (h.sound hs).fetched hf)
  by_cases hef : e = f
  · exact ⟨u, h.trans hu, k, e, g, he, hg, hef ▸ hfg⟩
  · exact ⟨t, h, k, e, f, he, hf, hef⟩

theorem Onward.left (h : Onward maxqueue timeout s t) (hs : s.Sound) {rest : List (Frame × Frame)}
    {all : List (Frame × Frame)} (hall : s.place f = some all) (hperm : all.Perm (k :: rest))
    (hrest : t.place f = some rest) : s.Progress maxqueue timeout := by
  have hk : s.Has k f := ⟨all, hall, hperm.mem_iff.mpr List.mem_cons_self⟩
  refine (h.still hs hk).resolve_right ?_
  rintro ⟨tokens, htokens, hmem⟩
  obtain rfl := Option.some.inj (hrest.symm.trans htokens)
  exact (List.nodup_cons.mp (hperm.nodup_iff.mp (hs.nodup hall))).1 hmem

theorem handled_progress {v : Frame} {g : RequestHandler} (hs : s.Sound)
    (hl : s.net.pool.worker v = .handling g) : s.Progress maxqueue timeout := by
  have hdone : ∀ {s : Logged} {g : RequestHandler}, s.Sound → s.net.pool.worker v = .handling g →
      g.headerWritten = true → s.Progress maxqueue timeout := by
    intro s g hs hl hwritten
    obtain ⟨p, hp⟩ : ∃ p, s.net.pool.work v .done = some p := by
      simp only [Pool.work, hl]
      exact ⟨_, rfl⟩
    have hreliable : s.net.pool.reliable (.work v .done) = true := by
      simp only [Pool.reliable, hl, hwritten]
    have hall : s.place (.handled v) = some [g.origin.key] := by
      rw [place, hl]
      rfl
    refine (work_onward _ _ hp rfl hreliable).left hs hall (.refl _) ?_
    cases Pool.work_works hp with
    | done => simp [place, Network.advance, Loop.current]
  cases hwritten : g.headerWritten with
  | true => exact hdone hs hl hwritten
  | false =>
    obtain ⟨p, hp, hp'⟩ : ∃ p, s.net.pool.work v (.write 200 [] [] false none true) = some p ∧
        p.worker v = .handling ({ g with statusCode := 200, headers := [] }.send [] false none true).handler := by
      simp only [Pool.work, hl]
      exact ⟨_, rfl, Pool.goto_self _ _ _⟩
    have honward := work_onward maxqueue timeout hp rfl rfl
    exact .of_onward hs honward (hdone (honward.sound hs) hp' (RequestHandler.send_written _ _ _ _).2.1)

theorem top_or_progress {v : Frame} (hs : s.Sound) (hv : (s.net.pool.worker v).serving = true) :
    s.Progress maxqueue timeout ∨ ∃ t, Onward maxqueue timeout s t ∧ t.net.pool.worker v = .top := by
  have hnext : ∀ {s : Logged}, s.net.pool.worker v = .checking →
      ∃ t, Onward maxqueue timeout s t ∧ t.net.pool.worker v = .top := by
    intro s hl
    have hp : s.net.pool.work v .next = some (s.net.pool.goto v .top) := by
      simp only [Pool.work, hl]
    exact ⟨_, work_onward _ _ hp rfl rfl, Pool.goto_self _ _ _⟩
  cases hl : s.net.pool.worker v with
  | top => exact .inr ⟨s, .refl s, hl⟩
  | receiving =>
    have hp : s.net.pool.work v .again = some (s.net.pool.goto v .checking) := by
      simp only [Pool.work, hl]
    have honward := work_onward maxqueue timeout hp rfl rfl
    obtain ⟨t, ht, htop⟩ := hnext (s := ⟨s.net.advance (s.net.pool.goto v .checking, []), s.log ++ []⟩)
      (Pool.goto_self _ _ _)
    exact .inr ⟨t, honward.trans ht, htop⟩
  | handling g => exact .inl (handled_progress hs hl)
  | checking => exact .inr (hnext hl)
  | leaving restart | closed restart =>
    rw [hl] at hv
    cases hv

variable (maxqueue timeout) in
theorem ready_onward {v : Frame} (hl : s.net.pool.worker v = .top) :
    ∃ t, Onward maxqueue timeout s t ∧ t.net.pool.worker v = .receiving ∧
      [workerReady] ∈ queue v t.net.pool.up := by
  have hp : s.net.pool.work v .ready =
      some { s.net.pool.goto v .receiving with up := s.net.pool.up ++ [(v, [workerReady])] } := by
    simp only [Pool.work, hl]
  refine ⟨_, work_onward _ _ hp rfl rfl, Pool.goto_self _ _ _, ?_⟩
  simp [Network.advance]

theorem dispatched_progress {v : Frame} (hs : s.Sound) (hk : s.Has k (.dispatched v))
    (hv : (s.net.pool.worker v).serving = true) : s.Progress maxqueue timeout := by
  obtain hp | ⟨t, ht, htop⟩ := top_or_progress hs hv
  · exact hp
  obtain ⟨u, hu, hl, -⟩ := ready_onward maxqueue timeout htop
  have honward := ht.trans hu
  obtain hp | ⟨tokens, htokens, hmem⟩ := honward.still hs hk
  · exact hp
  obtain rfl := Option.some.inj htokens
  obtain ⟨e, hqueue, -⟩ := List.mem_map.mp hmem
  obtain ⟨m, ms, hms⟩ := List.exists_cons_of_ne_nil (List.ne_nil_of_mem hqueue)
  obtain ⟨down, hr, hrest⟩ := recv_of_queue hms
  obtain ⟨b, hmoves, hsim⟩ := honward.sound hs
  obtain ⟨r, hm⟩ := down_requests hsim.paired _ (recv_mem hr)
  have hp : u.net.pool.work v .recv = some { u.net.pool.goto v (.handling (.new m.clientId m.msgid r)) with
      down := down, taken := u.net.pool.taken ++ [(v, m)] } := by
    simp only [Pool.work, hl, hr, hm]
  have hall : u.place (.dispatched v) = some (m.key :: ms.map Envelope.key) := by
    rw [place, hms, List.map_cons]
  refine .of_onward hs honward ((work_onward _ _ hp rfl rfl).left (honward.sound hs) hall (.refl _) ?_)
  simp only [place, Network.advance, hrest]

variable (maxqueue timeout) in
theorem tidy_onward (s : Logged) : ∃ t, Onward maxqueue timeout s t ∧ t.Tidy ∧
    t.net.pool.turn = s.net.pool.turn ∧ t.net.pool.up = s.net.pool.up := by
  have hclose : ∀ vs : List Frame, ∃ t, Onward maxqueue timeout s t ∧
      (∀ v ∈ vs, (t.net.pool.worker v).connected = true → (t.net.pool.worker v).serving = true) ∧
      t.net.pool.broker = s.net.pool.broker ∧ t.net.pool.turn = s.net.pool.turn ∧ t.net.pool.up = s.net.pool.up := by
    intro vs
    induction vs with
    | nil => exact ⟨s, .refl s, fun v hv => absurd hv List.not_mem_nil, rfl, rfl, rfl⟩
    | cons v vs ih =>
      obtain ⟨t, ht, hvs, hbroker, hturn, hup⟩ := ih
      by_cases hleaving : ∃ restart, t.net.pool.worker v = .leaving restart
      · obtain ⟨restart, hl⟩ := hleaving
        have hp : t.net.pool.work v .close = some (t.net.pool.goto v (.closed restart)) := by
          simp only [Pool.work, hl]
        refine ⟨_, ht.trans (work_onward _ _ hp rfl rfl), fun x hx => ?_, hbroker, hturn, hup⟩
        simp only [Network.advance]
        by_cases hxv : x = v
        · subst hxv
          rw [Pool.goto_self]
          rintro ⟨⟩
        · rw [Pool.goto_ne _ _ _ hxv]
          exact hvs x (List.mem_of_ne_of_mem hxv hx)
      · refine ⟨t, ht, List.forall_mem_cons.mpr ⟨fun hconnected => ?_, hvs⟩, hbroker, hturn, hup⟩
        cases hl : t.net.pool.worker v with
        | leaving restart => exact absurd ⟨restart, hl⟩ hleaving
        | closed restart =>
          rw [hl] at hconnected
          cases hconnected
        | _ => rfl
  obtain ⟨t, ht, hworkers, hbroker, hturn, hup⟩ := hclose s.net.pool.broker.workers.elems
  refine ⟨t, ht, fun v hv => ?_, hturn, hup⟩
  rw [hbroker] at hv
  exact hworkers v hv

theorem Dispatched.tidy {now : ℚ} {b : Broker} {log : List Event} (h : Dispatched timeout now s b log t)
    (htidy : s.Tidy) : t.Tidy := by
  intro v hv
  rw [h.broker] at hv
  rw [h.worker]
  exact htidy v ((h.dispatches.deliveries v).1 hv)

variable (maxqueue timeout) in
theorem polling_onward (s : Logged) : ∃ t, Onward maxqueue timeout s t ∧ t.Tidy ∧ t.net.pool.turn = .polling ∧
    t.net.pool.up = s.net.pool.up := by
  obtain ⟨t, ht, htidy, -, hup⟩ := tidy_onward maxqueue timeout s
  by_cases hturn : t.net.pool.turn = .polling
  · exact ⟨t, ht, htidy, hturn, hup⟩
  · obtain ⟨u, b, log, hu, hd⟩ := dispatch_onward maxqueue timeout htidy hturn 0
    exact ⟨u, ht.trans hu, hd.tidy htidy, hd.turn, hd.up.trans hup⟩

theorem sent_progress (hs : s.Sound) (hk : s.Has k .sent) : s.Progress maxqueue timeout := by
  obtain ⟨t, ht, -, hturn, -⟩ := polling_onward maxqueue timeout s
  obtain hp | ⟨tokens, htokens, hmem⟩ := ht.still hs hk
  · exact hp
  obtain rfl := Option.some.inj htokens
  obtain ⟨⟨c, m, q⟩, hsent, -⟩ := List.mem_map.mp hmem
  obtain ⟨⟨m, q⟩, ms, hms⟩ := List.exists_cons_of_ne_nil (List.ne_nil_of_mem (mem_queue.mpr hsent))
  obtain ⟨clientUp, hr, -⟩ := recv_of_queue hms
  obtain ⟨u, hu, hup⟩ := frontend_onward maxqueue timeout hr hturn 0
  have hperm := (recv_perm hr).map fun x : Frame × Frame × RequestMessage => (x.1, x.2.1)
  refine .of_onward hs ht (hu.left (f := .sent) (ht.sound hs) rfl hperm ?_)
  rw [place, hup]

theorem Dispatched.head_progress {now : ℚ} {b : Broker} {log : List Event} {w : Frame}
    (h : Dispatched timeout now s b log t) (ht : Onward maxqueue timeout s t) (hk : s.Has k .queued)
    (hw : w ∈ s.net.pool.broker.workers) (hserving : (s.net.pool.worker w).serving = true) :
    s.Progress maxqueue timeout := by
  obtain ⟨tokens, htokens, hmem⟩ := hk
  obtain rfl := Option.some.inj htokens
  obtain ⟨x, hx, -⟩ := List.mem_map.mp hmem
  obtain ⟨e, rest, hwaiting⟩ := List.exists_cons_of_ne_nil (List.ne_nil_of_mem hx)
  have hqueued : s.Has e.key .queued :=
    ⟨_, rfl, List.mem_map.mpr ⟨e, by rw [hwaiting]; exact List.mem_cons_self, rfl⟩⟩
  rcases h.dispatches.head h.idle hwaiting hw (Loop.connected_of_serving hserving) with hdrop | ⟨v, hsend⟩
  · refine ⟨t, ht, e.key, .queued, .expired, hqueued, ⟨_, rfl, List.mem_map.mpr ⟨e, ?_, rfl⟩⟩, by simp⟩
    rw [h.log, List.filterMap_append, List.mem_append]
    exact .inr (List.mem_filterMap.mpr ⟨_, hdrop, rfl⟩)
  · refine ⟨t, ht, e.key, .queued, .dispatched v, hqueued, ⟨_, rfl, List.mem_map.mpr ⟨e.toEnvelope, ?_, rfl⟩⟩, by simp⟩
    rw [mem_queue, h.down, List.mem_append]
    exact .inr (List.mem_filterMap.mpr ⟨_, hsend, rfl⟩)

theorem drained_progress {w : Frame} (msgs : List (List Frame)) (hs : s.Sound) (htidy : s.Tidy)
    (hturn : s.net.pool.turn = .polling) (hserving : (s.net.pool.worker w).serving = true)
    (hqueue : queue w s.net.pool.up = msgs) (hready : [workerReady] ∈ msgs) (hk : s.Has k .queued) :
    s.Progress maxqueue timeout := by
  induction msgs generalizing s with
  | nil => exact absurd hready List.not_mem_nil
  | cons msg msgs ih =>
    obtain ⟨up, hr, hrest⟩ := recv_of_queue hqueue
    obtain ⟨t, ht, hbroker, hfrontend, hup, hworker⟩ :=
      backend_onward maxqueue timeout hr hturn
    have hservingt : (t.net.pool.worker w).serving = true := (ht.serving w).trans hserving
    have htidyt : t.Tidy := by
      intro v hv
      rw [hbroker] at hv
      rw [hworker]
      rcases Broker.onBackend_workers hv with hv | ⟨rfl, -⟩
      · exact htidy v hv
      · exact fun _ => hserving
    obtain hp | hkt := ht.still hs hk
    · exact hp
    obtain ⟨u, b, log, hu, hd⟩ := dispatch_onward maxqueue timeout htidyt
      (by rw [hfrontend]; rintro ⟨⟩) 0
    refine .of_onward hs ht ?_
    rcases List.mem_cons.mp hready with rfl | hready
    · refine hd.head_progress hu hkt (w := w) ?_ hservingt
      rw [hbroker]
      simp [Broker.onBackend]
    · obtain hp | hku := hu.still (ht.sound hs) hkt
      · exact hp
      refine .of_onward (ht.sound hs) hu (ih (hu.sound (ht.sound hs)) (hd.tidy htidyt) hd.turn ?_ ?_ hready hku)
      · rw [hd.worker, hservingt]
      · rw [hd.up, hup, hrest]

theorem queued_progress {w : Frame} (hs : s.Sound)
    (hw : (s.net.pool.worker w).serving = true) (hk : s.Has k .queued) : s.Progress maxqueue timeout := by
  obtain hp | ⟨t, ht, htop⟩ := top_or_progress hs hw
  · exact hp
  obtain ⟨u, hu, -, hready⟩ := ready_onward maxqueue timeout htop
  obtain ⟨v, hv, htidy, hturn, hup⟩ := polling_onward maxqueue timeout u
  have honward := (ht.trans hu).trans hv
  obtain hp | hk := honward.still hs hk
  · exact hp
  rw [← hup] at hready
  exact .of_onward hs honward
    (drained_progress _ (honward.sound hs) htidy hturn ((honward.serving w).trans hw) rfl hready hk)

theorem due_progress {w : Frame} (hs : s.Sound) (hw : (s.net.pool.worker w).serving = true)
    (hk : s.Has k f) (hf : f.settled = false)
    (hparked : ∀ v, f = .dispatched v → (s.net.pool.worker v).serving = true) : s.Progress maxqueue timeout := by
  cases f with
  | sent => exact sent_progress hs hk
  | queued => exact queued_progress hs hw hk
  | dispatched v => exact dispatched_progress hs hk (hparked v rfl)
  | handled v =>
    obtain ⟨tokens, htokens, hmem⟩ := hk
    obtain rfl := Option.some.inj htokens
    cases hl : s.net.pool.worker v with
    | handling g => exact handled_progress hs hl
    | _ =>
      rw [hl] at hmem
      cases hmem
  | lost => exact absurd hk (not_has_lost k)
  | crashed v => exact absurd hk (not_has_crashed k v)
  | refused | expired | finished v => cases hf

theorem parked_stays {v : Frame}
    (h : Transition.Reach (step maxqueue timeout) (fun _ a => a.lossless = true) s t)
    (hv : (s.net.pool.worker v).serving = false) :
    (t.net.pool.worker v).serving = false ∧ queue v s.net.pool.down <+: queue v t.net.pool.down := by
  induction h with
  | start => exact ⟨hv, List.prefix_rfl⟩
  | next _ a ha hstep ih =>
    obtain ⟨hleft, hdown⟩ := ih
    obtain ⟨net, hnet, rfl⟩ := Option.map_eq_some_iff.mp hstep
    rcases Network.step_performs hnet with hpool | ⟨act, r, hact, hp, hpool⟩
    · rw [hpool]
      exact ⟨hleft, hdown⟩
    · obtain ⟨hleft, hgrown⟩ := Pool.perform_parked (hact.trans ha) hp hleft
      rw [hpool]
      exact ⟨hleft, hdown.trans hgrown⟩

theorem requests_settle (hs : s.Sound) {w : Frame} (hw : (s.net.pool.worker w).serving = true) :
    ∃ t, Onward maxqueue timeout s t ∧ t.Sound ∧ ∀ k ∈ s.fetched, ∃ f, t.Has k f ∧
      (f.settled = true ∨ ∃ v, f = .dispatched v ∧ (s.net.pool.worker v).serving = false) := by
  obtain ⟨b, hmoves, hsim⟩ := hs
  induction hn : total Fate.rank b s.fetched using Nat.strong_induction_on generalizing s b with
  | h n ih =>
    have hs : s.Sound := ⟨b, hmoves, hsim⟩
    by_cases hdone : ∀ k ∈ s.fetched, ∃ f, s.Has k f ∧
        (f.settled = true ∨ ∃ v, f = .dispatched v ∧ (s.net.pool.worker v).serving = false)
    · exact ⟨s, .refl s, hs, hdone⟩
    push Not at hdone
    obtain ⟨k, hk, hdue⟩ := hdone
    obtain ⟨f, hf⟩ := hs.exists_has hk
    obtain ⟨hsettled, hserving⟩ := hdue f hf
    obtain ⟨t, ht, l, f, g, hf, hg, hfg⟩ : s.Progress maxqueue timeout :=
      due_progress hs hw hf (by simpa using hsettled) fun v hv => by simpa using hserving v hv
    obtain ⟨c, hlater, hsimt⟩ := ht.simulated hsim
    have hlt : total Fate.rank c t.fetched < n := by
      rw [← hn, ht.fetched]
      refine hlater.total_lt Fate.Next.rank_lt (fun k hk => (hsim.represents.fetched k).mp hk) (hs.fetched hf) ?_
      rw [(has_iff hmoves hsim.represents).mp hf, (has_iff (hmoves.trans hlater) hsimt.represents).mp hg]
      exact fun heq => hfg (Option.some.inj heq).symm
    obtain ⟨u, hu, hsu, hall⟩ := ih _ hlt (s := t) ((ht.serving w).trans hw) c (hmoves.trans hlater) hsimt rfl
    refine ⟨u, ht.trans hu, hsu, fun k hk => ?_⟩
    obtain ⟨f, hf, hrest⟩ := hall k (ht.fetched.symm ▸ hk)
    refine ⟨f, hf, hrest.imp_right ?_⟩
    rintro ⟨v, hv, hleft⟩
    exact ⟨v, hv, (ht.serving v).symm.trans hleft⟩

theorem requests_can_be_settled
    (hs : Transition.Reach (step maxqueue timeout) (fun _ a => a.lossless = true) init s) {w : Frame}
    (hw : (s.net.pool.worker w).serving = true) :
    ∃ t, Transition.Reach (step maxqueue timeout) Serves s t ∧ t.fetched = s.fetched ∧
      ∀ k ∈ s.fetched, (∃ f, t.Has k f ∧ f.settled = true) ∨
        ∃ v, (s.net.pool.worker v).serving = false ∧ ∀ u,
          Transition.Reach (step maxqueue timeout) (fun _ a => a.lossless = true) s u → u.Has k (.dispatched v) := by
  obtain ⟨b, hmoves, hsim⟩ := reach_simulated (fun _ _ h => .inr h) init_simulated hs
  obtain ⟨t, ht, hsound, hall⟩ := requests_settle ⟨b, hmoves, hsim⟩ hw
  refine ⟨t, ht.reach, ht.fetched, fun k hk => ?_⟩
  obtain ⟨f, hf, hsettled | ⟨v, rfl, hv⟩⟩ := hall k hk
  · exact .inl ⟨f, hf, hsettled⟩
  · refine .inr ⟨v, hv, fun u hu => ?_⟩
    obtain ⟨tokens, htokens, hmem⟩ := hf
    obtain rfl := Option.some.inj htokens
    rw [ht.parked v hv] at hmem
    exact ⟨_, rfl, ((parked_stays hu hv).2.map Envelope.key).subset hmem⟩

theorem requests_can_be_settled_streamed : ∃ s t : Logged, (Pool.client1, .bytes [1]) ∈ s.fetched ∧
    Transition.Reach (step 100 3000) Serves s t ∧
      ∀ k ∈ s.fetched, (∃ f, t.Has k f ∧ f.settled = true) ∨
        ∃ v, (s.net.pool.worker v).serving = false ∧ ∀ u,
          Transition.Reach (step 100 3000) (fun _ a => a.lossless = true) s u → u.Has k (.dispatched v) := by
  have hm : Transition.Meets (step 100 3000) (fun _ a => a.lossless = true) init Network.streamed :=
    .of_forall (fun a ha _ => streamed_lossless a ha) init
  obtain ⟨s, hs, hp⟩ := Transition.Reach.exists_of_run
    (fun s : Logged => decide ((Pool.client1, Frame.bytes [1]) ∈ s.fetched) &&
      (s.net.pool.worker Pool.worker1).serving) hm (by decide +kernel)
  obtain ⟨hfetched, hserving⟩ := Bool.and_eq_true_iff.mp hp
  obtain ⟨t, ht, -, hall⟩ := requests_can_be_settled hs hserving
  exact ⟨s, t, of_decide_eq_true hfetched, ht, hall⟩

end progress

end Logged

end Zmq
