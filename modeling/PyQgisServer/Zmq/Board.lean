import PyQgisServer.Library.Placement
import PyQgisServer.Zmq.Delivery
import PyQgisServer.Zmq.Outstanding
import PyQgisServer.Zmq.BrokerQueue

namespace Zmq

open Links Placement

inductive Fate where
  | sent
  | refused
  | queued
  | expired
  | dispatched (w : Frame)
  | handled (w : Frame)
  | finished (w : Frame)
  | lost
  | crashed (w : Frame)
  deriving DecidableEq

inductive Fate.Next (lossy : Bool) : Fate → Fate → Prop
  | refused : Next lossy .sent .refused
  | queued : Next lossy .sent .queued
  | expired : Next lossy .queued .expired
  | dispatched (w : Frame) : Next lossy .queued (.dispatched w)
  | handled (w : Frame) : Next lossy (.dispatched w) (.handled w)
  | finished (w : Frame) : Next lossy (.handled w) (.finished w)
  | lostUp (h : lossy = true) : Next lossy .sent .lost
  | lostDown (w : Frame) (h : lossy = true) : Next lossy (.dispatched w) .lost
  | crashed (w : Frame) (h : lossy = true) : Next lossy (.handled w) (.crashed w)

theorem Fate.Next.ne {lossy : Bool} {f g : Fate} (h : Next lossy f g) : f ≠ g := by
  cases h with
  | _ => rintro ⟨⟩

abbrev Board := PyDict (Frame × Frame) Fate

abbrev Board.Moves (lossy : Bool) : Board → Board → Prop := Placement.Moves Fate.sent (Fate.Next lossy)

inductive NetAct.Next : NetAct → Fate → Fate → Prop
  | refused (c : Frame) (tm : ℚ) (ok : Bool) : Next (.frontend c tm ok) .sent .refused
  | queued (c : Frame) (tm : ℚ) (ok : Bool) : Next (.frontend c tm ok) .sent .queued
  | expired (now : ℚ) (env : Sends) : Next (.pool (.dispatch now env)) .queued .expired
  | dispatched (now : ℚ) (env : Sends) (w : Frame) : Next (.pool (.dispatch now env)) .queued (.dispatched w)
  | handled (w : Frame) : Next (.pool (.work w .recv)) (.dispatched w) (.handled w)
  | done (w : Frame) : Next (.pool (.work w .done)) (.handled w) (.finished w)
  | failed (w : Frame) : Next (.pool (.work w .fail)) (.handled w) (.finished w)
  | crashed (w : Frame) : Next (.pool (.crash w)) (.handled w) (.crashed w)
  | lostUp (i : ℕ) : Next (.loseClientUp i) .sent .lost
  | lostDown (i : ℕ) (w : Frame) : Next (.pool (.loseDown i)) (.dispatched w) .lost

inductive Board.Move (a : NetAct) (b : Board) : Board → Prop
  | enter {c m : Frame} {r : RequestMessage} (ha : a = .fetch c m r) (h : b.get? (c, m) = none) :
      Move a b (b.set (c, m) .sent)
  | next {k : Frame × Frame} {f g : Fate} (h : b.get? k = some f) (hn : a.Next f g) : Move a b (b.set k g)

abbrev Board.Acts (a : NetAct) : Board → Board → Prop := Relation.ReflTransGen (Board.Move a)

inductive Board.Runs : List NetAct → Board → Board → Prop
  | nil (b : Board) : Runs [] b b
  | cons {a : NetAct} {as : List NetAct} {b c d : Board} (h : Board.Acts a b c) (hs : Runs as c d) :
      Runs (a :: as) b d

def Envelope.key (e : Envelope) : Frame × Frame := (e.clientId, e.msgid)

def Event.expired : Event → Option Entry
  | .drop e _ => some e
  | _ => none

def NetAct.lossless : NetAct → Bool
  | .pool a => a.lossless
  | .loseClientUp _ | .loseClientDown _ => false
  | _ => true

theorem NetAct.Next.fate {a : NetAct} {lossy : Bool} {f g : Fate} (h : a.Next f g)
    (ha : lossy = true ∨ a.lossless = true) : Fate.Next lossy f g := by
  cases h with
  | refused c tm ok => exact .refused
  | queued c tm ok => exact .queued
  | expired now env => exact .expired
  | dispatched now env w => exact .dispatched w
  | handled w => exact .handled w
  | done w | failed w => exact .finished w
  | crashed w => exact .crashed w (ha.resolve_right (by simp [NetAct.lossless, Act.lossless]))
  | lostUp i => exact .lostUp (ha.resolve_right (by simp [NetAct.lossless]))
  | lostDown i w => exact .lostDown w (ha.resolve_right (by simp [NetAct.lossless, Act.lossless]))

theorem Board.Acts.moves {a : NetAct} {lossy : Bool} {b c : Board} (h : Board.Acts a b c)
    (ha : lossy = true ∨ a.lossless = true) : Board.Moves lossy b c := by
  induction h with
  | refl => exact .refl
  | tail _ hmove ih =>
    refine ih.tail ?_
    cases hmove with
    | enter _ hk => exact .enter hk
    | next hk hn => exact .next hk (hn.fate ha)

structure Logged where
  net : Network
  log : List Event

-- what the broker acts on in an action; without an action of the broker there is nothing
def Moment.none : Moment := ⟨.none, 0, 0, .none, fun _ => False, fun _ => false⟩

def poolMoment (p : Pool) : Act → Moment
  | .dispatch now env => { Moment.none with
      now := some now, known := fun w => w ∈ p.broker.workers, delivers := env.delivers }
  | _ => Moment.none

def Network.moment (s : Network) : NetAct → Moment
  | .frontend c tm _ => { Moment.none with
      request := (Links.recv c s.clientUp).map fun x => ⟨c, x.1.1, .pickle (.request x.1.2)⟩
      received := tm
      waiting := s.pool.broker.waiting.length }
  | .pool a => poolMoment s.pool a
  | _ => Moment.none

namespace Logged

def init : Logged := ⟨.init, []⟩

def events (maxqueue timeout : ℤ) (s : Network) : NetAct → List Event
  | .frontend c tm ok =>
    match Links.recv c s.clientUp with
    | some ((m, r), _) => ((s.pool.perform maxqueue timeout (.frontend c m r tm ok)).map (·.2)).getD []
    | none => []
  | .pool a => ((s.pool.perform maxqueue timeout a).map (·.2)).getD []
  | _ => []

def step (maxqueue timeout : ℤ) (s : Logged) (a : NetAct) : Option Logged :=
  (s.net.step maxqueue timeout a).map fun net => ⟨net, s.log ++ events maxqueue timeout s.net a⟩

def place (s : Logged) : Fate → Option (List (Frame × Frame))
  | .sent => some (s.net.clientUp.map fun x => (x.1, x.2.1))
  | .refused => some ((s.log.filterMap Event.rejected).map Envelope.key)
  | .queued => some (s.net.pool.broker.waiting.map fun e => e.key)
  | .expired => some ((s.log.filterMap Event.expired).map fun e => e.key)
  | .dispatched w => some ((queue w s.net.pool.down).map Envelope.key)
  | .handled w => some ((s.net.pool.worker w).current.map Envelope.key)
  | .finished w => some ((queue w s.net.pool.finished).map Envelope.key)
  | .lost => none
  | .crashed _ => none

def fetched (s : Logged) : List (Frame × Frame) := s.net.fetched.map fun x => (x.1, x.2.1)

structure Represents (s : Logged) (b : Board) : Prop where
  fetched : ∀ k, k ∈ s.fetched ↔ b.get? k ≠ none
  place : ∀ f tokens, s.place f = some tokens → Holds tokens b f

section represents

variable {a : NetAct} {s t : Logged} {b : Board} {k : Frame × Frame} {f g : Fate}

theorem Represents.same (h : s.Represents b) (hfetched : t.fetched = s.fetched)
    (hplace : ∀ e, t.place e = s.place e) : t.Represents b :=
  ⟨fun k => by rw [hfetched, h.fetched], fun e tokens he => h.place e tokens (by rw [← hplace, he])⟩

theorem Represents.move (h : s.Represents b) (hk : b.get? k = some f) (hnext : a.Next f g)
    (hleave : ∀ rest, t.place f = some rest → ∃ tokens, s.place f = some tokens ∧ tokens.Perm (k :: rest))
    (henter : ∀ rest, t.place g = some rest → ∃ tokens, s.place g = some tokens ∧ rest.Perm (k :: tokens))
    (hother : ∀ e, e ≠ f → e ≠ g → t.place e = s.place e) (hfetched : t.fetched = s.fetched) :
    Board.Acts a b (b.set k g) ∧ t.Represents (b.set k g) := by
  have hne : f ≠ g := (hnext.fate (.inl rfl)).ne
  refine ⟨.single (.next hk hnext), fun l => ?_, fun e tokens he => ?_⟩
  · rw [hfetched, h.fetched, PyDict.get?_set]
    split
    · rename_i hl
      simp [hl, hk]
    · rfl
  · by_cases hf : e = f
    · subst hf
      obtain ⟨all, hall, hp⟩ := hleave tokens he
      exact (h.place e all hall).leave hp hne.symm
    · by_cases hg : e = g
      · subst hg
        obtain ⟨few, hfew, hp⟩ := henter tokens he
        refine (h.place e few hfew).enter ?_ hp
        rw [hk]
        simpa using hne
      · rw [hother e hf hg] at he
        refine (h.place e tokens he).stay ?_ (Ne.symm hg)
        rw [hk]
        simpa using Ne.symm hf

theorem Represents.get? (h : s.Represents b) {tokens : List (Frame × Frame)} (hf : s.place f = some tokens)
    (hk : k ∈ tokens) : b.get? k = some f :=
  ((h.place f tokens hf).mem k).mp hk

end represents

theorem onBackend_quiet (b : Broker) (msg : List Frame) (ok : Bool) :
    (b.onBackend msg ok).2.filterMap Event.rejected = [] ∧ (b.onBackend msg ok).2.filterMap Event.expired = [] := by
  unfold Broker.onBackend
  split
  · split
    · exact ⟨rfl, rfl⟩
    · split <;> exact ⟨rfl, rfl⟩
  · exact ⟨rfl, rfl⟩

section step

variable {maxqueue timeout : ℤ} {s : Logged} {b : Board}

theorem fetch_moves {c m : Frame} {r : RequestMessage} (h : s.Represents b) (hnew : (c, m) ∉ s.fetched) :
    ∃ b', Board.Acts (.fetch c m r) b b' ∧ Represents ⟨{ s.net with
      clientUp := s.net.clientUp ++ [(c, m, r)], fetched := s.net.fetched ++ [(c, m, r)] }, s.log⟩ b' := by
  have hnone : b.get? (c, m) = none := by
    by_contra hne
    exact hnew ((h.fetched _).mpr hne)
  refine ⟨b.set (c, m) .sent, .single (.enter rfl hnone), fun k => ?_, fun f tokens hf => ?_⟩
  · have hk := h.fetched k
    rw [fetched] at hk ⊢
    rw [List.map_append, List.mem_append, hk, PyDict.get?_set]
    by_cases hkm : k = (c, m)
    · simp [hkm]
    · simp [hkm]
  · by_cases hsent : f = .sent
    · subst hsent
      obtain rfl := Option.some.inj hf
      refine (h.place .sent _ rfl).enter (by rw [hnone]; rintro ⟨⟩) ?_
      rw [List.map_append]
      exact List.perm_append_singleton _ _
    · have hsame : s.place f = some tokens := by
        cases f with
        | sent => exact absurd rfl hsent
        | _ => exact hf
      exact (h.place f tokens hsame).stay (by rw [hnone]; rintro ⟨⟩) (Ne.symm hsent)

theorem frontend_moves {c m : Frame} {q : RequestMessage} {tm : ℚ} {ok : Bool}
    {clientUp : Links Frame (Frame × RequestMessage)} {r : Pool × List Event} (h : s.Represents b)
    (hr : Links.recv c s.net.clientUp = some ((m, q), clientUp))
    (hp : s.net.pool.perform maxqueue timeout (.frontend c m q tm ok) = some r) :
    ∃ b', Board.Acts (.frontend c tm ok) b b' ∧
      Represents ⟨({ s.net with clientUp }).advance r, s.log ++ r.2⟩ b' := by
  obtain rfl := Pool.perform_frontend hp
  have hperm := (recv_perm hr).map fun x : Frame × Frame × RequestMessage => (x.1, x.2.1)
  have hk : b.get? (c, m) = some .sent := by
    refine h.get? (f := .sent) rfl ?_
    exact List.mem_map.mpr ⟨_, recv_mem hr, rfl⟩
  have hleave : ∀ rest, some (clientUp.map fun x => (x.1, x.2.1)) = some rest →
      ∃ tokens, s.place .sent = some tokens ∧ tokens.Perm ((c, m) :: rest) := by
    rintro rest ⟨⟩
    exact ⟨_, rfl, hperm⟩
  simp only [Broker.onFrontend]
  split
  · refine ⟨_, h.move (f := .sent) (g := .refused) hk (.refused c tm ok) hleave ?_ ?_ rfl⟩
    · rintro rest ⟨⟩
      refine ⟨_, rfl, ?_⟩
      rw [List.filterMap_append, List.map_append]
      exact List.perm_append_singleton _ _
    · intro e hsent hrefused
      cases e with
      | sent => exact absurd rfl hsent
      | refused => exact absurd rfl hrefused
      | expired => simp [place, List.filterMap_append, List.filterMap_cons, Event.expired]
      | _ => rfl
  · refine ⟨_, h.move (f := .sent) (g := .queued) hk (.queued c tm ok) hleave ?_ ?_ rfl⟩
    · rintro rest ⟨⟩
      refine ⟨_, rfl, ?_⟩
      simp only [Network.advance, List.map_append]
      exact List.perm_append_singleton _ _
    · intro e hsent hqueued
      cases e with
      | sent => exact absurd rfl hsent
      | queued => exact absurd rfl hqueued
      | refused => simp [place, List.filterMap_append, List.filterMap_cons, Event.rejected]
      | expired => simp [place, List.filterMap_append, List.filterMap_cons, Event.expired]
      | _ => rfl

def afterDispatch (s : Logged) (b : Broker) (log : List Event) : Logged where
  net := { s.net with pool := { s.net.pool with
    broker := b, down := s.net.pool.down ++ log.filterMap Event.delivery } }
  log := s.log ++ log

theorem afterDispatch_append (s : Logged) (c d : Broker) (log later : List Event) :
    (s.afterDispatch c log).afterDispatch d later = s.afterDispatch d (log ++ later) := by
  simp [afterDispatch]

theorem dispatch_moves {timeout now : ℚ} {env : Sends} {c d : Broker} {log : List Event}
    (hd : Broker.Dispatches timeout now env c log d) (s : Logged) (b : Board) (hs : s.net.pool.broker = c)
    (h : s.Represents b) :
    ∃ b', Board.Acts (.pool (.dispatch now env)) b b' ∧ (s.afterDispatch d log).Represents b' := by
  induction hd generalizing s b with
  | done c =>
    refine ⟨b, .refl, h.same rfl fun e => ?_⟩
    cases e with
    | queued => simp [place, afterDispatch, hs]
    | _ => simp [place, afterDispatch]
  | @drop c d log e rest hc ht hd ih =>
    have hk : b.get? e.key = some .queued := by
      refine h.get? (f := .queued) rfl ?_
      rw [hs, hc]
      exact List.mem_cons_self
    have hmove := h.move (t := s.afterDispatch ⟨c.workers, rest⟩ [.drop e now]) hk (.expired now env) ?_ ?_ ?_ rfl
    · obtain ⟨b', hb', hrep⟩ := ih _ _ rfl hmove.2
      rw [afterDispatch_append] at hrep
      exact ⟨b', hmove.1.trans hb', hrep⟩
    · rintro tokens ⟨⟩
      exact ⟨_, rfl, by rw [hs, hc]; exact .refl _⟩
    · rintro tokens ⟨⟩
      refine ⟨_, rfl, ?_⟩
      simp only [afterDispatch, List.filterMap_append, List.map_append]
      exact List.perm_append_singleton _ _
    · intro f hqueued hexpired
      cases f with
      | queued => exact absurd rfl hqueued
      | expired => exact absurd rfl hexpired
      | _ => simp [place, afterDispatch, List.filterMap_cons, Event.delivery, Event.rejected]
  | @fail c d log e rest w hc hw hf hd ih =>
    have hrep : (s.afterDispatch ⟨c.workers.remove w, e :: rest⟩ [.fail w e]).Represents b := by
      refine h.same rfl fun f => ?_
      cases f with
      | queued => simp [place, afterDispatch, hs, hc]
      | _ => simp [place, afterDispatch, List.filterMap_cons, Event.delivery, Event.rejected, Event.expired]
    obtain ⟨b', hb', hrep⟩ := ih _ _ rfl hrep
    rw [afterDispatch_append] at hrep
    exact ⟨b', hb', hrep⟩
  | @send c d log e rest w hc hw hsends ht hd ih =>
    have hk : b.get? e.key = some .queued := by
      refine h.get? (f := .queued) rfl ?_
      rw [hs, hc]
      exact List.mem_cons_self
    have hmove := h.move (t := s.afterDispatch ⟨c.workers.remove w, rest⟩ [.send w e now]) hk (.dispatched now env w) ?_ ?_ ?_ rfl
    · obtain ⟨b', hb', hrep⟩ := ih _ _ rfl hmove.2
      rw [afterDispatch_append] at hrep
      exact ⟨b', hmove.1.trans hb', hrep⟩
    · rintro tokens ⟨⟩
      exact ⟨_, rfl, by rw [hs, hc]; exact .refl _⟩
    · rintro tokens ⟨⟩
      refine ⟨_, rfl, ?_⟩
      simp only [afterDispatch, List.filterMap_cons, List.filterMap_nil, Event.delivery, queue_append,
        queue_cons_self, queue_nil, List.map_append]
      exact List.perm_append_singleton _ _
    · intro f hqueued hdispatched
      cases f with
      | queued => exact absurd rfl hqueued
      | dispatched v =>
        have hv : w ≠ v := fun hwv => hdispatched (by rw [hwv])
        simp [place, afterDispatch, Event.delivery, queue_cons_ne hv]
      | _ => simp [place, afterDispatch, List.filterMap_cons, Event.delivery, Event.rejected, Event.expired]

theorem place_handled {t : Logged} {v : Frame} (h : t.net.pool.worker v = s.net.pool.worker v) :
    t.place (.handled v) = s.place (.handled v) := by
  simp only [place, h]

theorem finish_moves {t : Logged} {a : NetAct} {w : Frame} {g : RequestHandler} (h : s.Represents b)
    (hnext : a.Next (.handled w) (.finished w))
    (hl : s.net.pool.worker w = .handling g) (hcurrent : (t.net.pool.worker w).current = [])
    (hothers : ∀ v, v ≠ w → t.net.pool.worker v = s.net.pool.worker v)
    (hfinished : t.net.pool.finished = s.net.pool.finished ++ [(w, g.origin)]) (hfetched : t.fetched = s.fetched)
    (hsame : ∀ e, (∀ v, e ≠ .handled v) → (∀ v, e ≠ .finished v) → t.place e = s.place e) :
    ∃ b', Board.Acts a b b' ∧ t.Represents b' := by
  have hk : b.get? g.origin.key = some (.handled w) := by
    refine h.get? (f := .handled w) rfl ?_
    simp [hl, Loop.current]
  refine ⟨_, h.move (f := .handled w) (g := .finished w) hk hnext ?_ ?_ ?_ hfetched⟩
  · rintro rest ⟨⟩
    exact ⟨_, rfl, by rw [hl, hcurrent]; exact .refl _⟩
  · rintro rest ⟨⟩
    refine ⟨_, rfl, ?_⟩
    rw [hfinished, queue_append, List.map_append, queue_cons_self]
    exact List.perm_append_singleton _ _
  · intro e hhandled hdone
    cases e with
    | handled v => exact place_handled (hothers v fun hv => hhandled (by rw [hv]))
    | finished v =>
      have hv : w ≠ v := fun hwv => hdone (by rw [hwv])
      simp [place, hfinished, queue_cons_ne hv]
    | _ => exact hsame _ (by simp) (by simp)

theorem work_moves {w : Frame} {a : Work} {p : Pool} (h : s.Represents b)
    (hdown : ∀ x ∈ s.net.pool.down, ∃ r, x.2.data.loads = some (.request r)) (hw : s.net.pool.work w a = some p) :
    ∃ b', Board.Acts (.pool (.work w a)) b b' ∧ Represents ⟨s.net.advance (p, []), s.log ++ []⟩ b' := by
  have hothers : ∀ v, v ≠ w → p.worker v = s.net.pool.worker v := (Pool.work_worked hw).others
  cases Pool.work_works hw with
  | ready hl | again hl | restart hl | next hl | close hl =>
    refine ⟨b, .refl, h.same rfl fun e => ?_⟩
    cases e with
    | refused | expired => simp [place]
    | handled v =>
      by_cases hv : v = w
      · simp [place, Network.advance, hv, hl, Loop.current]
      · exact place_handled (hothers v hv)
    | _ => rfl
  | @recv m down r hl hr hm =>
    have hk : b.get? m.key = some (.dispatched w) := by
      refine h.get? (f := .dispatched w) rfl ?_
      exact List.mem_map_of_mem (mem_queue.mpr (recv_mem hr))
    refine ⟨_, h.move (f := .dispatched w) (g := .handled w) hk (.handled w) ?_ ?_ ?_ rfl⟩
    · rintro rest ⟨⟩
      exact ⟨_, rfl, by rw [queue_recv_self hr]; exact .refl _⟩
    · rintro rest ⟨⟩
      refine ⟨_, rfl, ?_⟩
      simp only [hl, Network.advance, Pool.goto_self, Loop.current, List.map_cons, List.map_nil,
        RequestHandler.origin_new hm]
      exact .refl _
    · intro e hdispatched hhandled
      cases e with
      | refused | expired => simp [place]
      | dispatched v =>
        have hv : v ≠ w := fun hvw => hdispatched (by rw [hvw])
        simp [place, Network.advance, queue_recv_ne hr hv]
      | handled v =>
        have hv : v ≠ w := fun hvw => hhandled (by rw [hvw])
        exact place_handled (hothers v hv)
      | _ => rfl
  | @garbage m down hl hr hm =>
    obtain ⟨r, hload⟩ := hdown _ (recv_mem hr)
    exact absurd hload (hm r)
  | @write g statusCode headers data sendMore metadata ok hl =>
    refine ⟨b, .refl, h.same rfl fun e => ?_⟩
    cases e with
    | refused | expired => simp [place]
    | handled v =>
      by_cases hv : v = w
      · simp only [place, Network.advance, hv, hl, Pool.goto_self, Loop.current, RequestHandler.send_origin]
        rfl
      · exact place_handled (hothers v hv)
    | _ => simp [place, Network.advance]
  | @done g hl =>
    refine finish_moves h (.done w) hl (by simp [Network.advance, Loop.current]) hothers rfl rfl fun e hhandled hfinished => ?_
    cases e with
    | refused | expired => simp [place]
    | handled v => exact absurd rfl (hhandled v)
    | finished v => exact absurd rfl (hfinished v)
    | _ => rfl
  | @fail g hl hh =>
    refine finish_moves h (.failed w) hl (by simp [Network.advance, Loop.current]) hothers rfl rfl fun e hhandled hfinished => ?_
    cases e with
    | handled v => exact absurd rfl (hhandled v)
    | finished v => exact absurd rfl (hfinished v)
    | _ => simp [place, Network.advance]

theorem crash_moves (w : Frame) (h : s.Represents b) :
    ∃ b', Board.Acts (.pool (.crash w)) b b' ∧
      Represents ⟨s.net.advance (s.net.pool.goto w (.closed false), []), s.log ++ []⟩ b' := by
  by_cases hcurrent : ∃ g, s.net.pool.worker w = .handling g
  · obtain ⟨g, hl⟩ := hcurrent
    have hk : b.get? g.origin.key = some (.handled w) := by
      refine h.get? (f := .handled w) rfl ?_
      simp [hl, Loop.current]
    refine ⟨_, h.move (f := .handled w) (g := .crashed w) hk (.crashed w) ?_ ?_ ?_ rfl⟩
    · rintro rest ⟨⟩
      exact ⟨_, rfl, by rw [hl]; simp [Network.advance, Loop.current]⟩
    · rintro rest ⟨⟩
    · intro e hhandled hcrashed
      cases e with
      | refused | expired => simp [place]
      | handled v => exact place_handled (s.net.pool.goto_ne w _ fun hv => hhandled (by rw [hv]))
      | _ => rfl
  · refine ⟨b, .refl, h.same rfl fun e => ?_⟩
    have hnil : (s.net.pool.worker w).current = [] := by
      cases hl : s.net.pool.worker w with
      | handling g => exact absurd ⟨g, hl⟩ hcurrent
      | _ => rfl
    cases e with
    | refused | expired => simp [place]
    | handled v =>
      by_cases hv : v = w
      · simp only [place, Network.advance, hv, hnil, Pool.goto_self]
        rfl
      · exact place_handled (s.net.pool.goto_ne w _ hv)
    | _ => rfl

theorem eraseIdx_cases {A : Type} (l : List A) (i : ℕ) :
    l.eraseIdx i = l ∨ ∃ l₁ x l₂, l = l₁ ++ x :: l₂ ∧ l.eraseIdx i = l₁ ++ l₂ := by
  by_cases h : i < l.length
  · refine .inr ⟨l.take i, l[i], l.drop (i + 1), ?_, List.eraseIdx_eq_take_drop_succ l i⟩
    rw [List.getElem_cons_drop, List.take_append_drop]
  · exact .inl (List.eraseIdx_of_length_le (not_lt.mp h))

theorem loseDown_moves (i : ℕ) (h : s.Represents b) :
    ∃ b', Board.Acts (.pool (.loseDown i)) b b' ∧
      Represents ⟨s.net.advance ({ s.net.pool with down := s.net.pool.down.eraseIdx i }, []), s.log ++ []⟩ b' := by
  rcases eraseIdx_cases s.net.pool.down i with hnone | ⟨l₁, ⟨w, m⟩, l₂, hl, herase⟩
  · refine ⟨b, .refl, h.same rfl fun e => ?_⟩
    cases e with
    | _ => simp [place, Network.advance, hnone]
  · have hk : b.get? m.key = some (.dispatched w) := by
      refine h.get? (f := .dispatched w) rfl ?_
      simp [hl]
    refine ⟨_, h.move (f := .dispatched w) (g := .lost) hk (.lostDown i w) ?_ ?_ ?_ rfl⟩
    · rintro rest ⟨⟩
      refine ⟨_, rfl, ?_⟩
      simp only [Network.advance, herase]
      simp only [hl, queue_append, queue_cons_self, List.map_append, List.map_cons]
      exact List.perm_middle
    · rintro rest ⟨⟩
    · intro e hdispatched hlost
      cases e with
      | refused | expired => simp [place]
      | dispatched v =>
        have hv : w ≠ v := fun hwv => hdispatched (by rw [hwv])
        simp only [place, Network.advance, herase]
        simp [hl, queue_cons_ne hv]
      | _ => rfl

theorem loseClientUp_moves (i : ℕ) (h : s.Represents b) :
    ∃ b', Board.Acts (.loseClientUp i) b b' ∧
      Represents ⟨{ s.net with clientUp := s.net.clientUp.eraseIdx i }, s.log ++ []⟩ b' := by
  rcases eraseIdx_cases s.net.clientUp i with hnone | ⟨l₁, ⟨c, m, r⟩, l₂, hl, herase⟩
  · refine ⟨b, .refl, h.same rfl fun e => ?_⟩
    cases e with
    | _ => simp [place, hnone]
  · have hk : b.get? (c, m) = some .sent := by
      refine h.get? (f := .sent) rfl ?_
      simp [hl]
    refine ⟨_, h.move (f := .sent) (g := .lost) hk (.lostUp i) ?_ ?_ ?_ rfl⟩
    · rintro rest ⟨⟩
      refine ⟨_, rfl, ?_⟩
      simp only [herase]
      simp only [hl, List.map_append, List.map_cons]
      exact List.perm_middle
    · rintro rest ⟨⟩
    · intro e hsent hlost
      cases e with
      | refused | expired => simp [place]
      | sent => exact absurd rfl hsent
      | _ => rfl

theorem pool_moves {a : Act} {r : Pool × List Event} (h : s.Represents b)
    (hdown : ∀ x ∈ s.net.pool.down, ∃ r, x.2.data.loads = some (.request r))
    (hclient : a.fromClient = false)
    (hp : s.net.pool.perform maxqueue timeout a = some r) :
    ∃ b', Board.Acts (.pool a) b b' ∧ Represents ⟨s.net.advance r, s.log ++ r.2⟩ b' := by
  cases a with
  | backend w ok =>
    obtain ⟨msg, up, -, rfl⟩ := Pool.perform_backend hp
    refine ⟨b, .refl, h.same rfl fun e => ?_⟩
    have hlog := onBackend_quiet s.net.pool.broker (w :: msg) ok
    cases e with
    | queued => simp [place, Network.advance, Broker.onBackend_waiting]
    | refused | expired => simp [place, hlog]
    | _ => rfl
  | frontend c m q tm ok => cases hclient
  | dispatch now env =>
    obtain ⟨c, log, hd, rfl⟩ := Pool.perform_dispatch hp
    obtain ⟨b', hmoves, hrep⟩ : ∃ b', Board.Acts (.pool (.dispatch now env)) b b' ∧
        (s.afterDispatch c log).Represents b' := dispatch_moves hd s b rfl h
    refine ⟨b', hmoves, hrep.same rfl fun e => ?_⟩
    cases e with
    | _ => rfl
  | work w a =>
    obtain ⟨hw, hlog⟩ := Pool.perform_work hp
    obtain ⟨p, log⟩ := r
    obtain rfl : log = [] := hlog
    exact work_moves h hdown hw
  | crash w =>
    obtain rfl := Option.some.inj hp
    exact crash_moves w h
  | loseUp i =>
    obtain rfl := Option.some.inj hp
    refine ⟨b, .refl, h.same rfl fun e => ?_⟩
    cases e with
    | refused | expired => simp [place]
    | _ => rfl
  | loseDown i =>
    obtain rfl := Option.some.inj hp
    exact loseDown_moves i h

theorem step_moves {a : NetAct} {t : Logged} (h : s.Represents b)
    (hdown : ∀ x ∈ s.net.pool.down, ∃ r, x.2.data.loads = some (.request r))
    (hs : step maxqueue timeout s a = some t) : ∃ b', Board.Acts a b b' ∧ t.Represents b' := by
  obtain ⟨net, hnet, rfl⟩ := Option.map_eq_some_iff.mp hs
  have hquiet : net.fetched = s.net.fetched → net.clientUp = s.net.clientUp → net.pool = s.net.pool →
      ∃ b', Board.Acts a b b' ∧ Represents ⟨net, s.log ++ []⟩ b' := by
    intro hfetched hup hpool
    refine ⟨b, .refl, h.same (by simp only [fetched, hfetched]) fun e => ?_⟩
    cases e with
    | _ => simp [place, hup, hpool]
  cases a with
  | fetch c m r =>
    simp only [Network.step] at hnet
    split at hnet
    · cases hnet
    · rename_i hnew
      obtain rfl := Option.some.inj hnet
      simpa only [events, List.append_nil] using fetch_moves h hnew
  | register c m =>
    simp only [Network.step] at hnet
    split at hnet
    · obtain rfl := Option.some.inj hnet
      exact hquiet rfl rfl rfl
    · cases hnet
  | poll c =>
    simp only [Network.step] at hnet
    split at hnet
    · obtain rfl := Option.some.inj hnet
      exact hquiet rfl rfl rfl
    · cases hnet
  | client c a =>
    obtain rfl := Option.some.inj hnet
    exact hquiet rfl rfl rfl
  | frontend c tm ok =>
    simp only [Network.step] at hnet
    split at hnet
    · rename_i m q clientUp hr
      obtain ⟨p, hp, rfl⟩ := Option.map_eq_some_iff.mp hnet
      simpa [events, hr, hp] using frontend_moves h hr hp
    · cases hnet
  | pool a =>
    simp only [Network.step] at hnet
    split at hnet
    · cases hnet
    · rename_i hclient
      obtain ⟨p, hp, rfl⟩ := Option.map_eq_some_iff.mp hnet
      have hevents : events maxqueue timeout s.net (.pool a) = p.2 := by simp [events, hp]
      rw [hevents]
      exact pool_moves h hdown (by simpa using hclient) hp
  | loseClientUp i =>
    obtain rfl := Option.some.inj hnet
    exact loseClientUp_moves i h
  | loseClientDown i =>
    obtain rfl := Option.some.inj hnet
    exact hquiet rfl rfl rfl

theorem perform_accounts {p : Pool} {a : Act} {r : Pool × List Event} (h : p.perform maxqueue timeout a = some r) :
    ∃ rs, Accounts maxqueue p.broker r.2 rs r.1.broker := by
  cases a with
  | backend w ok =>
    obtain ⟨msg, up, -, rfl⟩ := Pool.perform_backend h
    exact ⟨_, Broker.onBackend_accounts p.broker (w :: msg) ok⟩
  | frontend c m q tm ok =>
    obtain rfl := Pool.perform_frontend h
    exact ⟨_, Broker.onFrontend_accounts p.broker _ tm ok⟩
  | dispatch now env =>
    obtain ⟨c, log, hd, rfl⟩ := Pool.perform_dispatch h
    exact ⟨_, hd.accounts⟩
  | work w a =>
    obtain ⟨hw, hlog⟩ := Pool.perform_work h
    rw [hlog, (Pool.work_worked hw).broker]
    exact ⟨_, .refl _⟩
  | crash w | loseUp i | loseDown i =>
    obtain rfl := Option.some.inj h
    exact ⟨_, .refl _⟩

theorem perform_lawful {p : Pool} {a : Act} {r : Pool × List Event} (hclient : a.fromClient = false)
    (h : p.perform maxqueue timeout a = some r) : ∀ ev ∈ r.2, ev.Lawful maxqueue timeout (poolMoment p a) := by
  cases a with
  | backend w ok =>
    obtain ⟨msg, up, -, rfl⟩ := Pool.perform_backend h
    exact Broker.onBackend_lawful p.broker (w :: msg) ok _
  | frontend c m q tm ok => cases hclient
  | dispatch now env =>
    obtain ⟨c, log, hd, rfl⟩ := Pool.perform_dispatch h
    exact hd.lawful (fun w hw => hw) rfl rfl
  | work w a =>
    rw [(Pool.perform_work h).2]
    exact fun ev hev => absurd hev List.not_mem_nil
  | crash w | loseUp i | loseDown i =>
    obtain rfl := Option.some.inj h
    exact fun ev hev => absurd hev List.not_mem_nil

theorem step_broker {a : NetAct} {t : Logged} (h : step maxqueue timeout s a = some t) :
    ∃ log rs, t.log = s.log ++ log ∧ Accounts maxqueue s.net.pool.broker log rs t.net.pool.broker ∧
      ∀ ev ∈ log, ev.Lawful maxqueue timeout (s.net.moment a) := by
  obtain ⟨net, hnet, rfl⟩ := Option.map_eq_some_iff.mp h
  have hquiet : events maxqueue timeout s.net a = [] → net.pool = s.net.pool →
      ∃ log rs, s.log ++ events maxqueue timeout s.net a = s.log ++ log ∧
        Accounts maxqueue s.net.pool.broker log rs net.pool.broker ∧
          ∀ ev ∈ log, ev.Lawful maxqueue timeout (s.net.moment a) := by
    intro hevents hpool
    exact ⟨[], [], by rw [hevents], hpool ▸ .refl _, fun ev hev => absurd hev List.not_mem_nil⟩
  cases a with
  | frontend c tm ok =>
    simp only [Network.step] at hnet
    split at hnet
    · rename_i m q clientUp hr
      obtain ⟨p, hp, rfl⟩ := Option.map_eq_some_iff.mp hnet
      obtain ⟨rs, haccounts⟩ := perform_accounts hp
      refine ⟨p.2, rs, by simp only [events, hr, hp, Option.map_some, Option.getD_some], haccounts, ?_⟩
      obtain rfl := Pool.perform_frontend hp
      exact Broker.onFrontend_lawful _ _ tm ok (by simp [Network.moment, hr, Broker.request]) rfl rfl
    · cases hnet
  | pool a =>
    simp only [Network.step] at hnet
    split at hnet
    · cases hnet
    · rename_i hclient
      obtain ⟨p, hp, rfl⟩ := Option.map_eq_some_iff.mp hnet
      obtain ⟨rs, haccounts⟩ := perform_accounts hp
      refine ⟨p.2, rs, by simp only [events, hp, Option.map_some, Option.getD_some], haccounts, ?_⟩
      exact perform_lawful (by simpa using hclient) hp
  | client c a | loseClientUp i | loseClientDown i =>
    obtain rfl := Option.some.inj hnet
    exact hquiet rfl rfl
  | fetch c m r =>
    simp only [Network.step] at hnet
    split at hnet
    · cases hnet
    · obtain rfl := Option.some.inj hnet
      exact hquiet rfl rfl
  | register c m | poll c =>
    simp only [Network.step] at hnet
    split at hnet
    · obtain rfl := Option.some.inj hnet
      exact hquiet rfl rfl
    · cases hnet

end step

section runs

variable {maxqueue timeout : ℤ} {lossy : Bool} {s t : Logged} {b : Board}

theorem down_requests {n : Network} (h : n.Paired) : ∀ x ∈ n.pool.down, ∃ r, x.2.data.loads = some (.request r) := by
  intro x hx
  have hmem : x.2 ∈ (n.pool.down.map (·.2) : Multiset Envelope) :=
    Multiset.mem_coe.mpr (List.mem_map_of_mem hx)
  have hle : (n.pool.down.map (·.2) : Multiset Envelope) ≤ (n.fetched.map Network.requested : Multiset Envelope) := by
    refine le_trans ?_ h.held
    exact (Multiset.le_add_left _ _).trans ((Multiset.le_add_right _ _).trans (Multiset.le_add_right _ _))
  obtain ⟨y, -, hy⟩ := List.mem_map.mp (Multiset.mem_coe.mp (Multiset.mem_of_le hle hmem))
  exact ⟨y.2.2, by rw [← hy]; rfl⟩

structure Simulated (s : Logged) (b : Board) : Prop where
  paired : s.net.Paired
  represents : s.Represents b
  conserves : Conserves .init s.log s.net.pool.broker

theorem step_simulated {a : NetAct} (h : s.Simulated b) (hs : step maxqueue timeout s a = some t) :
    ∃ b', Board.Acts a b b' ∧ t.Simulated b' := by
  obtain ⟨b', hacts, hrep⟩ := step_moves h.represents (down_requests h.paired) hs
  obtain ⟨log, rs, hlog, haccounts, -⟩ := step_broker hs
  obtain ⟨net, hnet, rfl⟩ := Option.map_eq_some_iff.mp hs
  exact ⟨b', hacts, Network.step_paired h.paired hnet, hrep, hlog ▸ h.conserves.append haccounts.conserves⟩

theorem init_simulated : init.Simulated .empty where
  paired := Network.init_paired
  represents := by
    refine ⟨fun k => ?_, fun f tokens hf => ?_⟩
    · exact iff_of_false (List.not_mem_nil) (not_not.mpr rfl)
    · have hnil : tokens = [] := by
        cases f with
        | _ => simp_all [place, init, Network.init, Pool.init, Broker.init, Loop.current]
      subst hnil
      refine ⟨.nil, fun k => iff_of_false List.not_mem_nil ?_⟩
      rintro ⟨⟩
  conserves := rfl

theorem reach_simulated {ok : Logged → NetAct → Prop} {s₀ : Logged} {b₀ : Board}
    (hok : ∀ s a, ok s a → lossy = true ∨ a.lossless = true) (h₀ : s₀.Simulated b₀)
    (hs : Transition.Reach (step maxqueue timeout) ok s₀ s) :
    ∃ b, Board.Moves lossy b₀ b ∧ s.Simulated b := by
  refine hs.simulated h₀ fun s a t b h ha hstep => ?_
  obtain ⟨c, hacts, hsim⟩ := step_simulated h hstep
  exact ⟨c, hacts.moves (hok s a ha), hsim⟩

theorem reach_paired {ok : Logged → NetAct → Prop} (hs : Transition.Reach (step maxqueue timeout) ok init s) :
    s.net.Paired := by
  refine hs.invariant (I := fun s => s.net.Paired) Network.init_paired fun s a t h _ hstep => ?_
  obtain ⟨net, hnet, rfl⟩ := Option.map_eq_some_iff.mp hstep
  exact Network.step_paired h hnet

theorem run_simulated {as : List NetAct} (h : s.Simulated b)
    (hr : Transition.run (step maxqueue timeout) s as = some t) : ∃ c, Board.Runs as b c ∧ t.Simulated c := by
  induction as generalizing s b with
  | nil =>
    obtain rfl := Option.some.inj hr
    exact ⟨b, .nil b, h⟩
  | cons a as ih =>
    obtain ⟨u, hu, hr⟩ := Option.bind_eq_some_iff.mp hr
    obtain ⟨c, hacts, hc⟩ := step_simulated h hu
    obtain ⟨d, hruns, hd⟩ := ih hc hr
    exact ⟨d, .cons hacts hruns, hd⟩

theorem network_refines_board (maxqueue timeout : ℤ) :
    init.Represents .empty ∧
    (∀ s, Transition.Reach (step maxqueue timeout) (fun _ _ => True) init s → ∀ b, s.Represents b →
      ∀ a t, step maxqueue timeout s a = some t → ∃ c, Board.Acts a b c ∧ t.Represents c) ∧
    ∀ as s, Transition.run (step maxqueue timeout) init as = some s → ∃ b, Board.Runs as .empty b ∧ s.Represents b := by
  refine ⟨init_simulated.represents, fun s hs b hrep a t hstep => ?_, fun as s hr => ?_⟩
  · exact step_moves hrep (down_requests (reach_paired hs)) hstep
  · obtain ⟨b, hruns, hsim⟩ := run_simulated init_simulated hr
    exact ⟨b, hruns, hsim.represents⟩

theorem streamed_lossless : ∀ a ∈ Network.streamed, a.lossless = true := by decide

theorem network_refines_board_streamed : ∃ (s : Logged) (b : Board),
    (Pool.client1, .bytes [1]) ∈ s.fetched ∧ Board.Runs Network.streamed .empty b ∧ s.Represents b := by
  obtain ⟨s, hr, hp⟩ : ∃ s, Transition.run (step 100 3000) init Network.streamed = some s ∧
      (Pool.client1, .bytes [1]) ∈ s.fetched := by
    have hrun : (Transition.run (step 100 3000) init Network.streamed).any
        (fun s => decide ((Pool.client1, .bytes [1]) ∈ s.fetched)) = true := by decide +kernel
    obtain ⟨s, hs, hp⟩ := Option.any_eq_true _ _ |>.mp hrun
    exact ⟨s, hs, of_decide_eq_true hp⟩
  obtain ⟨b, hruns, hrep⟩ := (network_refines_board 100 3000).2.2 _ _ hr
  exact ⟨s, b, hp, hruns, hrep⟩

def Has (s : Logged) (k : Frame × Frame) (f : Fate) : Prop := ∃ tokens, s.place f = some tokens ∧ k ∈ tokens

theorem Represents.has_iff {k : Frame × Frame} {f : Fate} (h : s.Represents b) (hf : f ≠ .lost)
    (hcrashed : ∀ w, f ≠ .crashed w) : s.Has k f ↔ b.get? k = some f := by
  have hplace : ∃ tokens, s.place f = some tokens := by
    cases f with
    | lost => exact absurd rfl hf
    | crashed w => exact absurd rfl (hcrashed w)
    | _ => exact ⟨_, rfl⟩
  obtain ⟨tokens, htokens⟩ := hplace
  rw [← (h.place f tokens htokens).mem k]
  constructor
  · rintro ⟨l, hl, hk⟩
    obtain rfl := Option.some.inj (htokens.symm.trans hl)
    exact hk
  · exact fun hk => ⟨tokens, htokens, hk⟩

theorem not_has_lost (k : Frame × Frame) : ¬ s.Has k .lost := by
  rintro ⟨tokens, ⟨⟩, -⟩

theorem not_has_crashed (k : Frame × Frame) (w : Frame) : ¬ s.Has k (.crashed w) := by
  rintro ⟨tokens, ⟨⟩, -⟩

theorem lossless_fates (h : Board.Moves false .empty b) {k : Frame × Frame} {f : Fate} (hf : b.get? k = some f) :
    f ≠ .lost ∧ ∀ w, f ≠ .crashed w := by
  refine ⟨?_, fun w => ?_⟩
  · rintro rfl
    refine h.unvisited (by rintro ⟨⟩) (fun q hq => ?_) (by rintro k ⟨⟩) k hf
    cases hq with
    | lostUp h => cases h
    | lostDown w h => cases h
  · rintro rfl
    refine h.unvisited (by rintro ⟨⟩) (fun q hq => ?_) (by rintro k ⟨⟩) k hf
    cases hq with
    | crashed w h => cases h

theorem has_iff {k : Frame × Frame} {f : Fate} (hmoves : Board.Moves false .empty b) (h : s.Represents b) :
    s.Has k f ↔ b.get? k = some f := by
  constructor
  · intro hf
    refine (h.has_iff ?_ fun w => ?_).mp hf
    · rintro rfl
      exact not_has_lost k hf
    · rintro rfl
      exact not_has_crashed k w hf
  · intro hf
    obtain ⟨hlost, hcrashed⟩ := lossless_fates hmoves hf
    exact (h.has_iff hlost hcrashed).mpr hf

theorem every_request_has_one_fate
    (hs : Transition.Reach (step maxqueue timeout) (fun _ a => a.lossless = true) init s) :
    (∀ k ∈ s.fetched, ∃! f, s.Has k f) ∧
    s.log.filterMap Event.accepted = s.log.filterMap Event.processed ++ s.net.pool.broker.waiting ∧
    (∀ a t, step maxqueue timeout s a = some t → ∃ log, t.log = s.log ++ log ∧
      ∀ ev ∈ log, ev.Lawful maxqueue timeout (s.net.moment a)) ∧
    ∀ as t, Transition.Meets (step maxqueue timeout) (fun _ a => a.lossless = true) s as →
      Transition.run (step maxqueue timeout) s as = some t → ∀ k f, s.Has k f →
      ∃ g, t.Has k g ∧ Relation.ReflTransGen (Fate.Next false) f g := by
  have hlossless : ∀ (_ : Logged) (a : NetAct), a.lossless = true → false = true ∨ a.lossless = true :=
    fun _ _ h => .inr h
  obtain ⟨b, hmoves, hsim⟩ := reach_simulated hlossless init_simulated hs
  refine ⟨fun k hk => ?_, hsim.conserves, fun a t hstep => ?_, fun as t hm hr k f hf => ?_⟩
  · obtain ⟨f, hf⟩ := Option.ne_none_iff_exists'.mp ((hsim.represents.fetched k).mp hk)
    refine ⟨f, (has_iff hmoves hsim.represents).mpr hf, fun g hg => ?_⟩
    exact Option.some.inj (((has_iff hmoves hsim.represents).mp hg).symm.trans hf)
  · obtain ⟨log, -, hlog, -, hlawful⟩ := step_broker hstep
    exact ⟨log, hlog, hlawful⟩
  · obtain ⟨c, hlater, hsim'⟩ := reach_simulated hlossless hsim (Transition.Reach.start.of_run hm hr)
    obtain ⟨g, hg, hfg⟩ := hlater.advances ((has_iff hmoves hsim.represents).mp hf)
    exact ⟨g, (has_iff (hmoves.trans hlater) hsim'.represents).mpr hg, hfg⟩

theorem every_request_has_one_fate_streamed : ∃ s : Logged, ∃! f, s.Has (Pool.client1, .bytes [1]) f := by
  have hm : Transition.Meets (step 100 3000) (fun _ a => a.lossless = true) init Network.streamed :=
    .of_forall (fun a ha _ => streamed_lossless a ha) init
  obtain ⟨s, hs, hp⟩ := Transition.Reach.exists_of_run
    (fun s : Logged => decide ((Pool.client1, Frame.bytes [1]) ∈ s.fetched)) hm (by decide +kernel)
  exact ⟨s, (every_request_has_one_fate hs).1 _ (of_decide_eq_true hp)⟩

end runs

end Logged

end Zmq
