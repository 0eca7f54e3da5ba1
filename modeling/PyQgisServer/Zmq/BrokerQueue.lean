import PyQgisServer.Zmq.Broker

namespace Zmq

namespace Event

def accepted : Event → Option Entry
  | .accept e _ => some e
  | _ => none

def rejected : Event → Option Envelope
  | .reject c m d _ _ => some ⟨c, m, d⟩
  | _ => none

def receipt : Event → Option Envelope
  | .accept e _ => some e.toEnvelope
  | ev => ev.rejected

def processed : Event → Option Entry
  | .send _ e _ => some e
  | .drop e _ => some e
  | _ => none

end Event

-- what the broker acts on: the request it receives and when, the length of its queue at the receipt, and for the
-- dispatch phase its clock, the workers it knows and the sends that succeed
structure Moment where
  request : Option Envelope
  received : ℚ
  waiting : ℕ
  now : Option ℚ
  known : Frame → Prop
  delivers : Frame → Bool

def Event.Lawful (maxqueue timeout : ℤ) (m : Moment) : Event → Prop
  | .accept e len =>
    m.request = some e.toEnvelope ∧ e.tm = m.received ∧ len = m.waiting ∧ (m.waiting : ℤ) < maxqueue
  | .reject clientId msgid data len _ =>
    m.request = some ⟨clientId, msgid, data⟩ ∧ len = m.waiting ∧ maxqueue ≤ m.waiting
  | .send w e now => m.known w ∧ m.delivers w = true ∧ m.now = some now ∧ now - e.tm ≤ timeout / 1000
  | .fail w _ => m.known w ∧ m.delivers w = false
  | .drop e now => m.now = some now ∧ now - e.tm > timeout / 1000
  | .forward _ _ _ _ => True

def busyReply : List Frame → Bool
  | [_, _, e, code] => e == err && code == busy
  | _ => false

def Envelope.refusal (r : Envelope) : List Frame := [r.clientId, r.msgid, err, busy]

theorem refusals (log : List Event) :
    (log.filterMap Event.frontend).filter busyReply =
      (log.filterMap Event.rejected).map Envelope.refusal := by
  induction log with
  | nil => rfl
  | cons ev log ih =>
    cases ev <;> simp [List.filterMap_cons, Event.frontend, Event.rejected, busyReply, Envelope.refusal, ih]

def Conserves (b : Broker) (log : List Event) (c : Broker) : Prop :=
  b.waiting ++ log.filterMap Event.accepted = log.filterMap Event.processed ++ c.waiting

theorem Conserves.append {b c d : Broker} {l m : List Event} (h : Conserves b l c) (k : Conserves c m d) :
    Conserves b (l ++ m) d := by
  simp only [Conserves, List.filterMap_append] at *
  rw [← List.append_assoc, h, List.append_assoc, k, List.append_assoc]

structure Accounts (maxqueue : ℤ) (b : Broker) (log : List Event) (rs : List Envelope) (c : Broker) : Prop where
  conserves : Conserves b log c
  receipts : log.filterMap Event.receipt = rs
  bounded : (b.waiting.length : ℤ) ≤ max maxqueue 0 → (c.waiting.length : ℤ) ≤ max maxqueue 0

namespace Accounts

variable {maxqueue : ℤ}

theorem refl (b : Broker) : Accounts maxqueue b [] [] b where
  conserves := by simp [Conserves]
  receipts := rfl
  bounded := id

theorem trans {b c d : Broker} {l m : List Event} {r s : List Envelope} (h : Accounts maxqueue b l r c)
    (k : Accounts maxqueue c m s d) : Accounts maxqueue b (l ++ m) (r ++ s) d where
  conserves := h.conserves.append k.conserves
  receipts := by rw [List.filterMap_append, h.receipts, k.receipts]
  bounded := k.bounded ∘ h.bounded

end Accounts

namespace Broker

section phases

variable {maxqueue timeout : ℤ}

theorem onBackend_accounts (b : Broker) (msg : List Frame) (ok : Bool) :
    Accounts maxqueue b (b.onBackend msg ok).2 [] (b.onBackend msg ok).1 := by
  unfold onBackend
  split
  · split
    · exact ⟨by simp [Conserves], rfl, id⟩
    · split
      · exact ⟨by simp [Conserves, List.filterMap_cons, Event.accepted, Event.processed], rfl, id⟩
      · exact .refl b
  · exact .refl b

theorem onBackend_lawful (b : Broker) (msg : List Frame) (ok : Bool) (m : Moment) :
    ∀ ev ∈ (b.onBackend msg ok).2, ev.Lawful maxqueue timeout m := by
  have hnone : ∀ ev ∈ ([] : List Event), ev.Lawful maxqueue timeout m := fun ev hev => absurd hev List.not_mem_nil
  unfold onBackend
  split
  · split
    · exact hnone
    · split
      · exact List.forall_mem_singleton.mpr trivial
      · exact hnone
  · exact hnone

def request : List Frame → Option Envelope
  | [clientId, msgid, data] => some ⟨clientId, msgid, data⟩
  | _ => none

theorem onFrontend_accounts (b : Broker) (msg : List Frame) (tm : ℚ) (ok : Bool) :
    Accounts maxqueue b (b.onFrontend maxqueue msg tm ok).2 (request msg).toList
      (b.onFrontend maxqueue msg tm ok).1 := by
  unfold onFrontend
  split
  · split
    · exact ⟨by simp [Conserves, List.filterMap_cons, Event.accepted, Event.processed], rfl, id⟩
    · rename_i hroom
      refine ⟨by simp [Conserves, List.filterMap_cons, Event.accepted, Event.processed], rfl, fun _ => ?_⟩
      simp only [List.length_append, List.length_cons, List.length_nil]
      omega
  · rename_i hmsg
    have hnone : request msg = none := by
      unfold request
      split
      · exact absurd rfl (hmsg _ _ _)
      · rfl
    rw [hnone]
    exact .refl b

theorem onFrontend_lawful (b : Broker) (msg : List Frame) (tm : ℚ) (ok : Bool) {m : Moment}
    (hrequest : m.request = request msg) (htm : m.received = tm) (hwaiting : m.waiting = b.waiting.length) :
    ∀ ev ∈ (b.onFrontend maxqueue msg tm ok).2, ev.Lawful maxqueue timeout m := by
  unfold onFrontend
  split
  · split
    · rename_i hfull
      exact List.forall_mem_singleton.mpr ⟨hrequest, hwaiting.symm, hwaiting ▸ hfull⟩
    · rename_i hroom
      exact List.forall_mem_singleton.mpr ⟨hrequest, htm.symm, hwaiting.symm, hwaiting ▸ not_le.mp hroom⟩
  · exact fun ev hev => absurd hev List.not_mem_nil

theorem Dispatches.accounts {timeout now : ℚ} {env : Sends} {b c : Broker} {log : List Event}
    (h : Dispatches timeout now env b log c) : Accounts maxqueue b log [] c := by
  induction h with
  | done b => exact .refl b
  | @drop b c log e rest hb ht h ih =>
    refine .trans (l := [.drop e now]) (r := []) ⟨?_, rfl, ?_⟩ ih
    · simp [Conserves, List.filterMap_cons, Event.accepted, Event.processed, hb]
    · simp only [hb, List.length_cons]
      omega
  | @fail b c log e rest w hb hw hf h ih =>
    refine .trans (l := [.fail w e]) (r := []) ⟨?_, rfl, ?_⟩ ih
    · simp [Conserves, List.filterMap_cons, Event.accepted, Event.processed, hb]
    · simp [hb]
  | @send b c log e rest w hb hw hd ht h ih =>
    refine .trans (l := [.send w e now]) (r := []) ⟨?_, rfl, ?_⟩ ih
    · simp [Conserves, List.filterMap_cons, Event.accepted, Event.processed, hb]
    · simp only [hb, List.length_cons]
      omega

theorem Dispatches.lawful {now : ℚ} {env : Sends} {b c : Broker} {log : List Event} {m : Moment}
    (h : Dispatches (timeout / 1000) now env b log c) (hknown : ∀ w ∈ b.workers, m.known w)
    (hdelivers : m.delivers = env.delivers) (hnow : m.now = some now) :
    ∀ ev ∈ log, ev.Lawful maxqueue timeout m := by
  induction h with
  | done b => exact fun ev hev => absurd hev List.not_mem_nil
  | drop hb ht h ih => exact List.forall_mem_cons.mpr ⟨⟨hnow, ht⟩, ih hknown⟩
  | fail hb hw hf h ih =>
    refine List.forall_mem_cons.mpr ⟨⟨hknown _ hw, hdelivers ▸ hf⟩, ih fun v hv => ?_⟩
    exact hknown v (PySet.mem_remove.mp hv).2
  | send hb hw hd ht h ih =>
    refine List.forall_mem_cons.mpr ⟨⟨hknown _ hw, hdelivers ▸ hd, hnow, ht⟩, ih fun v hv => ?_⟩
    exact hknown v (PySet.mem_remove.mp hv).2

end phases

def Poll.request (p : Poll) : Option Envelope := p.frontend.bind Broker.request

def Poll.ready (p : Poll) : Option Frame :=
  match p.backend with
  | some (workerId :: clientId :: _) => if clientId = workerReady then some workerId else none
  | _ => none

def moment (b : Broker) (p : Poll) : Moment where
  request := p.request
  received := p.received
  waiting := b.waiting.length
  now := some p.now
  known := fun w => w ∈ b.workers ∨ p.ready = some w
  delivers := p.sends.delivers

section runs

variable {maxqueue timeout : ℤ}

theorem backendPhase_accounts (p : Poll) (b : Broker) :
    Accounts maxqueue b (b.backendPhase p).2 [] (b.backendPhase p).1 := by
  unfold backendPhase
  cases p.backend with
  | none => exact .refl b
  | some msg => exact onBackend_accounts b msg p.forwarded

theorem frontendPhase_accounts (p : Poll) (b : Broker) :
    Accounts maxqueue b (b.frontendPhase maxqueue p).2 p.request.toList (b.frontendPhase maxqueue p).1 := by
  unfold frontendPhase Poll.request
  cases p.frontend with
  | none => exact .refl b
  | some msg => exact onFrontend_accounts b msg p.received p.rejected

theorem iterate_accounts (b : Broker) (p : Poll) :
    Accounts maxqueue b (iterate maxqueue timeout b p).2 p.request.toList (iterate maxqueue timeout b p).1 := by
  have h := (@backendPhase_accounts maxqueue p b).trans (frontendPhase_accounts p _)
  simpa only [iterate, List.nil_append, List.append_nil] using
    h.trans (dispatch_dispatches timeout p.now p.sends _).accounts

theorem runBroker_accounts (b : Broker) (ps : List Poll) :
    Accounts maxqueue b (runBroker maxqueue timeout b ps).2 (ps.filterMap Poll.request)
      (runBroker maxqueue timeout b ps).1 := by
  induction ps generalizing b with
  | nil => exact .refl b
  | cons p ps ih =>
    have := (@iterate_accounts maxqueue timeout b p).trans (ih _)
    cases hp : p.request <;> simpa [runBroker, List.filterMap_cons, hp] using this

theorem backendPhase_waiting (p : Poll) (b : Broker) : (b.backendPhase p).1.waiting = b.waiting := by
  unfold backendPhase
  cases p.backend with
  | none => rfl
  | some msg => exact onBackend_waiting b msg p.forwarded

theorem backendPhase_workers {p : Poll} {b : Broker} {w : Frame} (h : w ∈ (b.backendPhase p).1.workers) :
    w ∈ b.workers ∨ p.ready = some w := by
  unfold backendPhase at h
  unfold Poll.ready
  cases hp : p.backend with
  | none =>
    rw [hp] at h
    exact .inl h
  | some msg =>
    rw [hp] at h
    cases msg with
    | nil => exact .inl h
    | cons v rest =>
      rcases onBackend_workers h with hw | ⟨rfl, hready⟩
      · exact .inl hw
      · cases rest with
        | nil => cases hready
        | cons clientId rest =>
          obtain rfl := Option.some.inj hready
          exact .inr (if_pos rfl)

theorem frontendPhase_workers (p : Poll) (b : Broker) : (b.frontendPhase maxqueue p).1.workers = b.workers := by
  unfold frontendPhase
  cases p.frontend with
  | none => rfl
  | some msg => exact onFrontend_workers maxqueue b msg p.received p.rejected

theorem iterate_lawful (b : Broker) (p : Poll) :
    ∀ ev ∈ (iterate maxqueue timeout b p).2, ev.Lawful maxqueue timeout (b.moment p) := by
  have hbackend : ∀ ev ∈ (b.backendPhase p).2, ev.Lawful maxqueue timeout (b.moment p) := by
    unfold backendPhase
    cases p.backend with
    | none => exact fun ev hev => absurd hev List.not_mem_nil
    | some msg => exact onBackend_lawful b msg p.forwarded _
  have hfrontend : ∀ ev ∈ ((b.backendPhase p).1.frontendPhase maxqueue p).2,
      ev.Lawful maxqueue timeout (b.moment p) := by
    unfold frontendPhase
    cases hf : p.frontend with
    | none => exact fun ev hev => absurd hev List.not_mem_nil
    | some msg =>
      refine onFrontend_lawful _ msg p.received p.rejected ?_ rfl ?_
      · exact congrArg (·.bind Broker.request) hf
      · rw [backendPhase_waiting]
        rfl
  refine List.forall_mem_append.mpr ⟨List.forall_mem_append.mpr ⟨hbackend, hfrontend⟩, ?_⟩
  refine (dispatch_dispatches timeout p.now p.sends _).lawful (fun w hw => ?_) rfl rfl
  rw [frontendPhase_workers] at hw
  exact backendPhase_workers hw

theorem runBroker_append (b : Broker) (ps qs : List Poll) :
    runBroker maxqueue timeout b (ps ++ qs) =
      ((runBroker maxqueue timeout (runBroker maxqueue timeout b ps).1 qs).1,
        (runBroker maxqueue timeout b ps).2 ++ (runBroker maxqueue timeout (runBroker maxqueue timeout b ps).1 qs).2) := by
  induction ps generalizing b with
  | nil => rfl
  | cons p ps ih => simp only [List.cons_append, runBroker, ih, List.append_assoc]

end runs

theorem broker_conserves_requests (maxqueue timeout : ℤ) (ps : List Poll) :
    let r := runBroker maxqueue timeout init ps
    r.2.filterMap Event.receipt = ps.filterMap Poll.request ∧
    (r.2.filterMap Event.frontend).filter busyReply =
      (r.2.filterMap Event.rejected).map Envelope.refusal ∧
    r.2.filterMap Event.accepted = r.2.filterMap Event.processed ++ r.1.waiting ∧
    (r.1.waiting.length : ℤ) ≤ max maxqueue 0 ∧
    ∀ p, ∃ log, (runBroker maxqueue timeout init (ps ++ [p])).2 = r.2 ++ log ∧
      ∀ ev ∈ log, ev.Lawful maxqueue timeout (r.1.moment p) := by
  intro r
  have h := @runBroker_accounts maxqueue timeout init ps
  refine ⟨h.receipts, refusals _, h.conserves, h.bounded (by simp [init]), fun p => ?_⟩
  refine ⟨(iterate maxqueue timeout r.1 p).2, ?_, iterate_lawful r.1 p⟩
  rw [runBroker_append]
  simp only [runBroker, List.append_nil]
  rfl

end Broker

end Zmq
