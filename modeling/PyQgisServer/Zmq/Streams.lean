import Mathlib.Algebra.Order.Group.Multiset
import Mathlib.Tactic.Abel
import PyQgisServer.Zmq.Pool

namespace Zmq

open Links

def upFrame (c m : Frame) : Frame × List Frame → Option Frame
  | (_, [c', m', d]) => if c' = c ∧ m' = m then some d else none
  | _ => none

def wroteFrame (c m : Frame) : Frame × (Envelope × Frame) → Option Frame
  | (_, e, d) => if e.clientId = c ∧ e.msgid = m then some d else none

theorem Broker.Dispatches.conserves {timeout now : ℚ} {env : Sends} {b c : Broker}
    {log : List Event} (h : Dispatches timeout now env b log c) :
    ((log.filterMap Event.delivery).map (·.2) ++ c.waiting.map (·.toEnvelope)).Sublist
      (b.waiting.map (·.toEnvelope)) := by
  induction h with
  | done b => simp
  | drop hb ht h ih =>
    rw [hb]
    exact ih.trans (List.sublist_cons_self _ _)
  | fail hb hw hf h ih =>
    rw [hb]
    exact ih
  | @send b c log e rest w hb hw hd ht h ih =>
    rw [hb]
    exact ih.cons_cons e.toEnvelope

namespace Pool

variable {maxqueue timeout : ℤ}

structure Traced (s : Pool) : Prop where
  up : ∀ x ∈ s.up, x.2 = [workerReady] ∨
    ∃ e d, (x.1, e) ∈ s.taken ∧ x.2 = [e.clientId, e.msgid, d]
  current : ∀ w h, s.worker w = .handling h → (w, h.origin) ∈ s.taken
  written : ∀ x ∈ s.written, (x.1, x.2.1) ∈ s.taken

def held (s : Pool) : Multiset Envelope :=
  (s.broker.waiting.map (·.toEnvelope) : Multiset Envelope) + (s.down.map (·.2) : Multiset Envelope) +
    (s.taken.map (·.2) : Multiset Envelope)

theorem reply_traced {s : Pool} {w : Frame} {h : RequestHandler} (d : Option Frame)
    (hs : s.Traced) (hl : s.worker w = .handling h) : (s.reply w h d).Traced := by
  cases d with
  | none => exact hs
  | some d =>
    have hw := hs.current w h hl
    refine ⟨fun x hx => ?_, hs.current, fun x hx => ?_⟩
    · rcases List.mem_append.mp hx with hx | hx
      · exact hs.up x hx
      · obtain rfl := List.mem_singleton.mp hx
        exact .inr ⟨h.origin, d, hw, rfl⟩
    · rcases List.mem_append.mp hx with hx | hx
      · exact hs.written x hx
      · obtain rfl := List.mem_singleton.mp hx
        exact hw

theorem goto_traced {s : Pool} {w : Frame} {l : Loop} (hs : s.Traced)
    (hl : ∀ h, l = .handling h → (w, h.origin) ∈ s.taken) : (s.goto w l).Traced := by
  refine ⟨hs.up, fun v h hv => ?_, hs.written⟩
  by_cases hvw : v = w
  · subst hvw
    rw [goto_self] at hv
    exact hl h hv
  · rw [goto_ne _ _ _ hvw] at hv
    exact hs.current v h hv

theorem Traced.grow {s t : Pool} (hs : s.Traced) (hu : ∀ x ∈ t.up, x ∈ s.up)
    (hw : t.worker = s.worker) (ht : ∀ x ∈ s.taken, x ∈ t.taken) (hr : t.written = s.written) :
    t.Traced := by
  refine ⟨fun x hx => ?_, fun w h hl => ht _ (hs.current w h (hw ▸ hl)), fun x hx => ?_⟩
  · rcases hs.up x (hu x hx) with h | ⟨e, d, he, hd⟩
    · exact .inl h
    · exact .inr ⟨e, d, ht _ he, hd⟩
  · exact ht _ (hs.written x (hr ▸ hx))

theorem work_traced {s t : Pool} {w : Frame} {a : Work} (hs : s.Traced)
    (h : s.work w a = some t) : t.Traced := by
  cases work_works h with
  | ready hl =>
    have hg := goto_traced (w := w) (l := .receiving) hs (by simp)
    refine ⟨fun x hx => ?_, hg.current, hg.written⟩
    rcases List.mem_append.mp hx with hx | hx
    · exact hg.up x hx
    · obtain rfl := List.mem_singleton.mp hx
      exact .inl rfl
  | again hl | restart hl | next hl | close hl => exact goto_traced hs (by simp)
  | @recv m down r hl hr hm =>
    have ht : Traced { s with down, taken := s.taken ++ [(w, m)] } :=
      hs.grow (fun _ => id) rfl (fun x hx => List.mem_append_left _ hx) rfl
    refine goto_traced (w := w) (l := .handling (.new m.clientId m.msgid r)) ht fun h hh => ?_
    cases hh
    simp [RequestHandler.origin_new hm]
  | @garbage m down hl hr hm =>
    have ht : Traced { s with down, finished := s.finished ++ [(w, m)] } :=
      hs.grow (fun _ => id) rfl (fun _ => id) rfl
    exact goto_traced (w := w) (l := .checking) ht (by simp)
  | @write g statusCode headers data sendMore metadata ok hl =>
    refine goto_traced (reply_traced _ hs hl) fun h hh => ?_
    cases hh
    rw [RequestHandler.send_origin, reply_taken]
    exact hs.current w g hl
  | @done g hl =>
    exact (goto_traced (w := w) (l := .checking) hs (by simp)).grow (fun _ => id) rfl (fun _ => id) rfl
  | @fail g hl hh =>
    have ht := goto_traced (w := w) (l := .leaving false)
      (reply_traced ({ g with statusCode := 500 }.send workerInternalError false none true).sent hs hl)
      (by simp)
    exact ht.grow (fun _ => id) rfl (fun _ => id) rfl

theorem perform_traced {s : Pool} {a : Act} {r : Pool × List Event} (hs : s.Traced)
    (h : perform maxqueue timeout s a = some r) : r.1.Traced := by
  cases a with
  | backend w ok =>
    obtain ⟨msg, up, hr, rfl⟩ := perform_backend h
    exact hs.grow (fun x hx => (recv_sublist hr).subset hx) rfl (fun _ => id) rfl
  | frontend c m q tm ok =>
    obtain rfl := perform_frontend h
    exact hs.grow (fun _ => id) rfl (fun _ => id) rfl
  | dispatch now env =>
    obtain ⟨b, log, hd, rfl⟩ := perform_dispatch h
    exact hs.grow (fun _ => id) rfl (fun _ => id) rfl
  | work w a => exact work_traced hs (perform_work h).1
  | crash w =>
    obtain rfl := Option.some.inj h
    exact goto_traced hs (by simp)
  | loseUp i =>
    obtain rfl := Option.some.inj h
    exact hs.grow (fun x hx => List.mem_of_mem_eraseIdx hx) rfl (fun _ => id) rfl
  | loseDown i =>
    obtain rfl := Option.some.inj h
    exact hs.grow (fun _ => id) rfl (fun _ => id) rfl

theorem coe_recv {w : Frame} {l k : Links Frame Envelope} {m : Envelope}
    (h : Links.recv w l = some (m, k)) :
    (l.map (·.2) : Multiset Envelope) = m ::ₘ (k.map (·.2) : Multiset Envelope) :=
  Multiset.coe_eq_coe.mpr ((recv_perm h).map _)

theorem work_held {s t : Pool} {w : Frame} {a : Work} (h : s.work w a = some t) :
    t.held ≤ s.held := by
  cases work_works h with
  | @recv m down r hl hr hm =>
    have hd := coe_recv hr
    simp only [held, hd, List.map_append, ← Multiset.coe_add, goto_broker, List.map_cons, List.map_nil,
      Multiset.coe_singleton]
    rw [← Multiset.singleton_add]
    exact le_of_eq (by abel)
  | @garbage m down hl hr hm =>
    have hd := coe_recv hr
    simp only [held, hd, goto_broker, goto_taken]
    gcongr
    exact Multiset.le_cons_self _ _
  | write | fail => simp [held]
  | _ => exact le_rfl

theorem perform_held {s : Pool} {a : Act} {r : Pool × List Event} (ha : a.fromClient = false)
    (h : perform maxqueue timeout s a = some r) : r.1.held ≤ s.held := by
  cases a with
  | backend w ok =>
    obtain ⟨msg, up, hr, rfl⟩ := perform_backend h
    simp [held, Broker.onBackend_waiting]
  | frontend c m q tm ok => cases ha
  | dispatch now env =>
    obtain ⟨b, log, hd, rfl⟩ := perform_dispatch h
    have hle := Multiset.coe_le.mpr hd.conserves.subperm
    simp only [← Multiset.coe_add] at hle
    simp only [held, List.map_append, ← Multiset.coe_add]
    have hsum := add_le_add_left (add_le_add_left hle (s.down.map (·.2) : Multiset Envelope))
      (s.taken.map (·.2) : Multiset Envelope)
    refine le_trans (le_of_eq ?_) hsum
    abel
  | work w a => exact work_held (perform_work h).1
  | crash w =>
    obtain rfl := Option.some.inj h
    exact le_rfl
  | loseUp i =>
    obtain rfl := Option.some.inj h
    exact le_rfl
  | loseDown i =>
    obtain rfl := Option.some.inj h
    simp only [held]
    gcongr
    exact ((s.down.eraseIdx_sublist i).map _).subperm

theorem frontend_held {s : Pool} {c m : Frame} {q : RequestMessage} {tm : ℚ} {ok : Bool}
    {r : Pool × List Event} (h : perform maxqueue timeout s (.frontend c m q tm ok) = some r) :
    r.1.held ≤ s.held + {⟨c, m, .pickle (.request q)⟩} := by
  obtain rfl := perform_frontend h
  simp only [held, Broker.onFrontend]
  split
  · exact Multiset.le_add_right _ _
  · simp only [List.map_append, ← Multiset.coe_add, List.map_cons, List.map_nil,
      Multiset.coe_singleton]
    exact le_of_eq (by abel)

def Appends (c m : Frame) (s t : Pool) : Prop :=
  ∃ new, t.up.filterMap (upFrame c m) = s.up.filterMap (upFrame c m) ++ new ∧
    t.written.filterMap (wroteFrame c m) = s.written.filterMap (wroteFrame c m) ++ new

theorem reply_appends (s : Pool) (w : Frame) (h : RequestHandler) (d : Option Frame) (c m : Frame) :
    Appends c m s (s.reply w h d) := by
  cases d with
  | none => exact ⟨[], by simp [reply]⟩
  | some d =>
    refine ⟨[(w, h.origin, d)].filterMap (wroteFrame c m), ?_, ?_⟩
    · simp only [reply, List.filterMap_append]
      rfl
    · simp only [reply, List.filterMap_append]

theorem work_appends {s t : Pool} {w : Frame} {a : Work} (h : s.work w a = some t) (c m : Frame) :
    Appends c m s t := by
  cases work_works h with
  | ready hl => exact ⟨[], by simp [upFrame], by simp⟩
  | @write g statusCode headers data sendMore metadata ok hl => exact s.reply_appends w g _ c m
  | @fail g hl hh => exact s.reply_appends w g _ c m
  | _ => exact ⟨[], (List.append_nil _).symm, (List.append_nil _).symm⟩

end Pool

end Zmq
