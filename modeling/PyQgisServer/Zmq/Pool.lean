import Mathlib.Logic.Function.Basic
import PyQgisServer.Library.Links
import PyQgisServer.Library.Transition
import PyQgisServer.Zmq.Broker
import PyQgisServer.Zmq.Worker

namespace Zmq

-- where run_worker stands; restart tells the RESTART exit from the error and crash exits
inductive Loop where
  | top
  | receiving
  | handling (h : RequestHandler)
  | checking
  | leaving (restart : Bool)
  | closed (restart : Bool)
  deriving DecidableEq

namespace Loop

def current : Loop → List Envelope
  | .handling h => [h.origin]
  | _ => []

def connected : Loop → Bool
  | .closed _ => false
  | _ => true

def restarted : Loop → Bool
  | .leaving restart => restart
  | .closed restart => restart
  | _ => false

end Loop

inductive Turn where
  | polling
  | frontend
  | dispatching
  deriving DecidableEq

-- up and down hold the frames in flight between broker and workers; sent, taken, finished,
-- answered and written only record what happened
structure Pool where
  broker : Broker
  turn : Turn
  up : Links Frame (List Frame)
  down : Links Frame Envelope
  worker : Frame → Loop
  sent : Links Frame Envelope
  taken : Links Frame Envelope
  finished : Links Frame Envelope
  answered : Links Frame Envelope
  written : Links Frame (Envelope × Frame)

inductive Work where
  | ready
  | again
  | recv
  | write (statusCode : Int) (headers : Dict) (data : Bytes) (sendMore : Bool)
      (metadata : Option Dict) (ok : Bool)
  | done
  | fail
  | restart
  | next
  | close

inductive Act where
  | backend (w : Frame) (ok : Bool)
  | frontend (clientId msgid : Frame) (request : RequestMessage) (tm : ℚ) (ok : Bool)
  | dispatch (now : ℚ) (env : Sends)
  | work (w : Frame) (a : Work)
  | crash (w : Frame)
  | loseUp (i : ℕ)
  | loseDown (i : ℕ)

def Act.fromClient : Act → Bool
  | .frontend _ _ _ _ _ => true
  | _ => false

def Event.delivery : Event → Option (Frame × Envelope)
  | .send w e _ => some (w, e.toEnvelope)
  | _ => none

namespace Pool

def init : Pool where
  broker := .init
  turn := .polling
  up := []
  down := []
  worker := fun _ => .top
  sent := []
  taken := []
  finished := []
  answered := []
  written := []

def goto (s : Pool) (w : Frame) (l : Loop) : Pool :=
  { s with worker := Function.update s.worker w l }

section goto

variable (s : Pool) (w : Frame) (l : Loop)

@[simp] theorem goto_self : (s.goto w l).worker w = l := Function.update_self _ _ _
theorem goto_ne {v : Frame} (h : v ≠ w) : (s.goto w l).worker v = s.worker v :=
  Function.update_of_ne h _ _
@[simp] theorem goto_broker : (s.goto w l).broker = s.broker := rfl
@[simp] theorem goto_up : (s.goto w l).up = s.up := rfl
@[simp] theorem goto_down : (s.goto w l).down = s.down := rfl
@[simp] theorem goto_sent : (s.goto w l).sent = s.sent := rfl
@[simp] theorem goto_taken : (s.goto w l).taken = s.taken := rfl
@[simp] theorem goto_finished : (s.goto w l).finished = s.finished := rfl
@[simp] theorem goto_answered : (s.goto w l).answered = s.answered := rfl
@[simp] theorem goto_written : (s.goto w l).written = s.written := rfl

end goto

def backend (s : Pool) (w : Frame) (ok : Bool) : Option (Pool × List Event) :=
  match s.turn, Links.recv w s.up with
  | .polling, some (msg, up) =>
    let b := s.broker.onBackend (w :: msg) ok
    some ({ s with broker := b.1, turn := .frontend, up := up }, b.2)
  | _, _ => none

def frontend (maxqueue : ℤ) (s : Pool) (m : Envelope) (tm : ℚ) (ok : Bool) :
    Option (Pool × List Event) :=
  match s.turn with
  | .dispatching => none
  | _ =>
    let b := s.broker.onFrontend maxqueue [m.clientId, m.msgid, m.data] tm ok
    some ({ s with broker := b.1, turn := .dispatching }, b.2)

def dispatch (timeout : ℤ) (s : Pool) (now : ℚ) (env : Sends) : Option (Pool × List Event) :=
  match s.turn with
  | .polling => none
  | _ =>
    let b := Broker.dispatch timeout now env s.broker
    let out := b.2.filterMap Event.delivery
    some ({ s with
      broker := b.1, turn := .polling, down := s.down ++ out, sent := s.sent ++ out }, b.2)

def reply (s : Pool) (w : Frame) (h : RequestHandler) (data : Option Frame) : Pool :=
  match data with
  | none => s
  | some d => { s with
      up := s.up ++ [(w, h.frames d)], written := s.written ++ [(w, h.origin, d)] }

section reply

variable (s : Pool) (w : Frame) (h : RequestHandler) (d : Option Frame)

@[simp] theorem reply_broker : (s.reply w h d).broker = s.broker := by cases d <;> rfl
@[simp] theorem reply_down : (s.reply w h d).down = s.down := by cases d <;> rfl
@[simp] theorem reply_worker : (s.reply w h d).worker = s.worker := by cases d <;> rfl
@[simp] theorem reply_sent : (s.reply w h d).sent = s.sent := by cases d <;> rfl
@[simp] theorem reply_taken : (s.reply w h d).taken = s.taken := by cases d <;> rfl
@[simp] theorem reply_finished : (s.reply w h d).finished = s.finished := by cases d <;> rfl
@[simp] theorem reply_answered : (s.reply w h d).answered = s.answered := by cases d <;> rfl

end reply

def work (s : Pool) (w : Frame) : Work → Option Pool
  | .ready =>
    match s.worker w with
    | .top => some { s.goto w .receiving with up := s.up ++ [(w, [workerReady])] }
    | _ => none
  | .again =>
    match s.worker w with
    | .receiving => some (s.goto w .checking)
    | _ => none
  | .recv =>
    match s.worker w, Links.recv w s.down with
    | .receiving, some (m, down) =>
      match m.data.loads with
      | some (.request r) =>
        some { s.goto w (.handling (.new m.clientId m.msgid r)) with
          down := down, taken := s.taken ++ [(w, m)] }
      | _ => some { s.goto w .checking with down := down, finished := s.finished ++ [(w, m)] }
    | _, _ => none
  | .write statusCode headers data sendMore metadata ok =>
    match s.worker w with
    | .handling h =>
      let r := { h with statusCode, headers }.send data sendMore metadata ok
      some ((s.reply w h r.sent).goto w (.handling r.handler))
    | _ => none
  | .done =>
    match s.worker w with
    | .handling h =>
      some { s.goto w .checking with
        finished := s.finished ++ [(w, h.origin)]
        answered := if h.headerWritten then s.answered ++ [(w, h.origin)] else s.answered }
    | _ => none
  | .fail =>
    match s.worker w with
    | .handling h =>
      if h.headerWritten then none
      else
        let r := { h with statusCode := 500 }.send workerInternalError false none true
        some { (s.reply w h r.sent).goto w (.leaving false) with
          finished := s.finished ++ [(w, h.origin)]
          answered := s.answered ++ [(w, h.origin)] }
    | _ => none
  | .restart =>
    match s.worker w with
    | .checking => some (s.goto w (.leaving true))
    | _ => none
  | .next =>
    match s.worker w with
    | .checking => some (s.goto w .top)
    | _ => none
  | .close =>
    match s.worker w with
    | .leaving restart => some (s.goto w (.closed restart))
    | _ => none

inductive Works (s : Pool) (w : Frame) : Work → Pool → Prop where
  | ready (hl : s.worker w = .top) :
      Works s w .ready { s.goto w .receiving with up := s.up ++ [(w, [workerReady])] }
  | again (hl : s.worker w = .receiving) : Works s w .again (s.goto w .checking)
  | recv {m : Envelope} {down : Links Frame Envelope} {r : RequestMessage}
      (hl : s.worker w = .receiving) (hr : Links.recv w s.down = some (m, down))
      (hm : m.data.loads = some (.request r)) :
      Works s w .recv { s.goto w (.handling (.new m.clientId m.msgid r)) with
        down := down, taken := s.taken ++ [(w, m)] }
  | garbage {m : Envelope} {down : Links Frame Envelope}
      (hl : s.worker w = .receiving) (hr : Links.recv w s.down = some (m, down))
      (hm : ∀ r, m.data.loads ≠ some (.request r)) :
      Works s w .recv { s.goto w .checking with
        down := down, finished := s.finished ++ [(w, m)] }
  | write {h : RequestHandler} (statusCode : Int) (headers : Dict) (data : Bytes)
      (sendMore : Bool) (metadata : Option Dict) (ok : Bool) (hl : s.worker w = .handling h) :
      Works s w (.write statusCode headers data sendMore metadata ok)
        ((s.reply w h ({ h with statusCode, headers }.send data sendMore metadata ok).sent).goto w
          (.handling ({ h with statusCode, headers }.send data sendMore metadata ok).handler))
  | done {h : RequestHandler} (hl : s.worker w = .handling h) :
      Works s w .done { s.goto w .checking with
        finished := s.finished ++ [(w, h.origin)]
        answered := if h.headerWritten then s.answered ++ [(w, h.origin)] else s.answered }
  | fail {h : RequestHandler} (hl : s.worker w = .handling h) (hh : h.headerWritten = false) :
      Works s w .fail { (s.reply w h
          ({ h with statusCode := 500 }.send workerInternalError false none true).sent).goto w
            (.leaving false) with
        finished := s.finished ++ [(w, h.origin)]
        answered := s.answered ++ [(w, h.origin)] }
  | restart (hl : s.worker w = .checking) : Works s w .restart (s.goto w (.leaving true))
  | next (hl : s.worker w = .checking) : Works s w .next (s.goto w .top)
  | close {restart : Bool} (hl : s.worker w = .leaving restart) :
      Works s w .close (s.goto w (.closed restart))

theorem work_works {s t : Pool} {w : Frame} {a : Work} (h : s.work w a = some t) :
    Works s w a t := by
  cases a with
  | ready =>
    simp only [work] at h
    split at h
    · rename_i hl
      obtain rfl := Option.some.inj h
      exact .ready hl
    · cases h
  | again =>
    simp only [work] at h
    split at h
    · rename_i hl
      obtain rfl := Option.some.inj h
      exact .again hl
    · cases h
  | recv =>
    simp only [work] at h
    split at h
    · rename_i m down hl hr
      split at h
      · rename_i r hm
        obtain rfl := Option.some.inj h
        exact .recv hl hr hm
      · rename_i hm
        obtain rfl := Option.some.inj h
        exact .garbage hl hr fun r hc => hm r hc
    · cases h
  | write statusCode headers data sendMore metadata ok =>
    simp only [work] at h
    split at h
    · rename_i g hl
      obtain rfl := Option.some.inj h
      exact .write _ _ _ _ _ _ hl
    · cases h
  | done =>
    simp only [work] at h
    split at h
    · rename_i g hl
      obtain rfl := Option.some.inj h
      exact .done hl
    · cases h
  | fail =>
    simp only [work] at h
    split at h
    · rename_i g hl
      split at h
      · cases h
      · rename_i hh
        obtain rfl := Option.some.inj h
        exact .fail hl (by simpa using hh)
    · cases h
  | restart =>
    simp only [work] at h
    split at h
    · rename_i hl
      obtain rfl := Option.some.inj h
      exact .restart hl
    · cases h
  | next =>
    simp only [work] at h
    split at h
    · rename_i hl
      obtain rfl := Option.some.inj h
      exact .next hl
    · cases h
  | close =>
    simp only [work] at h
    split at h
    · rename_i restart hl
      obtain rfl := Option.some.inj h
      exact .close hl
    · cases h

def perform (maxqueue timeout : ℤ) (s : Pool) : Act → Option (Pool × List Event)
  | .backend w ok => s.backend w ok
  | .frontend c m r tm ok => s.frontend maxqueue ⟨c, m, .pickle (.request r)⟩ tm ok
  | .dispatch now env => s.dispatch timeout now env
  | .work w a => (s.work w a).map fun t => (t, [])
  | .crash w => some (s.goto w (.closed false), [])
  | .loseUp i => some ({ s with up := s.up.eraseIdx i }, [])
  | .loseDown i => some ({ s with down := s.down.eraseIdx i }, [])

def step (maxqueue timeout : ℤ) (s : Pool) (a : Act) : Option Pool :=
  (s.perform maxqueue timeout a).map (·.1)

variable {maxqueue timeout : ℤ}

theorem perform_backend {s : Pool} {w : Frame} {ok : Bool} {r : Pool × List Event}
    (h : perform maxqueue timeout s (.backend w ok) = some r) :
    ∃ msg up, Links.recv w s.up = some (msg, up) ∧
      r = ({ s with
        broker := (s.broker.onBackend (w :: msg) ok).1, turn := .frontend, up := up },
        (s.broker.onBackend (w :: msg) ok).2) := by
  simp only [perform, backend] at h
  split at h
  · rename_i msg up _ hrecv
    obtain rfl := Option.some.inj h
    exact ⟨msg, up, hrecv, rfl⟩
  · cases h

theorem perform_frontend {s : Pool} {c m : Frame} {q : RequestMessage} {tm : ℚ} {ok : Bool}
    {r : Pool × List Event} (h : perform maxqueue timeout s (.frontend c m q tm ok) = some r) :
    r = ({ s with
      broker := (s.broker.onFrontend maxqueue [c, m, .pickle (.request q)] tm ok).1
      turn := .dispatching },
      (s.broker.onFrontend maxqueue [c, m, .pickle (.request q)] tm ok).2) := by
  simp only [perform, frontend] at h
  split at h
  · cases h
  · obtain rfl := Option.some.inj h
    rfl

theorem perform_dispatch {s : Pool} {now : ℚ} {env : Sends} {r : Pool × List Event}
    (h : perform maxqueue timeout s (.dispatch now env) = some r) :
    ∃ b log, Broker.Dispatches (timeout / 1000) now env s.broker log b ∧
      r = ({ s with
        broker := b, turn := .polling
        down := s.down ++ log.filterMap Event.delivery
        sent := s.sent ++ log.filterMap Event.delivery }, log) := by
  simp only [perform, dispatch] at h
  split at h
  · cases h
  · obtain rfl := Option.some.inj h
    exact ⟨_, _, Broker.dispatch_dispatches timeout now env s.broker, rfl⟩

theorem perform_work {s : Pool} {w : Frame} {a : Work} {r : Pool × List Event}
    (h : perform maxqueue timeout s (.work w a) = some r) : s.work w a = some r.1 ∧ r.2 = [] := by
  simp only [perform, Option.map_eq_some_iff] at h
  obtain ⟨t, ht, rfl⟩ := h
  exact ⟨ht, rfl⟩

theorem step_backend {s t : Pool} {w : Frame} {ok : Bool}
    (h : step maxqueue timeout s (.backend w ok) = some t) :
    ∃ msg up, Links.recv w s.up = some (msg, up) ∧
      t = { s with broker := (s.broker.onBackend (w :: msg) ok).1, turn := .frontend, up := up } := by
  obtain ⟨r, hr, rfl⟩ := Option.map_eq_some_iff.mp h
  obtain ⟨msg, up, hrecv, rfl⟩ := perform_backend hr
  exact ⟨msg, up, hrecv, rfl⟩

theorem step_frontend {s t : Pool} {c m : Frame} {q : RequestMessage} {tm : ℚ} {ok : Bool}
    (h : step maxqueue timeout s (.frontend c m q tm ok) = some t) :
    t = { s with
      broker := (s.broker.onFrontend maxqueue [c, m, .pickle (.request q)] tm ok).1
      turn := .dispatching } := by
  obtain ⟨r, hr, rfl⟩ := Option.map_eq_some_iff.mp h
  rw [perform_frontend hr]

theorem step_dispatch {s t : Pool} {now : ℚ} {env : Sends}
    (h : step maxqueue timeout s (.dispatch now env) = some t) :
    ∃ b log, Broker.Dispatches (timeout / 1000) now env s.broker log b ∧
      t = { s with
        broker := b, turn := .polling
        down := s.down ++ log.filterMap Event.delivery
        sent := s.sent ++ log.filterMap Event.delivery } := by
  obtain ⟨r, hr, rfl⟩ := Option.map_eq_some_iff.mp h
  obtain ⟨b, log, hd, rfl⟩ := perform_dispatch hr
  exact ⟨b, log, hd, rfl⟩

theorem step_work {s t : Pool} {w : Frame} {a : Work}
    (h : step maxqueue timeout s (.work w a) = some t) : s.work w a = some t := by
  obtain ⟨r, hr, rfl⟩ := Option.map_eq_some_iff.mp h
  exact (perform_work hr).1

def sendAll : Sends := ⟨fun _ => 0, fun _ => true⟩

def getMap (data : Option Bytes) : RequestMessage := ⟨"?SERVICE=WMS", [], "GET", data⟩

def worker1 : Frame := .bytes [119, 49]

def client1 : Frame := .bytes [99, 49]

end Pool

end Zmq
