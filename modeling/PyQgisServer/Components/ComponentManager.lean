import PyQgisServer.Library.PyDict
import PyQgisServer.Library.Transition
import PyQgisServer.Library.Urllib.Parse

namespace Components

open Transition
open Urllib (Str)

-- what a call of the manager can raise; the last are the exceptions of the factories themselves
inductive Raised (E : Type) where
  | valueError
  | factoryNotFound (contractID : Str)
  | noRegisteredFactory (contractID : Str)
  | other (e : E)
  deriving DecidableEq

-- a factory, or the function that register_service puts in its place
inductive Factory (O : Type) where
  | nullFactory (contractID : Str)
  | factory (f : O)
  deriving DecidableEq

-- a value is an object or None
structure FactoryEntry (O : Type) where
  createInstance : Factory O
  service : Option O
  deriving DecidableEq

structure ComponentManager (O : Type) where
  contractIDs : PyDict Str (FactoryEntry O)

inductive Call (O : Type) where
  | registerFactory (contractID : Str) (factory : Option O)
  | registerService (contractID : Str) (service : Option O)
  | createInstance (contractID : Str)
  | getService (contractID : Str)
  deriving DecidableEq

-- a call that waits for the factory it has called
inductive Pending (O : Type) where
  | createInstance (contractID : Str)
  | getService (contractID : Str) (fe : FactoryEntry O)
  deriving DecidableEq

inductive Outcome (O E : Type) where
  | answer (r : Except (Raised E) (Option O))
  | enter (f : O) (pending : Pending O)

variable {O E : Type}

def Pending.call : Pending O → Call O
  | .createInstance contractID => .createInstance contractID
  | .getService contractID _ => .getService contractID

def FactoryEntry.create (fe : FactoryEntry O) (pending : Pending O) : Outcome O E :=
  match fe.createInstance with
  | .nullFactory contractID => .answer (.error (.noRegisteredFactory contractID))
  | .factory f => .enter f pending

namespace ComponentManager

def init : ComponentManager O := ⟨.empty⟩

def register (m : ComponentManager O) (contractID : Str) (fe : FactoryEntry O) : ComponentManager O :=
  ⟨m.contractIDs.set contractID fe⟩

def registerFactory (callable : O → Bool) (m : ComponentManager O) (contractID : Str) (factory : Option O) :
    Except (Raised E) (ComponentManager O) :=
  match factory with
  | some f => if callable f then .ok (m.register contractID ⟨.factory f, none⟩) else .error .valueError
  | none => .error .valueError

def registerService (m : ComponentManager O) (contractID : Str) (service : Option O) : ComponentManager O :=
  m.register contractID ⟨.nullFactory contractID, service⟩

def createInstance (m : ComponentManager O) (contractID : Str) : Outcome O E :=
  match m.contractIDs.get? contractID with
  | some fe => fe.create (.createInstance contractID)
  | none => .answer (.error (.factoryNotFound contractID))

def getService (m : ComponentManager O) (contractID : Str) : Outcome O E :=
  match m.contractIDs.get? contractID with
  | none => .answer (.error (.factoryNotFound contractID))
  | some fe =>
    match fe.service with
    | none => fe.create (.getService contractID fe)
    | some service => .answer (.ok (some service))

-- the factory has returned: get_service stores the entry it has read before the call
def resume (m : ComponentManager O) (value : Option O) : Pending O → ComponentManager O
  | .createInstance _ => m
  | .getService contractID fe => m.register contractID { fe with service := value }

end ComponentManager

-- each action of a process logs what it comes to
inductive Event (O E : Type) where
  | answered (c : Call O) (r : Except (Raised E) (Option O))
  | called (c : Call O) (f : O)

-- the calls that wait are the innermost one first
structure Process (O E : Type) where
  manager : ComponentManager O
  pending : List (Pending O)
  log : List (Event O E)

-- what the running code does, a factory being the running code while a call waits for it
inductive Act (O E : Type) where
  | call (c : Call O)
  | returns (value : Option O)
  | raises (e : Raised E)

namespace Process

def init : Process O E := ⟨.init, [], []⟩

def answer (s : Process O E) (m : ComponentManager O) (c : Call O) (r : Except (Raised E) (Option O)) : Process O E :=
  { s with manager := m, log := s.log ++ [.answered c r] }

def follow (s : Process O E) (c : Call O) : Outcome O E → Process O E
  | .answer r => s.answer s.manager c r
  | .enter f pending => { s with pending := pending :: s.pending, log := s.log ++ [.called c f] }

def perform (callable : O → Bool) (s : Process O E) (c : Call O) : Process O E :=
  match c with
  | .registerFactory contractID factory =>
    match s.manager.registerFactory callable contractID factory with
    | .ok m => s.answer m c (.ok none)
    | .error e => s.answer s.manager c (.error e)
  | .registerService contractID service => s.answer (s.manager.registerService contractID service) c (.ok none)
  | .createInstance contractID => s.follow c (s.manager.createInstance contractID)
  | .getService contractID => s.follow c (s.manager.getService contractID)

def step (callable : O → Bool) (s : Process O E) : Act O E → Option (Process O E)
  | .call c => some (s.perform callable c)
  | .returns value =>
    match s.pending with
    | [] => none
    | p :: rest => some (({ s with pending := rest }).answer (s.manager.resume value p) p.call (.ok value))
  | .raises e =>
    match s.pending with
    | [] => none
    | p :: rest => some (({ s with pending := rest }).answer s.manager p.call (.error e))

end Process

def Call.gets (contractID : Str) : Call O → Bool
  | .getService i => i = contractID
  | _ => false

def Call.entry (contractID : Str) : Call O → Option (FactoryEntry O)
  | .registerFactory i (some f) => if i = contractID then some ⟨.factory f, none⟩ else none
  | .registerService i service => if i = contractID then some ⟨.nullFactory i, service⟩ else none
  | _ => none

def Act.gets (contractID : Str) : Act O E → Bool
  | .call c => c.gets contractID
  | _ => false

def Act.entry (contractID : Str) : Act O E → Option (FactoryEntry O)
  | .call c => c.entry contractID
  | _ => none

def Event.call : Event O E → Call O
  | .answered c _ | .called c _ => c

def Event.gets (contractID : Str) (e : Event O E) : Bool := e.call.gets contractID

def Event.served (contractID : Str) : Event O E → Option O
  | .answered c (.ok value) => if c.gets contractID then value else none
  | _ => none

def Pending.creating (contractID : Str) : Pending O → Option (FactoryEntry O)
  | .createInstance _ => none
  | .getService i fe => if i = contractID then some fe else none

-- what one contract is for a process: its entry, and the entries of the calls that create its service
@[ext] structure Cell (O : Type) where
  entry : Option (FactoryEntry O)
  creating : List (FactoryEntry O)

def Process.cell (s : Process O E) (contractID : Str) : Cell O :=
  ⟨s.manager.contractIDs.get? contractID, s.pending.filterMap (·.creating contractID)⟩

-- what an action is for one contract; top is the innermost call that waits
inductive Cell.Step (contractID : Str) (top : Option (Pending O)) : Act O E → Event O E → Cell O → Cell O → Prop
  | aside {a : Act O E} {e : Event O E} {c : Cell O} (ha : a.gets contractID = false)
      (he : e.gets contractID = false) : Step contractID top a e c c
  | register {a : Act O E} {e : Event O E} {c : Cell O} {fe : FactoryEntry O} (ha : a.entry contractID = some fe)
      (he : e.gets contractID = false) : Step contractID top a e c { c with entry := some fe }
  | missing {c : Cell O} (h : c.entry = none) : Step contractID top (.call (.getService contractID))
      (.answered (.getService contractID) (.error (.factoryNotFound contractID))) c c
  | read {c : Cell O} {fe : FactoryEntry O} {service : O} (h : c.entry = some fe) (hs : fe.service = some service) :
      Step contractID top (.call (.getService contractID))
        (.answered (.getService contractID) (.ok (some service))) c c
  | null {c : Cell O} {fe : FactoryEntry O} (i : Str) (h : c.entry = some fe) (hs : fe.service = none) :
      Step contractID top (.call (.getService contractID))
        (.answered (.getService contractID) (.error (.noRegisteredFactory i))) c c
  | create {c : Cell O} {fe : FactoryEntry O} (f : O) (h : c.entry = some fe) (hs : fe.service = none) :
      Step contractID top (.call (.getService contractID)) (.called (.getService contractID) f) c
        { c with creating := fe :: c.creating }
  | returned {c : Cell O} {fe : FactoryEntry O} {rest : List (FactoryEntry O)} (value : Option O)
      (htop : top = some (.getService contractID fe)) (h : c.creating = fe :: rest) :
      Step contractID top (.returns value) (.answered (.getService contractID) (.ok value)) c
        ⟨some { fe with service := value }, rest⟩
  | raised {c : Cell O} {fe : FactoryEntry O} {rest : List (FactoryEntry O)} (r : Raised E)
      (htop : top = some (.getService contractID fe)) (h : c.creating = fe :: rest) :
      Step contractID top (.raises r) (.answered (.getService contractID) (.error r)) c { c with creating := rest }

section cells

variable {callable : O → Bool} {s t : Process O E} {contractID : Str}

theorem perform_register {i : Str} {fe : FactoryEntry O} {c : Call O} {r : Except (Raised E) (Option O)}
    (hentry : c.entry contractID = if i = contractID then some fe else none) (hgets : c.gets contractID = false) :
    Cell.Step contractID s.pending.head? (.call c) (.answered c r) (s.cell contractID)
      ((s.answer (s.manager.register i fe) c r).cell contractID) := by
  by_cases hi : i = contractID
  · have hcell : (s.answer (s.manager.register i fe) c r).cell contractID =
        { s.cell contractID with entry := some fe } := by
      simp [Process.cell, Process.answer, ComponentManager.register, PyDict.get?_set, hi]
    rw [hcell]
    exact .register (hentry.trans (if_pos hi)) hgets
  · have hcell : (s.answer (s.manager.register i fe) c r).cell contractID = s.cell contractID := by
      simp [Process.cell, Process.answer, ComponentManager.register, PyDict.get?_set, Ne.symm hi]
    rw [hcell]
    exact .aside hgets hgets

theorem follow_aside {c : Call O} {pending : Pending O} {o : Outcome O E} (hgets : c.gets contractID = false)
    (ho : (∃ r, o = .answer r) ∨ ∃ f, o = .enter f pending) (hpending : pending.creating contractID = none) :
    ∃ e, (s.follow c o).log = s.log ++ [e] ∧
      Cell.Step contractID s.pending.head? (.call c) e (s.cell contractID) ((s.follow c o).cell contractID) := by
  obtain ⟨r, rfl⟩ | ⟨f, rfl⟩ := ho
  · exact ⟨_, rfl, .aside hgets hgets⟩
  · have hcell : (s.follow c (.enter f pending)).cell contractID = s.cell contractID := by
      simp [Process.cell, Process.follow, hpending]
    rw [hcell]
    exact ⟨_, rfl, .aside hgets hgets⟩

theorem create_cases (fe : FactoryEntry O) (pending : Pending O) :
    (∃ i, fe.create (E := E) pending = .answer (.error (.noRegisteredFactory i))) ∨
      ∃ f, fe.create (E := E) pending = .enter f pending := by
  unfold FactoryEntry.create
  split
  · exact .inl ⟨_, rfl⟩
  · exact .inr ⟨_, rfl⟩

theorem create_outcome (fe : FactoryEntry O) (pending : Pending O) :
    (∃ r, fe.create (E := E) pending = .answer r) ∨ ∃ f, fe.create (E := E) pending = .enter f pending :=
  (create_cases fe pending).imp_left fun ⟨_, hi⟩ => ⟨_, hi⟩

theorem createInstance_outcome (m : ComponentManager O) (i : Str) :
    (∃ r, m.createInstance (E := E) i = .answer r) ∨
      ∃ f, m.createInstance (E := E) i = .enter f (.createInstance i) := by
  unfold ComponentManager.createInstance
  split
  · exact create_outcome _ _
  · exact .inl ⟨_, rfl⟩

theorem getService_cases (m : ComponentManager O) (i : Str) :
    (m.contractIDs.get? i = none ∧ m.getService (E := E) i = .answer (.error (.factoryNotFound i))) ∨
      (∃ fe service, m.contractIDs.get? i = some fe ∧ fe.service = some service ∧
        m.getService (E := E) i = .answer (.ok (some service))) ∨
      ∃ fe, m.contractIDs.get? i = some fe ∧ fe.service = none ∧
        m.getService (E := E) i = fe.create (.getService i fe) := by
  unfold ComponentManager.getService
  split
  · rename_i hentry
    exact .inl ⟨hentry, rfl⟩
  · rename_i fe hentry
    split
    · rename_i hservice
      exact .inr (.inr ⟨fe, hentry, hservice, rfl⟩)
    · rename_i service hservice
      exact .inr (.inl ⟨fe, service, hentry, hservice, rfl⟩)

theorem getService_outcome (m : ComponentManager O) (i : Str) :
    ∃ fe, (∃ r, m.getService (E := E) i = .answer r) ∨ ∃ f, m.getService (E := E) i = .enter f (.getService i fe) := by
  obtain ⟨-, hr⟩ | ⟨fe, service, -, -, hr⟩ | ⟨fe, -, -, hr⟩ := getService_cases (E := E) m i
  · exact ⟨⟨.nullFactory i, none⟩, .inl ⟨_, hr⟩⟩
  · exact ⟨fe, .inl ⟨_, hr⟩⟩
  · exact ⟨fe, hr ▸ create_outcome fe _⟩

theorem getService_cell (s : Process O E) (contractID : Str) :
    ∃ e, (s.follow (.getService contractID) (s.manager.getService contractID)).log = s.log ++ [e] ∧
      Cell.Step contractID s.pending.head? (.call (.getService contractID)) e (s.cell contractID)
        ((s.follow (.getService contractID) (s.manager.getService contractID)).cell contractID) := by
  obtain ⟨hentry, hr⟩ | ⟨fe, service, hentry, hservice, hr⟩ | ⟨fe, hentry, hservice, hr⟩ :=
    getService_cases (E := E) s.manager contractID
  · rw [hr]
    exact ⟨_, rfl, .missing hentry⟩
  · rw [hr]
    exact ⟨_, rfl, .read hentry hservice⟩
  obtain ⟨i, hi⟩ | ⟨f, hf⟩ := create_cases (E := E) fe (.getService contractID fe)
  · rw [hr, hi]
    exact ⟨_, rfl, .null i hentry hservice⟩
  · rw [hr, hf]
    have hcell : (s.follow (.getService contractID) (.enter f (.getService contractID fe))).cell contractID =
        { s.cell contractID with creating := fe :: (s.cell contractID).creating } := by
      simp [Process.cell, Process.follow, Pending.creating]
    rw [hcell]
    exact ⟨_, rfl, .create f hentry hservice⟩

theorem registerFactory_ok {m n : ComponentManager O} {i : Str} {factory : Option O}
    (h : m.registerFactory (E := E) callable i factory = .ok n) :
    ∃ f, factory = some f ∧ n = m.register i ⟨.factory f, none⟩ := by
  unfold ComponentManager.registerFactory at h
  split at h
  · split at h
    · exact ⟨_, rfl, (Except.ok.inj h).symm⟩
    · cases h
  · cases h

theorem leave_cases {p : Pending O} {rest : List (Pending O)} (hpending : s.pending = p :: rest) (contractID : Str) :
    p.call.gets contractID = false ∧ s.cell contractID = ({ s with pending := rest }).cell contractID ∧
        (∀ value, (s.manager.resume value p).contractIDs.get? contractID = s.manager.contractIDs.get? contractID) ∨
      ∃ fe, p = .getService contractID fe ∧
        (s.cell contractID).creating = fe :: (({ s with pending := rest }).cell contractID).creating := by
  cases p with
  | createInstance i => exact .inl ⟨rfl, by simp [Process.cell, hpending, Pending.creating], fun _ => rfl⟩
  | getService i fe =>
    by_cases hi : i = contractID
    · subst hi
      exact .inr ⟨fe, rfl, by simp [Process.cell, hpending, Pending.creating]⟩
    · refine .inl ⟨decide_eq_false hi, by simp [Process.cell, hpending, Pending.creating, hi], fun value => ?_⟩
      rw [ComponentManager.resume, ComponentManager.register, PyDict.get?_set, if_neg (Ne.symm hi)]

theorem step_returns {value : Option O} (h : s.step callable (.returns value) = some t) :
    ∃ p rest, s.pending = p :: rest ∧
      t = ({ s with pending := rest }).answer (s.manager.resume value p) p.call (.ok value) := by
  simp only [Process.step] at h
  split at h
  · cases h
  · rename_i p rest hpending
    exact ⟨p, rest, hpending, (Option.some.inj h).symm⟩

theorem step_raises {r : Raised E} (h : s.step callable (.raises r) = some t) :
    ∃ p rest, s.pending = p :: rest ∧ t = ({ s with pending := rest }).answer s.manager p.call (.error r) := by
  simp only [Process.step] at h
  split at h
  · cases h
  · rename_i p rest hpending
    exact ⟨p, rest, hpending, (Option.some.inj h).symm⟩

theorem step_cell {a : Act O E} (h : s.step callable a = some t) (contractID : Str) :
    ∃ e, t.log = s.log ++ [e] ∧ Cell.Step contractID s.pending.head? a e (s.cell contractID) (t.cell contractID) := by
  cases a with
  | call c =>
    obtain rfl := Option.some.inj h
    cases c with
    | registerFactory i factory =>
      simp only [Process.perform]
      cases hr : s.manager.registerFactory (E := E) callable i factory with
      | error e => exact ⟨_, rfl, .aside rfl rfl⟩
      | ok m =>
        obtain ⟨f, rfl, rfl⟩ := registerFactory_ok hr
        exact ⟨_, rfl, perform_register rfl rfl⟩
    | registerService i service => exact ⟨_, rfl, perform_register rfl rfl⟩
    | createInstance i => exact follow_aside rfl (createInstance_outcome _ _) rfl
    | getService i =>
      by_cases hi : i = contractID
      · exact hi ▸ getService_cell s i
      · obtain ⟨fe, hr⟩ := getService_outcome (E := E) s.manager i
        exact follow_aside (decide_eq_false hi) hr (if_neg hi)
  | returns value =>
    obtain ⟨p, rest, hpending, rfl⟩ := step_returns h
    refine ⟨_, rfl, ?_⟩
    obtain ⟨hgets, hcell, hsame⟩ | ⟨fe, rfl, hcreating⟩ := leave_cases hpending contractID
    · have hafter : (({ s with pending := rest }).answer (s.manager.resume value p) p.call (.ok value)).cell
          contractID = s.cell contractID := by
        rw [hcell]
        exact Cell.ext (hsame value) rfl
      rw [hafter]
      exact .aside rfl hgets
    · have hafter : (({ s with pending := rest }).answer (s.manager.resume value (.getService contractID fe))
          (.getService contractID) (.ok value)).cell contractID =
            ⟨some { fe with service := value }, (({ s with pending := rest }).cell contractID).creating⟩ := by
        refine Cell.ext ?_ rfl
        exact (PyDict.get?_set _ _ _ _).trans (if_pos rfl)
      rw [Pending.call, hafter]
      exact .returned value (by rw [hpending]; rfl) hcreating
  | raises r =>
    obtain ⟨p, rest, hpending, rfl⟩ := step_raises h
    refine ⟨_, rfl, ?_⟩
    obtain ⟨hgets, hcell, -⟩ | ⟨fe, rfl, hcreating⟩ := leave_cases hpending contractID
    · rw [hcell]
      exact .aside rfl hgets
    · exact .raised r (by rw [hpending]; rfl) hcreating

end cells

end Components
