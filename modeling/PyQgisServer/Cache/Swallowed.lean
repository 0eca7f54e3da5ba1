import PyQgisServer.Cache.Announced
import PyQgisServer.Cache.Observer

namespace CacheObserver

open QgsCache Urllib

-- a call of notify_observers by the worker pid, with the time as the worker has it
structure Report where
  pid : ℕ
  key : Str
  modifiedTime : ℤ
  state : UpdateState
  deriving DecidableEq

namespace Report

def message (r : Report) : Message := Client.observe r.pid (r.key, withoutMicroseconds r.modifiedTime, r.state)

def ofEvent (pid : ℕ) : Announced.Event → List Report
  | .notified key t update => [⟨pid, key, t, update⟩]
  | .served _ _ => []

def Same (q r : Report) : Prop := q.key = r.key ∧ q.modifiedTime = r.modifiedTime

end Report

theorem messages_of_run {P : Type} (env : Tables) (aliases : AliasTable) (n pid : ℕ) (as : List (Announced.Action P)) :
    (Announced.run env (Announced.start aliases n) as).manager.notified.map (Client.observe pid) =
      ((Announced.run env (Announced.start aliases n) as).log.reverse.flatMap (Report.ofEvent pid)).map
        Report.message := by
  rw [Announced.run_told, List.map_flatMap, List.map_flatMap]
  congr 1
  funext e
  cases e with
  | notified key t update => rfl
  | served key t => rfl

def Delivered (reports arrivals : List Report) : Prop :=
  ∀ pid, arrivals.filter (fun r => r.pid = pid) = reports.filter fun r => r.pid = pid

def Newer (reports : List Report) (r : Report) : Prop :=
  ∃ before after, reports = before ++ r :: after ∧ ∀ q ∈ before, q.key = r.key → q.modifiedTime < r.modifiedTime

namespace Server

def Notifies (s : Server) (m : Message) : Prop :=
  (s.receive m).observers = s.observers.map fun obs => obs.observe m.key m.modifiedTime (m.state = .inserted)

theorem notifies_iff (s : Server) (m : Message) : s.Notifies m ↔ s.observers = [] ∨ s.triggers m := by
  rw [Notifies, observers_receive]
  split
  case isTrue h => exact ⟨fun _ => .inr h, fun _ => rfl⟩
  case isFalse h =>
    constructor
    · intro heq
      cases hobs : s.observers with
      | nil => exact .inl rfl
      | cons obs rest =>
        rw [hobs, List.map_cons] at heq
        have hcalls := congrArg (fun o => o.calls.length) (List.cons.inj heq).1
        simp [Observer.observe] at hcalls
    · rintro (hnil | hm)
      · rw [hnil, List.map_nil]
      · exact absurd hm h

theorem observers_run_eq_nil (s : Server) (arrivals : List Message) :
    (s.run arrivals).observers = [] ↔ s.observers = [] := by
  induction arrivals generalizing s with
  | nil => rfl
  | cons m arrivals ih =>
    refine (ih (s.receive m)).trans ?_
    rw [observers_receive]
    split
    · exact List.map_eq_nil_iff
    · rfl

end Server

def NoneSwallowed (s : Server) (reports arrivals : List Report) : Prop :=
  ∀ r, Newer reports r → ∃ before q after, arrivals = before ++ q :: after ∧ q.Same r ∧
    (s.run (before.map Report.message)).Notifies q.message

def Surfaces (arrivals : List Report) (r : Report) : Prop :=
  ∃ before q after, arrivals = before ++ q :: after ∧ q.Same r ∧
    ∀ p ∈ (before.filter fun p => p.key = q.key).getLast?,
      withoutMicroseconds p.modifiedTime < withoutMicroseconds q.modifiedTime

theorem arrived_messages (before : List Report) (key : Str) :
    arrived (before.map Report.message) key =
      (before.filter fun p => p.key = key).map fun p => withoutMicroseconds p.modifiedTime := by
  rw [arrived, List.filter_map, List.map_map]
  rfl

theorem notifies_run_iff (declaredObservers : List Str) (before : List Report) (q : Report) :
    ((Server.init declaredObservers).run (before.map Report.message)).Notifies q.message ↔
      declaredObservers = [] ∨ ∀ p ∈ (before.filter fun p => p.key = q.key).getLast?,
        withoutMicroseconds p.modifiedTime < withoutMicroseconds q.modifiedTime := by
  have hkey : q.message.key = q.key := rfl
  rw [Server.notifies_iff, Server.observers_run_eq_nil, Server.triggers, hkey, Server.lastTime_run _ _ _ rfl,
    arrived_messages, List.getLast?_map]
  refine or_congr List.map_eq_nil_iff ?_
  simp [Report.message, Client.observe]

theorem Delivered.mem {reports arrivals : List Report} (h : Delivered reports arrivals) {r : Report}
    (hr : r ∈ reports) : r ∈ arrivals := by
  have hmem : r ∈ reports.filter fun q => q.pid = r.pid := List.mem_filter.mpr ⟨hr, by simp⟩
  rw [← h r.pid] at hmem
  exact (List.mem_filter.mp hmem).1

theorem Newer.mem {reports : List Report} {r : Report} (h : Newer reports r) : r ∈ reports := by
  obtain ⟨before, after, rfl, -⟩ := h
  simp

theorem none_swallowed_iff (declaredObservers : List Str) (reports arrivals : List Report)
    (h : Delivered reports arrivals) :
    NoneSwallowed (Server.init declaredObservers) reports arrivals ↔
      declaredObservers = [] ∨ ∀ r, Newer reports r → Surfaces arrivals r := by
  simp only [NoneSwallowed, notifies_run_iff]
  constructor
  · intro hall
    by_cases hnil : declaredObservers = []
    · exact .inl hnil
    · refine .inr fun r hr => ?_
      obtain ⟨before, q, after, harr, hsame, hq⟩ := hall r hr
      exact ⟨before, q, after, harr, hsame, hq.resolve_left hnil⟩
  · rintro (hnil | hall)
    · intro r hr
      obtain ⟨before, after, harr⟩ := List.append_of_mem (h.mem hr.mem)
      exact ⟨before, r, after, harr, ⟨rfl, rfl⟩, .inl hnil⟩
    · intro r hr
      obtain ⟨before, q, after, harr, hsame, hq⟩ := hall r hr
      exact ⟨before, q, after, harr, hsame, .inr hq⟩

def twoSeconds : List Report :=
  [⟨1, ['p'], 0, .inserted⟩, ⟨2, ['p'], 0, .inserted⟩, ⟨1, ['p'], 1000000, .updated⟩, ⟨2, ['p'], 1000000, .updated⟩]

theorem next_second_is_not_swallowed : NoneSwallowed (Server.init [['o']]) twoSeconds twoSeconds := by
  refine (none_swallowed_iff _ _ _ fun _ => rfl).mpr (.inr fun r hr => ?_)
  have hmem : r = ⟨1, ['p'], 0, .inserted⟩ ∨ r = ⟨2, ['p'], 0, .inserted⟩ ∨ r = ⟨1, ['p'], 1000000, .updated⟩ ∨
      r = ⟨2, ['p'], 1000000, .updated⟩ := by simpa [twoSeconds] using hr.mem
  have hfirst : Surfaces twoSeconds ⟨1, ['p'], 0, .inserted⟩ := ⟨[], _, _, rfl, ⟨rfl, rfl⟩, by decide⟩
  have hsecond : Surfaces twoSeconds ⟨1, ['p'], 1000000, .updated⟩ :=
    ⟨[⟨1, ['p'], 0, .inserted⟩, ⟨2, ['p'], 0, .inserted⟩], _, _, rfl, ⟨rfl, rfl⟩, by decide⟩
  rcases hmem with rfl | rfl | rfl | rfl
  · exact hfirst
  · exact hfirst
  · exact hsecond
  · exact hsecond

def sameSecond : List Report := [⟨1, ['p'], 0, .inserted⟩, ⟨1, ['p'], 500000, .updated⟩]

theorem same_second_is_swallowed :
    Delivered sameSecond sameSecond ∧ ¬ NoneSwallowed (Server.init [['o']]) sameSecond sameSecond := by
  refine ⟨fun _ => rfl, fun h => ?_⟩
  have hnewer : Newer sameSecond ⟨1, ['p'], 500000, .updated⟩ :=
    ⟨[⟨1, ['p'], 0, .inserted⟩], [], rfl, by decide⟩
  obtain ⟨before, q, after, harr, ⟨-, htime⟩, hq⟩ := h _ hnewer
  cases before with
  | nil =>
    obtain rfl := (List.cons.inj harr).1
    exact absurd htime (by decide)
  | cons p before =>
    obtain ⟨rfl, htail⟩ := List.cons.inj harr
    cases before with
    | nil =>
      obtain rfl := (List.cons.inj htail).1
      exact absurd ((notifies_run_iff _ _ _).mp hq) (by decide)
    | cons p' before => cases before <;> cases htail

end CacheObserver
