import PyQgisServer.Cache.Manager
import PyQgisServer.Library.Rises

namespace CacheObserver

open QgsCache Urllib Rises

structure CacheUpdate where
  modifiedTime : ℤ
  status : UpdateState
  deriving DecidableEq

structure Message where
  pid : ℕ
  key : Str
  modifiedTime : ℤ
  state : UpdateState
  deriving DecidableEq

namespace Client

def observe (pid : ℕ) (n : Str × ℤ × UpdateState) : Message := ⟨pid, n.1, n.2.1, n.2.2⟩

end Client

structure Call where
  key : Str
  modifiedTime : ℤ
  inserted : Bool
  deriving DecidableEq

-- an exception of an observer is logged, so its calls are all that it leaves
structure Observer where
  name : Str
  calls : List Call
  deriving DecidableEq

namespace Observer

def observe (o : Observer) (key : Str) (t : ℤ) (inserted : Bool) : Observer :=
  { o with calls := o.calls ++ [⟨key, t, inserted⟩] }

structure FiresOnce (o : Observer) : Prop where
  once : (o.calls.map fun c => (c.key, c.modifiedTime)).Nodup
  newer : o.calls.Pairwise fun c d => c.key = d.key → ¬ d.modifiedTime < c.modifiedTime

def times (o : Observer) (key : Str) : List ℤ :=
  (o.calls.filter fun c => c.key = key).map Call.modifiedTime

@[simp] theorem times_observe_self (o : Observer) (key : Str) (t : ℤ) (inserted : Bool) :
    (o.observe key t inserted).times key = o.times key ++ [t] := by
  simp [times, observe, List.filter_append]

theorem times_observe_ne (o : Observer) {key key' : Str} (t : ℤ) (inserted : Bool) (h : key ≠ key') :
    (o.observe key t inserted).times key' = o.times key' := by
  simp [times, observe, List.filter_append, h]

theorem times_pairwise_iff (o : Observer) :
    (∀ key, (o.times key).Pairwise (· < ·)) ↔
      o.calls.Pairwise fun c d => c.key = d.key → c.modifiedTime < d.modifiedTime := by
  simp only [times, List.pairwise_map, List.pairwise_filter, decide_eq_true_eq]
  constructor
  · intro h
    rw [List.pairwise_iff_forall_sublist]
    intro c d hcd heq
    exact List.pairwise_iff_forall_sublist.mp (h c.key) hcd rfl heq.symm
  · intro h key
    exact h.imp fun hlt hc hd => hlt (hc.trans hd.symm)

theorem firesOnce_iff (o : Observer) : o.FiresOnce ↔ ∀ key, (o.times key).Pairwise (· < ·) := by
  rw [times_pairwise_iff]
  constructor
  · rintro ⟨honce, hnewer⟩
    refine ((List.pairwise_map.mp honce).and hnewer).imp ?_
    rintro c d ⟨hne, hle⟩ heq
    have hle := not_lt.mp (hle heq)
    refine lt_of_le_of_ne hle fun ht => hne ?_
    rw [heq, ht]
  · intro h
    refine ⟨List.pairwise_map.mpr (h.imp ?_), h.imp fun hlt heq => (hlt heq).le.not_gt⟩
    intro c d hlt heq
    obtain ⟨hkey, ht⟩ := Prod.mk.inj heq
    exact absurd ht (hlt hkey).ne

end Observer

structure Server where
  observers : List Observer
  lastUpdates : PyDict Str CacheUpdate

namespace Server

def init (declaredObservers : List Str) : Server := ⟨declaredObservers.map (⟨·, []⟩), .empty⟩

def notifyObservers (s : Server) (key : Str) (t : ℤ) (state : UpdateState) : Server :=
  { s with observers := s.observers.map fun obs => obs.observe key t (state = .inserted) }

-- one turn of the loop of run_async
def receive (s : Server) (m : Message) : Server :=
  let doNotify := match s.lastUpdates.get? m.key with
    | some entry => decide (entry.modifiedTime < m.modifiedTime)
    | none => true
  let s := { s with lastUpdates := s.lastUpdates.set m.key ⟨m.modifiedTime, m.state⟩ }
  if doNotify then s.notifyObservers m.key m.modifiedTime m.state else s

def run (s : Server) (arrivals : List Message) : Server := arrivals.foldl receive s

def find (s : Server) (key : Str) : Option CacheUpdate := s.lastUpdates.get? key

def lastTime (s : Server) (key : Str) : Option ℤ := (s.find key).map CacheUpdate.modifiedTime

theorem find_receive (s : Server) (m : Message) (key : Str) :
    (s.receive m).find key = if key = m.key then some ⟨m.modifiedTime, m.state⟩ else s.find key := by
  have h : (s.receive m).lastUpdates = s.lastUpdates.set m.key ⟨m.modifiedTime, m.state⟩ := by
    simp only [receive, notifyObservers, apply_ite Server.lastUpdates, ite_self]
  rw [find, h, PyDict.get?_set]
  rfl

end Server

def arrived (arrivals : List Message) (key : Str) : List ℤ :=
  (arrivals.filter fun m => m.key = key).map Message.modifiedTime

namespace Server

theorem lastTime_receive (s : Server) (m : Message) (key : Str) :
    (s.receive m).lastTime key = if key = m.key then some m.modifiedTime else s.lastTime key := by
  rw [lastTime, find_receive]
  split
  · rfl
  · rfl

def triggers (s : Server) (m : Message) : Prop := ∀ t ∈ s.lastTime m.key, t < m.modifiedTime

instance (s : Server) (m : Message) : Decidable (s.triggers m) :=
  inferInstanceAs (Decidable (∀ t ∈ s.lastTime m.key, t < m.modifiedTime))

theorem observers_receive (s : Server) (m : Message) :
    (s.receive m).observers = if s.triggers m then
      s.observers.map fun obs => obs.observe m.key m.modifiedTime (m.state = .inserted)
    else s.observers := by
  cases hentry : s.lastUpdates.get? m.key with
  | none => simp [receive, triggers, lastTime, find, hentry, notifyObservers]
  | some entry =>
    by_cases h : entry.modifiedTime < m.modifiedTime
    · simp [receive, triggers, lastTime, find, hentry, h, notifyObservers]
    · simp [receive, triggers, lastTime, find, hentry, h]

theorem lastTime_run (s : Server) (arrivals : List Message) (key : Str) (h : s.lastTime key = none) :
    (s.run arrivals).lastTime key = (arrived arrivals key).getLast? := by
  induction arrivals using List.reverseRecOn with
  | nil => exact h
  | append_singleton arrivals m ih =>
    have hrun : s.run (arrivals ++ [m]) = (s.run arrivals).receive m := List.foldl_concat _ _ _ _
    rw [hrun, lastTime_receive]
    by_cases hk : m.key = key
    · simp [arrived, List.filter_append, hk]
    · rw [if_neg (Ne.symm hk), ih]
      simp [arrived, List.filter_append, hk]

theorem times_run (s : Server) (arrivals : List Message) (key : Str) (h : s.lastTime key = none) :
    (s.run arrivals).observers.map (·.times key) =
      s.observers.map fun obs => obs.times key ++ rises none (arrived arrivals key) := by
  induction arrivals using List.reverseRecOn with
  | nil => simp [run, arrived, rises]
  | append_singleton arrivals m ih =>
    have hrun : s.run (arrivals ++ [m]) = (s.run arrivals).receive m := List.foldl_concat _ _ _ _
    rw [hrun, observers_receive]
    by_cases hk : m.key = key
    · have harr : arrived (arrivals ++ [m]) key = arrived arrivals key ++ [m.modifiedTime] := by
        simp [arrived, List.filter_append, hk]
      have htriggers : (s.run arrivals).triggers m ↔ ∀ t ∈ (arrived arrivals key).getLast?, t < m.modifiedTime := by
        rw [← lastTime_run s arrivals key h, ← hk]
        rfl
      rw [harr, rises_concat, hk]
      simp only [htriggers]
      split
      · rw [List.map_map]
        have happ := congrArg (List.map (· ++ [m.modifiedTime])) ih
        simpa [List.map_map, Function.comp_def, List.append_assoc] using happ
      · rw [ih]
        simp
    · have harr : arrived (arrivals ++ [m]) key = arrived arrivals key := by
        simp [arrived, List.filter_append, hk]
      rw [harr, ← ih]
      split
      · rw [List.map_map]
        refine List.map_congr_left fun obs _ => ?_
        exact Observer.times_observe_ne obs _ _ hk
      · rfl

theorem run_firesOnce_iff (declaredObservers : List Str) (arrivals : List Message) :
    (∀ obs ∈ ((init declaredObservers).run arrivals).observers, obs.FiresOnce) ↔
      declaredObservers = [] ∨ ∀ key, OnlyRecords (arrived arrivals key) := by
  have htimes : ∀ key, ((init declaredObservers).run arrivals).observers.map (·.times key) =
      declaredObservers.map fun _ => rises none (arrived arrivals key) := by
    intro key
    rw [times_run _ arrivals key rfl, init, List.map_map]
    rfl
  have hall : (∀ obs ∈ ((init declaredObservers).run arrivals).observers, obs.FiresOnce) ↔
      ∀ key, ∀ times ∈ ((init declaredObservers).run arrivals).observers.map (·.times key),
        times.Pairwise (· < ·) := by
    simp only [Observer.firesOnce_iff, List.forall_mem_map]
    exact ⟨fun h key obs hobs => h obs hobs key, fun h obs hobs key => h key obs hobs⟩
  rw [hall]
  simp only [htimes, List.forall_mem_map, pairwise_rises_iff]
  cases declaredObservers with
  | nil => simp
  | cons name names =>
    simp only [reduceCtorEq, false_or]
    exact ⟨fun h key => h key name List.mem_cons_self, fun h key _ _ => h key⟩

end Server

-- two workers load the same two versions, and the reports of the second arrive last
def lateReports : List Message :=
  [1, 2].flatMap fun pid => [Client.observe pid (['p'], 1, .inserted), Client.observe pid (['p'], 2, .updated)]

theorem late_reports_fire_twice :
    ∃ obs ∈ ((Server.init [['o']]).run lateReports).observers, ¬ obs.FiresOnce := by
  refine ⟨⟨['o'], [⟨['p'], 1, true⟩, ⟨['p'], 2, false⟩, ⟨['p'], 2, false⟩]⟩, by decide, fun h => ?_⟩
  exact absurd h.once (by decide)

end CacheObserver
