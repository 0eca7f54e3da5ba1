import Mathlib.Data.List.Perm.Subperm
import PyQgisServer.Library.Links
import PyQgisServer.Zmq.Supervisor

namespace Zmq

namespace Supervisor

variable {D : Type}

def clearReports (s : Supervisor D) : Supervisor D := { s with reports := .empty }

def numReports (s : Supervisor D) : ℕ := s.reports.items.length

end Supervisor

end Zmq

namespace Management

open Zmq Links

-- call only records the call of get_reports that asked for the report
structure Report (D : Type) where
  pid : ℕ
  call : ℕ
  data : D

inductive Command where
  | restart
  | report (call : ℕ)
  deriving DecidableEq

-- receivers only records the workers that the command reached
structure GetReports (D : Type) where
  soFar : ℕ
  receivers : List ℕ
  result : Option (List (Report D))

-- the commands that the workers have not read yet, and the pipe to the supervisor
structure Reporting (D : Type) where
  supervisor : Supervisor (Report D)
  commands : Links ℕ Command
  pipe : Links ℕ (SupervisorMessage (Report D))
  exited : ℕ → Bool
  calls : List (GetReports D)

-- a broadcast reaches the workers that are connected and have room for it; sent is false for a message
-- that is dropped on EAGAIN
inductive ReportingAct (D : Type) where
  | get (receivers : List ℕ)
  | wake (call : ℕ)
  | restart (receivers : List ℕ)
  | check (pid : ℕ) (data : D) (sent : Bool)
  | notify (pid : ℕ) (busy sent : Bool)
  | deliver (pid : ℕ)
  | exit (pid : ℕ)
  | stop

def ReportingAct.gets {D : Type} : ReportingAct D → Bool
  | .get _ => true
  | _ => false

namespace Reporting

variable {D : Type}

def init (timeout : ℤ) : Reporting D := ⟨.init timeout, [], [], fun _ => false, []⟩

def broadcast (s : Reporting D) (receivers : List ℕ) (command : Command) : Reporting D :=
  { s with commands := s.commands ++ receivers.map (·, command) }

def push (s : Reporting D) (pid : ℕ) (sent : Bool) (msg : SupervisorMessage (Report D)) : Reporting D :=
  if sent then { s with pipe := s.pipe ++ [(pid, msg)] } else s

def maxwait : ℕ := 10

def answer (numWorkers : ℕ) (s : Supervisor (Report D)) (soFar : ℕ) : Option (List (Report D)) :=
  if soFar ≥ maxwait then some s.reports.values
  else if s.numReports < numWorkers then none
  else some s.reports.values

def step (numWorkers : ℕ) (s : Reporting D) : ReportingAct D → Option (Reporting D)
  | .get receivers =>
    if receivers.Nodup then
      let supervisor := s.supervisor.clearReports
      some { { s with supervisor }.broadcast receivers (.report s.calls.length) with
        calls := s.calls ++ [⟨0, receivers, answer numWorkers supervisor 0⟩] }
    else none
  | .wake call =>
    match s.calls[call]? with
    | some ⟨soFar, receivers, none⟩ =>
      some { s with calls := s.calls.set call ⟨soFar + 1, receivers, answer numWorkers s.supervisor (soFar + 1)⟩ }
    | _ => none
  | .restart receivers => some (s.broadcast receivers .restart)
  | .check pid data sent =>
    if s.exited pid then none
    else match recv pid s.commands with
      | some (.restart, commands) => some { s with commands, exited := Function.update s.exited pid true }
      | some (.report call, commands) => some ({ s with commands }.push pid sent (.report ⟨pid, call, data⟩))
      | none => some s
  | .notify pid busy sent => if s.exited pid then none else some (s.push pid sent (if busy then .busy else .done))
  | .deliver pid =>
    match recv pid s.pipe with
    | some (msg, pipe) =>
      if s.supervisor.stopped then none else some { s with pipe, supervisor := s.supervisor.receive pid msg }
    | none => none
  | .exit pid => some { s with exited := Function.update s.exited pid true }
  | .stop => some { s with supervisor := s.supervisor.stop }

def Asked (s : Reporting D) (p : ℕ → Prop) (r : Report D) : Prop :=
  p r.call ∧ ∃ c, s.calls[r.call]? = some c ∧ r.pid ∈ c.receivers

structure Current (p : ℕ → Prop) (s : Reporting D) : Prop where
  commands : ∀ x ∈ s.commands, ∀ call, x.2 = .report call →
    p call ∧ ∃ c, s.calls[call]? = some c ∧ x.1 ∈ c.receivers
  pipe : ∀ x ∈ s.pipe, ∀ r, x.2 = .report r → r.pid = x.1 ∧ s.Asked p r
  reports : ∀ x ∈ s.supervisor.reports.items, x.2.pid = x.1 ∧ s.Asked p x.2

structure Answered (numWorkers : ℕ) (p : ℕ → Prop) (s : Reporting D) (soFar : ℕ) (reports : List (Report D)) :
    Prop where
  distinct : (reports.map Report.pid).Nodup
  asked : ∀ r ∈ reports, s.Asked p r
  waited : soFar ≤ maxwait
  complete : soFar < maxwait → numWorkers ≤ reports.length

def Open (numWorkers : ℕ) (p : ℕ → Prop) (s : Reporting D) (soFar : ℕ) (result : Option (List (Report D))) : Prop :=
  (result = none ∧ soFar < maxwait) ∨ ∃ reports, result = some reports ∧ s.Answered numWorkers p soFar reports

structure Sound (numWorkers : ℕ) (p : ℕ → Prop) (s : Reporting D) : Prop where
  current : s.Current p
  calls : ∀ i c, p i → s.calls[i]? = some c → s.Open numWorkers p c.soFar c.result

def Extends (s t : Reporting D) : Prop :=
  ∀ (i : ℕ) (c : GetReports D), s.calls[i]? = some c → ∃ c', t.calls[i]? = some c' ∧ c'.receivers = c.receivers

section sound

variable {numWorkers : ℕ} {p : ℕ → Prop} {s t : Reporting D}

theorem Asked.mono {r : Report D} (h : s.Asked p r) (hext : s.Extends t) : t.Asked p r := by
  obtain ⟨hp, c, hc, hmem⟩ := h
  obtain ⟨c', hc', heq⟩ := hext _ c hc
  exact ⟨hp, c', hc', heq ▸ hmem⟩

theorem Open.mono {soFar : ℕ} {result : Option (List (Report D))} (h : s.Open numWorkers p soFar result)
    (hext : s.Extends t) : t.Open numWorkers p soFar result := by
  refine h.imp_right ?_
  rintro ⟨reports, hresult, hanswered⟩
  exact ⟨reports, hresult, hanswered.distinct, fun r hr => (hanswered.asked r hr).mono hext, hanswered.waited,
    hanswered.complete⟩

theorem Current.mono (h : s.Current p) (hext : s.Extends t) (hcommands : t.commands = s.commands)
    (hpipe : t.pipe = s.pipe) (hreports : t.supervisor.reports = s.supervisor.reports) : t.Current p := by
  refine ⟨fun x hx call hcall => ?_, fun x hx r hr => ?_, fun x hx => ?_⟩
  · obtain ⟨hp, c, hc, hmem⟩ := h.commands x (hcommands ▸ hx) call hcall
    obtain ⟨c', hc', heq⟩ := hext _ c hc
    exact ⟨hp, c', hc', heq ▸ hmem⟩
  · obtain ⟨hpid, hasked⟩ := h.pipe x (hpipe ▸ hx) r hr
    exact ⟨hpid, hasked.mono hext⟩
  · obtain ⟨hpid, hasked⟩ := h.reports x (hreports ▸ hx)
    exact ⟨hpid, hasked.mono hext⟩

theorem answer_open (h : s.Current p) {soFar : ℕ} (hsoFar : soFar ≤ maxwait) :
    s.Open numWorkers p soFar (answer numWorkers s.supervisor soFar) := by
  have hpids : s.supervisor.reports.values.map Report.pid = s.supervisor.reports.keys := by
    rw [PyDict.values, PyDict.keys, List.map_map]
    exact List.map_congr_left fun x hx => (h.reports x hx).1
  have hasked : ∀ r ∈ s.supervisor.reports.values, s.Asked p r := by
    intro r hr
    obtain ⟨x, hx, rfl⟩ := List.mem_map.mp hr
    exact (h.reports x hx).2
  have hdistinct : (s.supervisor.reports.values.map Report.pid).Nodup := hpids ▸ s.supervisor.reports.nodup_keys
  rw [answer]
  split
  · rename_i hmax
    exact .inr ⟨_, rfl, hdistinct, hasked, hsoFar, fun hlt => absurd hlt (Nat.not_lt.mpr hmax)⟩
  · rename_i hmax
    split
    · exact .inl ⟨rfl, Nat.lt_of_not_le hmax⟩
    · rename_i hnum
      refine .inr ⟨_, rfl, hdistinct, hasked, hsoFar, fun _ => ?_⟩
      rw [PyDict.values, List.length_map]
      exact Nat.le_of_not_lt hnum

theorem extends_of_calls (hcalls : t.calls = s.calls) : s.Extends t := fun _ c hc => ⟨c, hcalls ▸ hc, rfl⟩

theorem set_extends {call soFar soFar' : ℕ} {receivers : List ℕ} {result result' : Option (List (Report D))}
    (hcall : s.calls[call]? = some ⟨soFar, receivers, result⟩)
    (hcalls : t.calls = s.calls.set call ⟨soFar', receivers, result'⟩) : s.Extends t := by
  intro i c hc
  rw [hcalls, List.getElem?_set]
  split
  · rename_i hi
    subst hi
    obtain rfl := Option.some.inj (hcall.symm.trans hc)
    exact ⟨_, if_pos (List.getElem?_eq_some_iff.mp hcall).1, rfl⟩
  · exact ⟨c, hc, rfl⟩

@[simp] theorem push_calls (s : Reporting D) (pid : ℕ) (sent : Bool) (msg : SupervisorMessage (Report D)) :
    (s.push pid sent msg).calls = s.calls := by
  cases sent <;> rfl

theorem Sound.same (h : s.Sound numWorkers p) (hcalls : t.calls = s.calls)
    (hcommands : ∀ x ∈ t.commands, x ∈ s.commands ∨ x.2 = .restart)
    (hpipe : ∀ x ∈ t.pipe, x ∈ s.pipe ∨ ∀ r, x.2 = .report r → r.pid = x.1 ∧ s.Asked p r)
    (hreports : ∀ x ∈ t.supervisor.reports.items, x ∈ s.supervisor.reports.items ∨ x.2.pid = x.1 ∧ s.Asked p x.2) :
    t.Sound numWorkers p := by
  have hext : s.Extends t := extends_of_calls hcalls
  refine ⟨⟨fun x hx call hcall => ?_, fun x hx r hr => ?_, fun x hx => ?_⟩, fun i c hp hc => ?_⟩
  · rcases hcommands x hx with hx | hrestart
    · rw [hcalls]
      exact h.current.commands x hx call hcall
    · rw [hrestart] at hcall
      cases hcall
  · have hold : r.pid = x.1 ∧ s.Asked p r :=
      (hpipe x hx).elim (fun hx => h.current.pipe x hx r hr) fun hnew => hnew r hr
    exact ⟨hold.1, hold.2.mono hext⟩
  · have hold : x.2.pid = x.1 ∧ s.Asked p x.2 := (hreports x hx).elim (fun hx => h.current.reports x hx) id
    exact ⟨hold.1, hold.2.mono hext⟩
  · rw [hcalls] at hc
    exact (h.calls i c hp hc).mono hext

theorem Sound.push (h : s.Sound numWorkers p) (pid : ℕ) (sent : Bool) {msg : SupervisorMessage (Report D)}
    (hmsg : ∀ r, msg = .report r → r.pid = pid ∧ s.Asked p r) : (s.push pid sent msg).Sound numWorkers p := by
  cases sent with
  | false => exact h
  | true =>
    refine h.same rfl (fun x hx => .inl hx) (fun x hx => ?_) (fun x hx => .inl hx)
    rcases List.mem_append.mp hx with hx | hx
    · exact .inl hx
    · obtain rfl := List.mem_singleton.mp hx
      exact .inr hmsg

theorem wake_sound (h : s.Sound numWorkers p) {call : ℕ} (hs : step numWorkers s (.wake call) = some t) :
    t.Sound numWorkers p := by
  simp only [step] at hs
  split at hs
  · rename_i soFar receivers hcall
    obtain rfl := Option.some.inj hs
    have hext : s.Extends { s with
        calls := s.calls.set call ⟨soFar + 1, receivers, answer numWorkers s.supervisor (soFar + 1)⟩ } :=
      set_extends hcall rfl
    refine ⟨h.current.mono hext rfl rfl rfl, fun i c hp hc => ?_⟩
    rw [List.getElem?_set] at hc
    split at hc
    · rename_i hi
      subst hi
      rw [if_pos (List.getElem?_eq_some_iff.mp hcall).1] at hc
      obtain rfl := Option.some.inj hc
      have hwaiting := (h.calls call _ hp hcall).resolve_right (by rintro ⟨reports, ⟨⟩, -⟩)
      exact (answer_open h.current hwaiting.2).mono hext
    · exact (h.calls i c hp hc).mono hext
  · cases hs

theorem check_sound (h : s.Sound numWorkers p) {pid : ℕ} {data : D} {sent : Bool}
    (hs : step numWorkers s (.check pid data sent) = some t) : t.Sound numWorkers p := by
  simp only [step] at hs
  split at hs
  · cases hs
  · split at hs
    · rename_i commands hr
      obtain rfl := Option.some.inj hs
      exact h.same rfl (fun x hx => .inl ((recv_sublist hr).subset hx)) (fun x hx => .inl hx) (fun x hx => .inl hx)
    · rename_i call commands hr
      obtain rfl := Option.some.inj hs
      have hread : Sound numWorkers p { s with commands } :=
        h.same rfl (fun x hx => .inl ((recv_sublist hr).subset hx)) (fun x hx => .inl hx) (fun x hx => .inl hx)
      refine hread.push pid sent ?_
      rintro r ⟨⟩
      exact ⟨rfl, h.current.commands _ (recv_mem hr) call rfl⟩
    · obtain rfl := Option.some.inj hs
      exact h

theorem deliver_sound (h : s.Sound numWorkers p) {pid : ℕ} (hs : step numWorkers s (.deliver pid) = some t) :
    t.Sound numWorkers p := by
  simp only [step] at hs
  split at hs
  · rename_i msg pipe hr
    split at hs
    · cases hs
    · obtain rfl := Option.some.inj hs
      refine h.same rfl (fun x hx => .inl hx) (fun x hx => .inl ((recv_sublist hr).subset hx)) fun x hx => ?_
      cases msg with
      | busy => exact .inl hx
      | done =>
        simp only [Supervisor.receive] at hx
        split at hx <;> exact .inl hx
      | report r =>
        have hget := PyDict.get?_eq_some.mpr hx
        simp only [Supervisor.receive, PyDict.get?_set] at hget
        split at hget
        · rename_i hpid
          obtain rfl := Option.some.inj hget
          have hsent := h.current.pipe _ (recv_mem hr) _ rfl
          exact .inr ⟨hsent.1.trans hpid.symm, hsent.2⟩
        · exact .inl (PyDict.get?_eq_some.mp hget)
  · cases hs

theorem step_sound (h : s.Sound numWorkers p) {a : ReportingAct D} (ha : a.gets = false)
    (hs : step numWorkers s a = some t) : t.Sound numWorkers p := by
  cases a with
  | get receivers => cases ha
  | wake call => exact wake_sound h hs
  | restart receivers =>
    obtain rfl := Option.some.inj hs
    refine h.same rfl (fun x hx => ?_) (fun x hx => .inl hx) (fun x hx => .inl hx)
    rcases List.mem_append.mp hx with hx | hx
    · exact .inl hx
    · obtain ⟨pid, -, rfl⟩ := List.mem_map.mp hx
      exact .inr rfl
  | check pid data sent => exact check_sound h hs
  | notify pid busy sent =>
    simp only [step] at hs
    split at hs
    · cases hs
    · obtain rfl := Option.some.inj hs
      refine h.push pid sent fun r hr => ?_
      cases busy <;> cases hr
  | deliver pid => exact deliver_sound h hs
  | exit pid =>
    obtain rfl := Option.some.inj hs
    exact h.same rfl (fun x hx => .inl hx) (fun x hx => .inl hx) (fun x hx => .inl hx)
  | stop =>
    obtain rfl := Option.some.inj hs
    exact h.same rfl (fun x hx => .inl hx) (fun x hx => .inl hx) (fun x hx => .inl hx)

theorem get_sound {receivers : List ℕ}
    (hcommands : ∀ x ∈ s.commands, ∀ call, x.2 = .report call →
      p call ∧ ∃ c, s.calls[call]? = some c ∧ x.1 ∈ c.receivers)
    (hpipe : ∀ x ∈ s.pipe, ∀ r, x.2 = .report r → r.pid = x.1 ∧ s.Asked p r)
    (hcalls : ∀ i c, p i → s.calls[i]? = some c → s.Open numWorkers p c.soFar c.result) (hp : p s.calls.length)
    (hs : step numWorkers s (.get receivers) = some t) :
    t.Sound numWorkers p ∧ s.Extends t ∧
      ∃ soFar result, t.calls[s.calls.length]? = some ⟨soFar, receivers, result⟩ := by
  simp only [step] at hs
  split at hs
  · obtain rfl := Option.some.inj hs
    have hlast : (s.calls ++ [⟨0, receivers, answer numWorkers s.supervisor.clearReports 0⟩])[s.calls.length]? =
        some ⟨0, receivers, answer numWorkers s.supervisor.clearReports 0⟩ := List.getElem?_concat_length
    have hext : s.Extends { { s with supervisor := s.supervisor.clearReports }.broadcast receivers
        (.report s.calls.length) with
        calls := s.calls ++ [⟨0, receivers, answer numWorkers s.supervisor.clearReports 0⟩] } := fun i c hc =>
      ⟨c, (List.getElem?_append_left (List.getElem?_eq_some_iff.mp hc).1).trans hc, rfl⟩
    have hcurrent : Current p { { s with supervisor := s.supervisor.clearReports }.broadcast receivers
        (.report s.calls.length) with
        calls := s.calls ++ [⟨0, receivers, answer numWorkers s.supervisor.clearReports 0⟩] } := by
      refine ⟨fun x hx call hcall => ?_, fun x hx r hr => ?_, fun x hx => by cases hx⟩
      · rcases List.mem_append.mp hx with hx | hx
        · obtain ⟨hpcall, c, hc, hmem⟩ := hcommands x hx call hcall
          obtain ⟨c', hc', heq⟩ := hext _ c hc
          exact ⟨hpcall, c', hc', heq ▸ hmem⟩
        · obtain ⟨pid, hpid, rfl⟩ := List.mem_map.mp hx
          cases hcall
          exact ⟨hp, _, hlast, hpid⟩
      · obtain ⟨hpid, hasked⟩ := hpipe x hx r hr
        exact ⟨hpid, hasked.mono hext⟩
    refine ⟨⟨hcurrent, fun i c hi hc => ?_⟩, hext, 0, _, hlast⟩
    rcases Nat.lt_or_ge i s.calls.length with hlt | hge
    · exact (hcalls i c hi ((List.getElem?_append_left hlt).symm.trans hc)).mono hext
    · have hlen : i < s.calls.length + 1 := by simpa using (List.getElem?_eq_some_iff.mp hc).1
      obtain rfl : i = s.calls.length := by omega
      obtain rfl := Option.some.inj (hlast.symm.trans hc)
      exact answer_open hcurrent (Nat.zero_le _)
  · cases hs

theorem step_extends {a : ReportingAct D} (ha : a.gets = false) (hs : step numWorkers s a = some t) : s.Extends t := by
  cases a with
  | get receivers => cases ha
  | wake call =>
    simp only [step] at hs
    split at hs
    · rename_i soFar receivers hcall
      obtain rfl := Option.some.inj hs
      exact set_extends hcall rfl
    · cases hs
  | restart receivers =>
    obtain rfl := Option.some.inj hs
    exact extends_of_calls rfl
  | check pid data sent =>
    simp only [step] at hs
    split at hs
    · cases hs
    · split at hs
      · obtain rfl := Option.some.inj hs
        exact extends_of_calls rfl
      · obtain rfl := Option.some.inj hs
        exact extends_of_calls (push_calls ..)
      · obtain rfl := Option.some.inj hs
        exact extends_of_calls rfl
  | notify pid busy sent =>
    simp only [step] at hs
    split at hs
    · cases hs
    · obtain rfl := Option.some.inj hs
      exact extends_of_calls (push_calls ..)
  | deliver pid =>
    simp only [step] at hs
    split at hs
    · split at hs
      · cases hs
      · obtain rfl := Option.some.inj hs
        exact extends_of_calls rfl
    · cases hs
  | exit pid =>
    obtain rfl := Option.some.inj hs
    exact extends_of_calls rfl
  | stop =>
    obtain rfl := Option.some.inj hs
    exact extends_of_calls rfl

theorem Extends.trans {u : Reporting D} (h : s.Extends t) (h' : t.Extends u) : s.Extends u := by
  intro i c hc
  obtain ⟨c', hc', heq⟩ := h i c hc
  obtain ⟨c'', hc'', heq'⟩ := h' i c' hc'
  exact ⟨c'', hc'', heq'.trans heq⟩

theorem run_sound (h : s.Sound numWorkers p) {as : List (ReportingAct D)} (has : ∀ a ∈ as, a.gets = false)
    (hrun : Transition.run (step numWorkers) s as = some t) : t.Sound numWorkers p ∧ s.Extends t := by
  induction as generalizing s with
  | nil =>
    obtain rfl := Option.some.inj hrun
    exact ⟨h, extends_of_calls rfl⟩
  | cons a as ih =>
    obtain ⟨u, hu, hrest⟩ := Option.bind_eq_some_iff.mp hrun
    have ha := has a List.mem_cons_self
    obtain ⟨hsound, hext⟩ := ih (step_sound h ha hu) (fun b hb => has b (List.mem_cons_of_mem a hb)) hrest
    exact ⟨hsound, (step_extends ha hu).trans hext⟩

theorem init_sound (timeout : ℤ) : Sound numWorkers p (init timeout : Reporting D) where
  current := by
    refine ⟨?_, ?_, ?_⟩
    · rintro x ⟨⟩
    · rintro x ⟨⟩
    · rintro x ⟨⟩
  calls := by
    rintro i c - ⟨⟩

theorem reach_sound {timeout : ℤ} (hs : Transition.Reach (step numWorkers) (fun _ _ => True) (init timeout) s) :
    s.Sound numWorkers fun _ => True := by
  refine hs.invariant (I := Sound numWorkers fun _ => True) (init_sound timeout) fun s a t h _ hstep => ?_
  cases ha : a.gets with
  | false => exact step_sound h ha hstep
  | true =>
    cases a with
    | get receivers =>
      exact (get_sound h.current.commands h.current.pipe (fun i c => h.calls i c) trivial hstep).1
    | _ => cases ha

def Quiet (s : Reporting D) : Prop :=
  (∀ x ∈ s.commands, ∀ call, x.2 ≠ .report call) ∧ ∀ x ∈ s.pipe, ∀ r, x.2 ≠ .report r

theorem quiet_get_sound (hquiet : s.Quiet) {receivers : List ℕ} (hs : step numWorkers s (.get receivers) = some t) :
    t.Sound numWorkers (· = s.calls.length) ∧
      ∃ soFar result, t.calls[s.calls.length]? = some ⟨soFar, receivers, result⟩ := by
  have hnone : ∀ i c, i = s.calls.length → s.calls[i]? = some c →
      s.Open numWorkers (· = s.calls.length) c.soFar c.result := by
    rintro i c rfl hc
    simp at hc
  obtain ⟨hsound, -, hlast⟩ := get_sound (fun x hx call hcall => absurd hcall (hquiet.1 x hx call))
    (fun x hx r hr => absurd hr (hquiet.2 x hx r)) hnone rfl hs
  exact ⟨hsound, hlast⟩

theorem reports_are_complete {timeout : ℤ}
    (hs : Transition.Reach (step numWorkers) (fun _ _ => True) (init timeout) s) :
    (∀ (i : ℕ) (c : GetReports D) reports, s.calls[i]? = some c → c.result = some reports →
      s.Answered numWorkers (fun _ => True) c.soFar reports) ∧
    (s.Quiet → ∀ receivers t, step numWorkers s (.get receivers) = some t → ∀ as u, (∀ a ∈ as, a.gets = false) →
      Transition.run (step numWorkers) t as = some u →
      ∃ c, u.calls[s.calls.length]? = some c ∧ ∀ reports, c.result = some reports →
        (reports.map Report.pid).Nodup ∧ (∀ r ∈ reports, r.call = s.calls.length ∧ r.pid ∈ receivers) ∧
        c.soFar ≤ maxwait ∧ (c.soFar < maxwait → numWorkers ≤ reports.length ∧
          (receivers.length ≤ numWorkers → (reports.map Report.pid).Perm receivers))) := by
  refine ⟨fun i c reports hc hreports => ?_, fun hquiet receivers t hget as u has hrun => ?_⟩
  · obtain ⟨hnone, -⟩ | ⟨reports', hresult, hanswered⟩ := (reach_sound hs).calls i c trivial hc
    · rw [hnone] at hreports
      cases hreports
    · obtain rfl := Option.some.inj (hresult.symm.trans hreports)
      exact hanswered
  · obtain ⟨hsound, soFar, result, hlast⟩ := quiet_get_sound hquiet hget
    obtain ⟨hsound', hext⟩ := run_sound hsound has hrun
    obtain ⟨c, hc, hreceivers⟩ := hext _ _ hlast
    refine ⟨c, hc, fun reports hreports => ?_⟩
    obtain ⟨hnone, -⟩ | ⟨reports', hresult, hanswered⟩ := hsound'.calls _ c rfl hc
    · rw [hnone] at hreports
      cases hreports
    · obtain rfl := Option.some.inj (hresult.symm.trans hreports)
      have hpids : ∀ r ∈ reports', r.pid ∈ receivers := by
        intro r hr
        obtain ⟨hcall, c', hc', hmem⟩ := hanswered.asked r hr
        have hcall : r.call = s.calls.length := hcall
        rw [hcall, hc] at hc'
        obtain rfl := Option.some.inj hc'
        rw [hreceivers] at hmem
        exact hmem
      refine ⟨hanswered.distinct, fun r hr => ⟨(hanswered.asked r hr).1, hpids r hr⟩, hanswered.waited, fun hlt => ?_⟩
      have hlen := hanswered.complete hlt
      refine ⟨hlen, fun hfew => ?_⟩
      have hsub : (reports'.map Report.pid).Subperm receivers := by
        refine hanswered.distinct.subperm fun pid hpid => ?_
        obtain ⟨r, hr, rfl⟩ := List.mem_map.mp hpid
        exact hpids r hr
      exact hsub.perm_of_length_le (by rw [List.length_map]; exact hfew.trans hlen)

end sound

-- both workers report before the caller wakes
def twoReports : List (ReportingAct Unit) :=
  [.check 1 () true, .check 2 () true, .deliver 2, .deliver 1, .wake 0]

theorem reports_are_complete_two : ∃ (u : Reporting Unit) (c : GetReports Unit) (reports : List (Report Unit)),
    u.calls[0]? = some c ∧ c.result = some reports ∧ (reports.map Report.pid).Perm [1, 2] := by
  have hquiet : Quiet (init 10 : Reporting Unit) := by
    refine ⟨?_, ?_⟩
    · rintro x ⟨⟩
    · rintro x ⟨⟩
  have hrun : ((step 2 (init 10 : Reporting Unit) (.get [1, 2])).bind fun t =>
      Transition.run (step 2) t twoReports).any (fun u => u.calls[0]?.any fun c =>
        c.result.isSome && decide (c.soFar < maxwait)) = true := by decide
  obtain ⟨u, hu, hcall⟩ := (Option.any_eq_true _ _).mp hrun
  obtain ⟨t, ht, hu⟩ := Option.bind_eq_some_iff.mp hu
  obtain ⟨c, hc, hsome⟩ := (Option.any_eq_true _ _).mp hcall
  rw [Bool.and_eq_true, decide_eq_true_eq, Option.isSome_iff_exists] at hsome
  obtain ⟨⟨reports, hreports⟩, hlt⟩ := hsome
  obtain ⟨c', hc', hresult⟩ := (reports_are_complete Transition.Reach.start).2 hquiet [1, 2] t ht twoReports u
    (by decide) hu
  obtain rfl := Option.some.inj (hc.symm.trans hc')
  exact ⟨u, c, reports, hc, hreports, ((hresult reports hreports).2.2.2 hlt).2 (by decide)⟩

end Reporting

end Management
