import PyQgisServer.Components.ComponentManager

namespace Components

open Transition
open Urllib (Str)

variable {O E : Type}

def Acyclic (contractID : Str) (s : Process O E) (a : Act O E) : Prop :=
  a.gets contractID = true → (s.cell contractID).creating = []

def Settled (contractID : Str) (s : Process O E) (a : Act O E) : Prop :=
  Acyclic contractID s a ∧ a.entry contractID = none

section served

variable {contractID : Str} {e : Event O E} {a : Act O E} {c d : Cell O}
  {top : Option (Pending O)} {since : List (Event O E)}

theorem gets_of_served {o : O} (h : e.served contractID = some o) : e.gets contractID = true := by
  cases e with
  | called => cases h
  | answered call r =>
    cases r with
    | error => cases h
    | ok value =>
      simp only [Event.served] at h
      split at h
      · rename_i hgets
        exact hgets
      · cases h

@[simp] theorem served_getService (value : Option O) :
    (.answered (.getService contractID) (.ok value) : Event O E).served contractID = value := by
  simp [Event.served, Call.gets]

theorem Cell.Step.single (h : Cell.Step contractID top a e c d) (hacyclic : a.gets contractID = true → c.creating = [])
    (hc : c.creating.length ≤ 1) : d.creating.length ≤ 1 := by
  cases h with
  | create f hentry hservice =>
    rw [hacyclic (decide_eq_true rfl)]
    exact Nat.le_refl 1
  | returned value htop hcreating | raised r htop hcreating =>
    rw [hcreating] at hc
    exact Nat.le_of_succ_le hc
  | _ => exact hc

theorem single_of_reach {callable : O → Bool} {s : Process O E}
    (h : Reach (Process.step callable) (Acyclic contractID) .init s) : (s.cell contractID).creating.length ≤ 1 := by
  refine h.invariant (I := fun s => (s.cell contractID).creating.length ≤ 1) (Nat.zero_le 1) fun s a t hs ha hstep => ?_
  obtain ⟨e, -, hcell⟩ := step_cell hstep contractID
  exact hcell.single ha hs

structure Served (contractID : Str) (c : Cell O) (since : List (Event O E)) : Prop where
  single : c.creating.length ≤ 1
  once : since.Pairwise fun a b => a.served contractID ≠ none → b.gets contractID = true →
    b.served contractID = a.served contractID
  kept : ∀ e ∈ since, ∀ o, e.served contractID = some o →
    c.creating = [] ∧ ∃ fe, c.entry = some fe ∧ fe.service = some o

theorem Served.nil (h : c.creating.length ≤ 1) : Served contractID c ([] : List (Event O E)) :=
  ⟨h, .nil, fun _ he => absurd he List.not_mem_nil⟩

theorem Served.append (h : Served contractID c since) (hsingle : d.creating.length ≤ 1)
    (honce : ∀ x ∈ since, x.served contractID ≠ none → e.gets contractID = true →
      e.served contractID = x.served contractID)
    (hkept : ∀ x ∈ since ++ [e], ∀ o, x.served contractID = some o →
      d.creating = [] ∧ ∃ fe, d.entry = some fe ∧ fe.service = some o) : Served contractID d (since ++ [e]) where
  single := hsingle
  once := by
    refine List.pairwise_append.mpr ⟨h.once, List.pairwise_singleton _ _, fun x hx y hy => ?_⟩
    obtain rfl := List.mem_singleton.mp hy
    exact honce x hx
  kept := hkept

theorem Served.append_fresh (hnone : ∀ x ∈ since, x.served contractID = none) (h : Served contractID c since)
    (hsingle : d.creating.length ≤ 1)
    (hkept : ∀ o, e.served contractID = some o → d.creating = [] ∧ ∃ fe, d.entry = some fe ∧ fe.service = some o) :
    Served contractID d (since ++ [e]) := by
  refine h.append hsingle (fun x hx hserved => absurd (hnone x hx) hserved) fun x hx o hserved => ?_
  rcases List.mem_append.mp hx with hx | hx
  · rw [hnone x hx] at hserved
    cases hserved
  · obtain rfl := List.mem_singleton.mp hx
    exact hkept o hserved

theorem Served.fresh (h : Served contractID c since)
    (hopen : c.creating = [] → ∀ fe, c.entry = some fe → fe.service = none) :
    ∀ x ∈ since, x.served contractID = none := by
  intro x hx
  by_contra hne
  obtain ⟨o, ho⟩ := Option.ne_none_iff_exists'.mp hne
  obtain ⟨hcreating, fe, hentry, hservice⟩ := h.kept x hx o ho
  rw [hopen hcreating fe hentry] at hservice
  cases hservice

theorem Served.next (h : Served contractID c since) (hstep : Cell.Step contractID top a e c d)
    (hacyclic : a.gets contractID = true → c.creating = []) (hentry : a.entry contractID = none) :
    Served contractID d (since ++ [e]) := by
  have hsingle := hstep.single hacyclic h.single
  cases hstep with
  | aside hgets he =>
    refine h.append hsingle (fun x _ _ hgets => absurd hgets (by rw [he]; exact Bool.false_ne_true)) fun x hx o ho => ?_
    rcases List.mem_append.mp hx with hx | hx
    · exact h.kept x hx o ho
    · obtain rfl := List.mem_singleton.mp hx
      rw [gets_of_served ho] at he
      cases he
  | register ha he =>
    rw [ha] at hentry
    cases hentry
  | missing hentry =>
    refine .append_fresh (h.fresh fun _ fe hfe => ?_) h hsingle fun o ho => ?_
    · rw [hentry] at hfe
      cases hfe
    · cases ho
  | @read _ fe service hentry hservice =>
    have hcreating : c.creating = [] := hacyclic (decide_eq_true rfl)
    refine h.append hsingle (fun x hx hne _ => ?_) fun x hx o ho => ?_
    · obtain ⟨o, ho⟩ := Option.ne_none_iff_exists'.mp hne
      obtain ⟨-, fe', hentry', hservice'⟩ := h.kept x hx o ho
      obtain rfl := Option.some.inj (hentry.symm.trans hentry')
      rw [served_getService, ho, ← hservice, ← hservice']
    · rcases List.mem_append.mp hx with hx | hx
      · exact h.kept x hx o ho
      · obtain rfl := List.mem_singleton.mp hx
        rw [served_getService] at ho
        exact ⟨hcreating, fe, hentry, hservice.trans ho⟩
  | null i hentry hservice | create f hentry hservice =>
    refine .append_fresh (h.fresh fun _ fe hfe => ?_) h hsingle fun o ho => ?_
    · obtain rfl := Option.some.inj (hentry.symm.trans hfe)
      exact hservice
    · cases ho
  | @returned _ fe rest value htop hcreating =>
    refine .append_fresh (h.fresh fun hnone => ?_) h hsingle fun o ho => ?_
    · rw [hnone] at hcreating
      cases hcreating
    · rw [served_getService] at ho
      have hlength := h.single
      rw [hcreating, List.length_cons] at hlength
      exact ⟨List.length_eq_zero_iff.mp (Nat.le_zero.mp (Nat.le_of_succ_le_succ hlength)), _, rfl, ho⟩
  | raised r htop hcreating =>
    refine .append_fresh (h.fresh fun hnone => ?_) h hsingle fun o ho => ?_
    · rw [hnone] at hcreating
      cases hcreating
    · cases ho

end served

section runs

variable {callable : O → Bool} {contractID : Str} {s t : Process O E}

theorem served_of_reach (hs : Reach (Process.step callable) (Acyclic contractID) .init s)
    (ht : Reach (Process.step callable) (Settled contractID) s t) :
    ∃ since, t.log = s.log ++ since ∧ Served contractID (t.cell contractID) since := by
  refine ht.invariant (I := fun t => ∃ since, t.log = s.log ++ since ∧ Served contractID (t.cell contractID) since)
    ⟨[], (List.append_nil _).symm, .nil (single_of_reach hs)⟩ ?_
  rintro t a u ⟨since, hlog, hserved⟩ ⟨hacyclic, hentry⟩ hstep
  obtain ⟨e, hnext, hcell⟩ := step_cell hstep contractID
  exact ⟨since ++ [e], by rw [hnext, hlog, List.append_assoc], hserved.next hcell hacyclic hentry⟩

theorem services_are_singletons (hs : Reach (Process.step callable) (Acyclic contractID) .init s)
    (ht : Reach (Process.step callable) (Settled contractID) s t) :
    ∃ since, t.log = s.log ++ since ∧ since.Pairwise fun a b => a.served contractID ≠ none →
      b.gets contractID = true → b.served contractID = a.served contractID := by
  obtain ⟨since, hlog, hserved⟩ := served_of_reach hs ht
  exact ⟨since, hlog, hserved.once⟩

end runs

def cacheManagerID : Str := "@3liz.org/cache-manager;1".toList

def factoryProcess : Process ℕ Empty :=
  Process.init.perform (fun _ => true) (.registerFactory cacheManagerID (some 0))

def creatingProcess : Process ℕ Empty := factoryProcess.perform (fun _ => true) (.getService cacheManagerID)

def servedProcess : Process ℕ Empty :=
  ⟨⟨PyDict.empty.set cacheManagerID ⟨.factory 0, some 7⟩⟩, [],
    creatingProcess.log ++ [.answered (.getService cacheManagerID) (.ok (some 7)),
      .answered (.getService cacheManagerID) (.ok (some 7))]⟩

theorem services_are_singletons_cached :
    Reach (Process.step fun _ => true) (Acyclic cacheManagerID) .init factoryProcess ∧
      Reach (Process.step fun _ => true) (Settled cacheManagerID) factoryProcess servedProcess ∧
        ∃ since, servedProcess.log = factoryProcess.log ++ since ∧ since.Pairwise fun a b =>
          a.served cacheManagerID ≠ none → b.gets cacheManagerID = true →
            b.served cacheManagerID = a.served cacheManagerID := by
  have hfactory : Reach (Process.step fun _ => true) (Acyclic cacheManagerID) .init factoryProcess :=
    Reach.start.next (.call (.registerFactory cacheManagerID (some 0))) nofun rfl
  have hserved : Reach (Process.step fun _ => true) (Settled cacheManagerID) factoryProcess servedProcess :=
    ((Reach.start.next (.call (.getService cacheManagerID)) ⟨fun _ => rfl, rfl⟩ rfl).next (.returns (some 7))
      ⟨nofun, rfl⟩ rfl).next (.call (.getService cacheManagerID)) ⟨fun _ => rfl, rfl⟩ rfl
  exact ⟨hfactory, hserved, services_are_singletons hfactory hserved⟩

-- a factory that asks for its own service
example : ((run (Process.step fun _ => true) factoryProcess [.call (.getService cacheManagerID),
    .call (.getService cacheManagerID), .returns (some 1), .returns (some 2)]).map
      fun s => s.log.filterMap (·.served cacheManagerID)) = some [1, 2] := by decide

end Components
