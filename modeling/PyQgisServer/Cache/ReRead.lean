import PyQgisServer.Cache.Freshness

namespace QgsCache

open Urllib Transition

section reading

variable {P : Type} (env : Tables) (s : Store P)

-- get_project, together with the uris that it calls read_project with
def Store.getProjectReading (h : ProtocolHandler) (url : ParseResult) (details : Option (CacheDetails P)) :
    Except CacheError (CacheDetails P) × List Str :=
  match s.locate env h url with
  | .error e => (.error e, [])
  | .ok (uri, t) =>
    match details with
    | none => ((s.readProject uri).map (⟨·, t⟩), [uri])
    | some d =>
      if d.timestamp < t then ((s.readProject uri).map (⟨·, t⟩), [uri]) else (.ok (Store.keep h d t), [])

def projectDetailsReading (m : AliasTable) (key : Str) (details : Option (CacheDetails P)) :
    Except CacheError (CacheDetails P × UpdateState) × List Str :=
  let r := resolveAlias env m key
  match r.1 with
  | .error e => (.error e, [])
  | .ok url =>
    match getProtocolHandler r.2 url.scheme with
    | .error e => (.error e, [])
    | .ok handler =>
      let g := s.getProjectReading env handler url details
      (g.1.map fun d => (d, updateState details d), g.2)

end reading

variable {P : Type} {env : Tables} {s : Store P} {m : AliasTable} {key : Str}

theorem getProjectReading_fst (h : ProtocolHandler) (url : ParseResult) (details : Option (CacheDetails P)) :
    (s.getProjectReading env h url details).1 = s.getProject env h url details := by
  unfold Store.getProjectReading Store.getProject
  cases s.locate env h url with
  | error e => rfl
  | ok v =>
    cases details with
    | none => rfl
    | some d =>
      simp only [Except.bind]
      split <;> rfl

theorem projectDetailsReading_fst (m : AliasTable) (key : Str) (details : Option (CacheDetails P)) :
    (projectDetailsReading env s m key details).1 = (getProjectDetails env s m key details).1 := by
  simp only [projectDetailsReading, getProjectDetails, bind, Except.bind, pure, Except.pure]
  cases (resolveAlias env m key).1 with
  | error e => rfl
  | ok url =>
    simp only
    cases getProtocolHandler (resolveAlias env m key).2 url.scheme with
    | error e => rfl
    | ok handler =>
      simp only [getProjectReading_fst]
      cases s.getProject env handler url details <;> rfl

theorem projectDetailsReading_snd {v : ProtocolHandler × Str × ℤ} (hv : version env s m key = .ok v)
    (d : CacheDetails P) :
    (projectDetailsReading env s m key (some d)).2 = if d.timestamp < v.2.2 then [v.2.1] else [] := by
  simp only [version, bind, Except.bind, pure, Except.pure] at hv
  simp only [projectDetailsReading, getProtocolHandler_congr (resolveAlias_same env m key)]
  split at hv
  · cases hv
  · rename_i url hurl
    split at hv
    · cases hv
    · rename_i handler hh
      split at hv
      · cases hv
      · rename_i w hw
        cases hv
        simp only [hurl, hh, Store.getProjectReading, hw]
        split <;> rfl

section stamp

variable (stamp : P → ℤ)

-- stamp tells the modification time of the content that a project was read from: the time the
-- handler finds, when it reads it now
def Stamps (env : Tables) (s : Store P) (m : AliasTable) (key : Str) : Prop :=
  ∀ v project, version env s m key = .ok v → s.readProject v.2.1 = .ok project → stamp project = v.2.2

def CacheDetails.Stamped (d : CacheDetails P) : Prop := stamp d.project = d.timestamp

def ReportsReads (env : Tables) (s : Store P) (m : AliasTable) (key : Str) (d : CacheDetails P) : Prop :=
  ∀ e u, (projectDetailsReading env s m key (some d)).1 = .ok (e, u) →
    (u = .updated ↔ (projectDetailsReading env s m key (some d)).2 ≠ []) ∧ e.Stamped stamp

def Onward (env : Tables) (s : Store P) (m : AliasTable) (key : Str) (d : CacheDetails P) : Prop :=
  ∀ uri t, version env s m key = .ok (.qgisStorage, uri, t) → d.timestamp ≤ t

end stamp

theorem projectDetailsReading_ok {d e : CacheDetails P} {u : UpdateState}
    (h : (projectDetailsReading env s m key (some d)).1 = .ok (e, u)) :
    update env s m key (some d) = .ok e ∧ (u = .updated ↔ e.timestamp ≠ d.timestamp) := by
  rw [projectDetailsReading_fst] at h
  obtain ⟨hu, rfl⟩ := CacheManager.getProjectDetails_ok h
  refine ⟨hu, ?_⟩
  rw [updateState]
  split
  · rename_i hne
    exact iff_of_true rfl hne
  · rename_i heq
    exact iff_of_false (by decide) heq

theorem keep_onward {d : CacheDetails P} {v : ProtocolHandler × Str × ℤ} (h : Onward env s m key d)
    (hv : version env s m key = .ok v) (hle : v.2.2 ≤ d.timestamp) : Store.keep v.1 d v.2.2 = d := by
  obtain ⟨handler, uri, t⟩ := v
  cases handler with
  | file => rfl
  | postgres => rfl
  | qgisStorage => exact Store.keep_eq _ (le_antisymm (h uri t hv) hle)

theorem stamped_update {stamp : P → ℤ} (hstamps : Stamps stamp env s m key) {details : Option (CacheDetails P)}
    (hdetails : ∀ d ∈ details, d.Stamped stamp ∧ Onward env s m key d) {e : CacheDetails P}
    (h : update env s m key details = .ok e) : e.Stamped stamp := by
  obtain ⟨v, hv, hnew⟩ := update_cases h
  rcases hnew with ⟨hread, ht, -⟩ | ⟨old, hold, hle, rfl⟩
  · exact (hstamps v e.project hv hread).trans ht.symm
  · obtain ⟨hstamped, honward⟩ := hdetails old hold
    rw [keep_onward honward hv hle]
    exact hstamped

theorem reports_of_onward {stamp : P → ℤ} (hstamps : Stamps stamp env s m key) {d : CacheDetails P}
    (hd : d.Stamped stamp) (h : Onward env s m key d) : ReportsReads stamp env s m key d := by
  intro e u hok
  obtain ⟨hu, hstate⟩ := projectDetailsReading_ok hok
  have hstamped : e.Stamped stamp :=
    stamped_update hstamps (fun old hold => Option.some.inj hold ▸ ⟨hd, h⟩) hu
  refine ⟨?_, hstamped⟩
  obtain ⟨v, hv, hnew⟩ := update_cases hu
  rw [projectDetailsReading_snd hv, hstate]
  rcases hnew with ⟨-, ht, hlt⟩ | ⟨old, hold, hle, rfl⟩
  · have hlt := hlt d rfl
    rw [if_pos hlt]
    exact iff_of_true (by omega) nofun
  · obtain rfl := Option.some.inj hold
    rw [if_neg (by omega), keep_onward h hv hle]
    exact iff_of_false (not_not.mpr rfl) (not_not.mpr rfl)

theorem not_reports_of_backward {stamp : P → ℤ} {d : CacheDetails P} {uri : Str} {t : ℤ}
    (hv : version env s m key = .ok (.qgisStorage, uri, t)) (ht : t < d.timestamp) :
    ¬ ReportsReads stamp env s m key d := by
  intro h
  have hu : update env s m key (some d) = .ok ⟨d.project, t⟩ := by
    rw [update, hv]
    exact updated_kept (s := s) (v := (.qgisStorage, uri, t)) ht.le
  have hok : (projectDetailsReading env s m key (some d)).1 =
      .ok (⟨d.project, t⟩, updateState (some d) ⟨d.project, t⟩) := by
    rw [projectDetailsReading_fst, getProjectDetails_update, hu]
    rfl
  have hread := (h _ _ hok).1.mp ((projectDetailsReading_ok hok).2.mpr ht.ne)
  rw [projectDetailsReading_snd hv, if_neg (by simpa using ht.le)] at hread
  exact hread rfl

theorem reports_reads_iff {stamp : P → ℤ} (hstamps : Stamps stamp env s m key) {d : CacheDetails P}
    (hd : d.Stamped stamp) : ReportsReads stamp env s m key d ↔ Onward env s m key d := by
  refine ⟨fun h uri t hv => ?_, reports_of_onward hstamps hd⟩
  by_contra hlt
  exact not_reports_of_backward hv (not_le.mp hlt) h

theorem stamps_dated (env : Tables) (t : ℤ) (m : AliasTable) (key : Str) :
    Stamps id env (Snapshot.dated t).toStore m key := by
  intro v project hv hread
  rw [Snapshot.version_dated hv]
  obtain rfl := Except.ok.inj hread
  rfl

def storageKey : Str := "geopackage:a.gpkg".toList

theorem reports_reads_newer : ReportsReads id asciiTables (Snapshot.dated 20).toStore srvTable storageKey ⟨10, 10⟩ := by
  have hd : (⟨10, 10⟩ : CacheDetails ℤ).Stamped id := rfl
  refine (reports_reads_iff (stamps_dated asciiTables 20 srvTable storageKey) hd).mpr fun uri t hv => ?_
  have ht : t = 20 := Snapshot.version_dated hv
  rw [ht]
  decide

theorem storage_restored_not_read :
    ¬ ∀ (stamp : ℤ → ℤ) (env : Tables) (s : Store ℤ) (m : AliasTable) (key : Str) (d : CacheDetails ℤ),
      Stamps stamp env s m key → d.Stamped stamp → ReportsReads stamp env s m key d := by
  intro h
  have hv : version asciiTables (Snapshot.dated 10).toStore srvTable storageKey =
      .ok (.qgisStorage, storageKey, 10) := by decide
  exact not_reports_of_backward hv (by decide)
    (h id asciiTables (Snapshot.dated 10).toStore srvTable storageKey ⟨20, 20⟩ (stamps_dated _ _ _ _) rfl)

namespace Snapshot

variable {C : Type} {origin : P → C}

def EntriesStamped (stamp : P → ℤ) (m : CacheManager P) : Prop := ∀ key d, m.Entry key d → d.Stamped stamp

def AllOnward (env : Tables) (m : CacheManager P) (a : Action origin) : Prop :=
  ∀ d ∈ compared m a, Onward env a.store.toStore m.aliases a.key d

def AllReport (stamp : P → ℤ) (env : Tables) (m : CacheManager P) (a : Action origin) : Prop :=
  EntriesStamped stamp m ∧ ∀ d ∈ compared m a, ReportsReads stamp env a.store.toStore m.aliases a.key d

theorem entry_of_compared {m : CacheManager P} {a : Action origin} {d : CacheDetails P} (h : d ∈ compared m a) :
    m.Entry a.key d := by
  cases a with
  | preload s key => exact .inr h
  | update s key => exact CacheManager.entry_of_held h
  | lookup s key refresh =>
    cases refresh with
    | true => exact CacheManager.entry_of_held h
    | false => cases h

theorem run_reports_reads {stamp : P → ℤ} (env : Tables) (aliases : AliasTable) (n : ℕ) (as : List (Action origin))
    (hstamps : ∀ a ∈ as, ∀ m key, Stamps stamp env a.store.toStore m key)
    (honward : Always (step env) (AllOnward env) (start aliases n) as) :
    Always (step env) (AllReport stamp env) (start aliases n) as := by
  refine Always.of_invariant (I := fun m bs => EntriesStamped stamp m ∧ ∀ b ∈ bs, b ∈ as) ?_
    ⟨?_, fun _ hb => hb⟩ honward
  · rintro m a bs ⟨hm, hbs⟩ ha
    have hstamps' := hstamps a (hbs a List.mem_cons_self) m.aliases a.key
    refine ⟨⟨hm, fun d hd => ?_⟩, fun k e he => ?_, fun b hb => hbs b (List.mem_cons_of_mem _ hb)⟩
    · exact reports_of_onward hstamps' (hm _ d (entry_of_compared hd)) (ha d hd)
    · rcases (step_effect env m a).1.entry he with he | ⟨rfl, hdetails, hu⟩
      · exact hm k e he
      · exact stamped_update hstamps' (fun d hd => ⟨hm _ d (hdetails d hd), ha d hd⟩) hu
  · rintro key d (hd | hd)
    · cases hd
    · cases hd

end Snapshot

end QgsCache
