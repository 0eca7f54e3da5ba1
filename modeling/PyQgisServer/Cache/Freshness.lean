import PyQgisServer.Cache.Snapshot

namespace QgsCache

open Urllib Transition

theorem Store.keep_eq {P : Type} (h : ProtocolHandler) {d : CacheDetails P} {t : ℤ} (ht : d.timestamp = t) :
    Store.keep h d t = d := by
  subst ht
  cases h with
  | file => rfl
  | postgres => rfl
  | qgisStorage => rfl

namespace Snapshot

variable {P C : Type} {origin : P → C}

section fresh

variable (env : Tables)

def current (s : Snapshot origin) (aliases : AliasTable) (key : Str) : Except CacheError C :=
  (version env s.toStore aliases key).map fun v => s.content v.2.1

def Dated (aliases : AliasTable) (world : List (Snapshot origin)) : Prop :=
  ∀ s ∈ world, ∀ s' ∈ world, ∀ key v v', version env s.toStore aliases key = .ok v →
    version env s'.toStore aliases key = .ok v' → v.2.2 = v'.2.2 → s.content v.2.1 = s'.content v'.2.1

def Forward (m : CacheManager P) (a : Action origin) : Prop :=
  ∀ d ∈ compared m a, ∀ v, version env a.store.toStore m.aliases a.key = .ok v → d.timestamp ≤ v.2.2

def Fresh (m : CacheManager P) : Action origin → Prop
  | .lookup s key true => ∀ project u t, m.lookup env s.toStore key true = (.ok (project, u), t) →
      current env s m.aliases key = .ok (origin project)
  | _ => True

def ReadFrom (aliases : AliasTable) (s : Snapshot origin) (key : Str) (d : CacheDetails P) : Prop :=
  ∃ v, version env s.toStore aliases key = .ok v ∧ v.2.2 = d.timestamp ∧ s.content v.2.1 = origin d.project

structure Sourced (aliases : AliasTable) (world : List (Snapshot origin)) (m : CacheManager P) : Prop where
  same : aliases.Same m.aliases
  entries : ∀ key d, m.Entry key d → ∃ s ∈ world, ReadFrom env aliases s key d

end fresh

variable {env : Tables} {aliases : AliasTable} {world : List (Snapshot origin)} {m : CacheManager P}
  {s : Snapshot origin} {key : Str}

theorem ReadFrom.current {d : CacheDetails P} (h : ReadFrom env aliases s key d) :
    current env s aliases key = .ok (origin d.project) := by
  obtain ⟨v, hv, -, hc⟩ := h
  rw [Snapshot.current, hv, ← hc]
  rfl

theorem update_readFrom (hdated : Dated env aliases world) (hs : s ∈ world) {details : Option (CacheDetails P)}
    (hdetails : ∀ d ∈ details, ∃ s' ∈ world, ReadFrom env aliases s' key d)
    (hforward : ∀ d ∈ details, ∀ v, version env s.toStore aliases key = .ok v → d.timestamp ≤ v.2.2)
    {e : CacheDetails P} (h : update env s.toStore aliases key details = .ok e) :
    ReadFrom env aliases s key e := by
  obtain ⟨v, hv, hnew⟩ := update_cases h
  refine ⟨v, hv, ?_⟩
  rcases hnew with ⟨hread, ht, -⟩ | ⟨d, rfl, hle, rfl⟩
  · exact ⟨ht.symm, (origin_of_read hread).symm⟩
  · have heq : d.timestamp = v.2.2 := le_antisymm (hforward d rfl v hv) hle
    rw [Store.keep_eq v.1 heq]
    obtain ⟨s', hs', v', hv', ht, hc⟩ := hdetails d rfl
    exact ⟨heq.symm, (hdated s hs s' hs' key v v' hv hv' (heq.symm.trans ht.symm)).trans hc⟩

theorem sourced_step (hdated : Dated env aliases world) (h : Sourced env aliases world m) {a : Action origin}
    (ha : a.store ∈ world) (hforward : Forward env m a) : Sourced env aliases world (step env m a) := by
  obtain ⟨heffect, hsame⟩ := step_effect env m a
  refine ⟨h.same.trans hsame, fun k e he => ?_⟩
  rcases heffect.entry he with he | ⟨rfl, hdetails, hu⟩
  · exact h.entries k e he
  · rw [update_congr h.same] at hu
    refine ⟨a.store, ha, update_readFrom hdated ha (fun d hd => h.entries _ d (hdetails d hd)) ?_ hu⟩
    rw [Forward, version_congr h.same] at hforward
    exact hforward

theorem sourced_fresh (hdated : Dated env aliases world) (h : Sourced env aliases world m) {a : Action origin}
    (ha : a.store ∈ world) (hforward : Forward env m a) : Fresh env m a := by
  cases a with
  | preload s key => trivial
  | update s key => trivial
  | lookup s key refresh =>
    cases refresh with
    | false => trivial
    | true =>
      intro project u t hlookup
      have hrefreshed : m.lookup env s.toStore key true = m.updateAndGet env s.toStore key := rfl
      rw [hrefreshed] at hlookup
      rcases updateAndGet_update env s.toStore m key with ⟨e, t', -, hu, -⟩ | ⟨d, t', hd, hu, -⟩
      · rw [hu] at hlookup
        cases hlookup
      · rw [hu] at hlookup
        cases hlookup
        rw [update_congr h.same] at hd
        rw [Forward, version_congr h.same] at hforward
        rw [Snapshot.current, version_congr h.same, ← Snapshot.current]
        refine (update_readFrom hdated ha (fun d hd => ?_) hforward hd).current
        exact h.entries key d (CacheManager.entry_of_held hd)

theorem sourced_start (n : ℕ) : Sourced env aliases world (start aliases n : CacheManager P) where
  same := .refl aliases
  entries := by
    rintro key d (hd | hd)
    · cases hd
    · cases hd

theorem refreshed_lookups_fresh (env : Tables) (aliases : AliasTable) (n : ℕ) (as : List (Action origin))
    (hdated : Dated env aliases (as.map Action.store))
    (hforward : Always (step env) (Forward env) (start aliases n) as) :
    Always (step env) (Fresh env) (start aliases n) as := by
  refine Always.of_invariant (I := fun m bs => Sourced env aliases (as.map Action.store) m ∧
    ∀ b ∈ bs, b.store ∈ as.map Action.store) ?_ ⟨sourced_start n, fun b hb => List.mem_map_of_mem hb⟩ hforward
  rintro m a bs ⟨hm, hbs⟩ ha
  have hstore := hbs a List.mem_cons_self
  exact ⟨sourced_fresh hdated hm hstore ha, sourced_step hdated hm hstore ha,
    fun b hb => hbs b (List.mem_cons_of_mem _ hb)⟩

theorem dated_times (env : Tables) (aliases : AliasTable) (times : List ℤ) :
    Dated env aliases (times.map dated) := by
  intro s hs s' hs' key v v' hv hv' ht
  obtain ⟨t, -, rfl⟩ := List.mem_map.mp hs
  obtain ⟨t', -, rfl⟩ := List.mem_map.mp hs'
  rw [version_dated hv, version_dated hv'] at ht
  exact ht

def restored (t u : ℤ) : List (Action (id : ℤ → ℤ)) :=
  [.lookup (dated t) "a".toList true, .lookup (dated u) "a".toList true]

theorem newer_project_is_fresh :
    Always (step asciiTables) (Fresh asciiTables) (start srvTable 0) (restored 10 20) := by
  refine refreshed_lookups_fresh asciiTables srvTable 0 (restored 10 20) (dated_times _ _ [10, 20]) ⟨?_, ?_, trivial⟩
  · intro d hd
    cases hd
  · intro d hd v hv
    have hheld : compared (step asciiTables (start srvTable 0) (.lookup (dated 10) "a".toList true))
        (.lookup (dated 20) "a".toList true) = some ⟨10, 10⟩ := by decide
    obtain rfl := Option.some.inj (hheld.symm.trans hd)
    rw [version_dated hv]
    decide

theorem restored_project_is_stale :
    Dated asciiTables srvTable ((restored 10 5).map Action.store) ∧
      ¬ Always (step asciiTables) (Fresh asciiTables) (start srvTable 0) (restored 10 5) := by
  refine ⟨dated_times _ _ [10, 5], fun h => ?_⟩
  have hlookup : ((step asciiTables (start srvTable 0) (.lookup (dated 10) "a".toList true)).lookup asciiTables
      (dated 5).toStore "a".toList true).1 = .ok (10, .unchanged) := by decide
  have hcurrent := h.2.1 10 .unchanged _ (Prod.ext hlookup rfl)
  have hcontent : current asciiTables (dated 5)
      (step asciiTables (start srvTable 0) (.lookup (dated 10) "a".toList true)).aliases "a".toList = .ok 5 := by
    decide
  rw [hcontent] at hcurrent
  cases hcurrent

end Snapshot

end QgsCache
