import PyQgisServer.Qgis.RefreshCache

namespace QgsCache

open Urllib

namespace Announced

inductive Event where
  | notified (key : Str) (t : ℤ) (update : UpdateState)
  | served (key : Str) (t : ℤ)
  deriving DecidableEq

-- the last event first
abbrev Log := List Event

def Event.tells (key : Str) (t : ℤ) : Event → Option Bool
  | .served k u => if k = key then some (u == t) else none
  | .notified k u _ => if k = key ∧ u = t then some true else none

def heard (log : Log) (key : Str) (t : ℤ) : Prop := log.findSome? (Event.tells key t) = some true

instance (log : Log) (key : Str) (t : ℤ) : Decidable (heard log key t) := by
  unfold heard
  infer_instance

def AllAnnounced : Log → Prop
  | [] => True
  | .served key t :: log => heard log key t ∧ AllAnnounced log
  | .notified _ _ _ :: log => AllAnnounced log

section heard

variable {log : Log} {key k : Str} {t u : ℤ} {update : UpdateState}

theorem heard_notified : heard (.notified key t update :: log) key t := by
  simp [heard, Event.tells]

theorem heard_served : heard (.served key t :: log) key t := by
  simp [heard, Event.tells]

theorem heard_served_ne (h : k ≠ key) : heard (.served k u :: log) key t ↔ heard log key t := by
  simp [heard, Event.tells, h]

theorem heard.notified (h : heard log key t) : heard (.notified k u update :: log) key t := by
  rw [heard, List.findSome?_cons, Event.tells]
  split
  · rename_i b hb
    split at hb
    · exact hb ▸ rfl
    · cases hb
  · exact h

end heard

structure Run (P : Type) where
  manager : CacheManager P
  log : Log

-- a refresh pass preloads the static keys again and updates the keys of the LRU cache
inductive Action (P : Type) where
  | preload (s : Store P) (key : Str)
  | update (s : Store P) (key : Str)
  | lookup (s : Store P) (key : Str) (refresh : Bool)

variable {P : Type}

def updateCalls (r : Except CacheError UpdateState × CacheManager P) (key : Str) : Log :=
  match r.1, r.2.lru.peek key with
  | .ok update, some d => if update = .unchanged then [] else [.notified key d.timestamp update]
  | _, _ => []

section step

variable (env : Tables)

def lookupCalls (s : Store P) (m : CacheManager P) (key : Str) (refresh : Bool) : Log :=
  if refresh then updateCalls (m.updateEntry env s key) key
  else
    match m.peek key (some .lru), m.peek key (some .static) with
    | none, none => updateCalls (m.updateEntry env s key) key
    | _, _ => []

def served (r : Except CacheError (P × UpdateState) × CacheManager P) (key : Str) : Log :=
  match r.1, r.2.lru.peek key with
  | .ok _, some d => [.served key d.timestamp]
  | _, _ => []

def step (r : Run P) : Action P → Run P
  | .preload s key => { r with manager := (r.manager.updateStaticEntry env s key).2 }
  | .update s key =>
    let u := r.manager.updateEntry env s key
    ⟨u.2, updateCalls u key ++ r.log⟩
  | .lookup s key refresh =>
    let u := r.manager.lookup env s key refresh
    ⟨u.2, served u key ++ lookupCalls env s r.manager key refresh ++ r.log⟩

def run : Run P → List (Action P) → Run P := List.foldl (step env)

def Heard (r : Run P) : Action P → Prop
  | .lookup _ key false =>
    r.manager.lru.peek key = none → ∀ d, r.manager.static.get? key = some d → heard r.log key d.timestamp
  | _ => True

def AllHeard : Run P → List (Action P) → Prop
  | _, [] => True
  | r, a :: as => Heard r a ∧ AllHeard (step env r a) as

end step

def start (aliases : AliasTable) (n : ℕ) : Run P := ⟨⟨aliases, .init (n + 1) n.succ_pos, .empty, []⟩, []⟩

def Known (r : Run P) : Prop := ∀ key d, r.manager.lru.peek key = some d → heard r.log key d.timestamp

section known

variable {env : Tables} {s : Store P} {r : Run P} {m : CacheManager P} {log : Log} {key : Str}

theorem known_start (aliases : AliasTable) (n : ℕ) : Known (start aliases n : Run P) := by
  intro key d hd
  cases hd

theorem known_served (h : Known ⟨m, log⟩) {d : CacheDetails P} (hd : m.lru.peek key = some d) :
    Known ⟨m, .served key d.timestamp :: log⟩ := by
  intro l e he
  by_cases hl : key = l
  · subst hl
    obtain rfl := Option.some.inj (hd.symm.trans he)
    exact heard_served
  · exact (heard_served_ne hl).mpr (h l e he)

theorem known_setItem {d : CacheDetails P} (h : Known r) (hm : m.lru = r.manager.lru.setItem key d)
    (hlog : heard log key d.timestamp)
    (hmono : ∀ l t, heard r.log l t → heard log l t) : Known ⟨m, log⟩ := by
  intro l e he
  rw [hm] at he
  by_cases hl : l = key
  · subst hl
    rw [Lru.peek_setItem_self] at he
    obtain rfl := Option.some.inj he
    exact hlog
  · exact hmono l _ (h l e (Lru.peek_of_setItem hl he))

theorem known_update (env : Tables) (s : Store P) (key : Str) (h : Known r) :
    Known ⟨(r.manager.updateEntry env s key).2, updateCalls (r.manager.updateEntry env s key) key ++ r.log⟩ := by
  rcases updateEntry_update env s r.manager key with ⟨e, t, -, hu, ht, -⟩ | ⟨d, t, hd, hu, ht⟩
  · rw [hu]
    intro l e he
    exact h l e (ht ▸ he)
  · rw [hu]
    have hpeek : t.lru.peek key = some d := by rw [ht.lru, Lru.peek_setItem_self]
    simp only [updateCalls, hpeek]
    split
    · rename_i hunchanged
      obtain ⟨old, hold, hsame⟩ := updateState_unchanged_iff.mp hunchanged
      refine known_setItem h ht.lru ?_ fun _ _ => id
      rw [hsame]
      exact h key old hold
    · exact known_setItem h ht.lru heard_notified fun _ _ => heard.notified

theorem updateAndGet_updateEntry (m : CacheManager P) :
    (m.updateAndGet env s key).2 = (m.updateEntry env s key).2 := by
  rcases updateEntry_update env s m key with ⟨e, t, -, hu, -⟩ | ⟨d, t, -, hu, ht⟩
  · simp only [CacheManager.updateAndGet, hu]
  · simp only [CacheManager.updateAndGet, hu, ht.lru, Lru.getItem_setItem]
    rw [← ht.lru]

theorem allAnnounced_updateCalls (u : Except CacheError UpdateState × CacheManager P) :
    AllAnnounced (updateCalls u key ++ log) ↔ AllAnnounced log := by
  unfold updateCalls
  split
  · split
    · rfl
    · rfl
  · rfl

theorem served_known (key : Str) {u : Except CacheError (P × UpdateState) × CacheManager P} (h : Known ⟨u.2, log⟩) :
    Known ⟨u.2, served u key ++ log⟩ ∧ (AllAnnounced (served u key ++ log) ↔ AllAnnounced log) := by
  unfold served
  split
  · rename_i v d _ hd
    exact ⟨known_served h hd, and_iff_right (h key d hd)⟩
  · exact ⟨h, Iff.rfl⟩

theorem lookup_update (key : Str) (refresh : Bool) (h : Known r)
    (hlookup : r.manager.lookup env s key refresh = r.manager.updateAndGet env s key)
    (hcalls : lookupCalls env s r.manager key refresh = updateCalls (r.manager.updateEntry env s key) key) :
    Known (step env r (.lookup s key refresh)) ∧
      (AllAnnounced (step env r (.lookup s key refresh)).log ↔ AllAnnounced r.log) := by
  have hupdate := known_update env s key h
  rw [← updateAndGet_updateEntry] at hupdate
  obtain ⟨hknown, hiff⟩ := served_known key hupdate
  simp only [step, hlookup, hcalls, List.append_assoc]
  exact ⟨hknown, hiff.trans (allAnnounced_updateCalls _)⟩

theorem updateStaticEntry_lru (env : Tables) (s : Store P) (key : Str) (m : CacheManager P) :
    (m.updateStaticEntry env s key).2.lru = m.lru := by
  unfold CacheManager.updateStaticEntry
  simp only
  split <;> rfl

theorem lookup_static (env : Tables) (s : Store P) {d : CacheDetails P} (h : Known r)
    (hl : r.manager.lru.peek key = none) (hs : r.manager.static.get? key = some d) :
    Known (step env r (.lookup s key false)) ∧
      (AllAnnounced (step env r (.lookup s key false)).log ↔
        heard r.log key d.timestamp ∧ AllAnnounced r.log) := by
  have hstep : step env r (.lookup s key false) =
      ⟨r.manager.setLru key d, .served key d.timestamp :: r.log⟩ := by
    simp [step, CacheManager.lookup_static hl hs, CacheManager.peek, hl, hs, lookupCalls, served,
      Lru.peek_setItem_self]
  rw [hstep]
  refine ⟨fun l e he => ?_, Iff.rfl⟩
  by_cases hkey : l = key
  · subst hkey
    rw [CacheManager.setLru_lru, Lru.peek_setItem_self] at he
    obtain rfl := Option.some.inj he
    exact heard_served
  · exact (heard_served_ne (Ne.symm hkey)).mpr (h l e (Lru.peek_of_setItem hkey he))

theorem lookup_known (h : Known r) (refresh : Bool) :
    Known (step env r (.lookup s key refresh)) ∧
      (AllAnnounced (step env r (.lookup s key refresh)).log ↔
        Heard r (.lookup s key refresh) ∧ AllAnnounced r.log) := by
  cases refresh with
  | true =>
    obtain ⟨hknown, hiff⟩ := lookup_update key true h rfl rfl
    exact ⟨hknown, hiff.trans (and_iff_right trivial).symm⟩
  | false =>
    cases hl : r.manager.lru.peek key with
    | some d =>
      have hstep : step env r (.lookup s key false) = ⟨r.manager, .served key d.timestamp :: r.log⟩ := by
        simp [step, CacheManager.lookup_lru hl, CacheManager.peek, hl, lookupCalls, served]
      have hheard : Heard r (.lookup s key false) := fun hc => by
        rw [hl] at hc
        cases hc
      rw [hstep]
      exact ⟨known_served h hl, (and_iff_right (h key d hl)).trans (and_iff_right hheard).symm⟩
    | none =>
      cases hs : r.manager.static.get? key with
      | some d =>
        obtain ⟨hknown, hiff⟩ := lookup_static env s h hl hs
        refine ⟨hknown, hiff.trans (and_congr_left fun _ =>
          ⟨fun hheard _ e he => ?_, fun hheard => hheard hl d hs⟩)⟩
        obtain rfl := Option.some.inj (hs.symm.trans he)
        exact hheard
      | none =>
        have hheard : Heard r (.lookup s key false) := fun _ d hd => by
          rw [hs] at hd
          cases hd
        have hlookup : r.manager.lookup env s key false = r.manager.updateAndGet env s key :=
          CacheManager.lookup_refreshed fun _ => Option.or_eq_none_iff.mpr ⟨hl, hs⟩
        have hcalls : lookupCalls env s r.manager key false = updateCalls (r.manager.updateEntry env s key) key := by
          simp [lookupCalls, CacheManager.peek, hl, hs]
        obtain ⟨hknown, hiff⟩ := lookup_update key false h hlookup hcalls
        exact ⟨hknown, hiff.trans (and_iff_right hheard).symm⟩

theorem step_known (env : Tables) (h : Known r) (a : Action P) :
    Known (step env r a) ∧ (AllAnnounced (step env r a).log ↔ Heard r a ∧ AllAnnounced r.log) := by
  cases a with
  | preload s key =>
    refine ⟨fun l e he => h l e ?_, (and_iff_right trivial).symm⟩
    have hlru := updateStaticEntry_lru env s key r.manager
    rw [← hlru]
    exact he
  | update s key =>
    exact ⟨known_update env s key h, (allAnnounced_updateCalls _).trans (and_iff_right trivial).symm⟩
  | lookup s key refresh => exact lookup_known h refresh

theorem run_known (h : Known r) (as : List (Action P)) :
    AllAnnounced (run env r as).log ↔ AllAnnounced r.log ∧ AllHeard env r as := by
  induction as generalizing r with
  | nil => exact (and_iff_left trivial).symm
  | cons a as ih =>
    obtain ⟨hknown, hiff⟩ := step_known env h a
    have hrest := ih hknown
    rw [run, List.foldl_cons]
    refine hrest.trans ?_
    rw [hiff, AllHeard]
    tauto

end known

def told : Event → List (Str × ℤ × UpdateState)
  | .notified key t update => [(key, withoutMicroseconds t, update)]
  | .served _ _ => []

section told

variable (env : Tables) (s : Store P)

theorem updateEntry_told (m : CacheManager P) (key : Str) :
    (m.updateEntry env s key).2.notified =
      m.notified ++ (updateCalls (m.updateEntry env s key) key).reverse.flatMap told := by
  rcases updateEntry_update env s m key with ⟨e, t, -, hu, -, ht⟩ | ⟨d, t, -, hu, ht⟩
  · rw [hu, ht]
    exact (List.append_nil _).symm
  · have hpeek : t.lru.peek key = some d := by rw [ht.lru, Lru.peek_setItem_self]
    rw [hu, ht.notified]
    simp only [updateCalls, hpeek, CacheManager.notify]
    split
    · exact (List.append_nil _).symm
    · rfl

theorem lookup_told (m : CacheManager P) (key : Str) (refresh : Bool) :
    (m.lookup env s key refresh).2.notified =
      m.notified ++ (lookupCalls env s m key refresh).reverse.flatMap told := by
  have hupdate := updateEntry_told env s m key
  rw [← updateAndGet_updateEntry] at hupdate
  cases refresh with
  | true => exact hupdate
  | false =>
    cases hl : m.lru.peek key with
    | some d => simp [CacheManager.lookup_lru hl, CacheManager.peek, hl, lookupCalls]
    | none =>
      cases hs : m.static.get? key with
      | some d =>
        simp [CacheManager.lookup_static hl hs, CacheManager.peek, hl, hs, lookupCalls, CacheManager.setLru]
      | none =>
        rw [CacheManager.lookup_refreshed fun _ => Option.or_eq_none_iff.mpr ⟨hl, hs⟩]
        simp only [lookupCalls, CacheManager.peek, hl, hs]
        exact hupdate

theorem served_told (u : Except CacheError (P × UpdateState) × CacheManager P) (key : Str) :
    (served u key).reverse.flatMap told = [] := by
  unfold served
  split <;> rfl

theorem step_told {r : Run P} (h : r.manager.notified = r.log.reverse.flatMap told) (a : Action P) :
    (step env r a).manager.notified = (step env r a).log.reverse.flatMap told := by
  cases a with
  | preload s key =>
    refine Eq.trans ?_ h
    simp only [step, CacheManager.updateStaticEntry]
    split <;> rfl
  | update s key =>
    simp only [step, updateEntry_told, h, List.reverse_append, List.flatMap_append]
  | lookup s key refresh =>
    have hserved := served_told (r.manager.lookup env s key refresh) key
    simp only [step, lookup_told, h, List.reverse_append, List.flatMap_append, hserved, List.append_nil]

theorem run_told (aliases : AliasTable) (n : ℕ) (as : List (Action P)) :
    (run env (start aliases n) as).manager.notified = (run env (start aliases n) as).log.reverse.flatMap told := by
  suffices h : ∀ r : Run P, r.manager.notified = r.log.reverse.flatMap told →
      (run env r as).manager.notified = (run env r as).log.reverse.flatMap told from h _ rfl
  induction as with
  | nil => exact fun r h => h
  | cons a as ih => exact fun r h => ih _ (step_told env h a)

end told

section refresh

open Qgis

variable (env : Tables) (s : Store P)

theorem run_append (r : Run P) (as bs : List (Action P)) : run env r (as ++ bs) = run env (run env r as) bs :=
  List.foldl_append

theorem preloads_run (keys : List Str) (r : Run P) :
    (run env r (keys.map (.preload s))).manager = Sweep.each (CacheManager.refreshStatic env s) r.manager keys := by
  induction keys generalizing r with
  | nil => rfl
  | cons key keys ih => exact ih (step env r (.preload s key))

theorem refreshEntry_cacheService (c : HandlerClass P) (key : Str) :
    (c.refreshEntry env s key).2.cacheService = (c.cacheService.updateEntry env s key).2 := by
  simp only [HandlerClass.refreshEntry]
  split
  · rfl
  · split
    · split <;> rfl
    · rfl

theorem updates_run (keys : List Str) (r : Run P) {c : HandlerClass P} (h : r.manager = c.cacheService) :
    (run env r (keys.map (.update s))).manager =
      (Sweep.each (HandlerClass.refreshEntry env s) c keys).cacheService := by
  induction keys generalizing r c with
  | nil => exact h
  | cons key keys ih =>
    refine ih (step env r (.update s key)) ?_
    rw [refreshEntry_cacheService, ← h]
    rfl

theorem refreshCache_run (c : HandlerClass P) (now done : ℚ) (log : Log) :
    ∃ as, (run env ⟨c.cacheService, log⟩ as).manager = (c.refreshCache env s now done).2.cacheService := by
  obtain ⟨statics, m, entries, last, hstatics, -, ht⟩ := HandlerClass.refreshCache_prefix env s c now done
  refine ⟨statics.map (.preload s) ++ entries.map (.update s), ?_⟩
  have hm : (run env ⟨c.cacheService, log⟩ (statics.map (.preload s))).manager = m := by
    rw [preloads_run, hstatics]
  rw [run_append, updates_run env s entries _ (c := { c with cacheService := m }) hm, ht]

end refresh

theorem served_versions_announced_iff (env : Tables) (aliases : AliasTable) (n : ℕ) (as : List (Action P)) :
    AllAnnounced (run env (start aliases n) as).log ↔ AllHeard env (start aliases n) as :=
  (run_known (known_start aliases n) as).trans (and_iff_right trivial)

theorem preloaded_version_not_announced :
    ¬ AllAnnounced (run asciiTables (start srvTable 0)
      [.preload openStore "a".toList, .lookup openStore "a".toList false]).log := by
  have hlog : (run asciiTables (start srvTable 0)
      [.preload openStore "a".toList, .lookup openStore "a".toList false]).log = [.served "a".toList 0] := by
    decide
  rw [hlog]
  rintro ⟨h, -⟩
  cases h

end Announced

end QgsCache
