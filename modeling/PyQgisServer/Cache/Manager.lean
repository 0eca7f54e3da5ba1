import PyQgisServer.Cache.Lru
import PyQgisServer.Cache.Store

namespace QgsCache

open Urllib

inductive UpdateState where
  | unchanged
  | inserted
  | updated
  deriving DecidableEq

def withoutMicroseconds (t : ℤ) : ℤ := t - t % 1000000

-- notified lists what the observers have been told
structure CacheManager (P : Type) where
  aliases : AliasTable
  lru : Lru Str (CacheDetails P)
  static : PyDict Str (CacheDetails P)
  notified : List (Str × ℤ × UpdateState)

section details

variable {P : Type} (env : Tables) (s : Store P)

def updateState (details : Option (CacheDetails P)) (d : CacheDetails P) : UpdateState :=
  match details with
  | none => .inserted
  | some old => if d.timestamp ≠ old.timestamp then .updated else .unchanged

def getProjectDetails (m : AliasTable) (key : Str) (details : Option (CacheDetails P)) :
    Except CacheError (CacheDetails P × UpdateState) × AliasTable :=
  let r := resolveAlias env m key
  (do
    let url ← r.1
    let handler ← getProtocolHandler r.2 url.scheme
    let d ← s.getProject env handler url details
    pure (d, updateState details d), r.2)

end details

section details

variable {P : Type} {details : Option (CacheDetails P)} {d : CacheDetails P}

theorem updateState_unchanged_iff :
    updateState details d = .unchanged ↔ ∃ old, details = some old ∧ d.timestamp = old.timestamp := by
  cases details with
  | none => simp [updateState]
  | some old => simp [updateState]

theorem updateState_inserted_iff : updateState details d = .inserted ↔ details = none := by
  cases details with
  | none => simp [updateState]
  | some old =>
    rw [updateState]
    split <;> simp

theorem getProjectDetails_state {env : Tables} {s : Store P} {m : AliasTable} {key : Str} {u : UpdateState}
    (h : (getProjectDetails env s m key details).1 = .ok (d, u)) : u = updateState details d := by
  simp only [getProjectDetails, bind, Except.bind, pure, Except.pure] at h
  split at h
  · cases h
  · split at h
    · cases h
    · split at h
      · cases h
      · cases h
        rfl

end details

namespace CacheManager

variable {P : Type}

inductive CacheType where
  | lru
  | static
  deriving DecidableEq

def peek (m : CacheManager P) (key : Str) : Option CacheType → Option (CacheDetails P)
  | some .lru => m.lru.peek key
  | some .static => m.static.get? key
  | none => (m.lru.peek key).or (m.static.get? key)

def setStatic (m : CacheManager P) (key : Str) (d : CacheDetails P) : CacheManager P :=
  { m with static := m.static.set key d }

def setLru (m : CacheManager P) (key : Str) (d : CacheDetails P) : CacheManager P :=
  { m with lru := m.lru.setItem key d }

def notify (m : CacheManager P) (key : Str) (t : ℤ) (update : UpdateState) : CacheManager P :=
  if update = .unchanged then m
  else { m with notified := m.notified ++ [(key, withoutMicroseconds t, update)] }

section lookup

variable (env : Tables) (s : Store P) (m : CacheManager P)

-- the result comes with the manager it leaves, also after an exception
def updateStaticEntry (key : Str) : Except CacheError UpdateState × CacheManager P :=
  let r := getProjectDetails env s m.aliases key (m.static.get? key)
  let m := { m with aliases := r.2 }
  match r.1 with
  | .error e => (.error e, m)
  | .ok (d, update) => (.ok update, m.setStatic key d)

def updateEntry (key : Str) : Except CacheError UpdateState × CacheManager P :=
  match m.lru.peek key, m.static.get? key with
  | none, some details =>
    let r := getProjectDetails env s m.aliases key (some details)
    let m := { m with aliases := r.2 }
    match r.1 with
    | .error e => (.error e, m)
    | .ok (d, update) =>
      let m := if update = .updated then m.setStatic key d else m
      (.ok .inserted, (m.setLru key d).notify key d.timestamp .inserted)
  | details, _ =>
    let r := getProjectDetails env s m.aliases key details
    let m := { m with aliases := r.2 }
    match r.1 with
    | .error e => (.error e, m)
    | .ok (d, update) => (.ok update, (m.setLru key d).notify key d.timestamp update)

def updateAndGet (key : Str) : Except CacheError (P × UpdateState) × CacheManager P :=
  let r := m.updateEntry env s key
  match r.1 with
  | .error e => (.error e, r.2)
  | .ok update =>
    match r.2.lru.getItem key with
    | none => (.error .keyError, r.2)
    | some (d, lru) => (.ok (d.project, update), { r.2 with lru := lru })

def lookup (key : Str) (refresh : Bool) : Except CacheError (P × UpdateState) × CacheManager P :=
  if refresh then m.updateAndGet env s key
  else
    match m.peek key (some .lru) with
    | some d => (.ok (d.project, .unchanged), m)
    | none =>
      match m.peek key (some .static) with
      | some d => (.ok (d.project, .updated), m.setLru key d)
      | none => m.updateAndGet env s key

def getModifiedTime (key : Str) (fromCache : Bool) : Except CacheError ℤ × CacheManager P :=
  match m.peek key none with
  | some d =>
    if fromCache then (.ok (withoutMicroseconds d.timestamp), m)
    else
      match s.lastModified d.project with
      | none => (.error .fileNotFound, m)
      | some t => (.ok (withoutMicroseconds t), m)
  | none =>
    let r := resolveAlias env m.aliases key
    ((do
      let url ← r.1
      let handler ← getProtocolHandler r.2 url.scheme
      let t ← s.getModifiedTime env handler url
      pure (withoutMicroseconds t)), { m with aliases := r.2 })

end lookup

@[simp] theorem notify_lru (m : CacheManager P) (key : Str) (t : ℤ) (u : UpdateState) :
    (m.notify key t u).lru = m.lru := by
  unfold notify
  split <;> rfl

@[simp] theorem notify_static (m : CacheManager P) (key : Str) (t : ℤ) (u : UpdateState) :
    (m.notify key t u).static = m.static := by
  unfold notify
  split <;> rfl

@[simp] theorem notify_aliases (m : CacheManager P) (key : Str) (t : ℤ) (u : UpdateState) :
    (m.notify key t u).aliases = m.aliases := by
  unfold notify
  split <;> rfl

theorem notify_notified {m n : CacheManager P} {key : Str} {t : ℤ} {u : UpdateState} (h : m.notified = n.notified) :
    (m.notify key t u).notified = (n.notify key t u).notified := by
  unfold notify
  split
  · exact h
  · exact congrArg (· ++ _) h

@[simp] theorem setLru_lru (m : CacheManager P) (key : Str) (d : CacheDetails P) :
    (m.setLru key d).lru = m.lru.setItem key d := rfl

@[simp] theorem setLru_static (m : CacheManager P) (key : Str) (d : CacheDetails P) :
    (m.setLru key d).static = m.static := rfl

@[simp] theorem setLru_aliases (m : CacheManager P) (key : Str) (d : CacheDetails P) :
    (m.setLru key d).aliases = m.aliases := rfl

def held (m : CacheManager P) (key : Str) : Option (CacheDetails P) :=
  (m.lru.peek key).or (m.static.get? key)

structure Updated (m : CacheManager P) (key : Str) (aliases : AliasTable) (d : CacheDetails P)
    (t : CacheManager P) : Prop where
  aliases : t.aliases = aliases
  lru : t.lru = m.lru.setItem key d
  static : m.lru.peek key ≠ none → t.static = m.static
  notified : t.notified = (m.notify key d.timestamp (updateState (m.lru.peek key) d)).notified

theorem updated_setLru {m n : CacheManager P} {key : Str} {old : Option (CacheDetails P)} {aliases : AliasTable}
    (d : CacheDetails P) (hl : m.lru.peek key = old) (haliases : n.aliases = aliases) (hlru : n.lru = m.lru)
    (hstatic : old ≠ none → n.static = m.static) (hnotified : n.notified = m.notified) :
    m.Updated key aliases d ((n.setLru key d).notify key d.timestamp (updateState old d)) := by
  subst hl
  exact ⟨by simp [haliases], by simp [hlru], fun hne => by simp [hstatic hne], notify_notified hnotified⟩

theorem updateEntry_cases (env : Tables) (s : Store P) (m : CacheManager P) (key : Str) :
    (∃ e, (getProjectDetails env s m.aliases key (m.held key)).1 = .error e ∧
      m.updateEntry env s key =
        (.error e, { m with aliases := (getProjectDetails env s m.aliases key (m.held key)).2 })) ∨
    ∃ d t, (getProjectDetails env s m.aliases key (m.held key)).1 = .ok (d, updateState (m.held key) d) ∧
      m.updateEntry env s key = (.ok (updateState (m.lru.peek key) d), t) ∧
      m.Updated key (getProjectDetails env s m.aliases key (m.held key)).2 d t := by
  cases hl : m.lru.peek key with
  | some old =>
    have hheld : m.held key = some old := by simp [held, hl]
    rw [hheld]
    simp only [updateEntry, hl]
    cases hr : (getProjectDetails env s m.aliases key (some old)).1 with
    | error e => exact .inl ⟨e, rfl, rfl⟩
    | ok r =>
      obtain ⟨d, u⟩ := r
      obtain rfl := getProjectDetails_state hr
      refine .inr ⟨d, _, rfl, rfl, ?_⟩
      refine updated_setLru d hl ?_ ?_ (fun _ => ?_) ?_
      all_goals rfl
  | none =>
    cases hs : m.static.get? key with
    | some old =>
      have hheld : m.held key = some old := by simp [held, hl, hs]
      rw [hheld]
      simp only [updateEntry, hl, hs]
      cases hr : (getProjectDetails env s m.aliases key (some old)).1 with
      | error e => exact .inl ⟨e, rfl, rfl⟩
      | ok r =>
        obtain ⟨d, u⟩ := r
        obtain rfl := getProjectDetails_state hr
        refine .inr ⟨d, _, rfl, rfl, ?_⟩
        split
        · refine updated_setLru d hl ?_ ?_ (absurd rfl) ?_
          all_goals rfl
        · refine updated_setLru d hl ?_ ?_ (absurd rfl) ?_
          all_goals rfl
    | none =>
      have hheld : m.held key = none := by simp [held, hl, hs]
      rw [hheld]
      simp only [updateEntry, hl, hs]
      cases hr : (getProjectDetails env s m.aliases key none).1 with
      | error e => exact .inl ⟨e, rfl, rfl⟩
      | ok r =>
        obtain ⟨d, u⟩ := r
        obtain rfl := getProjectDetails_state hr
        refine .inr ⟨d, _, rfl, rfl, ?_⟩
        refine updated_setLru d hl ?_ ?_ (absurd rfl) ?_
        all_goals rfl

section lookup

variable {env : Tables} {s : Store P} {m t : CacheManager P} {key : Str} {d : CacheDetails P}

theorem lookup_lru (hl : m.lru.peek key = some d) :
    m.lookup env s key false = (.ok (d.project, .unchanged), m) := by
  simp [lookup, peek, hl]

theorem lookup_static (hl : m.lru.peek key = none) (hs : m.static.get? key = some d) :
    m.lookup env s key false = (.ok (d.project, .updated), m.setLru key d) := by
  simp [lookup, peek, hl, hs]

theorem lookup_refreshed {refresh : Bool} (h : refresh = false → m.held key = none) :
    m.lookup env s key refresh = m.updateAndGet env s key := by
  cases refresh with
  | true => rfl
  | false =>
    obtain ⟨hl, hs⟩ := Option.or_eq_none_iff.mp (h rfl)
    simp only [lookup, peek, hl, hs, Bool.false_eq_true, if_false]

theorem updateAndGet_ok {v : P × UpdateState} (h : m.updateAndGet env s key = (.ok v, t)) :
    ∃ d, t.lru = m.lru.setItem key d := by
  rcases updateEntry_cases env s m key with ⟨e, -, hu⟩ | ⟨d, u, -, hu, ht⟩
  · simp only [updateAndGet, hu] at h
    cases h
  · simp only [updateAndGet, hu, ht.lru, Lru.getItem_setItem] at h
    cases h
    exact ⟨d, rfl⟩

theorem lookup_ok {refresh : Bool} {v : P × UpdateState} (h : m.lookup env s key refresh = (.ok v, t)) :
    refresh = false ∧ key ∈ m.lru.tableKeys ∧ t = m ∨ ∃ d, t.lru = m.lru.setItem key d := by
  cases refresh with
  | true => exact .inr (updateAndGet_ok h)
  | false =>
    cases hl : m.lru.peek key with
    | some d =>
      rw [lookup_lru hl] at h
      cases h
      exact .inl ⟨rfl, Lru.mem_tableKeys_iff.mpr (by rw [hl]; exact nofun), rfl⟩
    | none =>
      cases hs : m.static.get? key with
      | some d =>
        rw [lookup_static hl hs] at h
        cases h
        exact .inr ⟨d, rfl⟩
      | none =>
        rw [lookup_refreshed fun _ => Option.or_eq_none_iff.mpr ⟨hl, hs⟩] at h
        exact .inr (updateAndGet_ok h)

end lookup

end CacheManager

end QgsCache
