import PyQgisServer.Cache.Manager

namespace QgsCache

open Urllib

section version

variable {P : Type} (env : Tables) (s : Store P)

def version (m : AliasTable) (key : Str) : Except CacheError (ProtocolHandler × Str × ℤ) := do
  let url ← (resolveAlias env m key).1
  let handler ← getProtocolHandler m url.scheme
  let (uri, t) ← s.locate env handler url
  pure (handler, uri, t)

def upToDate (details : Option (CacheDetails P)) (t : ℤ) : Option (CacheDetails P) :=
  details.filter fun d => t ≤ d.timestamp

def updated (v : ProtocolHandler × Str × ℤ) (details : Option (CacheDetails P)) :
    Except CacheError (CacheDetails P) :=
  match upToDate details v.2.2 with
  | some d => .ok (Store.keep v.1 d v.2.2)
  | none => (s.readProject v.2.1).map (⟨·, v.2.2⟩)

def update (m : AliasTable) (key : Str) (details : Option (CacheDetails P)) :
    Except CacheError (CacheDetails P) :=
  (version env s m key).bind fun v => updated s v details

end version

variable {P : Type} {env : Tables} {s : Store P}

theorem version_congr {m n : AliasTable} (h : m.Same n) (key : Str) :
    version env s n key = version env s m key := by
  unfold version
  rw [resolveAlias_congr h]
  simp only [getProtocolHandler_congr h]

theorem update_congr {m n : AliasTable} (h : m.Same n) (key : Str) (details : Option (CacheDetails P)) :
    update env s n key details = update env s m key details := by
  rw [update, version_congr h, ← update]

theorem updated_stale {v : ProtocolHandler × Str × ℤ} {d : CacheDetails P}
    (h : d.timestamp < v.2.2) : updated s v (some d) = (s.readProject v.2.1).map (⟨·, v.2.2⟩) := by
  have hle : ¬ v.2.2 ≤ d.timestamp := by omega
  simp [updated, upToDate, Option.filter, hle]

theorem updated_kept {v : ProtocolHandler × Str × ℤ} {d : CacheDetails P}
    (h : v.2.2 ≤ d.timestamp) : updated s v (some d) = .ok (Store.keep v.1 d v.2.2) := by
  simp [updated, upToDate, Option.filter, h]

theorem update_cases {m : AliasTable} {key : Str} {details : Option (CacheDetails P)} {d : CacheDetails P}
    (h : update env s m key details = .ok d) :
    ∃ v, version env s m key = .ok v ∧
      ((s.readProject v.2.1 = .ok d.project ∧ d.timestamp = v.2.2 ∧ ∀ old ∈ details, old.timestamp < v.2.2) ∨
        ∃ old, details = some old ∧ v.2.2 ≤ old.timestamp ∧ d = Store.keep v.1 old v.2.2) := by
  rw [update] at h
  cases hv : version env s m key with
  | error e =>
    rw [hv] at h
    cases h
  | ok v =>
    rw [hv] at h
    refine ⟨v, rfl, ?_⟩
    have hread : (s.readProject v.2.1).map (⟨·, v.2.2⟩) = .ok d →
        s.readProject v.2.1 = .ok d.project ∧ d.timestamp = v.2.2 := by
      intro hd
      cases hr : s.readProject v.2.1 with
      | error e =>
        rw [hr] at hd
        cases hd
      | ok project =>
        rw [hr] at hd
        obtain rfl := Except.ok.inj hd
        exact ⟨rfl, rfl⟩
    cases details with
    | none =>
      obtain ⟨hproject, ht⟩ := hread h
      exact .inl ⟨hproject, ht, by simp⟩
    | some old =>
      by_cases hlt : old.timestamp < v.2.2
      · obtain ⟨hproject, ht⟩ := hread ((updated_stale hlt).symm.trans h)
        exact .inl ⟨hproject, ht, by simpa using hlt⟩
      · have hle := not_lt.mp hlt
        exact .inr ⟨old, rfl, hle, (Except.ok.inj ((updated_kept hle).symm.trans h)).symm⟩

theorem getProject_updated (handler : ProtocolHandler) (url : ParseResult)
    (details : Option (CacheDetails P)) :
    s.getProject env handler url details =
      (s.locate env handler url).bind fun v => updated s (handler, v) details := by
  unfold Store.getProject
  congr 1
  funext v
  cases details with
  | none => rfl
  | some d =>
    by_cases ht : d.timestamp < v.2
    · rw [updated_stale ht]
      simp only [if_pos ht]
    · rw [updated_kept (by simpa using ht)]
      simp only [if_neg ht]

theorem update_error {m : AliasTable} {key : Str} {details : Option (CacheDetails P)} {e : CacheError} :
    update env s m key details = .error e ↔
      version env s m key = .error e ∨ ∃ handler uri t, version env s m key = .ok (handler, uri, t) ∧
        upToDate details t = none ∧ s.readProject uri = .error e := by
  unfold update
  cases version env s m key with
  | error err => simp [Except.bind]
  | ok v =>
    obtain ⟨handler, uri, t⟩ := v
    simp only [Except.bind, reduceCtorEq, Except.ok.injEq, Prod.mk.injEq, false_or]
    constructor
    · intro h
      refine ⟨handler, uri, t, ⟨rfl, rfl, rfl⟩, ?_⟩
      unfold updated at h
      cases hd : upToDate details t with
      | some d =>
        rw [hd] at h
        cases h
      | none =>
        rw [hd] at h
        refine ⟨rfl, ?_⟩
        cases hr : s.readProject uri with
        | error err =>
          rw [hr] at h
          cases h
          rfl
        | ok project =>
          rw [hr] at h
          cases h
    · rintro ⟨_, _, _, ⟨rfl, rfl, rfl⟩, hd, hr⟩
      simp only [updated, hd, hr, Except.map]

theorem getProjectDetails_same (m : AliasTable) (key : Str) (details : Option (CacheDetails P)) :
    m.Same (getProjectDetails env s m key details).2 := resolveAlias_same env m key

theorem getProjectDetails_update (m : AliasTable) (key : Str) (details : Option (CacheDetails P)) :
    (getProjectDetails env s m key details).1 =
      (update env s m key details).map fun d => (d, updateState details d) := by
  simp only [getProjectDetails, update, version, getProtocolHandler_congr (resolveAlias_same env m key),
    getProject_updated, bind, Except.bind, pure, Except.pure]
  cases (resolveAlias env m key).1 with
  | error e => rfl
  | ok url =>
    simp only
    cases getProtocolHandler m url.scheme with
    | error e => rfl
    | ok handler =>
      simp only
      cases s.locate env handler url with
      | error e => rfl
      | ok v =>
        simp only
        cases updated s (handler, v) details <;> rfl

theorem getModifiedTime_version (m : CacheManager P) (key : Str) (h : m.held key = none) :
    (m.getModifiedTime env s key false).1 =
      (version env s m.aliases key).map fun v => withoutMicroseconds v.2.2 := by
  have hpeek : m.peek key none = none := h
  simp only [CacheManager.getModifiedTime, hpeek, version, Store.getModifiedTime,
    getProtocolHandler_congr (resolveAlias_same env m.aliases key), bind, Except.bind, pure, Except.pure]
  cases (resolveAlias env m.aliases key).1 with
  | error e => rfl
  | ok url =>
    simp only
    cases getProtocolHandler m.aliases url.scheme with
    | error e => rfl
    | ok handler =>
      simp only
      cases s.locate env handler url <;> rfl

theorem lookup_cached {m : CacheManager P} {key : Str} (h : m.held key ≠ none) :
    ∃ v t, m.lookup env s key false = (.ok v, t) ∧ t.lru.peek key ≠ none := by
  cases hl : m.lru.peek key with
  | some d => exact ⟨_, m, CacheManager.lookup_lru hl, by simp [hl]⟩
  | none =>
    cases hs : m.static.get? key with
    | some d => exact ⟨_, _, CacheManager.lookup_static hl hs, by simp [Lru.peek_setItem_self]⟩
    | none => exact absurd (Option.or_eq_none_iff.mpr ⟨hl, hs⟩) h

theorem updateEntry_update (env : Tables) (s : Store P) (m : CacheManager P) (key : Str) :
    (∃ e t, update env s m.aliases key (m.held key) = .error e ∧ m.updateEntry env s key = (.error e, t) ∧
      t.lru = m.lru ∧ t.notified = m.notified) ∨
    ∃ d t, update env s m.aliases key (m.held key) = .ok d ∧
      m.updateEntry env s key = (.ok (updateState (m.lru.peek key) d), t) ∧
      m.Updated key (getProjectDetails env s m.aliases key (m.held key)).2 d t := by
  have hdetails : (getProjectDetails env s m.aliases key (m.held key)).1 = _ :=
    getProjectDetails_update m.aliases key (m.held key)
  rcases CacheManager.updateEntry_cases env s m key with ⟨e, he, h⟩ | ⟨d, t, hd, h, ht⟩
  · rw [he] at hdetails
    cases hu : update env s m.aliases key (m.held key) with
    | error err =>
      rw [hu] at hdetails
      cases hdetails
      exact .inl ⟨_, _, rfl, h, rfl, rfl⟩
    | ok d =>
      rw [hu] at hdetails
      cases hdetails
  · rw [hd] at hdetails
    cases hu : update env s m.aliases key (m.held key) with
    | error err =>
      rw [hu] at hdetails
      cases hdetails
    | ok d' =>
      rw [hu] at hdetails
      obtain rfl := (Prod.mk.inj (Except.ok.inj hdetails)).1
      exact .inr ⟨d, t, rfl, h, ht⟩

theorem updateAndGet_update (env : Tables) (s : Store P) (m : CacheManager P) (key : Str) :
    (∃ e t, update env s m.aliases key (m.held key) = .error e ∧ m.updateAndGet env s key = (.error e, t) ∧
      t.lru = m.lru) ∨
    ∃ d t, update env s m.aliases key (m.held key) = .ok d ∧
      m.updateAndGet env s key = (.ok (d.project, updateState (m.lru.peek key) d), t) ∧
      t.lru = m.lru.setItem key d := by
  rcases updateEntry_update env s m key with ⟨e, t, he, h, hlru, -⟩ | ⟨d, t, hd, h, ht⟩
  · exact .inl ⟨e, t, he, by simp only [CacheManager.updateAndGet, h], hlru⟩
  · refine .inr ⟨d, t, hd, ?_, ht.lru⟩
    simp only [CacheManager.updateAndGet, h, ht.lru, Lru.getItem_setItem]
    rw [← ht.lru]

def served (env : Tables) (s : Store P) (m : CacheManager P) (key : Str) (refresh : Bool) : Option (CacheDetails P) :=
  if refresh = true ∨ m.held key = none then (update env s m.aliases key (m.held key)).toOption else m.held key

theorem lookup_served (env : Tables) (s : Store P) (m : CacheManager P) (key : Str) (refresh : Bool) :
    (∃ e t, m.lookup env s key refresh = (.error e, t) ∧ served env s m key refresh = none) ∨
    ∃ d u t, m.lookup env s key refresh = (.ok (d.project, u), t) ∧ served env s m key refresh = some d ∧
      t.lru.peek key = some d := by
  by_cases hr : refresh = true ∨ m.held key = none
  · have hrefreshed : refresh = false → m.held key = none := fun hc => hr.resolve_left (by simp [hc])
    rw [CacheManager.lookup_refreshed hrefreshed, served, if_pos hr]
    rcases updateAndGet_update env s m key with ⟨e, t, hu, ht, -⟩ | ⟨d, t, hu, ht, hlru⟩
    · exact .inl ⟨e, t, ht, by rw [hu]; rfl⟩
    · exact .inr ⟨d, _, t, ht, by rw [hu]; rfl, by rw [hlru, Lru.peek_setItem_self]⟩
  · rw [served, if_neg hr]
    obtain ⟨hrefresh, hheld⟩ := not_or.mp hr
    obtain rfl : refresh = false := by simpa using hrefresh
    right
    cases hl : m.lru.peek key with
    | some d => exact ⟨d, _, m, CacheManager.lookup_lru hl, by simp [CacheManager.held, hl], hl⟩
    | none =>
      cases hs : m.static.get? key with
      | none => exact absurd (Option.or_eq_none_iff.mpr ⟨hl, hs⟩) hheld
      | some d =>
        exact ⟨d, _, _, CacheManager.lookup_static hl hs, by simp [CacheManager.held, hl, hs],
          Lru.peek_setItem_self _ _ _⟩

theorem update_unchanged {m : AliasTable} {key : Str} {old d : CacheDetails P}
    (h : update env s m key (some old) = .ok d) (ht : d.timestamp = old.timestamp) : d.project = old.project := by
  obtain ⟨⟨handler, uri, t⟩, -, hnew⟩ := update_cases h
  rcases hnew with ⟨-, htime, hlt⟩ | ⟨old', hold, -, rfl⟩
  · exact absurd (htime.symm.trans ht) (hlt old rfl).ne'
  · obtain rfl := Option.some.inj hold
    cases handler <;> rfl

theorem updateEntry_unchanged {m : CacheManager P} {key : Str} {d : CacheDetails P}
    (h : update env s m.aliases key (m.held key) = .ok d) (hu : updateState (m.lru.peek key) d = .unchanged) :
    ∃ old, m.lru.peek key = some old ∧ d.timestamp = old.timestamp ∧ d.project = old.project := by
  obtain ⟨old, hold, ht⟩ := updateState_unchanged_iff.mp hu
  rw [CacheManager.held, hold, Option.some_or] at h
  exact ⟨old, hold, ht, update_unchanged h ht⟩

end QgsCache
