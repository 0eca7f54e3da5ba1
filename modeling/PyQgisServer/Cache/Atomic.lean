import PyQgisServer.Cache.Handlers

namespace QgsCache

open Urllib

namespace CacheManager

variable {P E : Type}

structure Kept (m : CacheManager P) (key : Str) (t : CacheManager P) : Prop where
  capacity : t.lru.capacity = m.lru.capacity
  bounded : t.lru.len ≤ t.lru.capacity
  staticKeys : t.static.keys = m.static.keys
  static : ∀ k, k ≠ key → t.static.get? k = m.static.get? k
  lru : ∀ k d, k ≠ key → t.lru.peek k = some d → m.lru.peek k = some d
  evicted : ∃ gone, m.lru.tableKeys.filter (· ≠ key) = gone ++ t.lru.tableKeys.filter (· ≠ key) ∧
    (gone ≠ [] → m.lru.len = m.lru.capacity ∧ key ∉ m.lru.tableKeys)

def Found (m : CacheManager P) (key : Str) (p : P) (t : CacheManager P) : Prop :=
  (∃ d, t.lru.peek key = some d ∧ d.project = p) ∧ m.Kept key t

theorem kept_self (m : CacheManager P) (key : Str) : m.Kept key m where
  capacity := rfl
  bounded := m.lru.bounded
  staticKeys := rfl
  static _ _ := rfl
  lru _ _ _ h := h
  evicted := ⟨[], rfl, absurd rfl⟩

structure Sets (m : CacheManager P) (key : Str) (d : CacheDetails P) (t : CacheManager P) : Prop where
  lru : t.lru = m.lru.setItem key d
  static : t.static = m.static ∨ key ∈ m.static.keys ∧ t.static = m.static.set key d

theorem evicted_setItem (c : Lru Str (CacheDetails P)) (key : Str) (d : CacheDetails P) :
    ∃ gone, c.tableKeys.filter (· ≠ key) = gone ++ (c.setItem key d).tableKeys.filter (· ≠ key) ∧
      (gone ≠ [] → c.len = c.capacity ∧ key ∉ c.tableKeys) := by
  have hpop := popitems_suffix c.capacity (c.tableKeys.filter (· ≠ key))
  have hkeys : (c.setItem key d).tableKeys.filter (· ≠ key) =
      popitems c.capacity (c.tableKeys.filter (· ≠ key)) := by
    rw [Lru.tableKeys_setItem, List.filter_append, List.filter_eq_self.mpr]
    · simp
    · intro k hk
      exact (List.mem_filter.mp (hpop.subset hk)).2
  obtain ⟨gone, hgone⟩ := hpop
  refine ⟨gone, by rw [hkeys, hgone], fun hne => ?_⟩
  have hfull : ¬ (c.tableKeys.filter (· ≠ key)).length < c.capacity := by
    intro hlt
    rw [popitems_eq_self hlt, List.append_left_eq_self] at hgone
    exact hne hgone
  have hkey : key ∉ c.tableKeys := fun hk => hfull (Lru.length_filter_lt hk)
  have hfilter : (c.tableKeys.filter (· ≠ key)).length ≤ c.tableKeys.length := List.length_filter_le _ _
  have hlen : c.tableKeys.length = c.len := List.length_map _
  exact ⟨Nat.le_antisymm c.bounded (by omega), hkey⟩

theorem Sets.kept {m t : CacheManager P} {key : Str} {d : CacheDetails P} (h : m.Sets key d t) : m.Kept key t where
  capacity := by rw [h.lru]; rfl
  bounded := t.lru.bounded
  staticKeys := by
    rcases h.static with hs | ⟨hk, hs⟩
    · rw [hs]
    · rw [hs, PyDict.keys_set d hk]
  static k hne := by
    rcases h.static with hs | ⟨-, hs⟩
    · rw [hs]
    · rw [hs, PyDict.get?_set, if_neg hne]
  lru k e hne he := by
    rw [h.lru] at he
    exact Lru.peek_of_setItem hne he
  evicted := by
    rw [h.lru]
    exact evicted_setItem m.lru key d

section update

variable (fetch : GetDetails P E) (m : CacheManager P) (key : Str)

theorem updateEntryWith_cases :
    (∃ e, (fetch m.aliases key (m.held key)).1 = .error e ∧
      m.updateEntryWith fetch key = (.error e, { m with aliases := (fetch m.aliases key (m.held key)).2 })) ∨
    ∃ d u v t, (fetch m.aliases key (m.held key)).1 = .ok (d, u) ∧ m.updateEntryWith fetch key = (.ok v, t) ∧
      t.aliases = (fetch m.aliases key (m.held key)).2 ∧ m.Sets key d t := by
  cases hl : m.lru.peek key with
  | some old =>
    have hheld : m.held key = some old := by simp [held, hl]
    rw [hheld]
    simp only [updateEntryWith, hl]
    cases hr : (fetch m.aliases key (some old)).1 with
    | error e => exact .inl ⟨e, rfl, rfl⟩
    | ok r => exact .inr ⟨r.1, r.2, r.2, _, rfl, rfl, by simp, by simp, .inl (by simp)⟩
  | none =>
    cases hs : m.static.get? key with
    | some old =>
      have hheld : m.held key = some old := by simp [held, hl, hs]
      have hk : key ∈ m.static.keys := PyDict.mem_keys.mpr ⟨old, hs⟩
      rw [hheld]
      simp only [updateEntryWith, hl, hs]
      cases hr : (fetch m.aliases key (some old)).1 with
      | error e => exact .inl ⟨e, rfl, rfl⟩
      | ok r =>
        refine .inr ⟨r.1, r.2, .inserted, _, rfl, rfl, ?_⟩
        -- an UPDATED entry is written to the static cache first
        by_cases hu : r.2 = .updated
        · simp only [hu, if_true]
          exact ⟨by simp [setStatic], by simp [setStatic], .inr ⟨hk, by simp [setStatic]⟩⟩
        · simp only [hu, if_false]
          exact ⟨by simp, by simp, .inl (by simp)⟩
    | none =>
      have hheld : m.held key = none := by simp [held, hl, hs]
      rw [hheld]
      simp only [updateEntryWith, hl, hs]
      cases hr : (fetch m.aliases key none).1 with
      | error e => exact .inl ⟨e, rfl, rfl⟩
      | ok r => exact .inr ⟨r.1, r.2, r.2, _, rfl, rfl, by simp, by simp, .inl (by simp)⟩

variable (raise : CacheError → E)

theorem updateAndGetWith_cases :
    (∃ e t, (fetch m.aliases key (m.held key)).1 = .error e ∧
      m.updateAndGetWith fetch raise key = (.error e, t) ∧ t.lru = m.lru ∧ t.static = m.static) ∨
    ∃ p u t, m.updateAndGetWith fetch raise key = (.ok (p, u), t) ∧ m.Found key p t := by
  rcases updateEntryWith_cases fetch m key with ⟨e, he, hu⟩ | ⟨d, u, v, t, -, hu, -, ht⟩
  · refine .inl ⟨e, { m with aliases := (fetch m.aliases key (m.held key)).2 }, he, ?_, rfl, rfl⟩
    rw [updateAndGetWith, hu]
  · refine .inr ⟨d.project, v, t, ?_, ⟨d, ?_, rfl⟩, ht.kept⟩
    · rw [updateAndGetWith, hu]
      simp only [ht.lru, Lru.getItem_setItem]
      rw [← ht.lru]
    · rw [ht.lru, Lru.peek_setItem_self]

end update

theorem lookup_atomic (raise : CacheError → E) (env : Tables) (services : Services P E) (m : CacheManager P)
    (key : Str) (refresh : Bool) :
    (∃ e t, m.lookupWith (services.details raise env) raise key refresh = (.error e, t) ∧
      (services.details raise env m.aliases key (m.held key)).1 = .error e ∧
      t.lru = m.lru ∧ t.static = m.static) ∨
    ∃ p u t, m.lookupWith (services.details raise env) raise key refresh = (.ok (p, u), t) ∧ m.Found key p t := by
  have hupdate := updateAndGetWith_cases (services.details raise env) m key raise
  cases refresh with
  | true =>
    rcases hupdate with ⟨e, t, he, hu, hl, hs⟩ | hfound
    · exact .inl ⟨e, t, hu, he, hl, hs⟩
    · exact .inr hfound
  | false =>
    cases hl : m.lru.peek key with
    | some d =>
      refine .inr ⟨d.project, .unchanged, m, ?_, ⟨d, hl, rfl⟩, m.kept_self key⟩
      simp [lookupWith, peek, hl]
    | none =>
      cases hs : m.static.get? key with
      | some d =>
        refine .inr ⟨d.project, .updated, m.setLru key d, ?_, ⟨d, Lru.peek_setItem_self m.lru key d, rfl⟩, ?_⟩
        · simp [lookupWith, peek, hl, hs]
        · exact Sets.kept ⟨rfl, .inl rfl⟩
      | none =>
        have hlookup : m.lookupWith (services.details raise env) raise key false =
            m.updateAndGetWith (services.details raise env) raise key := by
          simp [lookupWith, peek, hl, hs]
        rw [hlookup]
        rcases hupdate with ⟨e, t, he, hu, hl, hs⟩ | hfound
        · exact .inl ⟨e, t, hu, he, hl, hs⟩
        · exact .inr hfound

end CacheManager

end QgsCache
