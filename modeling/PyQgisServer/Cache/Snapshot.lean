import PyQgisServer.Cache.Announced
import PyQgisServer.Library.Transition

namespace QgsCache

open Urllib

-- what the outside holds when it is asked; origin tells the content a project was read from
structure Snapshot {P C : Type} (origin : P → C) extends Store P where
  content : Str → C
  faithful : ∀ uri project valid, read uri = some (project, valid) → origin project = content uri

namespace Snapshot

variable {P C : Type} {origin : P → C}

theorem origin_of_read {s : Snapshot origin} {uri : Str} {project : P} (h : s.readProject uri = .ok project) :
    origin project = s.content uri := by
  unfold Store.readProject at h
  cases hr : s.read uri with
  | none =>
    rw [hr] at h
    cases h
  | some r =>
    obtain ⟨project', valid⟩ := r
    rw [hr] at h
    simp only at h
    split at h
    · cases h
    · obtain rfl := Except.ok.inj h
      exact s.faithful uri project' valid hr

-- a refresh pass preloads the static keys again and updates the keys of the LRU cache
inductive Action (origin : P → C) where
  | preload (s : Snapshot origin) (key : Str)
  | update (s : Snapshot origin) (key : Str)
  | lookup (s : Snapshot origin) (key : Str) (refresh : Bool)

def Action.store : Action origin → Snapshot origin
  | .preload s _ => s
  | .update s _ => s
  | .lookup s _ _ => s

def Action.key : Action origin → Str
  | .preload _ key => key
  | .update _ key => key
  | .lookup _ key _ => key

variable (env : Tables)

def step (m : CacheManager P) : Action origin → CacheManager P
  | .preload s key => (m.updateStaticEntry env s.toStore key).2
  | .update s key => (m.updateEntry env s.toStore key).2
  | .lookup s key refresh => (m.lookup env s.toStore key refresh).2

def start (aliases : AliasTable) (n : ℕ) : CacheManager P := ⟨aliases, .init (n + 1) n.succ_pos, .empty, []⟩

end Snapshot

namespace CacheManager

variable {P : Type} {env : Tables} {s : Store P} {m t : CacheManager P} {key : Str} {d : CacheDetails P}

def Entry (m : CacheManager P) (key : Str) (d : CacheDetails P) : Prop :=
  m.lru.peek key = some d ∨ m.static.get? key = some d

theorem entry_of_held (h : m.held key = some d) : m.Entry key d := by
  rw [held, Option.or_eq_some_iff] at h
  exact h.imp id And.right

-- what an action for the key does to the two caches, when details is the entry it compares with the store
inductive Effect (env : Tables) (s : Store P) (m : CacheManager P) (key : Str) (details : Option (CacheDetails P))
    (t : CacheManager P) : Prop
  | unchanged (hl : t.lru = m.lru) (hs : t.static = m.static)
  | copied (d : CacheDetails P) (hnone : m.lru.peek key = none) (hd : m.static.get? key = some d)
      (hl : t.lru = m.lru.setItem key d) (hs : t.static = m.static)
  | checked (d : CacheDetails P) (hd : update env s m.aliases key details = .ok d)
      (hdetails : details = m.static.get? key) (hl : t.lru = m.lru) (hs : t.static = m.static.set key d)
  | updated (d : CacheDetails P) (hd : update env s m.aliases key details = .ok d)
      (hdetails : details = m.held key) (hl : t.lru = m.lru.setItem key d) (hs : t.static = m.static)
      (hsame : m.lru.peek key = none → ∀ e ∈ m.static.get? key, d.timestamp = e.timestamp)
  | synced (d : CacheDetails P) (hd : update env s m.aliases key details = .ok d)
      (hdetails : details = m.held key) (hl : t.lru = m.lru.setItem key d) (hs : t.static = m.static.set key d)

theorem Effect.entry {details : Option (CacheDetails P)} (h : Effect env s m key details t) {k : Str}
    {e : CacheDetails P} (he : t.Entry k e) :
    m.Entry k e ∨ k = key ∧ (∀ d ∈ details, m.Entry key d) ∧ update env s m.aliases key details = .ok e := by
  have hlru : ∀ d, t.lru = m.lru.setItem key d → t.lru.peek k = some e → m.lru.peek k = some e ∨ k = key ∧ e = d := by
    intro d hl he
    rw [hl] at he
    by_cases hk : k = key
    · subst hk
      rw [Lru.peek_setItem_self] at he
      exact .inr ⟨rfl, (Option.some.inj he).symm⟩
    · exact .inl (Lru.peek_of_setItem hk he)
  have hstatic : ∀ d, t.static = m.static.set key d → t.static.get? k = some e →
      m.static.get? k = some e ∨ k = key ∧ e = d := by
    intro d hs he
    rw [hs, PyDict.get?_set] at he
    split at he
    · rename_i hk
      exact .inr ⟨hk, (Option.some.inj he).symm⟩
    · exact .inl he
  cases h with
  | unchanged hl hs => exact .inl (he.imp (hl ▸ ·) (hs ▸ ·))
  | copied d hnone hd hl hs =>
    rcases he with he | he
    · rcases hlru d hl he with he | ⟨rfl, rfl⟩
      · exact .inl (.inl he)
      · exact .inl (.inr hd)
    · exact .inl (.inr (hs ▸ he))
  | checked d hd hdetails hl hs =>
    rcases he with he | he
    · exact .inl (.inl (hl ▸ he))
    · rcases hstatic d hs he with he | ⟨rfl, rfl⟩
      · exact .inl (.inr he)
      · exact .inr ⟨rfl, fun d hd => .inr (hdetails ▸ hd), hd⟩
  | updated d hd hdetails hl hs hsame =>
    rcases he with he | he
    · rcases hlru d hl he with he | ⟨rfl, rfl⟩
      · exact .inl (.inl he)
      · exact .inr ⟨rfl, fun d hd => entry_of_held (hdetails ▸ hd), hd⟩
    · exact .inl (.inr (hs ▸ he))
  | synced d hd hdetails hl hs =>
    have hnew : ∀ d ∈ details, m.Entry key d := fun d hd => entry_of_held (hdetails ▸ hd)
    rcases he with he | he
    · rcases hlru d hl he with he | ⟨rfl, rfl⟩
      · exact .inl (.inl he)
      · exact .inr ⟨rfl, hnew, hd⟩
    · rcases hstatic d hs he with he | ⟨rfl, rfl⟩
      · exact .inl (.inr he)
      · exact .inr ⟨rfl, hnew, hd⟩

theorem getProjectDetails_ok {aliases : AliasTable} {details : Option (CacheDetails P)} {u : UpdateState}
    (h : (getProjectDetails env s aliases key details).1 = .ok (d, u)) :
    update env s aliases key details = .ok d ∧ u = updateState details d := by
  refine ⟨?_, getProjectDetails_state h⟩
  rw [getProjectDetails_update] at h
  cases hu : update env s aliases key details with
  | error e =>
    rw [hu] at h
    cases h
  | ok d' =>
    rw [hu] at h
    cases h
    rfl

theorem updateStaticEntry_effect (env : Tables) (s : Store P) (m : CacheManager P) (key : Str) :
    Effect env s m key (m.static.get? key) (m.updateStaticEntry env s key).2 ∧
      m.aliases.Same (m.updateStaticEntry env s key).2.aliases := by
  have hsame : m.aliases.Same (getProjectDetails env s m.aliases key (m.static.get? key)).2 :=
    getProjectDetails_same _ _ _
  cases hr : (getProjectDetails env s m.aliases key (m.static.get? key)).1 with
  | error e =>
    simp only [updateStaticEntry, hr]
    exact ⟨.unchanged rfl rfl, hsame⟩
  | ok r =>
    obtain ⟨d, u⟩ := r
    simp only [updateStaticEntry, hr]
    exact ⟨.checked d (getProjectDetails_ok hr).1 rfl rfl rfl, hsame⟩

theorem updateEntry_static (hl : m.lru.peek key = none) {u : UpdateState}
    (hr : (getProjectDetails env s m.aliases key (m.held key)).1 = .ok (d, u)) :
    (m.updateEntry env s key).2.static =
      if m.held key ≠ none ∧ u = .updated then m.static.set key d else m.static := by
  cases hs : m.static.get? key with
  | none =>
    have hheld : m.held key = none := by simp [held, hl, hs]
    rw [hheld] at hr ⊢
    simp [updateEntry, hl, hs, hr]
  | some old =>
    have hheld : m.held key = some old := by simp [held, hl, hs]
    rw [hheld] at hr ⊢
    by_cases hu : u = .updated
    · simp [updateEntry, hl, hs, hr, hu, setStatic]
    · simp [updateEntry, hl, hs, hr, hu]

theorem updateState_same {old : CacheDetails P} (h : updateState (some old) d ≠ .updated) :
    d.timestamp = old.timestamp := by
  simpa [updateState] using h

theorem updateEntry_effect (env : Tables) (s : Store P) (m : CacheManager P) (key : Str) :
    Effect env s m key (m.held key) (m.updateEntry env s key).2 ∧
      m.aliases.Same (m.updateEntry env s key).2.aliases := by
  have hsame : m.aliases.Same (getProjectDetails env s m.aliases key (m.held key)).2 := getProjectDetails_same _ _ _
  rcases updateEntry_cases env s m key with ⟨e, -, hu⟩ | ⟨d, t, hr, hu, ht⟩
  · rw [hu]
    exact ⟨.unchanged rfl rfl, hsame⟩
  · have hd := (getProjectDetails_ok hr).1
    have hstatic := fun hl => updateEntry_static hl hr
    rw [hu] at hstatic ⊢
    refine ⟨?_, ht.aliases ▸ hsame⟩
    by_cases hl : m.lru.peek key = none
    · have ht' := hstatic hl
      split at ht'
      · exact .synced d hd rfl ht.lru ht'
      · rename_i hnot
        refine .updated d hd rfl ht.lru ht' fun _ e he => ?_
        have hheld : m.held key = some e := by simp [held, hl, Option.mem_def.mp he]
        rw [hheld] at hnot
        exact updateState_same fun hc => hnot ⟨by simp, hc⟩
    · exact .updated d hd rfl ht.lru (ht.static hl) fun hc => absurd hc hl

theorem lookup_effect (env : Tables) (s : Store P) (m : CacheManager P) (key : Str) (refresh : Bool) :
    Effect env s m key (if refresh then m.held key else none) (m.lookup env s key refresh).2 ∧
      m.aliases.Same (m.lookup env s key refresh).2.aliases := by
  have hupdate := updateEntry_effect env s m key
  rw [← Announced.updateAndGet_updateEntry] at hupdate
  cases refresh with
  | true => exact hupdate
  | false =>
    cases hl : m.lru.peek key with
    | some d =>
      rw [lookup_lru hl]
      exact ⟨.unchanged rfl rfl, .refl _⟩
    | none =>
      cases hs : m.static.get? key with
      | some d =>
        rw [lookup_static hl hs]
        exact ⟨.copied d hl hs rfl rfl, .refl _⟩
      | none =>
        have hheld : m.held key = none := Option.or_eq_none_iff.mpr ⟨hl, hs⟩
        rw [lookup_refreshed fun _ => hheld]
        rw [hheld] at hupdate
        exact hupdate

end CacheManager

namespace Snapshot

variable {P C : Type} {origin : P → C}

def compared (m : CacheManager P) : Action origin → Option (CacheDetails P)
  | .preload _ key => m.static.get? key
  | .update _ key => m.held key
  | .lookup _ key refresh => if refresh then m.held key else none

theorem step_effect (env : Tables) (m : CacheManager P) (a : Action origin) :
    CacheManager.Effect env a.store.toStore m a.key (compared m a) (step env m a) ∧
      m.aliases.Same (step env m a).aliases := by
  cases a with
  | preload s key => exact CacheManager.updateStaticEntry_effect env s.toStore m key
  | update s key => exact CacheManager.updateEntry_effect env s.toStore m key
  | lookup s key refresh => exact CacheManager.lookup_effect env s.toStore m key refresh

-- every name has one content, the modified time itself
def dated (t : ℤ) : Snapshot (id : ℤ → ℤ) where
  strictCheck := true
  insecure := false
  isFile := fun _ => some true
  mtime := fun _ => t
  database := ⟨fun _ _ => .row (some []), fun _ => some t⟩
  storageMetadata := fun _ => some t
  read := fun _ => some (t, true)
  lastModified := fun _ => some t
  fileName := fun _ => []
  content := fun _ => t
  faithful := by simp

theorem locate_dated {env : Tables} {t : ℤ} {h : ProtocolHandler} {url : ParseResult} {v : Str × ℤ}
    (hv : (dated t).locate env h url = .ok v) : v.2 = t := by
  cases h with
  | file =>
    rw [Store.locate] at hv
    cases ho : (dated t).openFile url with
    | error e =>
      rw [ho] at hv
      cases hv
    | ok p =>
      rw [ho] at hv
      cases hv
      rfl
  | qgisStorage =>
    cases hv
    rfl
  | postgres =>
    simp only [Store.locate, checkUnsafeUrl] at hv
    split at hv
    · cases hv
    · split at hv
      · cases hv
      · split at hv
        · cases hv
        · cases hv
          rfl

theorem version_dated {env : Tables} {t : ℤ} {m : AliasTable} {key : Str} {v : ProtocolHandler × Str × ℤ}
    (hv : version env (dated t).toStore m key = .ok v) : v.2.2 = t := by
  simp only [version, bind, Except.bind, pure, Except.pure] at hv
  cases hurl : (resolveAlias env m key).1 with
  | error e =>
    rw [hurl] at hv
    cases hv
  | ok url =>
    rw [hurl] at hv
    simp only at hv
    cases hh : getProtocolHandler m url.scheme with
    | error e =>
      rw [hh] at hv
      cases hv
    | ok handler =>
      rw [hh] at hv
      simp only at hv
      cases hl : (dated t).locate env handler url with
      | error e =>
        rw [hl] at hv
        cases hv
      | ok w =>
        rw [hl] at hv
        cases hv
        exact locate_dated hl

end Snapshot

end QgsCache
