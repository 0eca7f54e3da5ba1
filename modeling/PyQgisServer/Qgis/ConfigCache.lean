import PyQgisServer.Cache.Announced
import PyQgisServer.Qgis.RequestHandler

namespace Qgis

open QgsCache Urllib

namespace ConfigCache

inductive Event (P : Type) where
  | removed (path : Str)
  | handled (key path : Str) (project : P)
  deriving DecidableEq

variable {P : Type}

def Event.about (path : Str) : Event P → Option (Option (Str × P))
  | .removed q => if q = path then some none else none
  | .handled key q project => if q = path then some (some (key, project)) else none

-- the last request handled for the path, unless its configuration has been removed since; the last
-- event of the log comes first
def lastHandled (path : Str) (log : List (Event P)) : Option (Str × P) :=
  (log.findSome? (Event.about path)).join

def AllCoherent : List (Event P) → Prop
  | [] => True
  | .handled _ path project :: log => (∀ x ∈ lastHandled path log, x.2 = project) ∧ AllCoherent log
  | .removed _ :: log => AllCoherent log

def decideCoherent [DecidableEq P] : (log : List (Event P)) → Decidable (AllCoherent log)
  | [] => inferInstanceAs (Decidable True)
  | .handled _ path project :: log =>
    have := decideCoherent log
    inferInstanceAs (Decidable ((∀ x ∈ lastHandled path log, x.2 = project) ∧ AllCoherent log))
  | .removed _ :: log => decideCoherent log

instance [DecidableEq P] (log : List (Event P)) : Decidable (AllCoherent log) := decideCoherent log

section log

variable {path q key k : Str} {project other : P} {log : List (Event P)}

theorem lastHandled_removed : lastHandled path (.removed path :: log) = none := by
  simp [lastHandled, Event.about]

theorem lastHandled_handled : lastHandled path (.handled key path project :: log) = some (key, project) := by
  simp [lastHandled, Event.about]

theorem lastHandled_of_removed (h : lastHandled path (.removed q :: log) = some (key, project)) :
    lastHandled path log = some (key, project) := by
  by_cases hq : q = path
  · subst hq
    rw [lastHandled_removed] at h
    cases h
  · simpa [lastHandled, Event.about, hq] using h

theorem lastHandled_of_handled (hk : key ≠ k)
    (h : lastHandled path (.handled k q other :: log) = some (key, project)) :
    lastHandled path log = some (key, project) := by
  by_cases hq : q = path
  · subst hq
    rw [lastHandled_handled] at h
    cases h
    exact absurd rfl hk
  · simpa [lastHandled, Event.about, hq] using h

end log

structure Worker (P : Type) where
  handlerClass : HandlerClass P
  log : List (Event P)

section requested

variable (env : Tables) (s : Store P)

-- what handle_qgis_request does before it looks at the etag: the project, none on an exception
def requested (c : HandlerClass P) (key : Str) : Option P × HandlerClass P :=
  match Server.cacheLookup env s c key with
  | (.error _, c) => (none, c)
  | (.ok (project, state), c) =>
    let c := if state = .unchanged then c
      else { c with removed := c.removed ++ [s.fileName project] }
    match Server.getModifiedTime env s c key true with
    | (.error _, c) => (none, c)
    | (.ok _, c) => (some project, c)

end requested

-- refresh is for a key of the LRU cache, as a refresh pass does it
inductive Action (P : Type) where
  | preload (s : Store P) (key : Str)
  | refresh (s : Store P) (key : Str)
  | inspect (s : Store P) (key : Str)
  | request (s : Store P) (key : Str) (notModified : Bool)

def removals (c t : HandlerClass P) : List (Event P) :=
  ((t.removed.drop c.removed.length).map .removed).reverse

section step

variable (env : Tables) (fileName : P → Str)

def named (s : Store P) : Store P := { s with fileName := fileName }

def handled (key : Str) (notModified : Bool) : Option P → List (Event P)
  | some project => if notModified then [] else [.handled key (fileName project) project]
  | none => []

def step (w : Worker P) : Action P → Worker P
  | .preload s key =>
    { w with handlerClass := { w.handlerClass with
      cacheService := (w.handlerClass.cacheService.updateStaticEntry env (named fileName s) key).2 } }
  | .refresh s key =>
    if key ∈ w.handlerClass.cacheService.lru.tableKeys then
      let c := (w.handlerClass.refreshEntry env (named fileName s) key).2
      ⟨c, removals w.handlerClass c ++ w.log⟩
    else w
  | .inspect s key =>
    { w with handlerClass := { w.handlerClass with
      cacheService := (w.handlerClass.cacheService.lookup env (named fileName s) key false).2 } }
  | .request s key notModified =>
    let r := requested env (named fileName s) w.handlerClass key
    ⟨r.2, handled fileName key notModified r.1 ++ removals w.handlerClass r.2 ++ w.log⟩

def run : Worker P → List (Action P) → Worker P := List.foldl (step env fileName)

def loaded (s : Store P) (m : CacheManager P) (key : Str) : Option (CacheDetails P) :=
  match m.lru.peek key with
  | some _ => none
  | none => (m.static.get? key).or (update env s m.aliases key none).toOption

def keeps (s : Store P) (c : HandlerClass P) (key : Str) (d : CacheDetails P) : Bool :=
  0 < c.cacheCheckInterval ||
    match update env s c.cacheService.aliases key (some d) with
    | .ok e => e.timestamp == d.timestamp
    | .error _ => false

-- an inspection does not load another project than the one last handled for the key, and a request
-- whose entry is kept, and which is not answered by the etag, is for the key last handled for its file
def Meets (w : Worker P) : Action P → Prop
  | .inspect s key => ∀ d ∈ loaded env (named fileName s) w.handlerClass.cacheService key,
    ∀ x ∈ lastHandled (fileName d.project) w.log, x.1 = key → x.2 = d.project
  | .request s key notModified => notModified = false →
    ∀ d ∈ w.handlerClass.cacheService.lru.peek key, keeps env (named fileName s) w.handlerClass key d = true →
      ∀ x ∈ lastHandled (fileName d.project) w.log, x.1 = key
  | _ => True

def AllMeet : Worker P → List (Action P) → Prop
  | _, [] => True
  | w, a :: as => Meets env fileName w a ∧ AllMeet (step env fileName w a) as

def decideMeets [DecidableEq P] (w : Worker P) : (a : Action P) → Decidable (Meets env fileName w a)
  | .preload _ _ => inferInstanceAs (Decidable True)
  | .refresh _ _ => inferInstanceAs (Decidable True)
  | .inspect s key => inferInstanceAs (Decidable
      (∀ d ∈ loaded env (named fileName s) w.handlerClass.cacheService key,
        ∀ x ∈ lastHandled (fileName d.project) w.log, x.1 = key → x.2 = d.project))
  | .request s key notModified => inferInstanceAs (Decidable (notModified = false →
      ∀ d ∈ w.handlerClass.cacheService.lru.peek key, keeps env (named fileName s) w.handlerClass key d = true →
        ∀ x ∈ lastHandled (fileName d.project) w.log, x.1 = key))

def decideAllMeet [DecidableEq P] : (w : Worker P) → (as : List (Action P)) → Decidable (AllMeet env fileName w as)
  | _, [] => inferInstanceAs (Decidable True)
  | w, a :: as =>
    have := decideMeets env fileName w a
    have := decideAllMeet (step env fileName w a) as
    inferInstanceAs (Decidable (Meets env fileName w a ∧ AllMeet env fileName (step env fileName w a) as))

instance [DecidableEq P] (w : Worker P) (as : List (Action P)) : Decidable (AllMeet env fileName w as) :=
  decideAllMeet env fileName w as

end step

def start (aliases : AliasTable) (n : ℕ) (interval : ℤ) : Worker P :=
  ⟨⟨⟨aliases, .init (n + 1) n.succ_pos, .empty, []⟩, interval, 0, []⟩, []⟩

structure Sets (c : Lru Str (CacheDetails P)) (key : Str) (d : CacheDetails P) (t : Lru Str (CacheDetails P)) :
    Prop where
  self : t.peek key = some d
  other : ∀ l e, l ≠ key → t.peek l = some e → c.peek l = some e

theorem sets_setItem (c : Lru Str (CacheDetails P)) (key : Str) (d : CacheDetails P) :
    Sets c key d (c.setItem key d) :=
  ⟨Lru.peek_setItem_self c key d, fun _ _ => Lru.peek_of_setItem⟩

theorem sets_found {c : Lru Str (CacheDetails P)} {key : Str} {d : CacheDetails P} (h : c.peek key = some d) :
    Sets c key d c :=
  ⟨h, fun _ _ _ => id⟩

section requested

variable {env : Tables} {s : Store P} {c : HandlerClass P} {key : Str}

theorem requested_error {e : CacheError} {t : CacheManager P}
    (h : c.cacheService.lookup env s key (c.cacheCheckInterval ≤ 0) = (.error e, t)) :
    requested env s c key = (none, { c with cacheService := t }) := by
  simp only [requested, Server.cacheLookup, h]

theorem requested_ok {d : CacheDetails P} {u : UpdateState} {t : CacheManager P}
    (h : c.cacheService.lookup env s key (c.cacheCheckInterval ≤ 0) = (.ok (d.project, u), t))
    (hd : t.lru.peek key = some d) :
    requested env s c key = (some d.project, { c with
      cacheService := t
      removed := if u = .unchanged then c.removed else c.removed ++ [s.fileName d.project] }) := by
  have hpeek : t.peek key none = some d := by simp only [CacheManager.peek, hd, Option.some_or]
  simp only [requested, Server.cacheLookup, h, Server.getModifiedTime]
  by_cases hu : u = .unchanged
  · simp [hu, CacheManager.getModifiedTime, hpeek]
  · simp [hu, CacheManager.getModifiedTime, hpeek]

inductive Requested (env : Tables) (s : Store P) (c : HandlerClass P) (key : Str) :
    Option P × HandlerClass P → Prop
  | failed (t) (hlru : t.cacheService.lru = c.cacheService.lru) (hremoved : t.removed = c.removed) :
    Requested env s c key (none, t)
  | kept (old d t) (hold : c.cacheService.lru.peek key = some old) (hkeeps : keeps env s c key old = true)
    (hproject : d.project = old.project) (hremoved : t.removed = c.removed)
    (hsets : Sets c.cacheService.lru key d t.cacheService.lru) : Requested env s c key (some d.project, t)
  | changed (d t) (hremoved : t.removed = c.removed ++ [s.fileName d.project])
    (hsets : Sets c.cacheService.lru key d t.cacheService.lru) : Requested env s c key (some d.project, t)

theorem requested_update
    (h : c.cacheService.lookup env s key (c.cacheCheckInterval ≤ 0) = c.cacheService.updateAndGet env s key) :
    Requested env s c key (requested env s c key) := by
  rcases updateAndGet_update env s c.cacheService key with ⟨e, t, -, ht, hlru⟩ | ⟨d, t, hd, ht, hlru⟩
  · rw [requested_error (h.trans ht)]
    exact .failed _ hlru rfl
  · have hsets : Sets c.cacheService.lru key d t.lru := hlru ▸ sets_setItem _ key d
    rw [requested_ok (h.trans ht) hsets.self]
    by_cases hstate : updateState (c.cacheService.lru.peek key) d = .unchanged
    · obtain ⟨old, hold, htime, hproject⟩ := updateEntry_unchanged hd hstate
      have hheld : c.cacheService.held key = some old := by simp [CacheManager.held, hold]
      rw [hheld] at hd
      refine .kept old d _ hold ?_ hproject (if_pos hstate) hsets
      simp [keeps, hd, htime]
    · exact .changed d _ (if_neg hstate) hsets

theorem requested_cases (env : Tables) (s : Store P) (c : HandlerClass P) (key : Str) :
    Requested env s c key (requested env s c key) := by
  by_cases hinterval : c.cacheCheckInterval ≤ 0
  · apply requested_update
    simp only [hinterval, decide_true, CacheManager.lookup, if_true]
  · cases hl : c.cacheService.lru.peek key with
    | some d =>
      have h : c.cacheService.lookup env s key (c.cacheCheckInterval ≤ 0) =
          (.ok (d.project, .unchanged), c.cacheService) := by
        rw [decide_eq_false hinterval]
        exact CacheManager.lookup_lru hl
      rw [requested_ok h hl]
      refine .kept d d _ hl ?_ rfl (by simp) (sets_found hl)
      simp only [keeps, Int.not_le.mp hinterval, decide_true, Bool.true_or]
    | none =>
      cases hs : c.cacheService.static.get? key with
      | some d =>
        have h : c.cacheService.lookup env s key (c.cacheCheckInterval ≤ 0) =
            (.ok (d.project, .updated), c.cacheService.setLru key d) := by
          rw [decide_eq_false hinterval]
          exact CacheManager.lookup_static hl hs
        have hsets := sets_setItem c.cacheService.lru key d
        rw [requested_ok h hsets.self]
        exact .changed d _ (by simp) hsets
      | none =>
        apply requested_update
        exact CacheManager.lookup_refreshed fun _ => Option.or_eq_none_iff.mpr ⟨hl, hs⟩

end requested

-- the entry of a key has the project that was last handled for the key, unless the configuration has
-- been removed since
def Agrees (fileName : P → Str) (c : Lru Str (CacheDetails P)) (log : List (Event P)) : Prop :=
  ∀ key d, c.peek key = some d →
    ∀ project, lastHandled (fileName d.project) log = some (key, project) → project = d.project

def Safe (fileName : P → Str) (w : Worker P) : Prop :=
  Agrees fileName w.handlerClass.cacheService.lru w.log ∧ AllCoherent w.log

section agrees

variable {fileName : P → Str} {c t : Lru Str (CacheDetails P)} {log : List (Event P)} {key : Str}
  {d : CacheDetails P}

theorem Agrees.sets (h : Agrees fileName c log) (hsets : Sets c key d t)
    (hkey : ∀ project, lastHandled (fileName d.project) log = some (key, project) → project = d.project) :
    Agrees fileName t log := by
  intro l e he
  by_cases hl : l = key
  · subst hl
    obtain rfl := Option.some.inj (hsets.self.symm.trans he)
    exact hkey
  · exact h l e (hsets.other l e hl he)

theorem Agrees.removed (path : Str) (h : Agrees fileName c log) : Agrees fileName c (.removed path :: log) := by
  intro l e he project hp
  exact h l e he project (lastHandled_of_removed hp)

theorem Agrees.handled (h : Agrees fileName c log) (hd : c.peek key = some d) :
    Agrees fileName c (.handled key (fileName d.project) d.project :: log) := by
  intro l e he project hp
  by_cases hl : l = key
  · subst hl
    obtain rfl := Option.some.inj (hd.symm.trans he)
    rw [lastHandled_handled] at hp
    exact (Prod.mk.inj (Option.some.inj hp)).2.symm
  · exact h l e he project (lastHandled_of_handled hl hp)

theorem Agrees.changed (h : Agrees fileName c log) (hsets : Sets c key d t) :
    Agrees fileName t (.removed (fileName d.project) :: log) := by
  refine (h.removed _).sets hsets ?_
  intro project hp
  rw [lastHandled_removed] at hp
  cases hp

theorem Agrees.kept {old : CacheDetails P} (h : Agrees fileName c log) (hsets : Sets c key d t)
    (hold : c.peek key = some old) (hproject : d.project = old.project) : Agrees fileName t log := by
  refine h.sets hsets ?_
  rw [hproject]
  exact h key old hold

end agrees

theorem removals_same {c t : HandlerClass P} (h : t.removed = c.removed) : removals c t = [] := by
  simp [removals, h]

theorem removals_append {c t : HandlerClass P} {path : Str} (h : t.removed = c.removed ++ [path]) :
    removals c t = [.removed path] := by
  simp [removals, h]

section safe

variable {env : Tables} {fileName : P → Str} {w : Worker P} {key : Str}

theorem safe_preload (s : Store P) (h : Safe fileName w) :
    Safe fileName (step env fileName w (.preload s key)) := by
  refine ⟨?_, h.2⟩
  simp only [step, Announced.updateStaticEntry_lru]
  exact h.1

theorem refreshEntry_sets (env : Tables) (s : Store P) {c : HandlerClass P}
    (hkey : key ∈ c.cacheService.lru.tableKeys) :
    ((c.refreshEntry env s key).2.cacheService.lru = c.cacheService.lru ∧
      (c.refreshEntry env s key).2.removed = c.removed) ∨
    ∃ d, Sets c.cacheService.lru key d (c.refreshEntry env s key).2.cacheService.lru ∧
      ((∃ old, c.cacheService.lru.peek key = some old ∧ d.project = old.project ∧
        (c.refreshEntry env s key).2.removed = c.removed) ∨
      (c.refreshEntry env s key).2.removed = c.removed ++ [s.fileName d.project]) := by
  rcases updateEntry_update env s c.cacheService key with ⟨e, t, -, hu, ht, -⟩ | ⟨d, t, hd, hu, ht⟩
  · simp only [HandlerClass.refreshEntry, hu]
    exact .inl ⟨ht, trivial⟩
  · have hsets : Sets c.cacheService.lru key d t.lru := ht.lru ▸ sets_setItem _ key d
    have hpeek : t.peek key none = some d := by simp only [CacheManager.peek, hsets.self, Option.some_or]
    refine .inr ⟨d, ?_⟩
    cases hstate : updateState (c.cacheService.lru.peek key) d with
    | unchanged =>
      obtain ⟨old, hold, -, hproject⟩ := updateEntry_unchanged hd hstate
      simp only [HandlerClass.refreshEntry, hu, hstate, reduceCtorEq, if_false]
      exact ⟨hsets, .inl ⟨old, hold, hproject, trivial⟩⟩
    | inserted => exact absurd (updateState_inserted_iff.mp hstate) (Lru.mem_tableKeys_iff.mp hkey)
    | updated =>
      simp only [HandlerClass.refreshEntry, hu, hstate, if_true, hpeek]
      exact ⟨hsets, .inr trivial⟩

theorem safe_refresh (s : Store P) (h : Safe fileName w) :
    Safe fileName (step env fileName w (.refresh s key)) := by
  simp only [step]
  split
  · rename_i hkey
    rcases refreshEntry_sets env (named fileName s) hkey with
      ⟨hlru, hremoved⟩ | ⟨d, hsets, ⟨old, hold, hproject, hremoved⟩ | hremoved⟩
    · rw [removals_same hremoved]
      refine ⟨?_, h.2⟩
      simp only [hlru]
      exact h.1
    · rw [removals_same hremoved]
      exact ⟨h.1.kept hsets hold hproject, h.2⟩
    · rw [removals_append hremoved]
      exact ⟨h.1.changed hsets, h.2⟩
  · exact h

theorem lookup_sets (env : Tables) (s : Store P) (m : CacheManager P) (key : Str) :
    (m.lookup env s key false).2.lru = m.lru ∨
      ∃ d, loaded env s m key = some d ∧ Sets m.lru key d (m.lookup env s key false).2.lru := by
  cases hl : m.lru.peek key with
  | some d =>
    left
    rw [CacheManager.lookup_lru hl]
  | none =>
    cases hs : m.static.get? key with
    | some d =>
      refine .inr ⟨d, by simp [loaded, hl, hs], ?_⟩
      rw [CacheManager.lookup_static hl hs]
      exact sets_setItem m.lru key d
    | none =>
      have hheld : m.held key = none := Option.or_eq_none_iff.mpr ⟨hl, hs⟩
      rw [CacheManager.lookup_refreshed fun _ => hheld]
      rcases updateAndGet_update env s m key with ⟨e, t, -, ht, hlru⟩ | ⟨d, t, hd, ht, hlru⟩
      · left
        rw [ht, hlru]
      · right
        rw [hheld] at hd
        refine ⟨d, by simp [loaded, hl, hs, hd, Except.toOption], ?_⟩
        rw [ht, hlru]
        exact sets_setItem m.lru key d

theorem safe_inspect {s : Store P} (h : Safe fileName w) (hmeets : Meets env fileName w (.inspect s key)) :
    Safe fileName (step env fileName w (.inspect s key)) := by
  refine ⟨?_, h.2⟩
  simp only [step]
  rcases lookup_sets env (named fileName s) w.handlerClass.cacheService key with hlru | ⟨d, hd, hsets⟩
  · rw [hlru]
    exact h.1
  · refine h.1.sets hsets ?_
    intro project hp
    exact hmeets d hd (key, project) hp rfl

theorem safe_request {s : Store P} {notModified : Bool} (h : Safe fileName w)
    (hmeets : Meets env fileName w (.request s key notModified)) :
    Safe fileName (step env fileName w (.request s key notModified)) := by
  have hcases := requested_cases env (named fileName s) w.handlerClass key
  simp only [step]
  generalize requested env (named fileName s) w.handlerClass key = r at hcases ⊢
  cases hcases with
  | failed t hlru hremoved =>
    rw [removals_same hremoved]
    refine ⟨?_, h.2⟩
    rw [hlru]
    exact h.1
  | kept old d t hold hkeeps hproject hremoved hsets =>
    rw [removals_same hremoved]
    have hagrees := h.1.kept hsets hold hproject
    cases notModified with
    | true => exact ⟨hagrees, h.2⟩
    | false =>
      refine ⟨hagrees.handled hsets.self, ?_, h.2⟩
      rintro ⟨k, other⟩ hlast
      rw [hproject] at hlast ⊢
      obtain rfl := hmeets rfl old hold hkeeps (k, other) hlast
      exact h.1 k old hold other hlast
  | changed d t hremoved hsets =>
    rw [removals_append hremoved]
    have hagrees := h.1.changed hsets
    cases notModified with
    | true => exact ⟨hagrees, h.2⟩
    | false =>
      refine ⟨hagrees.handled hsets.self, ?_, h.2⟩
      intro x hlast
      exact absurd (hlast.symm.trans lastHandled_removed) nofun

theorem safe_step {a : Action P} (h : Safe fileName w) (hmeets : Meets env fileName w a) :
    Safe fileName (step env fileName w a) := by
  cases a with
  | preload s key => exact safe_preload s h
  | refresh s key => exact safe_refresh s h
  | inspect s key => exact safe_inspect h hmeets
  | request s key notModified => exact safe_request h hmeets

theorem safe_run {as : List (Action P)} (h : Safe fileName w) (hmeets : AllMeet env fileName w as) :
    Safe fileName (run env fileName w as) := by
  induction as generalizing w with
  | nil => exact h
  | cons a as ih =>
    obtain ⟨ha, has⟩ := hmeets
    exact ih (safe_step h ha) has

end safe

section connection

open Zmq (Dict)

variable {env : Tables} {s : Store P} {c : HandlerClass P} {q : Server P} {o : Outside} {headers : Dict}
  {ows : Bool} {location : String} {request : Request} {response : Response}

theorem handleQgisRequest_requested :
    (∃ e, (requested env s c location.toList).1 = none ∧
      q.handleQgisRequest env o s c headers ows (some location) request response =
        Server.onException o (requested env s c location.toList).2 location response e) ∨
    ∃ project lastModified, (requested env s c location.toList).1 = some project ∧
      q.handleQgisRequest env o s c headers ows (some location) request response =
        q.serve env o (requested env s c location.toList).2 headers ows location request response project
          lastModified := by
  simp only [requested, Server.handleQgisRequest]
  obtain ⟨found, c'⟩ := Server.cacheLookup env s c location.toList
  cases found with
  | error e => exact .inl ⟨e, rfl, rfl⟩
  | ok found =>
    obtain ⟨project, state⟩ := found
    simp only
    obtain ⟨time, c''⟩ := Server.getModifiedTime env s (if state = .unchanged then c'
      else { c' with removed := c'.removed ++ [s.fileName project] }) location.toList true
    cases time with
    | error e => exact .inl ⟨e, rfl, rfl⟩
    | ok lastModified => exact .inr ⟨project, lastModified, rfl, rfl⟩

variable (env s)

theorem removals_trans {a b : HandlerClass P} (hab : a.removed <+: b.removed) (hbc : b.removed <+: c.removed) :
    removals b c ++ removals a b = removals a c := by
  obtain ⟨l, hl⟩ := hab
  obtain ⟨m, hm⟩ := hbc
  simp [removals, ← hm, ← hl]

theorem refreshEntry_removed (c : HandlerClass P) (key : Str) :
    c.removed <+: (c.refreshEntry env s key).2.removed := by
  simp only [HandlerClass.refreshEntry]
  split
  · exact List.prefix_rfl
  · split
    · split
      · exact List.prefix_rfl
      · exact List.prefix_append _ _
    · exact List.prefix_rfl

theorem each_removed (c : HandlerClass P) (keys : List Str) :
    c.removed <+: (Sweep.each (HandlerClass.refreshEntry env s) c keys).removed := by
  induction keys generalizing c with
  | nil => exact List.prefix_rfl
  | cons key keys ih => exact (refreshEntry_removed env s c key).trans (ih _)

theorem refreshEntry_tableKeys {c : HandlerClass P} {key l : Str} (hkey : key ∈ c.cacheService.lru.tableKeys)
    (hl : l ∈ c.cacheService.lru.tableKeys) : l ∈ (c.refreshEntry env s key).2.cacheService.lru.tableKeys := by
  rw [Announced.refreshEntry_cacheService]
  rcases updateEntry_update env s c.cacheService key with ⟨e, t, -, hu, ht, -⟩ | ⟨d, t, -, hu, ht⟩
  · rw [hu, ht]
    exact hl
  · rw [Lru.mem_tableKeys_iff] at hl ⊢
    rw [hu, ht.lru, Lru.peek_setItem d hkey, Function.update_apply]
    split
    · simp
    · exact hl

theorem preloads_run (keys : List Str) (w : Worker P) :
    run env s.fileName w (keys.map (.preload s)) = { w with handlerClass := { w.handlerClass with
      cacheService := Sweep.each (CacheManager.refreshStatic env s) w.handlerClass.cacheService keys } } := by
  induction keys generalizing w with
  | nil => rfl
  | cons key keys ih => exact ih (step env s.fileName w (.preload s key))

theorem refreshes_run {keys : List Str} {w : Worker P}
    (hkeys : ∀ key ∈ keys, key ∈ w.handlerClass.cacheService.lru.tableKeys) :
    run env s.fileName w (keys.map (.refresh s)) =
      ⟨Sweep.each (HandlerClass.refreshEntry env s) w.handlerClass keys,
        removals w.handlerClass (Sweep.each (HandlerClass.refreshEntry env s) w.handlerClass keys) ++ w.log⟩ := by
  induction keys generalizing w with
  | nil => simp [run, Sweep.each, removals]
  | cons key keys ih =>
    obtain ⟨hkey, hkeys⟩ := List.forall_mem_cons.mp hkeys
    have hstep : step env s.fileName w (.refresh s key) = ⟨(w.handlerClass.refreshEntry env s key).2,
        removals w.handlerClass (w.handlerClass.refreshEntry env s key).2 ++ w.log⟩ := by
      simp only [step, if_pos hkey]
      rfl
    have hrest := ih (w := step env s.fileName w (.refresh s key)) (by
      rw [hstep]
      exact fun l hl => refreshEntry_tableKeys env s hkey (hkeys l hl))
    rw [List.map_cons, run, List.foldl_cons, ← run, hrest, hstep, ← List.append_assoc,
      removals_trans (refreshEntry_removed env s _ key) (each_removed env s _ keys)]
    rfl

variable {env} in
theorem allMeet_append {fileName : P → Str} {w : Worker P} {as bs : List (Action P)}
    (has : AllMeet env fileName w as) (hbs : AllMeet env fileName (run env fileName w as) bs) :
    AllMeet env fileName w (as ++ bs) := by
  induction as generalizing w with
  | nil => exact hbs
  | cons a as ih => exact ⟨has.1, ih has.2 hbs⟩

theorem allMeet_preloads (fileName : P → Str) (w : Worker P) (keys : List Str) :
    AllMeet env fileName w (keys.map (.preload s)) := by
  induction keys generalizing w with
  | nil => trivial
  | cons key keys ih => exact ⟨trivial, ih _⟩

theorem allMeet_refreshes (fileName : P → Str) (w : Worker P) (keys : List Str) :
    AllMeet env fileName w (keys.map (.refresh s)) := by
  induction keys generalizing w with
  | nil => trivial
  | cons key keys ih => exact ⟨trivial, ih _⟩

theorem refreshCache_run (c : HandlerClass P) (now done : ℚ) (log : List (Event P)) :
    ∃ as last, AllMeet env s.fileName ⟨c, log⟩ as ∧ run env s.fileName ⟨c, log⟩ as =
      ⟨{ (c.refreshCache env s now done).2 with cacheLastCheck := last },
        removals c (c.refreshCache env s now done).2 ++ log⟩ := by
  obtain ⟨statics, m, entries, last, hstatics, hprefix, ht⟩ := HandlerClass.refreshCache_prefix env s c now done
  refine ⟨statics.map (.preload s) ++ entries.map (.refresh s),
    (Sweep.each (HandlerClass.refreshEntry env s) { c with cacheService := m } entries).cacheLastCheck, ?_, ?_⟩
  · exact allMeet_append (allMeet_preloads env s _ _ statics) (allMeet_refreshes env s _ _ entries)
  · have hm : run env s.fileName ⟨c, log⟩ (statics.map (.preload s)) = ⟨{ c with cacheService := m }, log⟩ := by
      rw [preloads_run, hstatics]
    rw [run, List.foldl_append, ← run, hm, refreshes_run env s fun key hkey => hprefix.subset hkey, ht]
    rfl

end connection

theorem config_cache_coherent (env : Tables) (fileName : P → Str) (aliases : AliasTable) (n : ℕ) (interval : ℤ)
    (as : List (Action P)) (h : AllMeet env fileName (start aliases n interval) as) :
    AllCoherent (run env fileName (start aliases n interval) as).log := by
  have hstart : Safe fileName (start aliases n interval) := by
    refine ⟨?_, trivial⟩
    intro key d hd
    cases hd
  exact (safe_run hstart h).2

-- a project is its file and the version that has been read
def numbered (n : ℤ) : Store (Str × ℤ) where
  strictCheck := true
  insecure := false
  isFile := fun _ => some true
  mtime := fun _ => n
  database := ⟨fun _ _ => .noRow, fun _ => none⟩
  storageMetadata := fun _ => none
  read := fun uri => some ((uri, n), true)
  lastModified := fun _ => some n
  fileName := Prod.fst

def inspectedRun : List (Action (Str × ℤ)) :=
  [.request (numbered 0) "a".toList false, .inspect (numbered 1) "a".toList, .refresh (numbered 1) "a".toList,
    .request (numbered 1) "a".toList false]

theorem config_cache_coherent_inspected :
    AllCoherent (run asciiTables Prod.fst (start srvTable 0 10) inspectedRun).log :=
  config_cache_coherent asciiTables Prod.fst srvTable 0 10 inspectedRun (by decide)

-- the inspection loads the new project of 'a', which the next request finds in the cache
def reloadedRun : List (Action (Str × ℤ)) :=
  [.request (numbered 0) "a".toList false, .request (numbered 0) "b".toList false,
    .inspect (numbered 1) "a".toList, .request (numbered 1) "a".toList false]

theorem inspection_hides_update : ¬ ∀ as : List (Action (Str × ℤ)),
    AllCoherent (run asciiTables Prod.fst (start srvTable 0 10) as).log := by
  intro h
  have hnot : ¬ AllCoherent (run asciiTables Prod.fst (start srvTable 0 10) reloadedRun).log := by
    decide
  exact hnot (h reloadedRun)

end ConfigCache

end Qgis
