import Mathlib.Algebra.Order.Ring.Rat
import PyQgisServer.Cache.Refresh

namespace Qgis

open QgsCache Urllib

-- the class attributes of QgsRequestHandler; removed lists the configuration files that the
-- server has been told to forget
structure HandlerClass (P : Type) where
  cacheService : CacheManager P
  cacheCheckInterval : ℤ
  cacheLastCheck : ℚ
  removed : List Str

namespace HandlerClass

variable {P : Type}

section refreshCache

variable (env : Tables) (s : Store P) (c : HandlerClass P)

-- one turn of the generator together with what the loop over it does
def refreshEntry (key : Str) : Except CacheError Unit × HandlerClass P :=
  let r := c.cacheService.updateEntry env s key
  let c := { c with cacheService := r.2 }
  match r.1 with
  | .error e => (.error e, c)
  | .ok update =>
    if update = .updated then
      match c.cacheService.peek key none with
      | none => (.error .attributeError, c)
      | some d => (.ok (), { c with removed := c.removed ++ [s.fileName d.project] })
    else (.ok (), c)

def due (now : ℚ) : Bool := 0 < c.cacheCheckInterval && c.cacheCheckInterval ≤ now - c.cacheLastCheck

-- now and done are the times read before and after the pass
def refreshCache (now done : ℚ) : Except CacheError Unit × HandlerClass P :=
  if c.due now then
    match c.cacheService.refresh env s with
    | (.error e, m) => (.error e, { c with cacheService := m })
    | (.ok keys, m) =>
      match Sweep.forEach (refreshEntry env s) { c with cacheService := m } keys with
      | (.error e, c) => (.error e, c)
      | (.ok (), c) => (.ok (), { c with cacheLastCheck := done })
  else (.ok (), c)

end refreshCache

theorem refreshCache_prefix (env : Tables) (s : Store P) (c : HandlerClass P) (now done : ℚ) :
    ∃ statics m entries last, m = Sweep.each (CacheManager.refreshStatic env s) c.cacheService statics ∧
      entries <+: m.lru.tableKeys ∧ (c.refreshCache env s now done).2 =
        { Sweep.each (refreshEntry env s) { c with cacheService := m } entries with cacheLastCheck := last } := by
  unfold refreshCache
  split
  · obtain ⟨statics, -, hstatics⟩ :=
      Sweep.forEach_prefix (CacheManager.refreshStatic env s) c.cacheService c.cacheService.static.keys
    unfold CacheManager.refresh
    split
    · rename_i e m hm
      split at hm
      · rename_i hsweep
        cases hm
        rw [hsweep] at hstatics
        exact ⟨statics, m, [], c.cacheLastCheck, hstatics, List.nil_prefix, rfl⟩
      · cases hm
    · rename_i keys m hm
      split at hm
      · cases hm
      · rename_i hsweep
        cases hm
        rw [hsweep] at hstatics
        obtain ⟨entries, hprefix, hentries⟩ :=
          Sweep.forEach_prefix (refreshEntry env s) { c with cacheService := m } m.lru.tableKeys
        split
        · rename_i d hforEach
          rw [hforEach] at hentries
          exact ⟨statics, m, entries, d.cacheLastCheck, hstatics, hprefix, by rw [← hentries]⟩
        · rename_i d hforEach
          rw [hforEach] at hentries
          exact ⟨statics, m, entries, done, hstatics, hprefix, by rw [← hentries]⟩
  · exact ⟨[], c.cacheService, [], c.cacheLastCheck, rfl, List.nil_prefix, rfl⟩

inductive Holds (m : CacheManager P) (key : Str) (d : CacheDetails P) : Prop
  | static (h : m.static.get? key = some d)
  | lru (h : m.lru.peek key = some d)

section isolation

variable (env : Tables) (s : Store P) (c : HandlerClass P)

def Raises (key : Str) : Prop :=
  ∃ d e, Holds c.cacheService key d ∧
    (getProjectDetails env s c.cacheService.aliases key (some d)).1 = .error e

end isolation

end HandlerClass

end Qgis
