import PyQgisServer.Cache.Snapshot

namespace QgsCache

open Urllib

-- get_project of the handlers that the component manager has for the schemes, whatever they do
abbrev Services (P E : Type) := Str → ParseResult → Option (CacheDetails P) → Except E (CacheDetails P)

abbrev GetDetails (P E : Type) :=
  AliasTable → Str → Option (CacheDetails P) → Except E (CacheDetails P × UpdateState) × AliasTable

def serviceScheme (m : AliasTable) (scheme : Str) : Except CacheError Str :=
  let scheme := if scheme = [] then m.defaultScheme else scheme
  if m.allowedSchemes.all (scheme ∈ ·) then .ok scheme else .error .pathNotAllowed

-- _get_project_details; raise gives the exceptions of the manager among those of the handlers
def Services.details {P E : Type} (raise : CacheError → E) (env : Tables) (services : Services P E) :
    GetDetails P E := fun m key details =>
  let r := resolveAlias env m key
  (do
    let url ← r.1.mapError raise
    let scheme ← (serviceScheme r.2 url.scheme).mapError raise
    let d ← services scheme url details
    pure (d, updateState details d), r.2)

def serviceOf (scheme : Str) : ProtocolHandler :=
  if scheme = "file".toList then .file else if scheme = "postgres".toList then .postgres else .qgisStorage

def Store.services {P : Type} (env : Tables) (s : Store P) : Services P CacheError :=
  fun scheme => s.getProject env (serviceOf scheme)

theorem details_services {P : Type} (env : Tables) (s : Store P) :
    (s.services env).details id env = getProjectDetails env s := by
  funext m key details
  simp only [Services.details, getProjectDetails, bind, Except.bind, pure, Except.pure]
  cases (resolveAlias env m key).1 with
  | error e => rfl
  | ok url =>
    simp only [Except.mapError, serviceScheme, getProtocolHandler]
    by_cases hs : (resolveAlias env m key).2.allowedSchemes.all
        ((if url.scheme = [] then (resolveAlias env m key).2.defaultScheme else url.scheme) ∈ ·)
    · rw [if_pos hs, if_pos hs]
      rfl
    · rw [if_neg hs, if_neg hs]
      rfl

theorem details_same {P E : Type} (raise : CacheError → E) (env : Tables) (services : Services P E)
    (m : AliasTable) (key : Str) (details : Option (CacheDetails P)) :
    m.Same (services.details raise env m key details).2 := resolveAlias_same env m key

theorem serviceScheme_congr {m n : AliasTable} (h : m.Same n) (scheme : Str) :
    serviceScheme n scheme = serviceScheme m scheme := by
  unfold serviceScheme
  rw [h.defaultScheme, h.allowedSchemes]

theorem details_congr {P E : Type} {raise : CacheError → E} {env : Tables} {services : Services P E}
    {m n : AliasTable} (h : m.Same n) (key : Str) (details : Option (CacheDetails P)) :
    (services.details raise env n key details).1 = (services.details raise env m key details).1 := by
  have hs : ∀ scheme, serviceScheme (resolveAlias env n key).2 scheme =
      serviceScheme (resolveAlias env m key).2 scheme := by
    intro scheme
    rw [serviceScheme_congr (resolveAlias_same env n key), serviceScheme_congr (resolveAlias_same env m key),
      serviceScheme_congr h]
  simp only [Services.details, resolveAlias_congr h, hs]

namespace CacheManager

variable {P E : Type}

section handlers

variable (fetch : GetDetails P E) (m : CacheManager P)

def updateStaticEntryWith (key : Str) : Except E UpdateState × CacheManager P :=
  let r := fetch m.aliases key (m.static.get? key)
  let m := { m with aliases := r.2 }
  match r.1 with
  | .error e => (.error e, m)
  | .ok (d, update) => (.ok update, m.setStatic key d)

def updateEntryWith (key : Str) : Except E UpdateState × CacheManager P :=
  match m.lru.peek key, m.static.get? key with
  | none, some details =>
    let r := fetch m.aliases key (some details)
    let m := { m with aliases := r.2 }
    match r.1 with
    | .error e => (.error e, m)
    | .ok (d, update) =>
      let m := if update = .updated then m.setStatic key d else m
      (.ok .inserted, (m.setLru key d).notify key d.timestamp .inserted)
  | details, _ =>
    let r := fetch m.aliases key details
    let m := { m with aliases := r.2 }
    match r.1 with
    | .error e => (.error e, m)
    | .ok (d, update) => (.ok update, (m.setLru key d).notify key d.timestamp update)

variable (raise : CacheError → E)

def updateAndGetWith (key : Str) : Except E (P × UpdateState) × CacheManager P :=
  let r := m.updateEntryWith fetch key
  match r.1 with
  | .error e => (.error e, r.2)
  | .ok update =>
    match r.2.lru.getItem key with
    | none => (.error (raise .keyError), r.2)
    | some (d, lru) => (.ok (d.project, update), { r.2 with lru := lru })

def lookupWith (key : Str) (refresh : Bool) : Except E (P × UpdateState) × CacheManager P :=
  if refresh then m.updateAndGetWith fetch raise key
  else
    match m.peek key (some .lru) with
    | some d => (.ok (d.project, .unchanged), m)
    | none =>
      match m.peek key (some .static) with
      | some d => (.ok (d.project, .updated), m.setLru key d)
      | none => m.updateAndGetWith fetch raise key

end handlers

theorem updateStaticEntry_with (env : Tables) (s : Store P) (m : CacheManager P) (key : Str) :
    m.updateStaticEntry env s key = m.updateStaticEntryWith ((s.services env).details id env) key := by
  rw [details_services, updateStaticEntry, updateStaticEntryWith]
  cases (getProjectDetails env s m.aliases key (m.static.get? key)).1 <;> rfl

theorem updateEntry_with (env : Tables) (s : Store P) (m : CacheManager P) (key : Str) :
    m.updateEntry env s key = m.updateEntryWith ((s.services env).details id env) key := by
  rw [details_services, updateEntry, updateEntryWith]
  cases m.lru.peek key with
  | some old => cases h : (getProjectDetails env s m.aliases key (some old)).1 <;> simp only [h]
  | none =>
    cases m.static.get? key with
    | some old => cases h : (getProjectDetails env s m.aliases key (some old)).1 <;> simp only [h]
    | none => cases h : (getProjectDetails env s m.aliases key none).1 <;> simp only [h]

theorem updateAndGet_with (env : Tables) (s : Store P) (m : CacheManager P) (key : Str) :
    m.updateAndGet env s key = m.updateAndGetWith ((s.services env).details id env) id key := by
  rw [updateAndGet, updateAndGetWith, ← updateEntry_with]
  cases hu : (m.updateEntry env s key).1 with
  | error e => rfl
  | ok u =>
    cases hg : (m.updateEntry env s key).2.lru.getItem key <;> rfl

theorem lookup_with (env : Tables) (s : Store P) (m : CacheManager P) (key : Str) (refresh : Bool) :
    m.lookup env s key refresh = m.lookupWith ((s.services env).details id env) id key refresh := by
  cases hl : m.peek key (some .lru) with
  | some d => simp only [lookup, lookupWith, updateAndGet_with, hl]
  | none =>
    cases hs : m.peek key (some .static) <;> simp only [lookup, lookupWith, updateAndGet_with, hl, hs]

end CacheManager

end QgsCache
