import PyQgisServer.Library.PySet
import PyQgisServer.Cache.Snapshot

namespace QgsCache

open Urllib

structure ReadFlags where
  trustLayerMetadata : Bool
  dontLoadLayouts : Bool
  forceReadOnlyLayers : Bool
  deriving DecidableEq

-- the entries of a project have a scope and a key
structure QgsProject (D : Type) where
  data : D
  entries : PyDict (Str × Str) Str

def QgsProject.writeEntry {D : Type} (p : QgsProject D) (scope key value : Str) : QgsProject D :=
  { p with entries := p.entries.set (scope, key) value }

structure BadLayerHandler where
  badLayerNames : PySet Str

namespace BadLayerHandler

def new : BadLayerHandler := ⟨.empty⟩

-- a layer is the text of its layername element, the text of a missing one is empty; each call replaces the names
def handleBadLayers (h : BadLayerHandler) (layers : List (Option Str)) : BadLayerHandler :=
  { h with badLayerNames := .ofList (layers.map fun layer => layer.getD []) }

def validateLayers (h : BadLayerHandler) (wmsRestrictedLayers : List Str) : Bool :=
  if h.badLayerNames.isEmpty then true
  else h.badLayerNames.elems.all fun name => decide (name ∈ wmsRestrictedLayers)

end BadLayerHandler

structure CacheOptions where
  strictCheck : Bool
  trustLayerMetadata : Bool
  disableGetprint : Bool
  disableOwsurls : Bool
  readOnlyLayers : Bool
  insecure : Bool

-- what the handlers find outside of the program; a read hands the bad layers it meets to the handler
structure Outside (D : Type) where
  isFile : Pathlib.PurePath → Option Bool
  mtime : Pathlib.PurePath → ℤ
  database : Database
  storageMetadata : Str → Option ℤ
  read : Str → ReadFlags → Option (QgsProject D × List (List (Option Str)))
  wmsRestrictedLayers : QgsProject D → List Str
  lastModified : QgsProject D → Option ℤ
  fileName : QgsProject D → Str

namespace CacheOptions

variable {D : Type} (o : CacheOptions)

def readFlags : ReadFlags :=
  let readflags : ReadFlags := ⟨false, false, false⟩
  let readflags := if o.trustLayerMetadata then { readflags with trustLayerMetadata := true } else readflags
  let readflags := if o.disableGetprint then { readflags with dontLoadLayouts := true } else readflags
  if o.readOnlyLayers then { readflags with forceReadOnlyLayers := true } else readflags

def prepareProject (project : QgsProject D) : QgsProject D :=
  if o.disableOwsurls then
    (((project.writeEntry "WMSUrl".toList ['/'] []).writeEntry "WFSUrl".toList ['/'] []).writeEntry
      "WCSUrl".toList ['/'] []).writeEntry "WMTSUrl".toList ['/'] []
  else project

def badLayers (reports : List (List (Option Str))) : BadLayerHandler :=
  reports.foldl BadLayerHandler.handleBadLayers .new

def readProject (x : Outside D) (uri : Str) : Except CacheError (QgsProject D) :=
  match x.read uri o.readFlags with
  | none => .error .runtimeError
  | some (project, reports) =>
    if o.strictCheck && !(badLayers reports).validateLayers (x.wmsRestrictedLayers project) then
      .error .strictChecking
    else .ok (o.prepareProject project)

def store (x : Outside D) : Store (QgsProject D) where
  strictCheck := o.strictCheck
  insecure := o.insecure
  isFile := x.isFile
  mtime := x.mtime
  database := x.database
  storageMetadata := x.storageMetadata
  read := fun uri => (x.read uri o.readFlags).map fun r =>
    (o.prepareProject r.1, (badLayers r.2).validateLayers (x.wmsRestrictedLayers r.1))
  lastModified := x.lastModified
  fileName := x.fileName

theorem store_readProject (x : Outside D) (uri : Str) : (o.store x).readProject uri = o.readProject x uri := by
  simp only [Store.readProject, readProject, store]
  cases x.read uri o.readFlags with
  | none => rfl
  | some r => rfl

theorem readFlags_eq : o.readFlags = ⟨o.trustLayerMetadata, o.disableGetprint, o.readOnlyLayers⟩ := by
  unfold readFlags
  cases o.trustLayerMetadata <;> cases o.disableGetprint <;> cases o.readOnlyLayers <;> rfl

end CacheOptions

def owsUrls : List Str := ["WMSUrl".toList, "WFSUrl".toList, "WCSUrl".toList, "WMTSUrl".toList]

theorem badLayers_validate {reports : List (List (Option Str))} {restricted : List Str} :
    (CacheOptions.badLayers reports).validateLayers restricted = true ↔
      ∀ report ∈ reports.getLast?, ∀ layer ∈ report, layer.getD [] ∈ restricted := by
  have hnames : ∀ name, name ∈ (CacheOptions.badLayers reports).badLayerNames ↔
      ∃ report ∈ reports.getLast?, ∃ layer ∈ report, layer.getD [] = name := by
    intro name
    induction reports using List.reverseRecOn with
    | nil => simp [CacheOptions.badLayers, BadLayerHandler.new]
    | append_singleton reports report _ =>
      rw [CacheOptions.badLayers, List.foldl_append]
      simp [BadLayerHandler.handleBadLayers]
  have hall : (CacheOptions.badLayers reports).validateLayers restricted = true ↔
      ∀ name ∈ (CacheOptions.badLayers reports).badLayerNames, name ∈ restricted := by
    rw [BadLayerHandler.validateLayers]
    split
    · rename_i hempty
      have hnil : (CacheOptions.badLayers reports).badLayerNames.elems = [] := List.isEmpty_iff.mp hempty
      exact iff_of_true rfl fun name hname => by
        rw [PySet.mem_def, hnil] at hname
        cases hname
    · rw [List.all_eq_true]
      simp [PySet.mem_def]
  rw [hall]
  constructor
  · exact fun h report hreport layer hlayer => h _ ((hnames _).mpr ⟨report, hreport, layer, hlayer, rfl⟩)
  · intro h name hname
    obtain ⟨report, hreport, layer, hlayer, rfl⟩ := (hnames name).mp hname
    exact h report hreport layer hlayer

structure ReadAs {D : Type} (o : CacheOptions) (x : Outside D) (project : QgsProject D)
    (reports : List (List (Option Str))) (p : QgsProject D) : Prop where
  data : p.data = project.data
  entries : ∀ scope key, p.entries.get? (scope, key) =
    if o.disableOwsurls = true ∧ scope ∈ owsUrls ∧ key = ['/'] then some [] else project.entries.get? (scope, key)
  layers : o.strictCheck = true →
    ∀ report ∈ reports.getLast?, ∀ layer ∈ report, layer.getD [] ∈ x.wmsRestrictedLayers project

section read

variable {D : Type} {o : CacheOptions} {x : Outside D} {uri : Str} {p : QgsProject D}

theorem prepareProject_data (o : CacheOptions) (p : QgsProject D) : (o.prepareProject p).data = p.data := by
  rw [CacheOptions.prepareProject]
  split <;> rfl

theorem prepareProject_entries (o : CacheOptions) (p : QgsProject D) (scope key : Str) :
    (o.prepareProject p).entries.get? (scope, key) =
      if o.disableOwsurls = true ∧ scope ∈ owsUrls ∧ key = ['/'] then some [] else p.entries.get? (scope, key) := by
  rw [CacheOptions.prepareProject]
  split
  · rename_i hdisable
    simp only [QgsProject.writeEntry, PyDict.get?_set, Prod.mk.injEq, owsUrls, hdisable, true_and, List.mem_cons,
      List.not_mem_nil, or_false]
    by_cases hkey : key = ['/']
    · simp only [hkey, and_true]
      split_ifs <;> simp_all
    · simp [hkey]
  · rename_i hdisable
    rw [if_neg fun h => hdisable h.1]

theorem readProject_ok (h : o.readProject x uri = .ok p) :
    ∃ project reports, x.read uri ⟨o.trustLayerMetadata, o.disableGetprint, o.readOnlyLayers⟩ =
      some (project, reports) ∧ ReadAs o x project reports p := by
  rw [CacheOptions.readProject, o.readFlags_eq] at h
  cases hread : x.read uri ⟨o.trustLayerMetadata, o.disableGetprint, o.readOnlyLayers⟩ with
  | none =>
    rw [hread] at h
    cases h
  | some r =>
    obtain ⟨project, reports⟩ := r
    rw [hread] at h
    simp only at h
    split at h
    · cases h
    · rename_i hvalid
      obtain rfl := Except.ok.inj h
      refine ⟨project, reports, rfl, prepareProject_data o project, prepareProject_entries o project, fun hstrict => ?_⟩
      rw [← badLayers_validate]
      simpa [hstrict] using hvalid

end read

section runs

variable {D : Type}

inductive Use (D : Type) where
  | preload (x : Outside D) (key : Str)
  | update (x : Outside D) (key : Str)
  | lookup (x : Outside D) (key : Str) (refresh : Bool)

def Use.outside : Use D → Outside D
  | .preload x _ => x
  | .update x _ => x
  | .lookup x _ _ => x

def Use.action (o : CacheOptions) : Use D → Announced.Action (QgsProject D)
  | .preload x key => .preload (o.store x) key
  | .update x key => .update (o.store x) key
  | .lookup x key refresh => .lookup (o.store x) key refresh

def Use.run (o : CacheOptions) (env : Tables) (aliases : AliasTable) (n : ℕ) (uses : List (Use D)) :
    CacheManager (QgsProject D) :=
  (Announced.run env (Announced.start aliases n) (uses.map (Use.action o))).manager

def Admitted (o : CacheOptions) (xs : List (Outside D)) (p : QgsProject D) : Prop :=
  ∃ x ∈ xs, ∃ uri project reports,
    x.read uri ⟨o.trustLayerMetadata, o.disableGetprint, o.readOnlyLayers⟩ = some (project, reports) ∧
      ReadAs o x project reports p

variable {o : CacheOptions} {env : Tables} {xs ys : List (Outside D)} {x : Outside D}
  {m t : CacheManager (QgsProject D)}

theorem Admitted.mono {p : QgsProject D} (h : Admitted o xs p) (hxs : xs ⊆ ys) : Admitted o ys p := by
  obtain ⟨x, hx, hread⟩ := h
  exact ⟨x, hxs hx, hread⟩

def AllAdmitted (o : CacheOptions) (xs : List (Outside D)) (m : CacheManager (QgsProject D)) : Prop :=
  ∀ key d, m.Entry key d → Admitted o xs d.project

theorem effect_admitted {key : Str} {details : Option (CacheDetails (QgsProject D))} (h : AllAdmitted o xs m)
    (heffect : CacheManager.Effect env (o.store x) m key details t) : AllAdmitted o (xs ++ [x]) t := by
  intro k d hd
  have hkept : ∀ {k d}, m.Entry k d → Admitted o (xs ++ [x]) d.project :=
    fun hd => (h _ _ hd).mono (List.subset_append_left _ _)
  rcases heffect.entry hd with hd | ⟨rfl, hdetails, hupdate⟩
  · exact hkept hd
  · obtain ⟨v, -, ⟨hread, -, -⟩ | ⟨old, hold, -, rfl⟩⟩ := update_cases hupdate
    · rw [o.store_readProject] at hread
      obtain ⟨project, reports, hread, has⟩ := readProject_ok hread
      exact ⟨x, List.mem_append_right _ List.mem_cons_self, v.2.1, project, reports, hread, has⟩
    · have hproject : (Store.keep v.1 old v.2.2).project = old.project := by
        cases v.1 <;> rfl
      rw [hproject]
      exact hkept (hdetails old hold)

theorem use_effect (o : CacheOptions) (env : Tables) (r : Announced.Run (QgsProject D)) (use : Use D) :
    ∃ key details, CacheManager.Effect env (o.store use.outside) r.manager key details
      (Announced.step env r (use.action o)).manager := by
  cases use with
  | preload x key => exact ⟨key, _, (CacheManager.updateStaticEntry_effect env (o.store x) r.manager key).1⟩
  | update x key => exact ⟨key, _, (CacheManager.updateEntry_effect env (o.store x) r.manager key).1⟩
  | lookup x key refresh => exact ⟨key, _, (CacheManager.lookup_effect env (o.store x) r.manager key refresh).1⟩

theorem run_admitted (o : CacheOptions) (env : Tables) (aliases : AliasTable) (n : ℕ) (uses : List (Use D)) :
    AllAdmitted o (uses.map Use.outside) (Use.run o env aliases n uses) := by
  induction uses using List.reverseRecOn with
  | nil =>
    rintro key d (hd | hd)
    · cases hd
    · cases hd
  | append_singleton uses use ih =>
    obtain ⟨key, details, heffect⟩ := use_effect o env
      (Announced.run env (Announced.start aliases n) (uses.map (Use.action o))) use
    simp only [Use.run, List.map_append, Announced.run_append]
    exact effect_admitted ih heffect

theorem projects_are_read_as_configured (o : CacheOptions) (env : Tables) (aliases : AliasTable) (n : ℕ)
    (uses : List (Use D)) :
    (∀ key d, (Use.run o env aliases n uses).Entry key d → Admitted o (uses.map Use.outside) d.project) ∧
      ∀ x key refresh project update t,
        (Use.run o env aliases n uses).lookup env (o.store x) key refresh = (.ok (project, update), t) →
          Admitted o (uses.map Use.outside ++ [x]) project := by
  have hrun := run_admitted o env aliases n uses
  refine ⟨hrun, fun x key refresh project update t hlookup => ?_⟩
  have hafter := effect_admitted hrun
    (CacheManager.lookup_effect env (o.store x) (Use.run o env aliases n uses) key refresh).1
  rw [hlookup] at hafter
  rcases lookup_served env (o.store x) (Use.run o env aliases n uses) key refresh with
    ⟨e, t', herror, -⟩ | ⟨d, u, t', hok, -, hpeek⟩
  · rw [hlookup] at herror
    cases herror
  · obtain ⟨hresult, rfl⟩ := Prod.mk.inj (hlookup.symm.trans hok)
    obtain ⟨rfl, -⟩ := Prod.mk.inj (Except.ok.inj hresult)
    exact hafter key d (.inl hpeek)

end runs

end QgsCache
