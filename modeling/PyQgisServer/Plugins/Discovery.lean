import PyQgisServer.Library.ConfigParser
import PyQgisServer.Plugins.Version

namespace Plugins

open Urllib (Str before)
open PyStr

-- an entry of the plugin directory; a test is none where it raises, metadata where the file cannot be opened
structure Entry where
  name : Str
  isDir : Option Bool
  isSymlink : Option Bool
  metadataExists : Option Bool
  initExists : Option Bool
  metadata : Option (List UInt8)

inductive PluginError where
  | permissionError
  | valueError
  deriving DecidableEq

-- the bounds of a server plugin, and none for another one
abbrev Declared := Option (Option Str × Option Str)

section find

variable (t : UnicodeTables) (decode : List UInt8 → Option Str) (qgisVersion : Str)

def generalSection : Str := "general".toList

-- none for any exception
def readMetadata (text : Str) : Option Declared := do
  let cp ← ConfigParser.readFile t text
  if generalSection ∈ cp.sections.keys then
    let server ← cp.getboolean t generalSection "server".toList
    if server = some true then
      let minVer ← cp.get t generalSection "qgisMinimumVersion".toList
      let maxVer ← cp.get t generalSection "qgisMaximumVersion".toList
      some (some (minVer, maxVer))
    else some none
  else none

-- whether the entry is yielded
def visit (e : Entry) : Except PluginError Bool :=
  match e.isDir with
  | none => .error .permissionError
  | some false =>
    match e.isSymlink with
    | none => .error .permissionError
    | some _ => .ok false
  | some true =>
    match e.metadataExists with
    | none => .error .permissionError
    | some false => .ok false
    | some true =>
      match e.initExists with
      | none => .error .permissionError
      | some false => .ok false
      | some true =>
        match (e.metadata.bind decode).bind (readMetadata t) with
        | none => .ok false
        | some none => .ok false
        | some (some (minVer, maxVer)) =>
          match checkQgisVersion t qgisVersion minVer maxVer with
          | none => .error .valueError
          | some supported => .ok supported

-- the names that are yielded before the end, or before the exception
def findPlugins : List Entry → List Str × Option PluginError
  | [] => ([], none)
  | e :: entries =>
    match visit t decode qgisVersion e with
    | .error err => ([], some err)
    | .ok true => (e.name :: (findPlugins entries).1, (findPlugins entries).2)
    | .ok false => findPlugins entries

end find

section discoverable

variable (t : UnicodeTables) (decode : List UInt8 → Option Str)

def declared (e : Entry) : Declared :=
  if e.isDir = some true ∧ e.metadataExists = some true ∧ e.initExists = some true then
    ((e.metadata.bind decode).bind (readMetadata t)).join
  else none

def admissible (running : Version) (e : Entry) : Bool :=
  (declared t decode e).any fun bounds => Version.admits t running bounds.1 bounds.2

structure Discoverable (e : Entry) : Prop where
  isDir : e.isDir ≠ none
  isSymlink : e.isDir = some false → e.isSymlink ≠ none
  metadataExists : e.isDir = some true → e.metadataExists ≠ none
  initExists : e.isDir = some true → e.metadataExists = some true → e.initExists ≠ none
  versions : ∀ bounds, declared t decode e = some bounds →
    Version.ReadBound t bounds.1 ∧ Version.ReadBound t bounds.2

end discoverable

section discovery

variable {t : UnicodeTables} {decode : List UInt8 → Option Str} {qgisVersion : Str} {running : Version}
  (hq : Version.read t (before '-' qgisVersion) = some running) (hmajor : 0 ≤ running.major)

section visit

variable (t decode qgisVersion running)

theorem visit_plugin {e : Entry} (hdir : e.isDir = some true) (hmetadata : e.metadataExists = some true)
    (hinit : e.initExists = some true) :
    visit t decode qgisVersion e =
      match declared t decode e with
      | none => .ok false
      | some bounds =>
        match checkQgisVersion t qgisVersion bounds.1 bounds.2 with
        | none => .error .valueError
        | some supported => .ok supported := by
  rw [visit, declared, if_pos ⟨hdir, hmetadata, hinit⟩, hdir, hmetadata, hinit]
  simp only
  cases (e.metadata.bind decode).bind (readMetadata t) with
  | none => rfl
  | some plugin =>
    cases plugin with
    | none => rfl
    | some bounds => rfl

theorem not_admissible {e : Entry} (h : ¬ (e.isDir = some true ∧ e.metadataExists = some true ∧ e.initExists = some true)) :
    admissible t decode running e = false := by
  rw [admissible, declared, if_neg h]
  rfl

theorem visit_other {e : Entry} (h : ¬ (e.isDir = some true ∧ e.metadataExists = some true ∧ e.initExists = some true)) :
    visit t decode qgisVersion e =
      if e.isDir = none ∨ e.isDir = some false ∧ e.isSymlink = none ∨ e.isDir = some true ∧ e.metadataExists = none ∨
        e.isDir = some true ∧ e.metadataExists = some true ∧ e.initExists = none
      then .error .permissionError else .ok false := by
  obtain ⟨name, isDir, isSymlink, metadataExists, initExists, metadata⟩ := e
  rw [visit]
  cases isDir with
  | none => rfl
  | some isDir =>
    cases isDir with
    | false => cases isSymlink <;> rfl
    | true =>
      cases metadataExists with
      | none => rfl
      | some metadataExists =>
        cases metadataExists with
        | false => rfl
        | true =>
          cases initExists with
          | none => rfl
          | some initExists =>
            cases initExists with
            | false => rfl
            | true => exact absurd ⟨rfl, rfl, rfl⟩ h

end visit

theorem visit_other_cases {decode : List UInt8 → Option Str} {e : Entry}
    (h : ¬ (e.isDir = some true ∧ e.metadataExists = some true ∧ e.initExists = some true)) :
    Discoverable t decode e ∧ visit t decode qgisVersion e = .ok (admissible t decode running e) ∨
      ¬ Discoverable t decode e ∧ visit t decode qgisVersion e = .error .permissionError := by
  rw [visit_other t decode qgisVersion h, not_admissible t decode running h]
  split
  · rename_i hraises
    refine .inr ⟨?_, rfl⟩
    rintro ⟨hdir, hsymlink, hmetadata, hinit, -⟩
    rcases hraises with h | ⟨h, h'⟩ | ⟨h, h'⟩ | ⟨h, h', h''⟩
    · exact hdir h
    · exact hsymlink h h'
    · exact hmetadata h h'
    · exact hinit h h' h''
  · rename_i hquiet
    simp only [not_or, not_and] at hquiet
    obtain ⟨hdir, hsymlink, hmetadata, hinit⟩ := hquiet
    refine .inl ⟨⟨hdir, hsymlink, hmetadata, hinit, ?_⟩, rfl⟩
    intro bounds hbounds
    rw [declared, if_neg h] at hbounds
    cases hbounds

include hq hmajor

theorem visit_plugin_cases {decode : List UInt8 → Option Str} {e : Entry} (hdir : e.isDir = some true)
    (hmetadata : e.metadataExists = some true) (hinit : e.initExists = some true) :
    Discoverable t decode e ∧ visit t decode qgisVersion e = .ok (admissible t decode running e) ∨
      ¬ Discoverable t decode e ∧ visit t decode qgisVersion e = .error .valueError := by
  have hdiscoverable : Discoverable t decode e ↔ ∀ bounds, declared t decode e = some bounds →
      Version.ReadBound t bounds.1 ∧ Version.ReadBound t bounds.2 := by
    refine ⟨Discoverable.versions, fun h => ⟨?_, ?_, ?_, ?_, h⟩⟩
    · simp [hdir]
    · simp [hdir]
    · simp [hmetadata]
    · simp [hinit]
  rw [visit_plugin t decode qgisVersion hdir hmetadata hinit, admissible, hdiscoverable]
  cases declared t decode e with
  | none => exact .inl ⟨fun bounds hbounds => (by cases hbounds), rfl⟩
  | some bounds =>
    by_cases hread : Version.ReadBound t bounds.1 ∧ Version.ReadBound t bounds.2
    · left
      refine ⟨?_, ?_⟩
      · rintro bounds' ⟨⟩
        exact hread
      · simp only [Version.checkQgisVersion_read hq hmajor hread.1 hread.2]
        rfl
    · right
      refine ⟨fun h => hread (h bounds rfl), ?_⟩
      simp only [Version.checkQgisVersion_unread hread]

theorem visit_cases (decode : List UInt8 → Option Str) (e : Entry) :
    Discoverable t decode e ∧ visit t decode qgisVersion e = .ok (admissible t decode running e) ∨
      ¬ Discoverable t decode e ∧ ∃ err, visit t decode qgisVersion e = .error err := by
  by_cases hfiles : e.isDir = some true ∧ e.metadataExists = some true ∧ e.initExists = some true
  · obtain ⟨hdir, hmetadata, hinit⟩ := hfiles
    exact (visit_plugin_cases hq hmajor hdir hmetadata hinit).imp_right fun h => ⟨h.1, _, h.2⟩
  · exact (visit_other_cases hfiles).imp_right fun h => ⟨h.1, _, h.2⟩

theorem findPlugins_iff (entries : List Entry) :
    findPlugins t decode qgisVersion entries =
        ((entries.filter (admissible t decode running)).map Entry.name, none) ↔
      ∀ e ∈ entries, Discoverable t decode e := by
  induction entries with
  | nil => exact iff_of_true rfl nofun
  | cons e entries ih =>
    rw [List.forall_mem_cons, ← ih, findPlugins]
    rcases visit_cases hq hmajor decode e with ⟨hdiscoverable, hvisit⟩ | ⟨hnot, err, hvisit⟩
    · rw [hvisit, and_iff_right hdiscoverable]
      cases hadmissible : admissible t decode running e with
      | true =>
        rw [List.filter_cons_of_pos hadmissible]
        simp [Prod.ext_iff]
      | false =>
        rw [List.filter_cons_of_neg (by simp [hadmissible])]
    · rw [hvisit]
      refine iff_of_false ?_ fun h => hnot h.1
      simp

end discovery

def asciiTables : UnicodeTables where
  isSpace c := 9 ≤ c.toNat && c.toNat ≤ 13 || 28 ≤ c.toNat && c.toNat ≤ 32
  decimal c := if c.isDigit then some (c.toNat - 48) else none
  lower := List.map Char.toLower
  space_digit c hc := by
    obtain ⟨hlo, -⟩ := Char.isDigit_iff_toNat.mp hc
    have hzero : '0'.toNat = 48 := rfl
    rw [hzero] at hlo
    simp
    omega
  space_minus := rfl
  decimal_digit c hc := if_pos hc
  decimal_minus := rfl

def asciiDecode (bytes : List UInt8) : Option Str := some (bytes.map fun b => Char.ofNat b.toNat)

-- a server plugin that needs a version
def serverPlugin (minver : String) : Entry where
  name := "foo".toList
  isDir := some true
  isSymlink := some false
  metadataExists := some true
  initExists := some true
  metadata := some (("[general]\nserver=True\nqgisMinimumVersion=" ++ minver ++ "\n").toList.map fun c =>
    UInt8.ofNat c.toNat)

def runningVersion : Str := "3.34.5-Prizren".toList

def current : Version := ⟨3, 34, 5⟩

theorem read_current : Version.read asciiTables (before '-' runningVersion) = some current := by decide

theorem findPlugins_found :
    (Version.read asciiTables (before '-' runningVersion) = some current ∧ 0 ≤ current.major) ∧
      findPlugins asciiTables asciiDecode runningVersion [serverPlugin "3.0"] =
        (([serverPlugin "3.0"].filter (admissible asciiTables asciiDecode current)).map Entry.name, none) := by
  refine ⟨⟨read_current, by decide⟩, (findPlugins_iff read_current (by decide) _).mpr fun e he => ?_⟩
  obtain rfl := List.mem_singleton.mp he
  have hdeclared : declared asciiTables asciiDecode (serverPlugin "3.0") = some (some "3.0".toList, none) := by
    decide
  refine ⟨by decide, by decide, by decide, by decide, fun bounds hbounds => ?_⟩
  obtain rfl := Option.some.inj (hdeclared.symm.trans hbounds)
  refine ⟨fun ver hver _ => ?_, fun ver hver => by cases hver⟩
  obtain rfl := Option.some.inj hver
  decide

theorem unreadable_version_ends_discovery :
    ¬ ∀ (t : UnicodeTables) (decode : List UInt8 → Option Str) (qgisVersion : Str) (running : Version) (entries : List Entry),
      Version.read t (before '-' qgisVersion) = some running → 0 ≤ running.major →
      findPlugins t decode qgisVersion entries = ((entries.filter (admissible t decode running)).map Entry.name, none) := by
  intro h
  have hdiscoverable := (findPlugins_iff read_current (by decide) _).mp
    (h asciiTables asciiDecode runningVersion current [serverPlugin "3.x", serverPlugin "3.0"] read_current (by decide))
  have hdeclared : declared asciiTables asciiDecode (serverPlugin "3.x") = some (some "3.x".toList, none) := by
    decide
  have hread := ((hdiscoverable _ List.mem_cons_self).versions _ hdeclared).1
  exact hread _ rfl (by decide) (by decide)

end Plugins
