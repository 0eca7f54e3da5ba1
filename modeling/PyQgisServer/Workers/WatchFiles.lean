import PyQgisServer.Library.LastSeen
import PyQgisServer.Library.PyDict

namespace Workers

open LastSeen

inductive Stat (T : Type) where
  | found (mtime : T)
  | notFound
  | error

def Stat.mtime {T : Type} : Stat T → Option T
  | .found mtime => some mtime
  | _ => none

-- os.path.join of a directory and a relative name
def joinPath (path name : String) : String := if path = "" ∨ path.endsWith "/" then path ++ name else path ++ "/" ++ name

structure Surroundings (T : Type) where
  stat : String → Stat T
  restartmon : String
  pluginpath : String
  glob : String → List String

structure Watch (T : Type) where
  modifyTimes : PyDict String T
  watchFiles : List String

structure Turn (T : Type) where
  surroundings : Surroundings T
  watched : List String
  modified : List String

def Turn.seen {T : Type} (t : Turn T) (path : String) : Option T :=
  if path ∈ t.watched then (t.surroundings.stat path).mtime else none

namespace Watch

variable {T : Type}

def updateFiles (s : Surroundings T) : List String :=
  (if s.restartmon = "" then [] else [s.restartmon]) ++
    if s.pluginpath = "" then [] else s.glob (joinPath s.pluginpath "*/.update-manifest")

structure Watched (log : List (Turn T)) : Prop where
  modified : ∀ newer t older, log = newer ++ t :: older → ∀ p,
    p ∈ t.modified ↔ Changed (t.seen p) (older.map fun u => u.seen p)
  next : ∀ newer u t older, log = newer ++ u :: t :: older →
    u.watched = if t.modified = [] then t.watched else updateFiles t.surroundings

theorem change_reported {log : List (Turn T)} (h : Watched log) {newer mid older : List (Turn T)} {u t : Turn T}
    (hlog : log = newer ++ u :: (mid ++ t :: older)) {p : String} {m n : T} (ht : t.seen p = some m)
    (hu : u.seen p = some n) (hne : m ≠ n) : ∃ v ∈ u :: mid, p ∈ v.modified := by
  obtain ⟨after, x, before, hsplit, hchanged⟩ :=
    exists_changed hne (mid.map fun t => t.seen p) (older.map fun t => t.seen p)
  rw [← hu, ← List.map_cons (f := fun t : Turn T => t.seen p)] at hsplit
  obtain ⟨turns, rest, hturns, rfl, hrest⟩ := List.map_eq_append_iff.mp hsplit
  obtain ⟨v, earlier, rfl, rfl, rfl⟩ := List.map_eq_cons_iff.mp hrest
  refine ⟨v, hturns ▸ by simp, ?_⟩
  have hwhole : log = (newer ++ turns) ++ v :: (earlier ++ t :: older) := by
    rw [hlog, ← List.cons_append, hturns]
    simp
  refine (h.modified _ v _ hwhole p).mpr ?_
  rw [List.map_append, List.map_cons, ht]
  exact hchanged

variable [DecidableEq T]

section checkFile

def checkFile (modifyTimes : PyDict String T) (path : String) (stat : Stat T) : Option String × PyDict String T :=
  match stat with
  | .found modified =>
    match modifyTimes.get? path with
    | none => (none, modifyTimes.set path modified)
    | some time => if time ≠ modified then (some path, modifyTimes.set path modified) else (none, modifyTimes)
  | .notFound => (none, modifyTimes)
  | .error => (none, modifyTimes)

def updateCallback (stat : String → Stat T) : List String → PyDict String T → List String × PyDict String T
  | [], modifyTimes => ([], modifyTimes)
  | path :: watched, modifyTimes =>
    let r := checkFile modifyTimes path (stat path)
    let rest := updateCallback stat watched r.2
    (r.1.toList ++ rest.1, rest.2)

end checkFile

def start (s : Surroundings T) : Watch T := ⟨.empty, updateFiles s⟩

-- the restart is broadcast once, then the files are looked up again
def turn (w : Watch T) (s : Surroundings T) : Watch T × Turn T :=
  let r := updateCallback s.stat w.watchFiles w.modifyTimes
  (⟨r.2, if r.1 = [] then w.watchFiles else updateFiles s⟩, ⟨s, w.watchFiles, r.1⟩)

-- the last turn first
def run (w : Watch T) (log : List (Turn T)) : List (Surroundings T) → Watch T × List (Turn T)
  | [] => (w, log)
  | s :: ss => run (w.turn s).1 ((w.turn s).2 :: log) ss

section updateCallback

variable {stat : String → Stat T}

theorem mem_checkFile (modifyTimes : PyDict String T) (path : String) (s : Stat T) (p : String) :
    (checkFile modifyTimes path s).1 = some p ↔ p = path ∧ Differs (modifyTimes.get? path) s.mtime := by
  cases s with
  | notFound | error => simp [checkFile, Stat.mtime, not_differs_none]
  | found n =>
    rw [checkFile, Stat.mtime]
    cases modifyTimes.get? path with
    | none => simp [none_not_differs]
    | some m =>
      simp only [differs_some]
      split
      · rename_i hne
        simp [hne, eq_comm]
      · rename_i heq
        simp [heq]

theorem get?_checkFile (modifyTimes : PyDict String T) (path : String) (s : Stat T) (p : String) :
    (checkFile modifyTimes path s).2.get? p =
      if p = path then s.mtime.or (modifyTimes.get? p) else modifyTimes.get? p := by
  cases s with
  | notFound | error => simp [checkFile, Stat.mtime]
  | found n =>
    rw [checkFile, Stat.mtime, Option.some_or]
    cases htime : modifyTimes.get? path with
    | none => exact PyDict.get?_set ..
    | some m =>
      simp only
      split
      · exact PyDict.get?_set ..
      · rename_i heq
        split
        · rename_i hp
          rw [hp, htime, not_not.mp heq]
        · rfl

theorem mem_updateCallback (watched : List String) (modifyTimes : PyDict String T) (p : String) :
    p ∈ (updateCallback stat watched modifyTimes).1 ↔
      p ∈ watched ∧ Differs (modifyTimes.get? p) (stat p).mtime := by
  induction watched generalizing modifyTimes with
  | nil => simp [updateCallback]
  | cons path watched ih =>
    rw [updateCallback, List.mem_append, Option.mem_toList, mem_checkFile, ih, get?_checkFile, List.mem_cons]
    rcases eq_or_ne p path with rfl | hne
    · simp [not_differs_or]
    · simp [hne]

theorem get?_updateCallback (watched : List String) (modifyTimes : PyDict String T) (p : String) :
    (updateCallback stat watched modifyTimes).2.get? p =
      (if p ∈ watched then (stat p).mtime else none).or (modifyTimes.get? p) := by
  induction watched generalizing modifyTimes with
  | nil => simp [updateCallback]
  | cons path watched ih =>
    rw [updateCallback, ih, get?_checkFile]
    rcases eq_or_ne p path with rfl | hne
    · rw [if_pos rfl, if_pos List.mem_cons_self]
      split
      · cases (stat p).mtime <;> rfl
      · rfl
    · simp [hne]

end updateCallback

structure Kept (w : Watch T) (log : List (Turn T)) : Prop where
  times : ∀ p, w.modifyTimes.get? p = last (log.map fun t => t.seen p)
  watched : ∀ t older, log = t :: older →
    w.watchFiles = if t.modified = [] then t.watched else updateFiles t.surroundings

theorem turn_kept {w : Watch T} {log : List (Turn T)} (h : Kept w log) (s : Surroundings T) :
    Kept (w.turn s).1 ((w.turn s).2 :: log) where
  times := fun p => by
    have hlast : last (((w.turn s).2 :: log).map fun t => t.seen p) =
        ((w.turn s).2.seen p).or (last (log.map fun t => t.seen p)) := by
      rw [List.map_cons]
      cases (w.turn s).2.seen p <;> rfl
    rw [hlast, ← h.times p]
    exact get?_updateCallback _ _ _
  watched := fun t older heq => by
    obtain ⟨rfl, -⟩ := List.cons.inj heq
    rfl

theorem turn_watched {w : Watch T} {log : List (Turn T)} (h : Kept w log) (hlog : Watched log) (s : Surroundings T) :
    Watched ((w.turn s).2 :: log) where
  modified := fun newer t older heq p => by
    rcases List.cons_eq_append_iff.mp heq with ⟨rfl, hcons⟩ | ⟨newer', rfl, hlater⟩
    · obtain ⟨rfl, rfl⟩ := List.cons.inj hcons.symm
      have hmem : p ∈ (w.turn s).2.modified ↔ p ∈ w.watchFiles ∧ Differs (w.modifyTimes.get? p) (s.stat p).mtime :=
        mem_updateCallback _ _ _
      rw [hmem, Changed, ← h.times p, Turn.seen]
      by_cases hp : p ∈ w.watchFiles
      · have hwatched : p ∈ (w.turn s).2.watched := hp
        rw [if_pos hwatched]
        exact and_iff_right hp
      · have hwatched : p ∉ (w.turn s).2.watched := hp
        rw [if_neg hwatched]
        exact iff_of_false (fun hmem => hp hmem.1) (not_differs_none _)
    · exact hlog.modified newer' t older hlater p
  next := fun newer u t older heq => by
    rcases List.cons_eq_append_iff.mp heq with ⟨rfl, hcons⟩ | ⟨newer', rfl, hlater⟩
    · obtain ⟨rfl, hlog⟩ := List.cons.inj hcons.symm
      exact h.watched t older hlog
    · exact hlog.next newer' u t older hlater

theorem run_watched {w : Watch T} {log : List (Turn T)} (h : Kept w log) (hlog : Watched log)
    (ss : List (Surroundings T)) : Watched (w.run log ss).2 := by
  induction ss generalizing w log with
  | nil => exact hlog
  | cons s ss ih => exact ih (turn_kept h s) (turn_watched h hlog s)

structure Reports (log : List (Turn T)) : Prop extends Watched log where
  lossless : ∀ newer u mid t older, log = newer ++ u :: (mid ++ t :: older) → ∀ p m n, t.seen p = some m →
    u.seen p = some n → m ≠ n → ∃ v ∈ u :: mid, p ∈ v.modified

theorem changes_are_reported (s : Surroundings T) (ss : List (Surroundings T)) :
    Reports ((start s).run [] ss).2 := by
  have hkept : Kept (start s) [] := ⟨fun p => rfl, fun t older h => by cases h⟩
  have hempty : Watched ([] : List (Turn T)) := by
    refine ⟨fun newer t older h => ?_, fun newer u t older h => ?_⟩
    · simp at h
    · simp at h
  have hwatched := run_watched hkept hempty ss
  exact ⟨hwatched, fun newer u mid t older hlog p m n ht hu hne => change_reported hwatched hlog ht hu hne⟩

-- a file that is not there is not looked at: it is put back as it was before, and then changed
example : (((start ⟨fun _ => .found 1, "restart", "", fun _ => []⟩).run []
    [⟨fun _ => .found 1, "restart", "", fun _ => []⟩, ⟨fun _ => .notFound, "restart", "", fun _ => []⟩,
      ⟨fun _ => .found 1, "restart", "", fun _ => []⟩, ⟨fun _ => .found 2, "restart", "", fun _ => []⟩]).2.map
        Turn.modified : List (List String)) = [["restart"], [], [], []] := by
  decide

end Watch

end Workers
