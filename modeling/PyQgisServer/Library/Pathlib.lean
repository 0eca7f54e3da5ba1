import PyQgisServer.Library.Urllib.Join

namespace Pathlib

open Urllib

structure PurePath where
  root : Str
  tail : List Str
  deriving DecidableEq

def splitRoot (p : Str) : Str :=
  match p with
  | '/' :: '/' :: '/' :: _ => ['/']
  | '/' :: '/' :: _ => ['/', '/']
  | '/' :: _ => ['/']
  | _ => []

def path (p : Str) : PurePath :=
  ⟨splitRoot p, (p.splitOn '/').filter fun x => x ≠ [] ∧ x ≠ ['.']⟩

namespace PurePath

def joinpath (p : PurePath) (other : Str) : PurePath :=
  if isAbsolute other then path other else ⟨p.root, p.tail ++ (path other).tail⟩

def isAbsolute (p : PurePath) : Bool := p.root ≠ []

def isRelativeTo (p other : PurePath) : Bool := p.root = other.root && other.tail.isPrefixOf p.tail

def str (p : PurePath) : Str :=
  let s := p.root ++ ['/'].intercalate p.tail
  if s = [] then ['.'] else s

def name (p : PurePath) : Str := p.tail.getLast?.getD []

def stemSuffix (name : Str) : Str × Str :=
  let ext := name.rtakeWhile (· != '.')
  let head := name.rdropWhile (· != '.')
  if 1 < head.length ∧ ext ≠ [] then (head.dropLast, '.' :: ext) else (name, [])

def suffix (p : PurePath) : Str := (stemSuffix p.name).2

def stem (p : PurePath) : Str := (stemSuffix p.name).1

def withName (p : PurePath) (name : Str) : PurePath := ⟨p.root, p.tail.dropLast ++ [name]⟩

-- none stands for ValueError: the path has an empty name
def withSuffix (p : PurePath) (suffix : Str) : Option PurePath :=
  if p.stem = [] then none else some (p.withName (p.stem ++ suffix))

theorem stemSuffix_append {s e : Str} (hs : s ≠ []) (he : e ≠ []) (hdot : '.' ∉ e) :
    stemSuffix (s ++ '.' :: e) = (s, '.' :: e) := by
  have hall := cut_off (mt List.mem_reverse.mp hdot)
  have hrev : (s ++ '.' :: e).reverse = e.reverse ++ '.' :: s.reverse := by simp
  have hext : (s ++ '.' :: e).rtakeWhile (· != '.') = e := by
    rw [List.rtakeWhile, hrev, List.takeWhile_append_of_pos hall]
    simp
  have hhead : (s ++ '.' :: e).rdropWhile (· != '.') = s ++ ['.'] := by
    rw [List.rdropWhile, hrev, List.dropWhile_append_of_pos hall]
    simp
  have hlen : 1 < (s ++ ['.']).length := by
    have := List.length_pos_of_ne_nil hs
    simp only [List.length_append, List.length_singleton]
    omega
  unfold stemSuffix
  simp only [hext, hhead]
  rw [if_pos ⟨hlen, he⟩, List.dropLast_concat]

theorem stem_append_suffix (p : PurePath) : p.stem ++ p.suffix = p.name := by
  unfold stem suffix stemSuffix
  simp only
  split
  · rename_i hext
    have hne : p.name.rdropWhile (· != '.') ≠ [] := List.ne_nil_of_length_pos (by omega)
    have hdot : (p.name.rdropWhile (· != '.')).getLast hne = '.' := by
      simpa using List.rdropWhile_last_not (· != '.') p.name hne
    have hhead := List.dropLast_concat_getLast hne
    rw [hdot] at hhead
    calc (p.name.rdropWhile (· != '.')).dropLast ++ '.' :: p.name.rtakeWhile (· != '.')
      _ = ((p.name.rdropWhile (· != '.')).dropLast ++ ['.']) ++ p.name.rtakeWhile (· != '.') := by
        rw [List.append_assoc, List.singleton_append]
      _ = p.name.rdropWhile (· != '.') ++ p.name.rtakeWhile (· != '.') := by rw [hhead]
      _ = p.name := List.rdropWhile_append_rtakeWhile ..
  · exact List.append_nil _

theorem suffix_cases (p : PurePath) :
    p.suffix = [] ∨ ∃ e, p.suffix = '.' :: e ∧ e ≠ [] ∧ '.' ∉ e ∧ p.stem ≠ [] := by
  unfold stem suffix stemSuffix
  simp only
  split
  · rename_i hext
    refine .inr ⟨_, rfl, hext.2, fun hdot => ?_, List.ne_nil_of_length_pos ?_⟩
    · have hnot := List.mem_rtakeWhile_imp hdot
      simp at hnot
    · rw [List.length_dropLast]
      omega
  · exact .inl rfl

theorem name_withName (p : PurePath) (n : Str) : (p.withName n).name = n := by
  simp [name, withName]

theorem withName_withName (p : PurePath) (m n : Str) : (p.withName m).withName n = p.withName n := by
  simp [withName]

theorem withName_name {p : PurePath} (h : p.name ≠ []) : p.withName p.name = p := by
  obtain ⟨root, tail⟩ := p
  rcases List.eq_nil_or_concat tail with rfl | ⟨dirs, n, rfl⟩
  · exact absurd rfl h
  · simp [withName, name]

theorem withName_inj {p q : PurePath} {m n : Str} :
    p.withName m = q.withName n ↔ p.root = q.root ∧ p.tail.dropLast = q.tail.dropLast ∧ m = n := by
  simp only [withName, PurePath.mk.injEq, List.append_singleton_inj]

theorem stem_ne_nil {p : PurePath} (h : p.name ≠ []) : p.stem ≠ [] := by
  unfold stem stemSuffix
  simp only
  split
  · rename_i hl
    intro hc
    have := congrArg List.length hc
    simp only [List.length_dropLast, List.length_nil] at this
    omega
  · exact h

theorem isRelativeTo_iff {p b : PurePath} :
    p.isRelativeTo b = true ↔ p.root = b.root ∧ b.tail <+: p.tail := by
  simp [isRelativeTo]

-- the directories the operating system walks through, without symbolic links
def collapse (names : List Str) : List Str :=
  names.foldl (fun acc x => if x = ['.', '.'] then acc.dropLast else acc ++ [x]) []

def location (p : PurePath) : List Str := collapse p.tail

def Below (base p : PurePath) : Prop := base.location <+: p.location

instance (base p : PurePath) : Decidable (Below base p) := by unfold Below; infer_instance

theorem collapse_concat (l : List Str) {x : Str} (hx : x ≠ ['.', '.']) :
    collapse (l ++ [x]) = collapse l ++ [x] := by
  simp [collapse, List.foldl_append, hx]

theorem collapse_eq_self {l : List Str} (h : ∀ x ∈ l, x ≠ ['.', '.']) : collapse l = l := by
  induction l using List.reverseRecOn with
  | nil => rfl
  | append_singleton l x ih =>
    rw [collapse_concat l (h x (by simp)), ih fun y hy => h y (by simp [hy])]

end PurePath

theorem path_absolute {p : Str} (h : isAbsolute p = true) : (path p).isAbsolute = true := by
  cases p with
  | nil => cases h
  | cons c p =>
    simp only [isAbsolute, List.head?_cons, beq_iff_eq, Option.some.injEq] at h
    subst h
    have hroot : splitRoot ('/' :: p) ≠ [] := by
      unfold splitRoot
      split <;> simp_all
    simpa [PurePath.isAbsolute, path] using hroot

theorem path_tail_ne_nil {p : Str} : ∀ x ∈ (path p).tail, x ≠ [] := by
  intro x hx
  simp only [path, List.mem_filter, decide_eq_true_eq] at hx
  exact hx.2.1

end Pathlib
