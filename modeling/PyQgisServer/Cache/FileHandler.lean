import PyQgisServer.Cache.Alias

namespace QgsCache

open Urllib Pathlib

def allowedSfx : List Str := [".qgs".toList, ".qgz".toList]

-- is_file() of one path, and what is done where there is no file; none stands for an OSError
def fileOr (isFile : PurePath → Option Bool) (p : PurePath) (otherwise : Except CacheError (Option PurePath)) :
    Except CacheError (Option PurePath) :=
  match isFile p with
  | none => .error .osError
  | some found => if found then .ok (some p) else otherwise

def searchSfx (isFile : PurePath → Option Bool) : List Str → PurePath → Except CacheError (Option PurePath)
  | [], _ => .ok none
  | sfx :: rest, p =>
    match p.withSuffix sfx with
    | none => .error .valueError
    | some p => fileOr isFile p (searchSfx isFile rest p)

def checkFile (isFile : PurePath → Option Bool) (p : PurePath) : Except CacheError (Option PurePath) :=
  if p.isAbsolute = false then .error .valueError
  else if p.suffix ∉ allowedSfx then searchSfx isFile allowedSfx p
  else fileOr isFile p (.ok none)

def firstFile (isFile : PurePath → Option Bool) : List PurePath → Except CacheError (Option PurePath)
  | [] => .ok none
  | p :: rest => fileOr isFile p (firstFile isFile rest)

def candidates (p : PurePath) : List PurePath :=
  if p.suffix ∈ allowedSfx then [p]
  else if p.stem = [] then []
  else allowedSfx.map fun sfx => p.withName (p.stem ++ sfx)

theorem allowedSfx_eq {sfx : Str} (h : sfx ∈ allowedSfx) :
    ∃ e, sfx = '.' :: e ∧ e ≠ [] ∧ '.' ∉ e := by
  simp only [allowedSfx, List.mem_cons, List.not_mem_nil, or_false] at h
  rcases h with rfl | rfl
  · exact ⟨"qgs".toList, rfl, by decide, by decide⟩
  · exact ⟨"qgz".toList, rfl, by decide, by decide⟩

theorem stem_withName {p : PurePath} {s sfx : Str} (hs : s ≠ []) (h : sfx ∈ allowedSfx) :
    (p.withName (s ++ sfx)).stem = s ∧ (p.withName (s ++ sfx)).suffix = sfx := by
  obtain ⟨e, rfl, he, hdot⟩ := allowedSfx_eq h
  simp only [PurePath.stem, PurePath.suffix, PurePath.name_withName, PurePath.stemSuffix_append hs he hdot, and_self]

theorem searchSfx_candidates {isFile : PurePath → Option Bool} {p : PurePath} (hs : p.stem ≠ []) :
    searchSfx isFile allowedSfx p = firstFile isFile (allowedSfx.map fun sfx => p.withName (p.stem ++ sfx)) := by
  have hq : (p.withName (p.stem ++ ".qgs".toList)).stem = p.stem :=
    (stem_withName hs (by decide)).1
  simp only [allowedSfx, searchSfx, PurePath.withSuffix, if_neg hs, hq, PurePath.withName_withName, List.map_cons,
    List.map_nil, firstFile]

theorem checkFile_eq (isFile : PurePath → Option Bool) (p : PurePath) :
    checkFile isFile p =
      if p.isAbsolute = false ∨ p.suffix ∉ allowedSfx ∧ p.stem = [] then .error .valueError
      else firstFile isFile (candidates p) := by
  unfold checkFile candidates
  by_cases ha : p.isAbsolute = false
  · rw [if_pos ha, if_pos (.inl ha)]
  · rw [if_neg ha]
    by_cases hsfx : p.suffix ∈ allowedSfx
    · have hn : ¬(p.isAbsolute = false ∨ p.suffix ∉ allowedSfx ∧ p.stem = []) :=
        fun hc => hc.elim ha fun hc => hc.1 hsfx
      rw [if_neg (not_not.mpr hsfx), if_neg hn, if_pos hsfx, firstFile, firstFile]
    · rw [if_pos hsfx]
      by_cases hs : p.stem = []
      · rw [if_pos (.inr ⟨hsfx, hs⟩)]
        simp [allowedSfx, searchSfx, PurePath.withSuffix, hs]
      · rw [searchSfx_candidates hs, if_neg (by simp [ha, hs]), if_neg hsfx, if_neg hs]

theorem firstFile_only {f : PurePath} {ps : List PurePath} (h : f ∈ ps) :
    firstFile (fun q => some (q = f)) ps = .ok (some f) := by
  induction ps with
  | nil => cases h
  | cons p ps ih =>
    rw [firstFile, fileOr]
    by_cases hp : p = f
    · simp [hp]
    · simpa [hp] using ih ((List.mem_cons.mp h).resolve_left (Ne.symm hp))

theorem firstFile_mem {isFile : PurePath → Option Bool} {f : PurePath} {ps : List PurePath}
    (h : firstFile isFile ps = .ok (some f)) : f ∈ ps := by
  induction ps with
  | nil => cases h
  | cons p ps ih =>
    rw [firstFile, fileOr] at h
    split at h
    · cases h
    · split at h
      · obtain rfl := Option.some.inj (Except.ok.inj h)
        exact List.mem_cons_self
      · exact List.mem_cons_of_mem _ (ih h)

theorem checkFile_only {p f : PurePath} (ha : p.isAbsolute = true) (h : f ∈ candidates p) :
    checkFile (fun q => some (q = f)) p = .ok (some f) := by
  rw [checkFile_eq, if_neg]
  · exact firstFile_only h
  · rintro (hc | ⟨hc, hs⟩)
    · rw [ha] at hc
      cases hc
    · simp [candidates, hc, hs] at h

theorem checkFile_mem {isFile : PurePath → Option Bool} {p f : PurePath} (h : checkFile isFile p = .ok (some f)) :
    f ∈ candidates p := by
  rw [checkFile_eq] at h
  split at h
  · cases h
  · exact firstFile_mem h

theorem checkFile_iff {p f : PurePath} (ha : p.isAbsolute = true) :
    (∃ isFile, checkFile isFile p = .ok (some f)) ↔ f ∈ candidates p := by
  constructor
  · rintro ⟨isFile, h⟩
    exact checkFile_mem h
  · intro h
    exact ⟨_, checkFile_only ha h⟩

section confinement

variable (env : Tables) (m : AliasTable) (key : Str)

def Confined : Prop :=
  ∀ url target base u isFile f, aliased env m key = some (url, target) →
    urlparse env target [] = some base → (resolveAlias env m key).1 = .ok u →
    getProtocolHandler m u.scheme = .ok .file → checkFile isFile (path u.path) = .ok (some f) →
    PurePath.Below (basePath base) f

-- an own URL of the reference is not served, or refused for its path, or all files searched for
-- it lie below the base path; a merged reference does not come back to the base directory itself
def ReadingStays (base : ParseResult) : Reading → Prop
  | .own u =>
    getProtocolHandler m u.scheme = .ok .file → (path u.path).isRelativeTo (basePath base) = true →
      ∀ f ∈ candidates (path u.path), PurePath.Below (basePath base) f
  | .merged u =>
    getProtocolHandler m base.scheme = .ok .file → path u.path = basePath base →
      (basePath base).tail = [] ∨ (basePath base).name = ['.', '.'] ∨
        (basePath base).suffix ∈ allowedSfx

def ReferenceStays : Prop :=
  ∀ url target base r, aliased env m key = some (url, target) → urlparse env target [] = some base →
    reading env (absolute base) (reference base url) = some r → ReadingStays m base r

end confinement

theorem basePath_eq (base : ParseResult) : basePath base = path (absolute base).path := by
  unfold basePath PurePath.joinpath
  rw [if_pos (absolute_path base)]

theorem candidates_tail {p f : PurePath} (h : f ∈ candidates p) :
    f = p ∧ p.suffix ∈ allowedSfx ∨
      p.stem ≠ [] ∧ p.suffix ∉ allowedSfx ∧ ∃ sfx ∈ allowedSfx, f = p.withName (p.stem ++ sfx) := by
  unfold candidates at h
  split at h
  · rename_i hs
    exact .inl ⟨List.mem_singleton.mp h, hs⟩
  · rename_i hs
    split at h
    · cases h
    · rename_i hne
      obtain ⟨sfx, hsfx, rfl⟩ := List.mem_map.mp h
      exact .inr ⟨hne, hs, sfx, hsfx, rfl⟩

theorem length_allowedSfx {sfx : Str} (h : sfx ∈ allowedSfx) : sfx.length = 4 := by
  simp only [allowedSfx, List.mem_cons, List.not_mem_nil, or_false] at h
  rcases h with rfl | rfl
  · rfl
  · rfl

theorem append_sfx_ne_dots {s sfx : Str} (hs : s ≠ []) (h : sfx ∈ allowedSfx) :
    s ++ sfx ≠ ['.', '.'] := by
  intro hc
  have hlen := congrArg List.length hc
  have hpos := List.length_pos_of_ne_nil hs
  simp only [List.length_append, length_allowedSfx h, List.length_cons, List.length_nil] at hlen
  omega

theorem below_of_names {p b f : PurePath} (hrel : p.isRelativeTo b = true) (hne : p ≠ b)
    (hnames : ∀ x ∈ p.tail, x ≠ ['.', '.']) (hf : f ∈ candidates p) : PurePath.Below b f := by
  obtain ⟨hroot, rest, hrest⟩ := PurePath.isRelativeTo_iff.mp hrel
  have hnil : rest ≠ [] := by
    rintro rfl
    obtain ⟨proot, ptail⟩ := p
    obtain ⟨broot, btail⟩ := b
    simp only [List.append_nil] at hroot hrest
    exact hne (by rw [hroot, hrest])
  have hbase : PurePath.collapse b.tail = b.tail :=
    PurePath.collapse_eq_self fun x hx => hnames x (hrest ▸ List.mem_append_left _ hx)
  unfold PurePath.Below PurePath.location
  rw [hbase]
  rcases candidates_tail hf with ⟨rfl, -⟩ | ⟨hstem, -, sfx, hsfx, rfl⟩
  · rw [PurePath.collapse_eq_self hnames, ← hrest]
    exact List.prefix_append _ _
  · have htail : (p.withName (p.stem ++ sfx)).tail = b.tail ++ rest.dropLast ++ [p.stem ++ sfx] := by
      simp only [PurePath.withName, ← hrest, List.dropLast_append_of_ne_nil hnil]
    have hdirs : ∀ x ∈ b.tail ++ rest.dropLast, x ≠ ['.', '.'] := by
      intro x hx
      refine hnames x (hrest ▸ ?_)
      rcases List.mem_append.mp hx with hx | hx
      · exact List.mem_append_left _ hx
      · exact List.mem_append_right _ (List.dropLast_subset _ hx)
    rw [htail, PurePath.collapse_concat _ (append_sfx_ne_dots hstem hsfx),
      PurePath.collapse_eq_self hdirs, List.append_assoc]
    exact List.prefix_append _ _

-- the search for a directory's own name leaves it for a file beside it
theorem candidates_below_named {b : PurePath} {dirs : List Str} {n : Str} (htail : b.tail = dirs ++ [n])
    (hn : n ≠ []) :
    (∀ f ∈ candidates b, PurePath.Below b f) ↔ b.name = ['.', '.'] ∨ b.suffix ∈ allowedSfx := by
  have hname : b.name = n := by simp [PurePath.name, htail]
  have hstem : b.stem ≠ [] := PurePath.stem_ne_nil (hname ▸ hn)
  have hfile (sfx : Str) (hsfx : sfx ∈ allowedSfx) :
      (b.withName (b.stem ++ sfx)).location = PurePath.collapse dirs ++ [b.stem ++ sfx] := by
    simp only [PurePath.location, PurePath.withName, htail, List.dropLast_concat]
    exact PurePath.collapse_concat _ (append_sfx_ne_dots hstem hsfx)
  constructor
  · intro h
    by_contra hc
    obtain ⟨hdots, hsfx⟩ := not_or.mp hc
    have hqgs : ".qgs".toList ∈ allowedSfx := by decide
    have hbelow := h (b.withName (b.stem ++ ".qgs".toList)) (by
      simp only [candidates, if_neg hsfx, if_neg hstem]
      exact List.mem_map.mpr ⟨_, hqgs, rfl⟩)
    unfold PurePath.Below at hbelow
    rw [hfile _ hqgs, PurePath.location, htail, PurePath.collapse_concat _ (hname ▸ hdots)] at hbelow
    have heq := hbelow.eq_of_length (by simp)
    have hn : n = b.stem ++ ".qgs".toList := by simpa using heq
    have hsuffix : b.suffix = (b.withName (b.stem ++ ".qgs".toList)).suffix := by
      simp only [PurePath.suffix, PurePath.name_withName, hname, ← hn]
    rw [(stem_withName hstem hqgs).2] at hsuffix
    exact hsfx (hsuffix ▸ hqgs)
  · rintro (hdots | hsfx) f hf
    · rcases candidates_tail hf with ⟨rfl, -⟩ | ⟨-, -, sfx, hsfx, rfl⟩
      · exact List.prefix_rfl
      · unfold PurePath.Below
        have hloc : b.location = (PurePath.collapse dirs).dropLast := by
          rw [← hname, hdots] at htail
          simp [PurePath.location, htail, PurePath.collapse, List.foldl_append]
        rw [hfile sfx hsfx, hloc]
        exact (List.dropLast_prefix _).trans (List.prefix_append _ _)
    · simp only [candidates, if_pos hsfx, List.mem_singleton] at hf
      subst hf
      exact List.prefix_rfl

theorem candidates_below_self {b : PurePath} (hnil : ∀ x ∈ b.tail, x ≠ []) :
    (∀ f ∈ candidates b, PurePath.Below b f) ↔
      b.tail = [] ∨ b.name = ['.', '.'] ∨ b.suffix ∈ allowedSfx := by
  rcases List.eq_nil_or_concat b.tail with htail | ⟨dirs, n, htail⟩
  · have hname : b.name = [] := by simp [PurePath.name, htail]
    have hs : b.stem = [] := by
      unfold PurePath.stem
      rw [hname]
      decide
    have hsfx : b.suffix ∉ allowedSfx := by
      unfold PurePath.suffix
      rw [hname]
      decide
    simp [htail, candidates, hs, hsfx]
  · rw [List.concat_eq_append] at htail
    have hne : b.tail ≠ [] := by simp [htail]
    rw [candidates_below_named htail (hnil n (by simp [htail]))]
    simp only [hne, false_or]

theorem merged_below {env : Tables} {base u : ParseResult} {ref : Str}
    (hr : reading env (absolute base) ref = some (.merged u))
    (hrel : (path u.path).isRelativeTo (basePath base) = true) :
    (∀ f ∈ candidates (path u.path), PurePath.Below (basePath base) f) ↔
      (path u.path = basePath base → (basePath base).tail = [] ∨ (basePath base).name = ['.', '.'] ∨
        (basePath base).suffix ∈ allowedSfx) := by
  have hself := candidates_below_self (b := basePath base) (by
    rw [basePath_eq]
    exact path_tail_ne_nil)
  by_cases heq : path u.path = basePath base
  · rw [heq, hself]
    exact ⟨fun h _ => h, fun h => h rfl⟩
  · refine ⟨fun _ hc => absurd hc heq, fun _ f hf => below_of_names hrel heq ?_ hf⟩
    obtain ⟨-, -, hpath | hnames⟩ := reading_merged (absolute_path base) hr
    · rw [basePath_eq, hpath] at heq
      exact absurd rfl heq
    · intro x hx
      simp only [path, List.mem_filter] at hx
      have := hnames x hx.1
      simp only [dots, List.mem_cons, not_or] at this
      exact this.2.1

theorem confined_iff {env : Tables} {m : AliasTable} {key : Str} {url : ParseResult} {target : Str}
    (ht : aliased env m key = some (url, target)) (hp : ¬ pathField <:+: target) :
    Confined env m key ↔ ReferenceStays env m key := by
  have habs {u : ParseResult} {base : ParseResult}
      (hrel : (path u.path).isRelativeTo (basePath base) = true) : (path u.path).isAbsolute = true := by
    have hb : (basePath base).isAbsolute = true := by
      rw [basePath_eq]
      exact path_absolute (absolute_path base)
    rw [PurePath.isAbsolute, (PurePath.isRelativeTo_iff.mp hrel).1]
    exact hb
  have hok (base : ParseResult) (hb : urlparse env target [] = some base) (r : Reading)
      (hr : reading env (absolute base) (reference base url) = some r)
      (hrel : (path r.url.path).isRelativeTo (basePath base) = true) :
      (resolveAlias env m key).1 = .ok r.url := by
    rw [resolveAlias_aliased ht, resolve_ok hp]
    exact ⟨base, r, hb, hr, rfl, hrel⟩
  constructor
  · intro h url' target' base r ha hb hr
    obtain ⟨rfl, rfl⟩ := Prod.mk.inj (Option.some.inj (ht.symm.trans ha))
    have hall (hserved : getProtocolHandler m r.url.scheme = .ok .file)
        (hrel : (path r.url.path).isRelativeTo (basePath base) = true) :
        ∀ f ∈ candidates (path r.url.path), PurePath.Below (basePath base) f := by
      intro f hf
      obtain ⟨isFile, hopen⟩ := (checkFile_iff (habs hrel)).mpr hf
      exact h url target base r.url isFile f ht hb (hok base hb r hr hrel) hserved hopen
    cases r with
    | own u => exact hall
    | merged u =>
      intro hserved heq
      have hscheme := (reading_merged (absolute_path base) hr).1.trans (absolute_eq base).1
      have hrel : (path u.path).isRelativeTo (basePath base) = true := by
        rw [heq]
        exact PurePath.isRelativeTo_iff.mpr ⟨rfl, List.prefix_rfl⟩
      exact (merged_below hr hrel).mp (hall (by rw [← hserved]; exact congrArg _ hscheme) hrel) heq
  · intro h url' target' base u isFile f ha hb hres hserved hopen
    obtain ⟨rfl, rfl⟩ := Prod.mk.inj (Option.some.inj (ht.symm.trans ha))
    rw [resolveAlias_aliased ht, resolve_ok hp] at hres
    obtain ⟨base', r, hb', hr, rfl, hrel⟩ := hres
    obtain rfl := Option.some.inj (hb.symm.trans hb')
    have hf := (checkFile_iff (habs hrel)).mp ⟨isFile, hopen⟩
    have hstays := h url target base r ht hb hr
    cases r with
    | own u => exact hstays hserved hrel f hf
    | merged u =>
      have hscheme := (reading_merged (absolute_path base) hr).1.trans (absolute_eq base).1
      have hserved' : getProtocolHandler m base.scheme = .ok .file := by
        rw [← hserved]
        exact congrArg _ hscheme.symm
      exact (merged_below hr hrel).mpr (hstays hserved') f hf

theorem confined_of_name : Confined asciiTables srvTable "sub/x".toList := by
  refine (confined_iff aliased_sub (by decide)).mpr ?_
  intro url target base r ha hb hr
  obtain ⟨rfl, rfl⟩ := Prod.mk.inj (Option.some.inj (aliased_sub.symm.trans ha))
  obtain rfl := Option.some.inj (srvTarget_base.symm.trans hb)
  obtain rfl := Option.some.inj (reading_sub.symm.trans hr)
  intro _ heq
  exact absurd heq (by decide)

-- the path of the key reads as host 'h' and path '/srv/../etc/x'
theorem key_leaves_base :
    ¬ ∀ (env : Tables) (m : AliasTable) (key : Str) (url : ParseResult) (target : Str)
      (base : ParseResult), aliased env m key = some (url, target) → ¬ pathField <:+: target →
      urlparse env target [] = some base → base.path.getLast? = some '/' → Confined env m key := by
  intro h
  have ht : aliased asciiTables srvTable "////h/srv/../etc/x".toList =
      some (⟨⟨[], [], "//h/srv/../etc/x".toList, [], []⟩, []⟩, srvTarget) := by decide
  have hok : (resolveAlias asciiTables srvTable "////h/srv/../etc/x".toList).1 =
      .ok ⟨⟨"file".toList, ['h'], "/srv/../etc/x".toList, [], []⟩, []⟩ := by decide
  have hopen : checkFile (fun p => some (p = path "/srv/../etc/x.qgs".toList))
      (path "/srv/../etc/x".toList) = .ok (some (path "/srv/../etc/x.qgs".toList)) := by
    decide
  have hbelow := h asciiTables srvTable _ _ _ srvBase ht (by decide) srvTarget_base (by decide)
    _ _ srvBase _ _ _ ht srvTarget_base hok (by decide) hopen
  exact absurd hbelow (by decide)

end QgsCache
