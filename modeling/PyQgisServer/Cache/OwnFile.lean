import PyQgisServer.Cache.FileHandler

namespace QgsCache

open Urllib Pathlib

def HasSfx (p : PurePath) : Prop := ∃ sfx ∈ allowedSfx, sfx <:+ p.name

instance (p : PurePath) : Decidable (HasSfx p) := inferInstanceAs (Decidable (∃ sfx ∈ allowedSfx, sfx <:+ p.name))

def appended (p : PurePath) (sfx : Str) : PurePath := p.withName (p.name ++ sfx)

structure OpensOwn (p : PurePath) : Prop where
  itself : HasSfx p → ∀ isFile f, checkFile isFile p = .ok (some f) → f = p
  suffixed : ¬ HasSfx p → ∀ isFile f, checkFile isFile p = .ok (some f) → ∃ sfx ∈ allowedSfx, f = appended p sfx
  found : ¬ HasSfx p → ∀ isFile, isFile (appended p ".qgs".toList) = some true →
    checkFile isFile p = .ok (some (appended p ".qgs".toList))

def OpensApart (p q : PurePath) : Prop :=
  p ≠ q → ¬ HasSfx p → ¬ HasSfx q →
    ∀ isFile f, checkFile isFile p = .ok (some f) → checkFile isFile q ≠ .ok (some f)

def OwnName (name : Str) : Prop :=
  name ∉ allowedSfx ∧ ∀ s e, name = s ++ '.' :: e → s ≠ [] → e ≠ [] → '.' ∉ e → '.' :: e ∈ allowedSfx

def ApartName (p q : PurePath) : Prop :=
  p ≠ q → ¬ HasSfx p → ¬ HasSfx q → p.withSuffix [] ≠ q.withSuffix []

section names

variable {p q : PurePath}

theorem suffix_of_name (h : p.name ∈ allowedSfx) : p.suffix = [] := by
  rw [PurePath.suffix]
  simp only [allowedSfx, List.mem_cons, List.not_mem_nil, or_false] at h
  rcases h with h | h
  · rw [h]
    decide
  · rw [h]
    decide

theorem hasSfx_iff : HasSfx p ↔ p.suffix ∈ allowedSfx ∨ p.name ∈ allowedSfx := by
  constructor
  · rintro ⟨sfx, hsfx, s, hs⟩
    by_cases hnil : s = []
    · right
      rw [hnil, List.nil_append] at hs
      exact hs ▸ hsfx
    · left
      obtain ⟨e, rfl, he, hdot⟩ := allowedSfx_eq hsfx
      rw [PurePath.suffix, ← hs, PurePath.stemSuffix_append hnil he hdot]
      exact hsfx
  · rintro (h | h)
    · exact ⟨p.suffix, h, p.stem, p.stem_append_suffix⟩
    · exact ⟨p.name, h, List.suffix_refl _⟩

theorem ownName_iff : OwnName p.name ↔ p.name ∉ allowedSfx ∧ (p.suffix = [] ∨ p.suffix ∈ allowedSfx) := by
  refine and_congr_right fun _ => ?_
  constructor
  · intro h
    rcases p.suffix_cases with hnil | ⟨e, hsuffix, he, hdot, hs⟩
    · exact .inl hnil
    · right
      rw [hsuffix]
      refine h p.stem e ?_ hs he hdot
      rw [← hsuffix, p.stem_append_suffix]
  · intro h s e hname hs he hdot
    have hsuffix : p.suffix = '.' :: e := by
      rw [PurePath.suffix, hname, PurePath.stemSuffix_append hs he hdot]
    rw [hsuffix] at h
    exact h.resolve_left (List.cons_ne_nil _ _)

theorem stem_eq_name (h : p.suffix = []) : p.stem = p.name := by
  rw [← p.stem_append_suffix, h, List.append_nil]

theorem mem_candidates {f : PurePath} (hsfx : p.suffix ∉ allowedSfx) (hname : p.name ≠ []) :
    f ∈ candidates p ↔ ∃ sfx ∈ allowedSfx, f = p.withName (p.stem ++ sfx) := by
  rw [candidates, if_neg hsfx, if_neg (PurePath.stem_ne_nil hname), List.mem_map]
  exact exists_congr fun sfx => and_congr_right fun _ => eq_comm

end names

section own

variable {p q : PurePath}

theorem checkFile_first {isFile : PurePath → Option Bool} (ha : p.isAbsolute = true) (hname : p.name ≠ [])
    (hsfx : p.suffix ∉ allowedSfx) (hfile : isFile (p.withName (p.stem ++ ".qgs".toList)) = some true) :
    checkFile isFile p = .ok (some (p.withName (p.stem ++ ".qgs".toList))) := by
  have hs := PurePath.stem_ne_nil hname
  rw [checkFile_eq, if_neg (by simp [ha, hs]), candidates, if_neg hsfx, if_neg hs, allowedSfx, List.map_cons,
    firstFile, fileOr, hfile]
  rfl

theorem ownName_of_opensOwn (ha : p.isAbsolute = true) (hname : p.name ≠ []) (h : OpensOwn p) : OwnName p.name := by
  rw [ownName_iff]
  by_cases hsfx : p.suffix ∈ allowedSfx
  · refine ⟨fun hn => ?_, .inr hsfx⟩
    rw [suffix_of_name hn] at hsfx
    exact absurd hsfx (by decide)
  · have hqgs : ".qgs".toList ∈ allowedSfx := by decide
    have hs := PurePath.stem_ne_nil hname
    have hopen := checkFile_only ha ((mem_candidates hsfx hname).mpr ⟨_, hqgs, rfl⟩)
    have hnot : ¬ HasSfx p := by
      intro hhas
      have hself := h.itself hhas _ _ hopen
      have hsuffix := (stem_withName (p := p) hs hqgs).2
      rw [hself] at hsuffix
      exact hsfx (hsuffix ▸ hqgs)
    obtain ⟨sfx, hallowed, hf⟩ := h.suffixed hnot _ _ hopen
    obtain ⟨-, -, hnames⟩ := PurePath.withName_inj.mp hf
    refine ⟨fun hn => hnot (hasSfx_iff.mpr (.inr hn)), .inl ?_⟩
    rw [← p.stem_append_suffix, List.append_assoc] at hnames
    have hlen := congrArg List.length (List.append_cancel_left hnames)
    rw [List.length_append, length_allowedSfx hqgs, length_allowedSfx hallowed] at hlen
    exact List.eq_nil_of_length_eq_zero (by omega)

theorem opensOwn_of_ownName (ha : p.isAbsolute = true) (hname : p.name ≠ []) (h : OwnName p.name) : OpensOwn p := by
  obtain ⟨hn, hsuffix⟩ := ownName_iff.mp h
  rcases hsuffix with hnil | hsfx
  · have hsfx : p.suffix ∉ allowedSfx := by
      rw [hnil]
      decide
    have hnot : ¬ HasSfx p := fun hhas => (hasSfx_iff.mp hhas).elim hsfx hn
    have happended : ∀ sfx, appended p sfx = p.withName (p.stem ++ sfx) := by
      intro sfx
      rw [appended, stem_eq_name hnil]
    refine ⟨fun hhas => absurd hhas hnot, fun _ isFile f hopen => ?_, fun _ isFile hfile => ?_⟩
    · simp only [happended]
      exact (mem_candidates hsfx hname).mp (checkFile_mem hopen)
    · rw [happended] at hfile ⊢
      exact checkFile_first ha hname hsfx hfile
  · have hhas : HasSfx p := hasSfx_iff.mpr (.inl hsfx)
    refine ⟨fun _ isFile f hopen => ?_, fun hnot => absurd hhas hnot, fun hnot => absurd hhas hnot⟩
    have hf := checkFile_mem hopen
    rw [candidates, if_pos hsfx] at hf
    exact List.mem_singleton.mp hf

theorem withSuffix_of_candidates {f : PurePath} (hsfx : p.suffix ∉ allowedSfx) (hname : p.name ≠ [])
    (hf : f ∈ candidates p) : p.withSuffix [] = f.withSuffix [] := by
  obtain ⟨sfx, hallowed, rfl⟩ := (mem_candidates hsfx hname).mp hf
  have hs := PurePath.stem_ne_nil hname
  have hstem := (stem_withName (p := p) hs hallowed).1
  rw [PurePath.withSuffix, PurePath.withSuffix, hstem, if_neg hs, if_neg hs, PurePath.withName_withName]

theorem withSuffix_inj (hname : p.name ≠ []) (hname' : q.name ≠ []) (h : p.withSuffix [] = q.withSuffix []) (sfx : Str) :
    p.withName (p.stem ++ sfx) = q.withName (q.stem ++ sfx) := by
  rw [PurePath.withSuffix, PurePath.withSuffix, if_neg (PurePath.stem_ne_nil hname),
    if_neg (PurePath.stem_ne_nil hname'), List.append_nil, List.append_nil] at h
  obtain ⟨hroot, hdirs, hstem⟩ := PurePath.withName_inj.mp (Option.some.inj h)
  exact PurePath.withName_inj.mpr ⟨hroot, hdirs, by rw [hstem]⟩

theorem opensApart_iff (ha : p.isAbsolute = true) (ha' : q.isAbsolute = true) (hname : p.name ≠ [])
    (hname' : q.name ≠ []) : OpensApart p q ↔ ApartName p q := by
  have hsfx {p : PurePath} (hnot : ¬ HasSfx p) : p.suffix ∉ allowedSfx := fun h => hnot (hasSfx_iff.mpr (.inl h))
  constructor
  · intro h hne hp hq heq
    have hqgs : ".qgs".toList ∈ allowedSfx := by decide
    have hmem := (mem_candidates (hsfx hp) hname).mpr ⟨_, hqgs, rfl⟩
    have hmem' := (mem_candidates (hsfx hq) hname').mpr ⟨_, hqgs, rfl⟩
    rw [← withSuffix_inj hname hname' heq] at hmem'
    exact h hne hp hq _ _ (checkFile_only ha hmem) (checkFile_only ha' hmem')
  · intro h hne hp hq isFile f hopen hopen'
    refine h hne hp hq ?_
    rw [withSuffix_of_candidates (hsfx hp) hname (checkFile_mem hopen),
      withSuffix_of_candidates (hsfx hq) hname' (checkFile_mem hopen')]

theorem apart_of_ownName (hname : p.name ≠ []) (hname' : q.name ≠ []) (h : OwnName p.name) (h' : OwnName q.name) :
    ApartName p q := by
  have hself {p : PurePath} (hname : p.name ≠ []) (h : OwnName p.name) (hnot : ¬ HasSfx p) :
      p.withSuffix [] = some p := by
    have hnil := (ownName_iff.mp h).2.resolve_right fun hsfx => hnot (hasSfx_iff.mpr (.inl hsfx))
    rw [PurePath.withSuffix, if_neg (PurePath.stem_ne_nil hname), stem_eq_name hnil, List.append_nil,
      PurePath.withName_name hname]
  intro hne hp hq heq
  rw [hself hname h hp, hself hname' h' hq] at heq
  exact hne (Option.some.inj heq)

theorem opens_own_file_iff (ha : p.isAbsolute = true) (ha' : q.isAbsolute = true) (hname : p.name ≠ [])
    (hname' : q.name ≠ []) : (OpensOwn p ↔ OwnName p.name) ∧ (OpensApart p q ↔ ApartName p q) :=
  ⟨⟨ownName_of_opensOwn ha hname, opensOwn_of_ownName ha hname⟩, opensApart_iff ha ha' hname hname'⟩

end own

def partsPath : PurePath := path "/srv/france_parts".toList

def qgzPath : PurePath := path "/srv/france_parts_qgz".toList

theorem opens_own_file_parts :
    (partsPath.isAbsolute = true ∧ qgzPath.isAbsolute = true ∧ partsPath.name ≠ [] ∧ qgzPath.name ≠ []) ∧
      OpensOwn partsPath ∧ OpensApart partsPath qgzPath := by
  have hparts : OwnName partsPath.name := ownName_iff.mpr (by decide)
  have hqgz : OwnName qgzPath.name := ownName_iff.mpr (by decide)
  have hne : partsPath.name ≠ [] := by decide
  have hne' : qgzPath.name ≠ [] := by decide
  obtain ⟨hown, hapart⟩ := opens_own_file_iff (p := partsPath) (q := qgzPath) rfl rfl hne hne'
  exact ⟨⟨rfl, rfl, hne, hne'⟩, hown.mpr hparts, hapart.mpr (apart_of_ownName hne hne' hparts hqgz)⟩

-- the suffix .v1 is replaced, and that of any other version with it
theorem dotted_name_opens_another :
    ¬ ∀ p q : PurePath, p.isAbsolute = true → q.isAbsolute = true → p.name ≠ [] → q.name ≠ [] →
      OpensOwn p ∧ OpensApart p q := by
  intro h
  have hopen : checkFile (fun f => some (f = path "/srv/data.qgs".toList)) (path "/srv/data.v1".toList) =
      .ok (some (path "/srv/data.qgs".toList)) := by decide
  obtain ⟨hown, -⟩ := h (path "/srv/data.v1".toList) (path "/srv/data.v2".toList) rfl rfl (by decide)
    (by decide)
  have hother : ∀ sfx ∈ allowedSfx, path "/srv/data.qgs".toList ≠ appended (path "/srv/data.v1".toList) sfx := by
    decide
  obtain ⟨sfx, hsfx, hf⟩ := hown.suffixed (by decide) _ _ hopen
  exact hother sfx hsfx hf

end QgsCache
