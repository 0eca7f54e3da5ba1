import PyQgisServer.Library.RegexPattern

namespace RegexMatch

open Regex (seqs opt char)

section compile

-- re.compile of the pattern and a dollar at its end, which would stand in the last alternative only
def compile (pattern : List Char) : Option (Regex Char) :=
  match Regex.parse pattern with
  | some [r] => some r
  | _ => none

-- re.match: the dollar matches before a line break at the end too
def isMatch (r : Regex Char) (s : List Char) : Bool :=
  r.accepts s || s.getLast? == some '\n' && r.accepts s.dropLast

def matchesText (pattern s : List Char) : Bool := (compile pattern).any (isMatch · s)

end compile

section denotes

def Denotes (pattern path : List Char) : Prop := ∃ r, compile pattern = some r ∧ path ∈ r.lang

variable {pattern path word : List Char} {r t : Regex Char}

theorem denotes_iff (hr : compile pattern = some r) : Denotes pattern path ↔ path ∈ r.lang := by
  constructor
  · rintro ⟨t, ht, hpath⟩
    obtain rfl := Option.some.inj (hr.symm.trans ht)
    exact hpath
  · exact fun hpath => ⟨r, hr, hpath⟩

theorem denotes_none (word : List Char) (hcompile : compile pattern = some (seqs (word.map char))) :
    Denotes pattern path ↔ path = word := by
  rw [denotes_iff hcompile, Regex.mem_word]

theorem denotes_one (hcompile : compile pattern = some (seqs (word.map char ++ [r]))) :
    Denotes pattern path ↔ ∃ y, path = word ++ y ∧ y ∈ r.lang := by
  simp only [denotes_iff hcompile, Regex.mem_seqs_word, Regex.mem_seqs_singleton]

theorem denotes_two (hcompile : compile pattern = some (seqs (word.map char ++ [r, t]))) :
    Denotes pattern path ↔ ∃ x y, path = word ++ (x ++ y) ∧ x ∈ r.lang ∧ y ∈ t.lang := by
  rw [denotes_iff hcompile, Regex.mem_seqs_word]
  constructor
  · rintro ⟨z, rfl, hz⟩
    obtain ⟨x, y, rfl, hx, hy⟩ := Regex.mem_seqs_cons.mp hz
    exact ⟨x, y, rfl, hx, Regex.mem_seqs_singleton.mp hy⟩
  · rintro ⟨x, y, rfl, hx, hy⟩
    exact ⟨x ++ y, rfl, Regex.mem_seqs_cons.mpr ⟨x, y, rfl, hx, Regex.mem_seqs_singleton.mpr hy⟩⟩

theorem denotes_slash (hcompile : compile pattern = some (seqs (word.map char ++ [opt (char '/')]))) :
    Denotes pattern path ↔ path = word ∨ path = word ++ ['/'] := by
  simp only [denotes_one hcompile, Regex.mem_opt, Regex.mem_char]
  constructor
  · rintro ⟨y, rfl, rfl | rfl⟩
    · exact .inr rfl
    · exact .inl (List.append_nil word)
  · rintro (rfl | rfl)
    · exact ⟨[], (List.append_nil path).symm, .inr rfl⟩
    · exact ⟨['/'], rfl, .inl rfl⟩

theorem denotes_prefix (hcompile : compile pattern = some (seqs (word.map char ++ [opt (char '/'), .star Regex.dot])))
    (hpath : '\n' ∉ path) : Denotes pattern path ↔ word <+: path := by
  simp only [denotes_two hcompile, Regex.mem_opt, Regex.mem_star_dot]
  constructor
  · rintro ⟨x, y, rfl, -, -⟩
    exact List.prefix_append _ _
  · rintro ⟨y, rfl⟩
    exact ⟨[], y, rfl, .inr rfl, fun hmem => hpath (List.mem_append_right _ hmem)⟩

theorem isMatch_iff (r : Regex Char) (hpath : '\n' ∉ path) : isMatch r path = true ↔ path ∈ r.lang := by
  have hlast : (path.getLast? == some '\n') = false := by
    rw [beq_eq_false_iff_ne]
    exact fun h => hpath (List.mem_of_getLast? h)
  rw [isMatch, hlast, Bool.false_and, Bool.or_false, Regex.accepts_iff]

theorem matchesText_iff (pattern : List Char) (hpath : '\n' ∉ path) :
    matchesText pattern path = true ↔ Denotes pattern path := by
  rw [matchesText, Option.any_eq_true]
  exact exists_congr fun r => and_congr_right fun _ => isMatch_iff r hpath

end denotes

section first

variable {H : Type} {Q : List Char → Prop}

inductive First (Q : List Char → Prop) : List (List Char × H) → Option H → Prop
  | nil : First Q [] none
  | here {x : List Char × H} {handlers : List (List Char × H)} (hx : Q x.1) : First Q (x :: handlers) (some x.2)
  | later {x : List Char × H} {handlers : List (List Char × H)} {h : Option H} (hx : ¬ Q x.1)
      (hrest : First Q handlers h) : First Q (x :: handlers) h

theorem First.exists (Q : List Char → Prop) (handlers : List (List Char × H)) : ∃ h, First Q handlers h := by
  induction handlers with
  | nil => exact ⟨none, .nil⟩
  | cons x handlers ih =>
    by_cases hx : Q x.1
    · exact ⟨some x.2, .here hx⟩
    · obtain ⟨h, hrest⟩ := ih
      exact ⟨h, .later hx hrest⟩

theorem First.congr {R : List Char → Prop} {handlers : List (List Char × H)} {h : Option H}
    (hiff : ∀ pattern, Q pattern ↔ R pattern) (hfirst : First Q handlers h) : First R handlers h := by
  induction hfirst with
  | nil => exact .nil
  | here hx => exact .here ((hiff _).mp hx)
  | later hx _ ih => exact .later (mt (hiff _).mpr hx) ih

theorem First.find? {p : List Char → Bool} {handlers : List (List Char × H)} {h : Option H}
    (hfirst : First (p · = true) handlers h) : (handlers.find? (p ·.1)).map Prod.snd = h := by
  induction hfirst with
  | nil => rfl
  | here hx =>
    rw [List.find?_cons, hx]
    rfl
  | later hx _ ih =>
    rw [List.find?_cons, Bool.eq_false_iff.mpr hx]
    exact ih

theorem First.append {own rest : List (List Char × H)} {h : Option H}
    (hfirst : First Q (own ++ rest) h) :
    (∃ x ∈ own, Q x.1 ∧ some x.2 = h) ∨ (∀ x ∈ own, ¬ Q x.1) ∧ First Q rest h := by
  induction own with
  | nil => exact .inr ⟨fun x hx => absurd hx List.not_mem_nil, hfirst⟩
  | cons x own ih =>
    cases hfirst with
    | here hx => exact .inl ⟨x, List.mem_cons_self, hx, rfl⟩
    | later hx hrest =>
      rcases ih hrest with ⟨y, hy, hQ, heq⟩ | ⟨hall, hrest⟩
      · exact .inl ⟨y, List.mem_cons_of_mem _ hy, hQ, heq⟩
      · exact .inr ⟨List.forall_mem_cons.mpr ⟨hx, hall⟩, hrest⟩

end first

end RegexMatch
