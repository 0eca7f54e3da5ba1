import PyQgisServer.Library.Regex

namespace Regex

section reader

-- an item that has a quantifier takes no other
structure Item where
  regex : Regex Char
  quantified : Bool

-- the alternatives that are complete, and the items of the next one, the last one first
structure Frame where
  complete : List (Regex Char)
  items : List Item

def Frame.empty : Frame := ⟨[], []⟩

def Frame.alternatives (f : Frame) : List (Regex Char) := f.complete ++ [seqs (f.items.reverse.map Item.regex)]

inductive Mode where
  | plain
  | escape
  | group
  | extension
  | named
  | nameStart
  | name
  | setStart
  | set (negated : Bool) (read : List Char)
  deriving DecidableEq

-- with the groups that are open around the frame
structure Reader where
  mode : Mode
  frame : Frame
  outer : List Frame

namespace Reader

def init : Reader := ⟨.plain, .empty, []⟩

variable (st : Reader)

def push (r : Regex Char) : Reader := ⟨.plain, { st.frame with items := ⟨r, false⟩ :: st.frame.items }, st.outer⟩

def quantify (f : Regex Char → Regex Char) : Option Reader :=
  match st.frame.items with
  | ⟨r, false⟩ :: items => some { st with frame := { st.frame with items := ⟨f r, true⟩ :: items } }
  | _ => none

def bar : Reader := { st with frame := ⟨st.frame.alternatives, []⟩ }

def openGroup : Reader := ⟨.plain, .empty, st.frame :: st.outer⟩

def closeGroup : Option Reader :=
  match st.outer with
  | [] => none
  | frame :: outer => some (push ⟨.plain, frame, outer⟩ (alts st.frame.alternatives))

end Reader

def dot : Regex Char := chars (· ≠ '\n')

def ranges : List Char → Option (List (Char × Char))
  | [] => some []
  | a :: '-' :: b :: s => if a ≤ b then (ranges s).map ((a, b) :: ·) else none
  | a :: s => (ranges s).map ((a, a) :: ·)

def classOf (negated : Bool) (rs : List (Char × Char)) : Regex Char :=
  chars fun c => negated != rs.any fun r => decide (r.1 ≤ c) && decide (c ≤ r.2)

-- the characters that are not read as themselves
def special : List Char := ['\\', '.', '[', '(', ')', '|', '*', '+', '?', '^', '$', '\x7b']

def stepPlain (st : Reader) : Char → Option Reader
  | '\\' => some { st with mode := .escape }
  | '.' => some (st.push dot)
  | '[' => some { st with mode := .setStart }
  | '(' => some { st with mode := .group }
  | ')' => st.closeGroup
  | '|' => some st.bar
  | '*' => st.quantify star
  | '+' => st.quantify plus
  | '?' => st.quantify opt
  | c => if c ∈ special then none else some (st.push (char c))

def nameChar (c : Char) : Bool := c.isAlphanum || c == '_'

-- none for an error, and for what is not in this fragment of the syntax: anchors, counted and lazy
-- repetitions, back references, flags and assertions, and the classes that are escapes
def step (st : Reader) (c : Char) : Option Reader :=
  match st.mode with
  | .plain => stepPlain st c
  | .escape => if c.isAlphanum then none else some (st.push (char c))
  | .group => if c = '?' then some { st with mode := .extension } else stepPlain st.openGroup c
  | .extension => if c = ':' then some st.openGroup else if c = 'P' then some { st with mode := .named } else none
  | .named => if c = '<' then some { st with mode := .nameStart } else none
  | .nameStart => if nameChar c && !c.isDigit then some { st with mode := .name } else none
  | .name => if c = '>' then some st.openGroup else if nameChar c then some st else none
  | .setStart =>
    if c = '\\' then none
    else if c = '^' then some { st with mode := .set true [] }
    else some { st with mode := .set false [c] }
  | .set negated read =>
    if c = '\\' then none
    else if c = ']' ∧ read ≠ [] then (ranges read.reverse).map fun rs => st.push (classOf negated rs)
    else some { st with mode := .set negated (c :: read) }

def Reader.close (st : Reader) : Option (List (Regex Char)) :=
  if st.mode = .plain ∧ st.outer = [] then some st.frame.alternatives else none

def parse (pattern : List Char) : Option (List (Regex Char)) := (pattern.foldlM step .init).bind Reader.close

end reader

section dot

variable {s : List Char}

theorem mem_star_dot : s ∈ (star dot).lang ↔ '\n' ∉ s := by
  rw [dot, mem_star_chars]
  simp only [decide_eq_true_eq]
  exact ⟨fun h hmem => h _ hmem rfl, fun h c hc hline => h (hline ▸ hc)⟩

theorem mem_plus_dot : s ∈ (plus dot).lang ↔ s ≠ [] ∧ '\n' ∉ s := by
  rw [← mem_star_dot, dot, mem_plus_chars, mem_star_chars]

end dot

section plain

def Plain (text : List Char) : Prop := ∀ c ∈ text, c ∉ special

theorem stepPlain_plain (st : Reader) {c : Char} (hc : c ∉ special) : stepPlain st c = some (st.push (char c)) := by
  unfold stepPlain
  split
  all_goals first
    | exact absurd (by decide) hc
    | exact if_neg hc

theorem foldlM_plain {text : List Char} (h : Plain text) (f : Frame) (outer : List Frame) :
    text.foldlM step ⟨.plain, f, outer⟩ =
      some ⟨.plain, ⟨f.complete, (text.reverse.map fun c => ⟨char c, false⟩) ++ f.items⟩, outer⟩ := by
  induction text generalizing f with
  | nil => rfl
  | cons c text ih =>
    obtain ⟨hc, htext⟩ := List.forall_mem_cons.mp h
    have hstep : step ⟨.plain, f, outer⟩ c = some (Reader.push ⟨.plain, f, outer⟩ (char c)) := stepPlain_plain _ hc
    rw [List.foldlM_cons, hstep]
    refine (ih htext _).trans ?_
    simp

theorem parse_plain {text : List Char} (h : Plain text) :
    parse (text ++ ['.', '*']) = some [seqs (text.map char ++ [star dot])] := by
  have hend (items : List Item) : ['.', '*'].foldlM step ⟨.plain, ⟨[], items⟩, []⟩ =
      some ⟨.plain, ⟨[], ⟨star dot, true⟩ :: items⟩, []⟩ := rfl
  rw [parse, List.foldlM_append, Reader.init, foldlM_plain h, Option.bind_eq_bind, Option.bind_some, Frame.empty, hend]
  simp [Reader.close, Frame.alternatives, Function.comp_def]

end plain

end Regex
