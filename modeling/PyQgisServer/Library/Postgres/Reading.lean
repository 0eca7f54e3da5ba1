import Mathlib.Algebra.Order.Ring.Nat
import PyQgisServer.Library.Postgres.Spelling

namespace Postgres

section lex

variable {d : Dialect}

theorem lexFrom_succ {n : ℕ} {s : Text} {f : Text → Option (List Token)}
    (h : ∀ r : Text, r.length < s.length → lexFrom d n r = f r) : lexFrom d (n + 1) s = match skip s with
    | none => none
    | some [] => some []
    | some (c :: u) => (token d (c :: u)).bind fun x => (f x.2).map (x.1 :: ·) := by
  rw [lexFrom]
  cases hskip : skip s with
  | none => rfl
  | some u =>
    cases u with
    | nil => rfl
    | cons c u =>
      simp only
      cases htoken : token d (c :: u) with
      | none => rfl
      | some x =>
        obtain ⟨t, r⟩ := x
        have hskipped := (skip_suffix hskip).length_le
        have hread := (token_spelled htoken).nonempty.length
        simp only [Option.bind_some]
        rw [h r (by omega)]

theorem lexFrom_enough {m n : ℕ} {s : Text} (hm : s.length < m) (hn : s.length < n) :
    lexFrom d m s = lexFrom d n s := by
  induction m generalizing n s with
  | zero => omega
  | succ m ih =>
    obtain ⟨n, rfl⟩ := Nat.exists_eq_add_of_lt hn
    have hsame : ∀ r : Text, r.length < s.length → lexFrom d m r = lexFrom d (s.length + n) r :=
      fun r hr => ih (by omega) (by omega)
    exact (lexFrom_succ hsame).trans (lexFrom_succ fun _ _ => rfl).symm

theorem lex_eq (s : Text) : lex d s = match skip s with
    | none => none
    | some [] => some []
    | some (c :: u) => (token d (c :: u)).bind fun x => (lex d x.2).map (x.1 :: ·) :=
  lexFrom_succ fun _ hr => lexFrom_enough hr (Nat.lt_succ_self _)

theorem lex_cons {s : Text} {t : Token} {ts : List Token} (h : lex d s = some (t :: ts)) :
    ∃ u r, skip s = some u ∧ token d u = some (t, r) ∧ lex d r = some ts := by
  rw [lex_eq] at h
  split at h
  · cases h
  · cases h
  · rename_i c u hskip
    obtain ⟨⟨t', r⟩, htoken, hrest⟩ := Option.bind_eq_some_iff.mp h
    obtain ⟨ts', hlex, heq⟩ := Option.map_eq_some_iff.mp hrest
    obtain ⟨rfl, rfl⟩ := List.cons.inj heq
    exact ⟨_, r, hskip, htoken, hlex⟩

theorem lex_length {s : Text} {ts : List Token} (h : lex d s = some ts) : (ts.map Token.cost).sum ≤ s.length := by
  induction ts generalizing s with
  | nil => exact Nat.zero_le _
  | cons t ts ih =>
    obtain ⟨u, r, hskip, htoken, hlex⟩ := lex_cons h
    have hskipped := (skip_suffix hskip).length_le
    have hread := (token_spelled htoken).cost.length
    have hrest := ih hlex
    rw [List.map_cons, List.sum_cons]
    omega

end lex

section forward

variable {d : Dialect}

theorem skip_start {c : Char} {s : Text} (hspace : isSpace c = false) (hline : ¬(c = '-' ∧ s.head? = some '-'))
    (hblock : ¬(c = '/' ∧ s.head? = some '*')) : skip (c :: s) = some (c :: s) := by
  cases s with
  | nil => simp [skip, skipFrom, hspace]
  | cons e s =>
    simp only [List.head?_cons, Option.some.injEq] at hline hblock
    simp only [skip, skipFrom, hspace, hline, hblock, Bool.false_eq_true, if_false]

theorem lex_token {c : Char} {s r : Text} {t : Token} (hskip : skip (c :: s) = some (c :: s))
    (htoken : token d (c :: s) = some (t, r)) : lex d (c :: s) = (lex d r).map (t :: ·) := by
  rw [lex_eq, hskip]
  simp only
  rw [htoken]
  rfl

theorem lex_space {c : Char} (h : isSpace c = true) (s : Text) : lex d (c :: s) = lex d s := by
  have hskip : skip (c :: s) = skip s := by
    cases s with
    | nil => simp [skip, skipFrom, h]
    | cons e s => simp [skip, skipFrom, h]
  rw [lex_eq, lex_eq, hskip]

theorem isIdentStart_ne {c : Char} (h : isIdentStart c = true) : isSpace c = false ∧ c ≠ '-' ∧ c ≠ '/' := by
  refine ⟨?_, ?_, ?_⟩
  · by_contra hspace
    simp only [isSpace, isNewline, Bool.not_eq_false, Bool.or_eq_true, beq_iff_eq] at hspace
    rcases hspace with (((rfl | rfl) | rfl | rfl) | rfl) | rfl <;> exact absurd h (by decide)
  · rintro rfl
    exact absurd h (by decide)
  · rintro rfl
    exact absurd h (by decide)

theorem isIdentCont_ne {c : Char} (h : isIdentCont c = true) : c ≠ '\'' ∧ c ≠ '&' := by
  refine ⟨?_, ?_⟩
  · rintro rfl
    exact absurd h (by decide)
  · rintro rfl
    exact absurd h (by decide)

def EndsWord (c : Char) : Prop := isIdentCont c = false ∧ c ≠ '\'' ∧ c ≠ '&'

theorem word_append {w : Text} {e : Char} {r : Text} (hw : ∀ x ∈ w, isIdentCont x = true)
    (he : isIdentCont e = false) : word d (w ++ e :: r) = (wordToken d w, e :: r) := by
  have hnot : ¬ isIdentCont e = true := by simp [he]
  rw [word, List.takeWhile_append_of_pos hw, List.dropWhile_append_of_pos hw, List.takeWhile_cons_of_neg hnot,
    List.dropWhile_cons_of_neg hnot, List.append_nil]

theorem lex_word {w : Text} (hw : IsWord w) {e : Char} (he : EndsWord e) (r : Text) :
    lex d (w ++ e :: r) = (lex d (e :: r)).map (wordToken d w :: ·) := by
  obtain ⟨c, v, rfl, hc, hv⟩ := hw
  obtain ⟨hend, hquote, hamp⟩ := he
  obtain ⟨hspace, hminus, hslash⟩ := isIdentStart_ne hc
  have hall : ∀ x ∈ c :: v, isIdentCont x = true := by
    intro x hx
    rcases List.mem_cons.mp hx with rfl | hx
    · exact isIdentCont_of_start hc
    · exact hv x hx
  have hword := word_append (d := d) (r := r) hall hend
  have htoken : token d (c :: v ++ e :: r) = some (wordToken d (c :: v), e :: r) := by
    rw [← hword, List.cons_append, token, if_pos hc]
    cases v with
    | nil => rw [List.nil_append, named, if_neg hquote, if_neg fun h => hamp h.1]
    | cons q v =>
      obtain ⟨hquote', hamp'⟩ := isIdentCont_ne (hv q List.mem_cons_self)
      rw [List.cons_append, named, if_neg hquote', if_neg fun h => hamp' h.1]
  exact lex_token (skip_start hspace (fun h => hminus h.1) fun h => hslash h.1) htoken

theorem lex_dot {c : Char} (hc : isDigit c = false) (hdot : c ≠ '.') (s : Text) :
    lex d ('.' :: c :: s) = (lex d (c :: s)).map (.self '.' :: ·) := by
  refine lex_token (skip_start (by decide) (by simp) (by simp)) ?_
  have hsymbol : token d ('.' :: c :: s) = symbol '.' (c :: s) := rfl
  rw [hsymbol, symbol, if_neg (by simp [hc]), if_neg (by simp [hdot])]
  rfl

theorem lex_equals {c : Char} (hc : isOpChar c = false) (s : Text) :
    lex d ('=' :: c :: s) = (lex d (c :: s)).map (.self '=' :: ·) := by
  refine lex_token (skip_start (by decide) (by simp) (by simp)) ?_
  have hsymbol : token d ('=' :: c :: s) = symbol '=' (c :: s) := rfl
  have hrun : operatorRun (c :: s) = [] := by
    cases s with
    | nil => simp [operatorRun, hc]
    | cons e s => simp [operatorRun, hc]
  have htext : operatorText '=' (c :: s) = ['='] := by
    have hequals : operatorRun ('=' :: c :: s) = '=' :: operatorRun (c :: s) := rfl
    rw [operatorText, hequals, hrun]
    rfl
  rw [hsymbol, symbol, if_neg (by simp), if_neg (by simp), if_pos (by decide), operator, htext]
  rfl

theorem quoted_plain {q : Char} {v : Text} (h : q ∉ v) : quoted q (v ++ [q]) = some (v, []) := by
  induction v with
  | nil => simp [quoted]
  | cons c v ih =>
    simp only [List.mem_cons, not_or] at h
    have hrest := ih h.2
    cases v with
    | nil => simp [quoted, Ne.symm h.1, push]
    | cons e v =>
      rw [List.cons_append, List.cons_append, quoted, if_neg (Ne.symm h.1), ← List.cons_append, hrest]
      rfl

theorem lex_literal {v : Text} (h : '\'' ∉ v) : lex d ('\'' :: v ++ ['\'']) = some [.str v] := by
  have hliteral : literal (quoted '\'') (v ++ ['\'']) = some (v, []) := by
    rw [literal, List.length_append, List.length_singleton, literalFrom, quoted_plain h]
    rfl
  have htoken : token d ('\'' :: (v ++ ['\''])) = some (.str v, []) := by
    have hcons : token d ('\'' :: (v ++ ['\''])) =
        (literal (quoted '\'') (v ++ ['\''])).map fun x => (.str x.1, x.2) := rfl
    rw [hcons, hliteral]
    rfl
  rw [List.cons_append, lex_token (skip_start (by decide) (by simp) (by simp)) htoken]
  rfl

end forward

end Postgres
