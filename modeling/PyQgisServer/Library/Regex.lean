import Mathlib.Computability.Language

open scoped Computability

inductive Regex (A : Type) where
  | zero
  | epsilon
  | chars (p : A → Bool)
  | alt (r s : Regex A)
  | seq (r s : Regex A)
  | star (r : Regex A)

namespace Regex

variable {A : Type}

instance : Add (Regex A) := ⟨alt⟩

instance : Append (Regex A) := ⟨seq⟩

def lang : Regex A → Language A
  | zero => 0
  | epsilon => 1
  | chars p => {s | ∃ a, p a = true ∧ s = [a]}
  | alt r s => r.lang + s.lang
  | seq r s => r.lang * s.lang
  | star r => r.lang∗

section accepts

def nullable : Regex A → Bool
  | zero => false
  | epsilon => true
  | chars _ => false
  | alt r s => r.nullable || s.nullable
  | seq r s => r.nullable && s.nullable
  | star _ => true

def deriv (a : A) : Regex A → Regex A
  | zero => zero
  | epsilon => zero
  | chars p => if p a then epsilon else zero
  | alt r s => alt (r.deriv a) (s.deriv a)
  | seq r s => if r.nullable then alt (seq (r.deriv a) s) (s.deriv a) else seq (r.deriv a) s
  | star r => seq (r.deriv a) (star r)

def accepts : Regex A → List A → Bool
  | r, [] => r.nullable
  | r, a :: s => (r.deriv a).accepts s

variable {l m : Language A} {a : A} {s : List A}

theorem nil_mem_mul : [] ∈ l * m ↔ [] ∈ l ∧ [] ∈ m := by
  rw [Language.mem_mul]
  constructor
  · rintro ⟨x, hx, y, hy, hxy⟩
    obtain ⟨rfl, rfl⟩ := List.append_eq_nil_iff.mp hxy
    exact ⟨hx, hy⟩
  · rintro ⟨hl, hm⟩
    exact ⟨[], hl, [], hm, rfl⟩

theorem cons_mem_mul : a :: s ∈ l * m ↔ (∃ x y, s = x ++ y ∧ a :: x ∈ l ∧ y ∈ m) ∨ [] ∈ l ∧ a :: s ∈ m := by
  rw [Language.mem_mul]
  constructor
  · rintro ⟨x, hx, y, hy, hxy⟩
    cases x with
    | nil => exact .inr ⟨hx, hxy ▸ hy⟩
    | cons b x =>
      obtain ⟨rfl, hs⟩ := List.cons.inj hxy
      exact .inl ⟨x, y, hs.symm, hx, hy⟩
  · rintro (⟨x, y, rfl, hx, hy⟩ | ⟨hl, hm⟩)
    · exact ⟨a :: x, hx, y, hy, rfl⟩
    · exact ⟨[], hl, a :: s, hm, rfl⟩

theorem cons_mem_kstar : a :: s ∈ l∗ ↔ ∃ x y, s = x ++ y ∧ a :: x ∈ l ∧ y ∈ l∗ := by
  constructor
  · rw [Language.mem_kstar_iff_exists_nonempty]
    rintro ⟨words, hwords, hall⟩
    cases words with
    | nil => cases hwords
    | cons w words =>
      obtain ⟨hw, hne⟩ := hall w List.mem_cons_self
      cases w with
      | nil => exact absurd rfl hne
      | cons b w =>
        obtain ⟨rfl, hs⟩ := List.cons.inj hwords
        exact ⟨w, words.flatten, hs, hw,
          Language.join_mem_kstar fun x hx => (hall x (List.mem_cons_of_mem _ hx)).1⟩
  · rintro ⟨x, y, rfl, hx, hy⟩
    obtain ⟨words, rfl, hall⟩ := Language.mem_kstar.mp hy
    exact Language.join_mem_kstar (L := (a :: x) :: words) (List.forall_mem_cons.mpr ⟨hx, hall⟩)

theorem nullable_iff (r : Regex A) : r.nullable = true ↔ [] ∈ r.lang := by
  induction r with
  | zero => simp [nullable, lang]
  | epsilon => simp [nullable, lang]
  | chars p =>
    simp only [nullable, Bool.false_eq_true, false_iff]
    rintro ⟨a, -, ha⟩
    cases ha
  | alt r s ihr ihs => rw [nullable, Bool.or_eq_true, ihr, ihs, lang, Language.mem_add]
  | seq r s ihr ihs => rw [nullable, Bool.and_eq_true, ihr, ihs, lang, nil_mem_mul]
  | star r ih => exact iff_of_true rfl (Language.nil_mem_kstar _)

theorem mem_deriv (r : Regex A) (s : List A) : s ∈ (r.deriv a).lang ↔ a :: s ∈ r.lang := by
  induction r generalizing s with
  | zero => simp [deriv, lang]
  | epsilon => simp [deriv, lang]
  | chars p =>
    rw [deriv]
    split
    · rename_i hp
      constructor
      · intro hs
        exact ⟨a, hp, congrArg _ hs⟩
      · rintro ⟨b, -, hs⟩
        exact (List.cons.inj hs).2
    · rename_i hp
      constructor
      · intro hs
        exact absurd hs (Language.notMem_zero s)
      · rintro ⟨b, hb, hs⟩
        exact absurd ((List.cons.inj hs).1 ▸ hb) hp
  | alt r t ihr iht => rw [deriv, lang, lang, Language.mem_add, Language.mem_add, ihr, iht]
  | seq r t ihr iht =>
    have hseq : s ∈ ((r.deriv a).seq t).lang ↔ ∃ x y, s = x ++ y ∧ a :: x ∈ r.lang ∧ y ∈ t.lang := by
      rw [lang, Language.mem_mul]
      constructor
      · rintro ⟨x, hx, y, hy, rfl⟩
        exact ⟨x, y, rfl, (ihr x).mp hx, hy⟩
      · rintro ⟨x, y, rfl, hx, hy⟩
        exact ⟨x, (ihr x).mpr hx, y, hy, rfl⟩
    rw [deriv, lang, cons_mem_mul, ← nullable_iff]
    split
    · rename_i hnull
      rw [lang, Language.mem_add, hseq, iht, and_iff_right hnull]
    · rename_i hnull
      rw [hseq, or_iff_left fun h => hnull h.1]
  | star r ih =>
    rw [deriv, lang, lang, cons_mem_kstar, Language.mem_mul]
    constructor
    · rintro ⟨x, hx, y, hy, rfl⟩
      exact ⟨x, y, rfl, (ih x).mp hx, hy⟩
    · rintro ⟨x, y, rfl, hx, hy⟩
      exact ⟨x, (ih x).mpr hx, y, hy, rfl⟩

theorem accepts_iff (r : Regex A) (s : List A) : r.accepts s = true ↔ s ∈ r.lang := by
  induction s generalizing r with
  | nil => exact nullable_iff r
  | cons a s ih => rw [accepts, ih, mem_deriv]

end accepts

section combinators

def char [DecidableEq A] (a : A) : Regex A := chars (· = a)

def opt (r : Regex A) : Regex A := r + epsilon

def plus (r : Regex A) : Regex A := r ++ star r

def seqs : List (Regex A) → Regex A
  | [] => epsilon
  | r :: rs => r ++ seqs rs

def alts : List (Regex A) → Regex A
  | [] => zero
  | r :: rs => r + alts rs

variable {r t : Regex A} {rs : List (Regex A)} {s : List A} {p : A → Bool}

theorem mem_append : s ∈ (r ++ t).lang ↔ ∃ x y, s = x ++ y ∧ x ∈ r.lang ∧ y ∈ t.lang := by
  rw [show (r ++ t).lang = r.lang * t.lang from rfl, Language.mem_mul]
  constructor
  · rintro ⟨x, hx, y, hy, rfl⟩
    exact ⟨x, y, rfl, hx, hy⟩
  · rintro ⟨x, y, rfl, hx, hy⟩
    exact ⟨x, hx, y, hy, rfl⟩

theorem mem_opt : s ∈ (opt r).lang ↔ s ∈ r.lang ∨ s = [] := Iff.rfl

theorem mem_alts : s ∈ (alts rs).lang ↔ ∃ r ∈ rs, s ∈ r.lang := by
  induction rs with
  | nil => exact iff_of_false (Language.notMem_zero s) fun ⟨r, hr, _⟩ => List.not_mem_nil hr
  | cons r rs ih =>
    rw [List.exists_mem_cons_iff, ← ih]
    exact Iff.rfl

theorem mem_seqs_nil : s ∈ (seqs ([] : List (Regex A))).lang ↔ s = [] := Iff.rfl

theorem mem_seqs_cons : s ∈ (seqs (r :: rs)).lang ↔ ∃ x y, s = x ++ y ∧ x ∈ r.lang ∧ y ∈ (seqs rs).lang := mem_append

theorem mem_seqs_singleton : s ∈ (seqs [r]).lang ↔ s ∈ r.lang := by
  rw [mem_seqs_cons]
  constructor
  · rintro ⟨x, y, rfl, hx, rfl⟩
    rwa [List.append_nil]
  · exact fun hs => ⟨s, [], (List.append_nil s).symm, hs, rfl⟩

theorem mem_char [DecidableEq A] {a : A} : s ∈ (char a).lang ↔ s = [a] := by
  constructor
  · rintro ⟨b, hb, rfl⟩
    rw [of_decide_eq_true hb]
  · rintro rfl
    exact ⟨a, decide_eq_true rfl, rfl⟩

theorem mem_seqs_word [DecidableEq A] (word : List A) :
    s ∈ (seqs (word.map char ++ rs)).lang ↔ ∃ y, s = word ++ y ∧ y ∈ (seqs rs).lang := by
  induction word generalizing s with
  | nil => simp
  | cons a word ih =>
    rw [List.map_cons, List.cons_append, mem_seqs_cons]
    constructor
    · rintro ⟨x, y, rfl, hx, hy⟩
      obtain ⟨z, rfl, hz⟩ := ih.mp hy
      exact ⟨z, by rw [mem_char.mp hx]; rfl, hz⟩
    · rintro ⟨z, rfl, hz⟩
      exact ⟨[a], word ++ z, rfl, mem_char.mpr rfl, ih.mpr ⟨z, rfl, hz⟩⟩

theorem mem_word [DecidableEq A] {word : List A} : s ∈ (seqs (word.map char)).lang ↔ s = word := by
  rw [← List.append_nil (word.map char), mem_seqs_word]
  constructor
  · rintro ⟨y, rfl, rfl⟩
    exact List.append_nil word
  · rintro rfl
    exact ⟨[], (List.append_nil s).symm, rfl⟩

theorem mem_star_chars : s ∈ (star (chars p)).lang ↔ ∀ a ∈ s, p a = true := by
  induction s with
  | nil => exact iff_of_true (Language.nil_mem_kstar _) fun a ha => absurd ha List.not_mem_nil
  | cons a s ih =>
    rw [lang] at ih ⊢
    rw [cons_mem_kstar, List.forall_mem_cons, ← ih]
    constructor
    · rintro ⟨x, y, rfl, ⟨b, hb, hx⟩, hy⟩
      obtain ⟨rfl, rfl⟩ := List.cons.inj hx
      exact ⟨hb, hy⟩
    · rintro ⟨ha, hs⟩
      exact ⟨[], s, rfl, ⟨a, ha, rfl⟩, hs⟩

theorem mem_plus_chars : s ∈ (plus (chars p)).lang ↔ s ≠ [] ∧ ∀ a ∈ s, p a = true := by
  rw [plus, mem_append]
  constructor
  · rintro ⟨x, y, rfl, ⟨a, ha, rfl⟩, hy⟩
    exact ⟨List.cons_ne_nil _ _, List.forall_mem_cons.mpr ⟨ha, mem_star_chars.mp hy⟩⟩
  · rintro ⟨hne, hall⟩
    cases s with
    | nil => exact absurd rfl hne
    | cons a s =>
      obtain ⟨ha, hs⟩ := List.forall_mem_cons.mp hall
      exact ⟨[a], s, rfl, ⟨a, ha, rfl⟩, mem_star_chars.mpr hs⟩

end combinators

end Regex
