import PyQgisServer.Library.Postgres.Lexer

namespace Postgres

section blanks

theorem skipFrom_suffix {g : Gap} {s r : Text} (h : skipFrom g s = some r) : r <:+ s := by
  fun_induction skipFrom g s with
  | case1 => simp_all
  | case2 => simp_all
  | case3 => simp_all
  | case4 c d s hc ih => exact (ih h).trans (List.suffix_cons c _)
  | case5 c d s hc hd ih => exact (ih h).trans ((List.suffix_cons d s).trans (List.suffix_cons c _))
  | case6 c d s hc hd he ih => exact (ih h).trans ((List.suffix_cons d s).trans (List.suffix_cons c _))
  | case7 => simp_all
  | case8 => simp_all
  | case9 c s hc ih => exact (ih h).trans (List.suffix_cons c s)
  | case10 c s hc ih => exact (ih h).trans (List.suffix_cons c s)
  | case11 => cases h
  | case12 => cases h
  | case13 c d s hc ih => exact (ih h).trans ((List.suffix_cons d s).trans (List.suffix_cons c _))
  | case14 c d s hc n ih => exact (ih h).trans ((List.suffix_cons d s).trans (List.suffix_cons c _))
  | case15 n c d s hc hd ih => exact (ih h).trans ((List.suffix_cons d s).trans (List.suffix_cons c _))
  | case16 n c d s hc hd ih => exact (ih h).trans (List.suffix_cons c _)

theorem skip_suffix {s r : Text} (h : skip s = some r) : r <:+ s := skipFrom_suffix h

end blanks

structure Consumes (n : ℕ) (s r : Text) : Prop where
  suffix : r <:+ s
  length : r.length + n ≤ s.length

namespace Consumes

variable {m n : ℕ} {s r t : Text}

theorem of_suffix (h : r <:+ s) : Consumes 0 s r := ⟨h, h.length_le⟩

theorem refl (s : Text) : Consumes 0 s s := of_suffix (List.suffix_refl s)

theorem cons (c : Char) (s : Text) : Consumes 1 (c :: s) s := ⟨List.suffix_cons c s, Nat.le_refl _⟩

theorem trans (h : Consumes m s t) (h' : Consumes n t r) : Consumes (m + n) s r :=
  ⟨h'.suffix.trans h.suffix, by have := h.length; have := h'.length; omega⟩

theorem mono (h : Consumes n s r) (hle : m ≤ n) : Consumes m s r :=
  ⟨h.suffix, by have := h.length; omega⟩

end Consumes

section literals

theorem continued_consumes {seen comment : Bool} {s r : Text} (h : continued seen comment s = some r) :
    Consumes 1 s r := by
  have hcons : ∀ (c : Char) (t : Text), Consumes 1 t r → Consumes 1 (c :: t) r := fun c t ht =>
    ((Consumes.cons c t).trans ht).mono (by omega)
  fun_induction continued seen comment s with
  | case1 => cases h
  | case2 seen c s hc ih => exact hcons _ _ (ih h)
  | case3 seen c s hc ih => exact hcons _ _ (ih h)
  | case4 seen c hc =>
    obtain rfl := Option.some.inj h
    exact Consumes.cons c []
  | case5 => cases h
  | case6 =>
    obtain rfl := Option.some.inj h
    exact Consumes.cons _ _
  | case7 => cases h
  | case8 seen c d s hc hd ih => exact hcons _ _ (ih h)
  | case9 seen c d s hc hd he ih => exact hcons _ _ (hcons _ _ (ih h))
  | case10 => cases h

theorem quoted_consumes {q : Char} {s v r : Text} (h : quoted q s = some (v, r)) :
    Consumes (v.length + 1) s r ∧ (r.length + (v.length + 1) = s.length → s = v ++ q :: r ∧ q ∉ v) := by
  fun_induction quoted q s generalizing v with
  | case1 => cases h
  | case2 =>
    obtain ⟨rfl, rfl⟩ := Prod.mk.inj (Option.some.inj h)
    exact ⟨Consumes.cons _ _, fun _ => ⟨rfl, List.not_mem_nil⟩⟩
  | case3 => cases h
  | case4 s ih =>
    obtain ⟨⟨u, t⟩, hu, heq⟩ := Option.map_eq_some_iff.mp h
    obtain ⟨rfl, rfl⟩ := Prod.mk.inj heq
    have hread := (ih hu).1
    have htwo := ((Consumes.cons q (q :: s)).trans (Consumes.cons q s)).trans hread
    refine ⟨htwo.mono (by simp only [List.length_cons]; omega), fun hlength => ?_⟩
    have hlong : t.length + (u.length + 1) ≤ s.length := hread.length
    simp only [List.length_cons] at hlength
    omega
  | case5 c d s =>
    obtain ⟨rfl, rfl⟩ := Prod.mk.inj (Option.some.inj h)
    exact ⟨Consumes.cons _ _, fun _ => ⟨rfl, List.not_mem_nil⟩⟩
  | case6 c d s hc ih =>
    obtain ⟨⟨u, t⟩, hu, heq⟩ := Option.map_eq_some_iff.mp h
    obtain ⟨rfl, rfl⟩ := Prod.mk.inj heq
    obtain ⟨hread, hplain⟩ := ih hu
    refine ⟨((Consumes.cons _ _).trans hread).mono (by simp only [List.length_cons]; omega), fun hlength => ?_⟩
    simp only [List.length_cons] at hlength
    obtain ⟨hs, hq⟩ := hplain (by simp only [List.length_cons]; omega)
    exact ⟨by rw [hs]; rfl, by simp [hq, Ne.symm hc]⟩

theorem escaped_consumes {s v r : Text} (h : escaped s = some (v, r)) : Consumes (v.length + 1) s r := by
  fun_induction escaped s generalizing v with
  | case1 => cases h
  | case2 =>
    obtain ⟨rfl, rfl⟩ := Prod.mk.inj (Option.some.inj h)
    exact Consumes.cons _ _
  | case3 => cases h
  | case4 d s ih =>
    obtain ⟨⟨u, t⟩, hu, heq⟩ := Option.map_eq_some_iff.mp h
    obtain ⟨rfl, rfl⟩ := Prod.mk.inj heq
    exact (((Consumes.cons _ _).trans (Consumes.cons _ _)).trans (ih hu)).mono (by simp [push]; omega)
  | case5 s hc ih =>
    obtain ⟨⟨u, t⟩, hu, heq⟩ := Option.map_eq_some_iff.mp h
    obtain ⟨rfl, rfl⟩ := Prod.mk.inj heq
    exact (((Consumes.cons _ _).trans (Consumes.cons _ _)).trans (ih hu)).mono (by simp [push]; omega)
  | case6 d s =>
    obtain ⟨rfl, rfl⟩ := Prod.mk.inj (Option.some.inj h)
    exact Consumes.cons _ _
  | case7 c d s hc hd ih =>
    obtain ⟨⟨u, t⟩, hu, heq⟩ := Option.map_eq_some_iff.mp h
    obtain ⟨rfl, rfl⟩ := Prod.mk.inj heq
    exact ((Consumes.cons _ _).trans (ih hu)).mono (by simp only [List.length_cons]; omega)

theorem literalFrom_consumes {scan : Text → Option (Text × Text)} {n : ℕ} {s v r : Text}
    (hscan : ∀ s v r, scan s = some (v, r) → Consumes (v.length + 1) s r)
    (h : literalFrom scan n s = some (v, r)) : scan s = some (v, r) ∨ Consumes (v.length + 2) s r := by
  induction n generalizing s v with
  | zero => cases h
  | succ n ih =>
    rw [literalFrom] at h
    split at h
    · cases h
    · rename_i u t hs
      split at h
      · rw [← h]
        exact .inl hs
      · rename_i t' hcontinued
        obtain ⟨⟨w, r'⟩, hw, heq⟩ := Option.map_eq_some_iff.mp h
        obtain ⟨rfl, rfl⟩ := Prod.mk.inj heq
        have hrest : Consumes (w.length + 1) t' r' := (ih hw).elim (hscan _ _ _) fun hc => hc.mono (by omega)
        refine .inr ((((hscan _ _ _ hs).trans (continued_consumes hcontinued)).trans hrest).mono ?_)
        simp only [List.length_append]
        omega

theorem literal_consumes {scan : Text → Option (Text × Text)} {s v r : Text}
    (hscan : ∀ s v r, scan s = some (v, r) → Consumes (v.length + 1) s r)
    (h : literal scan s = some (v, r)) : Consumes (v.length + 1) s r :=
  (literalFrom_consumes hscan h).elim (hscan _ _ _) fun hc => hc.mono (by omega)

theorem upTo_consumes {delimiter s v r : Text} (h : upTo delimiter s = some (v, r)) :
    Consumes (v.length + delimiter.length) s r := by
  induction s generalizing v with
  | nil => cases h
  | cons c s ih =>
    rw [upTo] at h
    split at h
    · rename_i hprefix
      obtain ⟨rfl, rfl⟩ := Prod.mk.inj (Option.some.inj h)
      have hlength := (List.isPrefixOf_iff_prefix.mp hprefix).length_le
      refine ⟨List.drop_suffix _ _, ?_⟩
      rw [List.length_drop, List.length_nil]
      omega
    · obtain ⟨⟨u, t⟩, hu, heq⟩ := Option.map_eq_some_iff.mp h
      obtain ⟨rfl, rfl⟩ := Prod.mk.inj heq
      exact ((Consumes.cons _ _).trans (ih hu)).mono (by simp only [List.length_cons]; omega)

theorem uescape_suffix {s r : Text} {c : Char} (h : uescape s = some (c, r)) : r <:+ s := by
  unfold uescape at h
  split at h
  · cases h
  · rename_i t ht
    have hword := (List.dropWhile_suffix isIdentCont).trans (skip_suffix ht)
    split at h
    · split at h
      · rename_i q hq
        split at h
        · rename_i e u hu
          split at h
          · obtain ⟨-, rfl⟩ := Prod.mk.inj (Option.some.inj h)
            have hliteral := literal_consumes (fun s v r hs => (quoted_consumes hs).1) hu
            exact hliteral.suffix.trans ((List.suffix_cons _ _).trans ((skip_suffix hq).trans hword))
          · cases h
        · cases h
      · cases h
    · obtain ⟨-, rfl⟩ := Prod.mk.inj (Option.some.inj h)
      exact List.suffix_refl _

end literals

section token

def Token.cost : Token → ℕ
  | .keyword name => name.length
  | .ident name => name.length
  | .str value => value.length + 2
  | _ => 1

def IsWord (w : Text) : Prop := ∃ c v, w = c :: v ∧ isIdentStart c = true ∧ ∀ x ∈ v, isIdentCont x = true

theorem isWord_iff {w : Text} :
    IsWord w ↔ w.head?.any isIdentStart = true ∧ w.tail.all isIdentCont = true := by
  cases w with
  | nil => simp [IsWord]
  | cons c v => simp [IsWord]

instance : DecidablePred IsWord := fun _ => decidable_of_iff _ isWord_iff.symm

structure Spelled (d : Dialect) (t : Token) (s r : Text) : Prop where
  nonempty : Consumes 1 s r
  cost : Consumes t.cost s r
  ident : ∀ name, t = .ident name → r.length + name.length = s.length →
    ∃ w, s = w ++ r ∧ IsWord w ∧ d.reserved (fold w) = false ∧ name = clip nameSize (fold w)
  str : ∀ value, t = .str value → r.length + (value.length + 2) = s.length →
    s = '\'' :: value ++ '\'' :: r ∧ '\'' ∉ value

namespace Spelled

variable {d : Dialect} {t : Token} {s r : Text}

theorem of_longer (h : Consumes (t.cost + 1) s r) : Spelled d t s r := by
  have hlength := h.length
  refine ⟨h.mono (by omega), h.mono (by omega), fun name ht heq => ?_, fun value ht heq => ?_⟩
  · subst ht
    rw [Token.cost] at hlength
    omega
  · subst ht
    rw [Token.cost] at hlength
    omega

theorem of_other (h : Consumes 1 s r) (hcost : t.cost ≤ 1) (hident : ∀ name, t ≠ .ident name)
    (hstr : ∀ value, t ≠ .str value) : Spelled d t s r :=
  ⟨h, h.mono hcost, fun name ht => absurd ht (hident name), fun value ht => absurd ht (hstr value)⟩

end Spelled

theorem prefix_clip (n : ℕ) (s : Text) : clip n s <+: s := by
  induction s generalizing n with
  | nil => simp [clip]
  | cons c s ih =>
    rw [clip]
    split
    · exact List.cons_prefix_cons.mpr ⟨rfl, ih _⟩
    · exact List.nil_prefix

theorem isIdentCont_of_start {c : Char} (h : isIdentStart c = true) : isIdentCont c = true := by
  simp [isIdentCont, h]

variable {d : Dialect}

theorem wordToken_spelled {w : Text} (hw : IsWord w) (r : Text) : Spelled d (wordToken d w) (w ++ r) r := by
  have hall : Consumes w.length (w ++ r) r := ⟨List.suffix_append w r, by rw [List.length_append]; omega⟩
  have hpos : 1 ≤ w.length := by
    obtain ⟨c, v, rfl, -⟩ := hw
    simp
  rw [wordToken]
  split
  · refine ⟨hall.mono hpos, hall.mono ?_, fun name ht => (by cases ht), fun value ht => (by cases ht)⟩
    rw [Token.cost, fold, List.length_map]
  · rename_i hreserved
    have hclip := (prefix_clip nameSize (fold w)).length_le
    rw [fold, List.length_map, ← fold] at hclip
    refine ⟨hall.mono hpos, hall.mono hclip, fun name ht _ => ?_, fun value ht => (by cases ht)⟩
    exact ⟨w, rfl, hw, by simpa using hreserved, (Token.ident.inj ht).symm⟩

theorem word_spelled {c : Char} {s : Text} (hc : isIdentStart c = true) :
    Spelled d (word d (c :: s)).1 (c :: s) (word d (c :: s)).2 := by
  have htake : (c :: s).takeWhile isIdentCont = c :: s.takeWhile isIdentCont :=
    List.takeWhile_cons_of_pos (isIdentCont_of_start hc)
  have hword : IsWord ((c :: s).takeWhile isIdentCont) :=
    ⟨c, s.takeWhile isIdentCont, htake, hc, fun x hx => List.mem_takeWhile_imp hx⟩
  have hspelled := wordToken_spelled (d := d) hword ((c :: s).dropWhile isIdentCont)
  rw [List.takeWhile_append_dropWhile] at hspelled
  exact hspelled

theorem str_spelled {s v r : Text} (h : literal (quoted '\'') s = some (v, r)) : Spelled d (.str v) ('\'' :: s) r := by
  rcases literalFrom_consumes (fun s v r hs => (quoted_consumes hs).1) h with hs | hlong
  · obtain ⟨hread, hplain⟩ := quoted_consumes hs
    have hall := ((Consumes.cons '\'' s).trans hread)
    refine ⟨hall.mono (by omega), hall.mono (by rw [Token.cost]; omega), fun name ht => (by cases ht), ?_⟩
    rintro value ht hlength
    obtain rfl := Token.str.inj ht
    rw [List.length_cons] at hlength
    obtain ⟨rfl, hquote⟩ := hplain (by omega)
    exact ⟨rfl, hquote⟩
  · exact Spelled.of_longer (((Consumes.cons '\'' s).trans hlong).mono (by rw [Token.cost]; omega))

theorem delimited_consumes {s v r : Text} (h : delimited s = some (v, r)) : Consumes (v.length + 1) s r :=
  (quoted_consumes (Option.filter_eq_some_iff.mp h).1).1

theorem quotedWith_spelled {c : Char} {s r : Text} {t : Token} (hc : isIdentStart c = true)
    (h : quotedWith d c s = some (t, r)) : Spelled d t (c :: '\'' :: s) r := by
  have htwo := (Consumes.cons c ('\'' :: s)).trans (Consumes.cons '\'' s)
  unfold quotedWith at h
  split at h
  · obtain ⟨⟨raw, r'⟩, hraw, hv⟩ := Option.bind_eq_some_iff.mp h
    obtain ⟨v, hunescape, heq⟩ := Option.map_eq_some_iff.mp hv
    obtain ⟨rfl, rfl⟩ := Prod.mk.inj heq
    have hlength : v.length ≤ raw.length := d.unescape_length _ _ hunescape
    have hread := literal_consumes (fun s v r hs => escaped_consumes hs) hraw
    exact Spelled.of_longer ((htwo.trans hread).mono (by rw [Token.cost]; omega))
  · split at h
    · obtain ⟨⟨v, r'⟩, hv, heq⟩ := Option.map_eq_some_iff.mp h
      obtain ⟨rfl, rfl⟩ := Prod.mk.inj heq
      have hread := literal_consumes (fun s v r hs => (quoted_consumes hs).1) hv
      exact Spelled.of_other ((htwo.trans hread).mono (by omega)) (Nat.le_refl 1) (by simp) (by simp)
    · obtain ⟨rfl, rfl⟩ := Prod.mk.inj (Option.some.inj h)
      exact word_spelled hc

theorem unicodeLiteral_spelled {c q : Char} {s r : Text} {t : Token} (h : unicodeLiteral d q s = some (t, r)) :
    Spelled d t (c :: '&' :: q :: s) r := by
  have hthree := ((Consumes.cons c ('&' :: q :: s)).trans (Consumes.cons '&' (q :: s))).trans (Consumes.cons q s)
  obtain ⟨⟨raw, r'⟩, hraw, hrest⟩ := Option.bind_eq_some_iff.mp h
  obtain ⟨⟨e, r''⟩, hescape, hv⟩ := Option.bind_eq_some_iff.mp hrest
  obtain ⟨v, hunicode, heq⟩ := Option.map_eq_some_iff.mp hv
  obtain ⟨rfl, rfl⟩ := Prod.mk.inj heq
  have hread : Consumes (raw.length + 1) s r' := by
    split at hraw
    · exact delimited_consumes hraw
    · exact literal_consumes (fun s v r hs => (quoted_consumes hs).1) hraw
  have hlength : v.length ≤ raw.length := d.unicode_length _ _ _ hunicode
  have hclip := (prefix_clip nameSize v).length_le
  have hall := (hthree.trans hread).trans (Consumes.of_suffix (uescape_suffix hescape))
  refine Spelled.of_longer (hall.mono ?_)
  split
  · rw [Token.cost]
    omega
  · rw [Token.cost]
    omega

theorem withoutJunk_eq {x y : Token × Text} (h : withoutJunk x = some y) : x = y := by
  unfold withoutJunk at h
  split at h
  · cases h
  · exact Option.some.inj h

theorem dollar_spelled {s r : Text} {t : Token} (h : dollar s = some (t, r)) : Spelled d t ('$' :: s) r := by
  have hone := Consumes.cons '$' s
  unfold dollar at h
  split at h
  · obtain ⟨rfl, rfl⟩ := Prod.mk.inj (withoutJunk_eq h)
    have hall := hone.trans (Consumes.of_suffix (List.dropWhile_suffix isDigit (l := s)))
    exact Spelled.of_other hall (Nat.le_refl 1) (by simp) (by simp)
  · split at h
    · rename_i u hu
      obtain ⟨⟨v, r'⟩, hv, heq⟩ := Option.map_eq_some_iff.mp h
      obtain ⟨rfl, rfl⟩ : Token.str v = t ∧ r' = r := Prod.mk.inj heq
      have htag : Consumes 1 s u := by
        have hdrop := Consumes.of_suffix (List.dropWhile_suffix isTagCont (l := s))
        rw [hu] at hdrop
        exact (hdrop.trans (Consumes.cons '$' u)).mono (by omega)
      have hbody : Consumes (v.length + 1) u r' := (upTo_consumes hv).mono (by simp)
      exact Spelled.of_longer (((hone.trans htag).trans hbody).mono (by rw [Token.cost]; omega))
    · obtain ⟨rfl, rfl⟩ := Prod.mk.inj (Option.some.inj h)
      exact Spelled.of_other hone (Nat.le_refl 1) (by simp) (by simp)

theorem drop_consumes {n : ℕ} {c : Char} {s : Text} (h : 1 ≤ n) : Consumes 1 (c :: s) ((c :: s).drop n) := by
  refine ⟨List.drop_suffix _ _, ?_⟩
  rw [List.length_drop, List.length_cons]
  omega

theorem number_spelled {c : Char} {s r : Text} {t : Token} (h : number (c :: s) = some (t, r)) :
    Spelled d t (c :: s) r := by
  obtain ⟨rfl, rfl⟩ := Prod.mk.inj (withoutJunk_eq h)
  exact Spelled.of_other (drop_consumes (by omega)) (Nat.le_refl 1) (by simp) (by simp)

theorem operator_spelled (c : Char) (s : Text) : Spelled d (operator c s).1 (c :: s) (operator c s).2 := by
  have htext : 1 ≤ (operatorText c s).length := by
    unfold operatorText
    simp only
    split <;> simp
  unfold operator
  simp only
  split
  · exact Spelled.of_other (drop_consumes htext) (Nat.le_refl 1) (by simp) (by simp)
  · exact Spelled.of_other (drop_consumes htext) (Nat.le_refl 1) (by simp) (by simp)

theorem named_spelled {c : Char} {s r : Text} {t : Token} (hc : isIdentStart c = true)
    (h : named d c s = some (t, r)) : Spelled d t (c :: s) r := by
  have hword : some (word d (c :: s)) = some (t, r) → Spelled d t (c :: s) r := by
    intro heq
    have hspelled := word_spelled (d := d) (s := s) hc
    rw [Option.some.inj heq] at hspelled
    exact hspelled
  cases s with
  | nil => exact hword h
  | cons q s =>
    rw [named] at h
    split at h
    · rename_i hq
      subst hq
      exact quotedWith_spelled hc h
    · split at h
      · rename_i hq
        obtain ⟨rfl, -, hquote⟩ := hq
        cases s with
        | nil => simp at hquote
        | cons p s => exact unicodeLiteral_spelled h
      · exact hword h

theorem symbol_spelled {c : Char} {s r : Text} {t : Token} (h : symbol c s = some (t, r)) :
    Spelled d t (c :: s) r := by
  have hone := Consumes.cons c s
  unfold symbol at h
  split at h
  · exact number_spelled h
  · split at h
    · obtain ⟨rfl, rfl⟩ := Prod.mk.inj (Option.some.inj h)
      have hrest := hone.trans (Consumes.of_suffix (List.drop_suffix 1 s))
      exact Spelled.of_other hrest (Nat.le_refl 1) (by simp) (by simp)
    · split at h
      · have hspelled := operator_spelled (d := d) c s
        rw [Option.some.inj h] at hspelled
        exact hspelled
      · obtain ⟨rfl, rfl⟩ := Prod.mk.inj (Option.some.inj h)
        exact Spelled.of_other hone (Nat.le_refl 1) (by simp) (by simp)

theorem token_spelled {s r : Text} {t : Token} (h : token d s = some (t, r)) : Spelled d t s r := by
  cases s with
  | nil => cases h
  | cons c s =>
    have hone := Consumes.cons c s
    rw [token] at h
    split at h
    · rename_i hc
      exact named_spelled hc h
    · split at h
      · rename_i hq
        subst hq
        obtain ⟨⟨v, r'⟩, hv, heq⟩ := Option.map_eq_some_iff.mp h
        obtain ⟨rfl, rfl⟩ : Token.str v = t ∧ r' = r := Prod.mk.inj heq
        exact str_spelled hv
      · split at h
        · obtain ⟨⟨v, r'⟩, hv, heq⟩ := Option.map_eq_some_iff.mp h
          obtain ⟨rfl, rfl⟩ : Token.ident (clip nameSize v) = t ∧ r' = r := Prod.mk.inj heq
          have hclip := (prefix_clip nameSize v).length_le
          exact Spelled.of_longer ((hone.trans (delimited_consumes hv)).mono (by rw [Token.cost]; omega))
        · split at h
          · rename_i hdollar
            subst hdollar
            exact dollar_spelled h
          · split at h
            · exact number_spelled h
            · exact symbol_spelled h

end token

end Postgres
