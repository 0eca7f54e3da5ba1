import Mathlib.Algebra.Order.BigOperators.Group.List
import Mathlib.Algebra.Order.Ring.Nat
import Mathlib.Data.List.Perm.Subperm
import PyQgisServer.Library.Urllib.RoundTrip
import PyQgisServer.Library.Urllib.Unquote

namespace Urllib

section parseQsl

@[simp] theorem parseQsl_nil : parseQsl [] = [] := rfl

@[simp] theorem parseQsl_append (s t : Str) : parseQsl (s ++ '&' :: t) = parseQsl s ++ parseQsl t := by
  rw [parseQsl, List.splitOn_append_cons_self, List.filterMap_append]
  rfl

theorem parseQsl_intercalate (pieces : List Str) :
    parseQsl (['&'].intercalate pieces) = pieces.flatMap parseQsl := by
  induction pieces with
  | nil => rfl
  | cons s pieces ih =>
    cases pieces with
    | nil => simp
    | cons t pieces =>
      rw [List.intercalate_cons_cons, List.append_assoc, List.singleton_append, parseQsl_append, ih]
      exact List.flatMap_cons.symm

theorem parseQsl_of_notMem {s : Str} (h : '&' ∉ s) :
    parseQsl s = if after '=' s = [] then []
      else [(unquotePlus (before '=' s), unquotePlus (after '=' s))] := by
  rw [parseQsl, List.splitOn_eq_singleton h]
  split
  · rename_i hafter
    simp [hafter]
  · rename_i hafter
    simp [hafter]

theorem parseQsl_named {name : Str} (value : Str) (hsingle : '&' ∉ name) (hnamed : '=' ∉ name) :
    parseQsl (name ++ '=' :: value) =
      (if before '&' value = [] then [] else [(unquotePlus name, unquotePlus (before '&' value))]) ++
        parseQsl (after '&' value) := by
  have hpiece : ∀ v : Str, '&' ∉ v → parseQsl (name ++ '=' :: v) =
      if v = [] then [] else [(unquotePlus name, unquotePlus v)] := by
    intro v hv
    have hnot : '&' ∉ name ++ '=' :: v := by simp [hsingle, hv]
    rw [parseQsl_of_notMem hnot, before_append_cons hnamed, after_append_cons hnamed]
  by_cases h : '&' ∈ value
  · conv_lhs => rw [← before_append_after h]
    rw [← List.cons_append, ← List.append_assoc, parseQsl_append, hpiece _ (not_mem_before _ _)]
  · rw [before_eq_self h, after_eq_nil h, hpiece _ h, parseQsl_nil, List.append_nil]

theorem parseQsl_append_amp {t : Str} (s : Str) (h : t = [] ∨ ∃ u, t = '&' :: u) :
    parseQsl (s ++ t) = parseQsl s ++ parseQsl t := by
  rcases h with rfl | ⟨u, rfl⟩
  · simp
  · have hamp : parseQsl ('&' :: u) = parseQsl u := parseQsl_append [] u
    rw [parseQsl_append, hamp]

theorem parseQsl_amp_append {s : Str} (t : Str) (h : s = [] ∨ ∃ u, s = u ++ ['&']) :
    parseQsl (s ++ t) = parseQsl s ++ parseQsl t := by
  rcases h with rfl | ⟨u, rfl⟩
  · rfl
  · rw [List.append_assoc, List.singleton_append, parseQsl_append, parseQsl_append, parseQsl_nil,
      List.append_nil]

theorem value_ne_nil {qs : Str} {x : Str × Str} (h : x ∈ parseQsl qs) : x.2 ≠ [] := by
  obtain ⟨piece, -, hx⟩ := List.mem_filterMap.mp h
  split at hx
  · cases hx
  · rename_i hafter
    cases hx
    exact unquotePlus_ne_nil hafter

end parseQsl

section values

def values (qs key : Str) : List Str := ((parseQsl qs).filter fun x => x.1 = key).map Prod.snd

def firstValue (qs key : Str) : Option Str := ((parseQs qs).get? key).bind List.head?

theorem parseQs_get? (qs key : Str) :
    (parseQs qs).get? key = if values qs key = [] then none else some (values qs key) := by
  have hfold : ∀ (l : List (Str × Str)) (d : PyDict Str (List Str)),
      (l.foldl (fun d x => d.set x.1 (((d.get? x.1).getD []) ++ [x.2])) d).get? key =
        if (l.filter fun x => x.1 = key) = [] then d.get? key
        else some ((d.get? key).getD [] ++ (l.filter fun x => x.1 = key).map Prod.snd) := by
    intro l
    induction l with
    | nil =>
      intro d
      rfl
    | cons x xs ih =>
      intro d
      rw [List.foldl_cons, ih, PyDict.get?_set]
      by_cases hx : x.1 = key
      · subst hx
        simp only [if_pos, List.filter_cons_of_pos, decide_true, reduceCtorEq, if_false,
          Option.getD_some, List.append_assoc, List.map_cons, List.singleton_append]
        split
        · rename_i hnil
          simp [hnil]
        · rfl
      · rw [if_neg (Ne.symm hx), List.filter_cons_of_neg (by simpa using hx)]
  rw [parseQs, hfold]
  simp only [values, List.map_eq_nil_iff, PyDict.get?, PyDict.empty, List.find?_nil, Option.map_none,
    Option.getD_none, List.nil_append]

theorem parseQs_ne_nil {qs key : Str} {values : List Str} (h : (parseQs qs).get? key = some values) :
    values ≠ [] := by
  rw [parseQs_get?] at h
  split at h
  · cases h
  · rename_i hne
    exact Option.some.inj h ▸ hne

theorem parseQs_get?_eq_iff {qs qs' name : Str} :
    (parseQs qs).get? name = (parseQs qs').get? name ↔ values qs name = values qs' name := by
  rw [parseQs_get?, parseQs_get?]
  constructor
  · intro heq
    split at heq <;> split at heq <;> simp_all
  · intro heq
    rw [heq]

theorem firstValue_eq_head? (qs key : Str) : firstValue qs key = (values qs key).head? := by
  rw [firstValue, parseQs_get?]
  split
  · rename_i h
    rw [h]
    rfl
  · rfl

theorem firstValue_eq (qs key : Str) :
    firstValue qs key = ((parseQsl qs).find? fun x => x.1 = key).map Prod.snd := by
  rw [firstValue_eq_head?, values, List.head?_map, List.head?_filter]

theorem firstValue_ne_nil {qs key value : Str} (h : firstValue qs key = some value) : value ≠ [] := by
  rw [firstValue_eq] at h
  obtain ⟨x, hx, rfl⟩ := Option.map_eq_some_iff.mp h
  exact value_ne_nil (List.mem_of_find?_eq_some hx)

theorem mem_keys_iff {qs key : Str} : key ∈ (parseQs qs).keys ↔ ∃ value, (key, value) ∈ parseQsl qs := by
  have hnone := PyDict.get?_eq_none (d := parseQs qs) (k := key)
  rw [parseQs_get?] at hnone
  have hvalues : values qs key = [] ↔ key ∉ (parseQs qs).keys := by
    rw [← hnone]
    split <;> simp_all
  rw [← not_iff_not, ← hvalues, values, List.map_eq_nil_iff, List.filter_eq_nil_iff]
  simp only [decide_eq_true_eq, Prod.forall, not_exists]
  constructor
  · intro h value hmem
    exact h key value hmem rfl
  · rintro h name value hmem rfl
    exact h value hmem

end values

section weight

def pairWeight (x : Str × Str) : ℕ := weight x.1 + weight x.2 + 1

def pairsWeight (l : List (Str × Str)) : ℕ := (l.map pairWeight).sum

@[simp] theorem pairsWeight_nil : pairsWeight [] = 0 := rfl

@[simp] theorem pairsWeight_append (l m : List (Str × Str)) :
    pairsWeight (l ++ m) = pairsWeight l + pairsWeight m := by
  simp [pairsWeight]

theorem pairsWeight_perm {l m : List (Str × Str)} (h : l.Perm m) : pairsWeight l = pairsWeight m :=
  (h.map pairWeight).sum_nat

theorem pairsWeight_eq_zero {l : List (Str × Str)} (h : pairsWeight l = 0) : l = [] := by
  cases l with
  | nil => rfl
  | cons x xs =>
    simp only [pairsWeight, List.map_cons, List.sum_cons, pairWeight] at h
    omega

structure Literal (s : Str) : Prop where
  single : '&' ∉ s
  named : '=' ∈ s
  name : unquotePlus (before '=' s) = before '=' s
  value : unquotePlus (after '=' s) = after '=' s
  valued : after '=' s ≠ []

theorem weight_piece {s : Str} (h : '&' ∉ s) :
    pairsWeight (parseQsl s) ≤ weight s ∧ (pairsWeight (parseQsl s) = weight s → s = [] ∨ Literal s) := by
  rw [parseQsl_of_notMem h]
  split
  · refine ⟨Nat.zero_le _, fun heq => .inl ?_⟩
    exact weight_eq_zero.mp heq.symm
  · rename_i hafter
    have hmem : '=' ∈ s := by
      by_contra hnot
      exact hafter (after_eq_nil hnot)
    have hsplit : weight s = weight (before '=' s) + (1 + weight (after '=' s)) := by
      conv_lhs => rw [← before_append_after hmem]
      rw [weight_append, weight_cons]
      rfl
    have hname := weight_unquotePlus_le (before '=' s)
    have hvalue := weight_unquotePlus_le (after '=' s)
    simp only [pairsWeight, pairWeight, List.map_cons, List.map_nil, List.sum_cons, List.sum_nil]
    refine ⟨by omega, fun heq => .inr ⟨h, hmem, ?_, ?_, hafter⟩⟩
    · exact unquotePlus_of_weight (by omega)
    · exact unquotePlus_of_weight (by omega)

theorem weight_parseQsl (s : Str) :
    pairsWeight (parseQsl s) ≤ weight s ∧ (pairsWeight (parseQsl s) = weight s → s = [] ∨ Literal s) := by
  induction s using cut_induction (c := '&') with
  | piece s h => exact weight_piece h
  | cut t u ht hu =>
    have hamp : charWeight '&' = 1 := rfl
    rw [parseQsl_append, pairsWeight_append, weight_append, weight_cons, hamp]
    exact ⟨by omega, fun heq => absurd heq (by omega)⟩

theorem parseQsl_literal {s : Str} (h : Literal s) : parseQsl s = [(before '=' s, after '=' s)] := by
  rw [parseQsl_of_notMem h.single, if_neg h.valued, h.name, h.value]

def pair (x : Str × Str) : Str := x.1 ++ '=' :: x.2

theorem weight_pair (x : Str × Str) : weight (pair x) = pairWeight x := by
  have heq : charWeight '=' = 1 := rfl
  rw [pair, weight_append, weight_cons, heq, pairWeight]
  omega

theorem pair_ne_nil (x : Str × Str) : pair x ≠ [] := by simp [pair]

structure Unescaped (x : Str × Str) : Prop where
  single : '&' ∉ x.1 ∧ '&' ∉ x.2
  named : '=' ∉ x.1
  name : unquotePlus x.1 = x.1
  value : unquotePlus x.2 = x.2

theorem parseQsl_pair {x : Str × Str} (h : Unescaped x) (hvalue : x.2 ≠ []) : parseQsl (pair x) = [x] := by
  have hbefore : before '=' (pair x) = x.1 := before_append_cons h.named
  have hafter : after '=' (pair x) = x.2 := after_append_cons h.named
  have hsingle : '&' ∉ pair x := by simp [pair, h.single]
  rw [parseQsl_of_notMem hsingle, hbefore, hafter, if_neg hvalue, h.name, h.value]

theorem parseQsl_pairs {l : List (Str × Str)} (h : ∀ x ∈ l, Unescaped x ∧ x.2 ≠ []) :
    parseQsl (['&'].intercalate (l.map pair)) = l := by
  rw [parseQsl_intercalate, List.flatMap_map]
  induction l with
  | nil => rfl
  | cons x xs ih =>
    obtain ⟨hx, hvalue⟩ := h x List.mem_cons_self
    rw [List.flatMap_cons, parseQsl_pair hx hvalue, ih fun y hy => h y (List.mem_cons_of_mem _ hy)]
    rfl

theorem eq_of_sum_le {α : Type} {l : List α} {f g : α → ℕ} (h : ∀ x ∈ l, f x ≤ g x)
    (hsum : (l.map g).sum ≤ (l.map f).sum) : ∀ x ∈ l, f x = g x := by
  intro x hx
  by_contra hne
  have hlt := List.sum_lt_sum f g h ⟨x, hx, lt_of_le_of_ne (h x hx) hne⟩
  omega

theorem length_before_pair (x : Str × Str) :
    (before '=' (pair x)).length ≤ x.1.length ∧
      ((before '=' (pair x)).length = x.1.length → '=' ∉ x.1) := by
  by_cases h : '=' ∈ x.1
  · obtain ⟨s, t, hst, hs⟩ := List.eq_append_cons_of_mem h
    have hbefore : before '=' (pair x) = s := by
      rw [pair, hst, List.append_assoc, List.cons_append]
      exact before_append_cons hs
    rw [hbefore, hst, List.length_append, List.length_cons]
    exact ⟨by omega, fun heq => absurd heq (by omega)⟩
  · have hbefore : before '=' (pair x) = x.1 := before_append_cons h
    exact ⟨by rw [hbefore], fun _ => h⟩

theorem unescaped_of_subset {l : List (Str × Str)} (hnodup : l.Nodup)
    (h : l ⊆ parseQsl (['&'].intercalate (l.map pair))) : ∀ x ∈ l, Unescaped x := by
  rw [parseQsl_intercalate, List.flatMap_map] at h
  obtain ⟨m, hm, hsub⟩ := hnodup.subperm h
  obtain ⟨rest, hrest⟩ := hsub.exists_perm_append
  have hperm := hrest.trans (hm.append_right rest)
  clear hrest hsub hm
  have hreads : pairsWeight (l.flatMap fun x => parseQsl (pair x)) =
      (l.map fun x => pairsWeight (parseQsl (pair x))).sum := by
    clear h hnodup hperm
    induction l with
    | nil => rfl
    | cons x xs ih => rw [List.flatMap_cons, pairsWeight_append, ih, List.map_cons, List.sum_cons]
  have hle : ∀ x ∈ l, pairsWeight (parseQsl (pair x)) ≤ pairWeight x := fun x _ =>
    weight_pair x ▸ (weight_parseQsl (pair x)).1
  have hweight := pairsWeight_perm hperm
  rw [pairsWeight_append, hreads] at hweight
  have heq := eq_of_sum_le hle (by simp only [pairsWeight] at hweight ⊢; omega)
  have hrest : rest = [] := by
    refine pairsWeight_eq_zero ?_
    have hsum : (l.map fun x => pairsWeight (parseQsl (pair x))).sum = pairsWeight l := by
      rw [pairsWeight, List.map_congr_left heq]
    omega
  have hliteral : ∀ x ∈ l, Literal (pair x) := fun x hx =>
    ((weight_parseQsl (pair x)).2 ((heq x hx).trans (weight_pair x).symm)).resolve_left (pair_ne_nil x)
  have hflat : (l.flatMap fun x => parseQsl (pair x)) =
      l.map fun x => (before '=' (pair x), after '=' (pair x)) := by
    rw [← List.flatMap_pure_eq_map]
    exact List.flatMap_congr fun x hx => parseQsl_literal (hliteral x hx)
  rw [hrest, List.append_nil, hflat] at hperm
  have hnames := (hperm.map fun x => x.1.length).sum_nat
  rw [List.map_map] at hnames
  have hlength := eq_of_sum_le (f := fun x => (before '=' (pair x)).length) (g := fun x => x.1.length)
    (fun x _ => (length_before_pair x).1) hnames.ge
  intro x hx
  have hnamed := (length_before_pair x).2 (hlength x hx)
  have hbefore : before '=' (pair x) = x.1 := before_append_cons hnamed
  have hafter : after '=' (pair x) = x.2 := after_append_cons hnamed
  have hlit := hliteral x hx
  have hsingle := hlit.single
  simp only [pair, List.mem_append, List.mem_cons, not_or] at hsingle
  exact ⟨⟨hsingle.1, hsingle.2.2⟩, hnamed, hbefore ▸ hlit.name, hafter ▸ hlit.value⟩

end weight

end Urllib
