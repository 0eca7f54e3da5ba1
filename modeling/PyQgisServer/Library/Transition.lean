import Mathlib.Data.Nat.Notation
import Mathlib.Logic.Relation

namespace Transition

variable {S A : Type}

inductive Reach (step : S → A → Option S) (ok : S → A → Prop) (init : S) : S → Prop
  | start : Reach step ok init init
  | next {s t : S} (h : Reach step ok init s) (a : A) (hok : ok s a) (ha : step s a = some t) :
      Reach step ok init t

theorem Reach.invariant {step : S → A → Option S} {ok : S → A → Prop} {init : S}
    {I : S → Prop} (h0 : I init)
    (hstep : ∀ s a t, I s → ok s a → step s a = some t → I t)
    {s : S} (h : Reach step ok init s) : I s := by
  induction h with
  | start => exact h0
  | next _ a hok ha ih => exact hstep _ a _ ih hok ha

theorem Reach.trans {step : S → A → Option S} {ok : S → A → Prop} {s t u : S} (h : Reach step ok s t)
    (h' : Reach step ok t u) : Reach step ok s u := by
  induction h' with
  | start => exact h
  | next _ a hok ha ih => exact ih.next a hok ha

theorem Reach.mono {step : S → A → Option S} {ok ok' : S → A → Prop} (hmono : ∀ s a, ok s a → ok' s a) {s t : S}
    (h : Reach step ok s t) : Reach step ok' s t := by
  induction h with
  | start => exact .start
  | next _ a hok ha ih => exact ih.next a (hmono _ a hok) ha

def run (step : S → A → Option S) : S → List A → Option S
  | s, [] => some s
  | s, a :: as => (step s a).bind fun t => run step t as

def Meets (step : S → A → Option S) (ok : S → A → Prop) : S → List A → Prop
  | _, [] => True
  | s, a :: as => ok s a ∧ ∀ t, step s a = some t → Meets step ok t as

theorem Meets.of_forall {step : S → A → Option S} {ok : S → A → Prop} {as : List A}
    (h : ∀ a ∈ as, ∀ s, ok s a) : ∀ s, Meets step ok s as := by
  induction as with
  | nil => intro s; trivial
  | cons a as ih =>
    intro s
    exact ⟨h a (by simp) s, fun t _ => ih (fun b hb => h b (by simp [hb])) t⟩

def meets (step : S → A → Option S) (ok : S → A → Bool) : S → List A → Bool
  | _, [] => true
  | s, a :: as => ok s a && (step s a).all fun t => meets step ok t as

theorem Meets.of_meets {step : S → A → Option S} {ok : S → A → Bool} {s : S} {as : List A}
    (h : meets step ok s as = true) : Meets step (fun s a => ok s a = true) s as := by
  induction as generalizing s with
  | nil => trivial
  | cons a as ih =>
    simp only [meets, Bool.and_eq_true] at h
    refine ⟨h.1, fun t ht => ih ?_⟩
    simpa [ht] using h.2

theorem Reach.of_run {step : S → A → Option S} {ok : S → A → Prop} {init s : S}
    (h : Reach step ok init s) :
    ∀ {as : List A} {t : S}, Meets step ok s as → run step s as = some t →
      Reach step ok init t := by
  intro as
  induction as generalizing s with
  | nil =>
    intro t _ hr
    simp only [run, Option.some.injEq] at hr
    exact hr ▸ h
  | cons a as ih =>
    intro t hm hr
    simp only [run, Option.bind_eq_some_iff] at hr
    obtain ⟨u, hu, hr⟩ := hr
    exact ih (h.next a hm.1 hu) (hm.2 u hu) hr

theorem Reach.exists_of_run {step : S → A → Option S} {ok : S → A → Prop} {init : S} {as : List A}
    (P : S → Bool) (hm : Meets step ok init as) (h : (run step init as).any P = true) :
    ∃ s, Reach step ok init s ∧ P s = true := by
  cases hr : run step init as with
  | none => simp [hr] at h
  | some s => exact ⟨s, Reach.start.of_run hm hr, by simpa [hr] using h⟩

theorem Reach.simulated {T : Type} {step : S → A → Option S} {ok : S → A → Prop} {init : S} {R : S → T → Prop}
    {moves : T → T → Prop} {start : T} (h0 : R init start)
    (hstep : ∀ s a t x, R s x → ok s a → step s a = some t → ∃ y, Relation.ReflTransGen moves x y ∧ R t y)
    {s : S} (h : Reach step ok init s) : ∃ x, Relation.ReflTransGen moves start x ∧ R s x := by
  induction h with
  | start => exact ⟨start, .refl, h0⟩
  | next _ a hok ha ih =>
    obtain ⟨x, hx, hr⟩ := ih
    obtain ⟨y, hy, hr⟩ := hstep _ a _ x hr hok ha
    exact ⟨y, hx.trans hy, hr⟩

-- a step that is always enabled, and meets p in each state it is taken from
def Always (step : S → A → S) (p : S → A → Prop) : S → List A → Prop
  | _, [] => True
  | s, a :: as => p s a ∧ Always step p (step s a) as

theorem Always.of_invariant {step : S → A → S} {ok p : S → A → Prop} {I : S → List A → Prop}
    (hstep : ∀ s a as, I s (a :: as) → ok s a → p s a ∧ I (step s a) as) {s : S} {as : List A}
    (h0 : I s as) (h : Always step ok s as) : Always step p s as := by
  induction as generalizing s with
  | nil => trivial
  | cons a as ih =>
    obtain ⟨hp, hI⟩ := hstep s a as h0 h.1
    exact ⟨hp, ih hI h.2⟩

theorem Always.congr {step : S → A → S} {ok p : S → A → Prop} {I : S → Prop}
    (hstep : ∀ s a, I s → (p s a ↔ ok s a) ∧ (ok s a → I (step s a))) {s : S} (h : I s) (as : List A) :
    Always step p s as ↔ Always step ok s as := by
  induction as generalizing s with
  | nil => exact Iff.rfl
  | cons a as ih =>
    obtain ⟨hiff, hnext⟩ := hstep s a h
    exact (and_congr_left' hiff).trans (and_congr_right fun ha => ih (hnext ha))

section answers

variable {T B : Type}

def answers (apply : S → A → B × S) : S → List A → List B × S
  | s, [] => ([], s)
  | s, a :: as =>
    let r := apply s a
    let rest := answers apply r.2 as
    (r.1 :: rest.1, rest.2)

theorem answers_simulated {apply : S → A → B × S} {apply' : T → A → B × T} {view : S → T}
    (h : ∀ s a, apply' (view s) a = ((apply s a).1, view (apply s a).2)) (s : S) (as : List A) :
    answers apply' (view s) as = ((answers apply s as).1, view (answers apply s as).2) := by
  induction as generalizing s with
  | nil => rfl
  | cons a as ih => simp only [answers, h, ih]

theorem answers_of_invariant {apply : S → A → B × S} {f : A → B} {I : S → Prop}
    (h : ∀ s a, I s → (apply s a).1 = f a ∧ I (apply s a).2) {s : S} (hs : I s) (as : List A) :
    (answers apply s as).1 = as.map f := by
  induction as generalizing s with
  | nil => rfl
  | cons a as ih =>
    obtain ⟨hanswer, hnext⟩ := h s a hs
    rw [answers, List.map_cons, hanswer, ih hnext]

end answers

section steps

inductive Steps (R : S → S → Prop) : ℕ → S → S → Prop
  | none (s : S) : Steps R 0 s s
  | next {n : ℕ} {s t u : S} (h : R s t) (hs : Steps R n t u) : Steps R (n + 1) s u

variable {R : S → S → Prop}

theorem Steps.append {m n : ℕ} {s t u : S} (h : Steps R m s t) (h' : Steps R n t u) : Steps R (m + n) s u := by
  induction h with
  | none s => rwa [Nat.zero_add]
  | next h _ ih =>
    rw [Nat.add_right_comm]
    exact .next h (ih h')

theorem Steps.invariant {I : S → Prop} (hstep : ∀ s t, I s → R s t → I t) {n : ℕ} {s t : S} (h : Steps R n s t)
    (hs : I s) : I t := by
  induction h with
  | none s => exact hs
  | next h _ ih => exact ih (hstep _ _ hs h)

theorem Steps.le_weight {weight : S → ℕ} (hstep : ∀ s t, R s t → weight t < weight s) {n : ℕ} {s t : S}
    (h : Steps R n s t) : n + weight t ≤ weight s := by
  induction h with
  | none s => exact Nat.le_of_eq (Nat.zero_add _)
  | next h _ ih =>
    have := hstep _ _ h
    omega

end steps

end Transition
