import PyQgisServer.Library.PyDict
import PyQgisServer.Library.PyStr

-- configparser.ConfigParser with ExtendedInterpolation and the case of the options kept
namespace Interpolation

open Urllib (Str)

def defaultSection : Str := "DEFAULT".toList

abbrev Options := PyDict Str Str

structure Parser where
  sections : PyDict Str Options
  defaults : Options

inductive Missing where
  | noSection
  | noOption
  deriving DecidableEq

inductive Error where
  | depth
  | syntaxError
  | missingOption
  deriving DecidableEq

inductive SetError where
  | noSection
  | valueError
  deriving DecidableEq

section lex

-- a piece of a value: a character, a reference, or what raises where it is met
inductive Token where
  | char (c : Char)
  | ref (path : List Str)
  | bad
  deriving DecidableEq

inductive Mode where
  | plain
  | dollar
  | name (read : Str)

def lex : Mode → Str → List Token
  | .plain, [] => []
  | .plain, c :: s => if c = '$' then lex .dollar s else .char c :: lex .plain s
  | .dollar, [] => [.bad]
  | .dollar, c :: s => if c = '$' then .char c :: lex .plain s else if c = '\x7b' then lex (.name []) s else [.bad]
  | .name _, [] => [.bad]
  | .name read, c :: s =>
    if c = '\x7d' then if read = [] then [.bad] else .ref (read.splitOn ':') :: lex .plain s
    else lex (.name (read ++ [c])) s

end lex

namespace Parser

variable (p : Parser)

def options (sect : Str) : Option Options :=
  if sect = defaultSection then some p.defaults else (p.sections.get? sect).map fun o => p.defaults.update o

def raw (sect opt : Str) : Except Missing Str :=
  match p.options sect with
  | none => .error .noSection
  | some o =>
    match o.get? opt with
    | none => .error .noOption
    | some value => .ok value

-- the value that a reference names, with the section it stands in
def refer (sect : Str) : List Str → Except Error (Str × Str)
  | [opt] =>
    match p.raw sect opt with
    | .error _ => .error .missingOption
    | .ok value => .ok (sect, value)
  | [sect, opt] =>
    match p.raw sect opt with
    | .error _ => .error .missingOption
    | .ok value => .ok (sect, value)
  | _ => .error .syntaxError

def maxInterpolationDepth : ℕ := 10

def piece (next : Str → List Token → Except Error Str) (sect : Str) : Token → Except Error Str
  | .char c => .ok [c]
  | .bad => .error .syntaxError
  | .ref path =>
    match p.refer sect path with
    | .error e => .error e
    | .ok x => if '$' ∈ x.2 then next x.1 (lex .plain x.2) else .ok x.2

def interpolate : ℕ → Str → List Token → Except Error Str
  | 0, _, _ => .error .depth
  | depth + 1, sect, tokens => (tokens.mapM (p.piece (interpolate depth) sect)).map List.flatten

-- get, none where the fallback is taken
def get (sect opt : Str) : Except Error (Option Str) :=
  match p.raw sect opt with
  | .error _ => .ok none
  | .ok value => (p.interpolate maxInterpolationDepth sect (lex .plain value)).map some

section set

-- the dollars that are written twice are taken out first
def dropEscaped : Str → Str
  | '$' :: '$' :: s => dropEscaped s
  | c :: s => c :: dropEscaped s
  | [] => []

def set (sect opt value : Str) : Except SetError Parser :=
  if .bad ∈ lex .plain (dropEscaped value) then .error .valueError
  else if sect = [] ∨ sect = defaultSection then .ok { p with defaults := p.defaults.set opt value }
  else
    match p.sections.get? sect with
    | none => .error .noSection
    | some o => .ok { p with sections := p.sections.set sect (o.set opt value) }

end set

section grows

variable {p} {q : Parser}

def Grows (p q : Parser) : Prop := ∀ sect opt value, p.raw sect opt = .ok value → q.raw sect opt = .ok value

theorem Grows.refl (p : Parser) : Grows p p := fun _ _ _ h => h

theorem Grows.trans {r : Parser} (h : Grows p q) (h' : Grows q r) : Grows p r :=
  fun sect opt value hraw => h' sect opt value (h sect opt value hraw)

theorem raw_eq_ok {sect opt value : Str} :
    p.raw sect opt = .ok value ↔ ∃ o, p.options sect = some o ∧ o.get? opt = some value := by
  rw [raw]
  cases p.options sect with
  | none => simp
  | some o => cases h : o.get? opt <;> simp [h]

theorem raw_default {opt value : Str} : p.raw defaultSection opt = .ok value ↔ p.defaults.get? opt = some value := by
  rw [raw_eq_ok, options, if_pos rfl]
  simp

theorem raw_section {sect opt value : Str} (hsect : sect ≠ defaultSection) :
    p.raw sect opt = .ok value ↔
      ∃ o, p.sections.get? sect = some o ∧ (o.get? opt).or (p.defaults.get? opt) = some value := by
  rw [raw_eq_ok, options, if_neg hsect]
  constructor
  · rintro ⟨u, hu, hvalue⟩
    obtain ⟨o, ho, rfl⟩ := Option.map_eq_some_iff.mp hu
    exact ⟨o, ho, (PyDict.get?_update ..).symm.trans hvalue⟩
  · rintro ⟨o, ho, hvalue⟩
    exact ⟨_, Option.map_eq_some_iff.mpr ⟨o, ho, rfl⟩, (PyDict.get?_update ..).trans hvalue⟩

theorem setDefault_grows {opt value : Str} (habsent : ∀ v, p.raw defaultSection opt ≠ .ok v) :
    Grows p { p with defaults := p.defaults.set opt value } := by
  have hget : ∀ k v, p.defaults.get? k = some v → (p.defaults.set opt value).get? k = some v := by
    intro k v hk
    have hne : k ≠ opt := by
      rintro rfl
      exact habsent v (raw_default.mpr hk)
    rw [PyDict.get?_set, if_neg hne, hk]
  intro s k v hraw
  by_cases hs : s = defaultSection
  · rw [hs] at hraw ⊢
    exact raw_default.mpr (hget k v (raw_default.mp hraw))
  · obtain ⟨o, ho, hvalue⟩ := (raw_section hs).mp hraw
    refine (raw_section hs).mpr ⟨o, ho, ?_⟩
    cases hopt : o.get? k with
    | some w => rwa [hopt] at hvalue
    | none =>
      rw [hopt, Option.none_or] at hvalue
      exact hget k v hvalue

theorem setSection_grows {sect opt value : Str} {o : Options} (hsect : sect ≠ defaultSection)
    (ho : p.sections.get? sect = some o) (habsent : ∀ v, p.raw sect opt ≠ .ok v) :
    Grows p { p with sections := p.sections.set sect (o.set opt value) } := by
  intro s k v hraw
  by_cases hs : s = defaultSection
  · rw [hs] at hraw ⊢
    exact raw_default.mpr (raw_default.mp hraw)
  · obtain ⟨u, hu, hvalue⟩ := (raw_section hs).mp hraw
    refine (raw_section hs).mpr ?_
    rcases eq_or_ne s sect with rfl | hne
    · obtain rfl : u = o := Option.some.inj (hu.symm.trans ho)
      have hk : k ≠ opt := by
        rintro rfl
        exact habsent v hraw
      refine ⟨_, (PyDict.get?_set ..).trans (if_pos rfl), ?_⟩
      rw [PyDict.get?_set, if_neg hk]
      exact hvalue
    · exact ⟨u, (PyDict.get?_set ..).trans ((if_neg hne).trans hu), hvalue⟩

theorem set_grows {sect opt value : Str} (hset : p.set sect opt value = .ok q) (hsect : sect ≠ [])
    (habsent : ∀ v, p.raw sect opt ≠ .ok v) : Grows p q ∧ q.raw sect opt = .ok value := by
  rw [set] at hset
  split at hset
  · cases hset
  · split at hset
    · rename_i hdefault
      obtain rfl := hdefault.resolve_left hsect
      obtain rfl := Except.ok.inj hset
      refine ⟨setDefault_grows habsent, raw_default.mpr ?_⟩
      exact (PyDict.get?_set ..).trans (if_pos rfl)
    · rename_i hother
      rw [not_or] at hother
      cases ho : p.sections.get? sect with
      | none => simp [ho] at hset
      | some o =>
        rw [ho] at hset
        obtain rfl := Except.ok.inj hset
        refine ⟨setSection_grows hother.2 ho habsent, (raw_section hother.2).mpr ⟨o.set opt value, ?_, ?_⟩⟩
        · exact (PyDict.get?_set ..).trans (if_pos rfl)
        · rw [PyDict.get?_set, if_pos rfl, Option.some_or]

theorem refer_grows (h : Grows p q) {sect : Str} {path : List Str} {x : Str × Str} (hx : p.refer sect path = .ok x) :
    q.refer sect path = .ok x := by
  rcases path with _ | ⟨opt, _ | ⟨opt', _ | _⟩⟩
  · cases hx
  · rw [refer] at hx ⊢
    cases hraw : p.raw sect opt with
    | error e => simp [hraw] at hx
    | ok value => simpa [hraw, h _ _ _ hraw] using hx
  · rw [refer] at hx ⊢
    cases hraw : p.raw opt opt' with
    | error e => simp [hraw] at hx
    | ok value => simpa [hraw, h _ _ _ hraw] using hx
  · cases hx

theorem piece_grows (h : Grows p q) {next next' : Str → List Token → Except Error Str}
    (hnext : ∀ sect tokens text, next sect tokens = .ok text → next' sect tokens = .ok text) {sect : Str}
    {token : Token} {text : Str} (ht : p.piece next sect token = .ok text) : q.piece next' sect token = .ok text := by
  cases token with
  | char c => exact ht
  | bad => exact ht
  | ref path =>
    rw [piece] at ht ⊢
    cases hx : p.refer sect path with
    | error e => simp [hx] at ht
    | ok x =>
      rw [refer_grows h hx]
      simp only [hx] at ht ⊢
      split at ht
      · rename_i hdollar
        rw [if_pos hdollar]
        exact hnext _ _ _ ht
      · rename_i hplain
        rw [if_neg hplain]
        exact ht

theorem mapM_grows {A B : Type} {f g : A → Except Error B} {as : List A} {bs : List B}
    (h : ∀ a b, f a = .ok b → g a = .ok b) (hf : as.mapM f = .ok bs) : as.mapM g = .ok bs := by
  induction as generalizing bs with
  | nil => exact hf
  | cons a as ih =>
    rw [List.mapM_cons] at hf ⊢
    cases ha : f a with
    | error e => simp [ha, bind, Except.bind] at hf
    | ok b =>
      cases has : as.mapM f with
      | error e => simp [ha, has, bind, Except.bind] at hf
      | ok rest =>
        rw [ha, has] at hf
        rw [h a b ha, ih has]
        exact hf

theorem interpolate_grows (h : Grows p q) {depth : ℕ} {sect : Str} {tokens : List Token} {text : Str}
    (ht : p.interpolate depth sect tokens = .ok text) : q.interpolate depth sect tokens = .ok text := by
  induction depth generalizing sect tokens text with
  | zero => exact ht
  | succ depth ih =>
    rw [interpolate] at ht ⊢
    cases hpieces : tokens.mapM (p.piece (p.interpolate depth) sect) with
    | error e => simp [hpieces, Except.map] at ht
    | ok pieces =>
      rw [mapM_grows (fun _ _ => piece_grows h fun _ _ _ => ih) hpieces, ← hpieces]
      exact ht

theorem get_grows (h : Grows p q) {sect opt text : Str} (ht : p.get sect opt = .ok (some text)) :
    q.get sect opt = .ok (some text) := by
  rw [get] at ht ⊢
  cases hraw : p.raw sect opt with
  | error e => simp [hraw] at ht
  | ok value =>
    simp only [hraw, h _ _ _ hraw] at ht ⊢
    cases hvalue : p.interpolate maxInterpolationDepth sect (lex .plain value) with
    | error e => simp [hvalue, Except.map] at ht
    | ok read =>
      rw [interpolate_grows h hvalue, ← hvalue]
      exact ht

end grows

end Parser

end Interpolation
