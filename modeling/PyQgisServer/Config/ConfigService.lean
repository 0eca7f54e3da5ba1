import PyQgisServer.Library.Interpolation

namespace Config

open Interpolation
open Urllib (Str)

inductive ConfigError where
  | interpolation (e : Interpolation.Error)
  | noSection
  | valueError
  | keyError

-- upper is str.upper
structure ConfigService where
  upper : Str → Str
  allowEnv : Bool

def envReplaceChars : Str := ":.-@#$%&*".toList

namespace ConfigService

variable {V : Type}

-- get, getint, getboolean or getfloat of the parser, none where the fallback is taken
def getFun (conv : Str → Option V) (p : Parser) (sect option : Str) : Except ConfigError (Option V) :=
  match p.get sect option with
  | .error e => .error (.interpolation e)
  | .ok none => .ok none
  | .ok (some text) =>
    match conv text with
    | none => .error .valueError
    | some value => .ok (some value)

def orFallback : Except ConfigError (Option V) → Option V → Except ConfigError V
  | .error e, _ => .error e
  | .ok (some value), _ => .ok value
  | .ok none, some value => .ok value
  | .ok none, none => .error .keyError

def setError : SetError → ConfigError
  | .noSection => .noSection
  | .valueError => .valueError

section getImpl

variable (c : ConfigService) (environ : Str → Option Str)

def varname (sect option : Str) : Str :=
  ("QGSRV_".toList ++ c.upper sect ++ '_' :: c.upper option).map fun x => if x ∈ envReplaceChars then '_' else x

-- a variable that is found is written to the parser, which translates it
def getImpl (conv : Str → Option V) (p : Parser) (sect option : Str) (fallback : Option V) :
    Except ConfigError V × Parser :=
  match getFun conv p sect option with
  | .error e => (.error e, p)
  | .ok (some value) => (.ok value, p)
  | .ok none =>
    if c.allowEnv then
      match environ (c.varname sect option) with
      | none => (orFallback (getFun conv p sect option) fallback, p)
      | some text =>
        match p.set sect option text with
        | .error e => (.error (setError e), p)
        | .ok p => (orFallback (getFun conv p sect option) fallback, p)
    else (orFallback (.ok none) fallback, p)

end getImpl

inductive Action (V : Type) where
  | setenv (environ : Str → Option Str)
  | read (conv : Str → Option V) (sect option : Str) (fallback : Option V)

def Action.Named : Action V → Prop
  | .setenv _ => True
  | .read _ sect _ _ => sect ≠ []

structure Process where
  environ : Str → Option Str
  parser : Parser

def step (c : ConfigService) (s : Process) : Action V → Process
  | .setenv environ => { s with environ }
  | .read conv sect option fallback => { s with parser := (c.getImpl s.environ conv s.parser sect option fallback).2 }

def run (c : ConfigService) : Process → List (Action V) → Process := List.foldl c.step

section stable

variable {c : ConfigService} {environ : Str → Option Str} {conv : Str → Option V} {p q : Parser} {sect option : Str}
  {fallback : Option V} {value : V}

theorem getFun_some :
    getFun conv p sect option = .ok (some value) ↔
      ∃ text, p.get sect option = .ok (some text) ∧ conv text = some value := by
  rw [getFun]
  cases p.get sect option with
  | error e => simp
  | ok text =>
    cases text with
    | none => simp
    | some text => cases h : conv text <;> simp [h]

theorem getFun_none : getFun conv p sect option = .ok none ↔ ∀ text, p.raw sect option ≠ .ok text := by
  rw [getFun, Parser.get]
  cases p.raw sect option with
  | error e => simp
  | ok text =>
    simp only
    cases p.interpolate Parser.maxInterpolationDepth sect (lex .plain text) with
    | error e => simp [Except.map]
    | ok read => cases h : conv read <;> simp [Except.map, h]

theorem getImpl_some (h : getFun conv p sect option = .ok (some value)) (environ : Str → Option Str)
    (fallback : Option V) : c.getImpl environ conv p sect option fallback = (.ok value, p) := by
  rw [getImpl, h]

theorem orFallback_some (h : ∃ text, p.raw sect option = .ok text)
    (hvalue : orFallback (getFun conv p sect option) fallback = .ok value) :
    getFun conv p sect option = .ok (some value) := by
  cases hget : getFun conv p sect option with
  | error e => simp [hget, orFallback] at hvalue
  | ok x =>
    cases x with
    | none =>
      obtain ⟨text, htext⟩ := h
      exact absurd htext (getFun_none.mp hget text)
    | some y => simpa [hget, orFallback] using hvalue

theorem orFallback_none (h : orFallback (.ok none) fallback = .ok value) : fallback = some value := by
  cases fallback with
  | none => cases h
  | some w => rw [Except.ok.inj h]

theorem getImpl_grows (hsect : sect ≠ []) (environ : Str → Option Str) (fallback : Option V) :
    p.Grows (c.getImpl environ conv p sect option fallback).2 := by
  rw [getImpl]
  cases hget : getFun conv p sect option with
  | error e => exact .refl p
  | ok x =>
    cases x with
    | some y => exact .refl p
    | none =>
      simp only
      split
      · split
        · exact .refl p
        · split
          · exact .refl p
          · rename_i q hset
            exact (Parser.set_grows hset hsect (getFun_none.mp hget)).1
      · exact .refl p

theorem run_grows {as : List (Action V)} (h : ∀ a ∈ as, a.Named) (s : Process) :
    s.parser.Grows (c.run s as).parser := by
  induction as generalizing s with
  | nil => exact .refl _
  | cons a as ih =>
    obtain ⟨ha, has⟩ := List.forall_mem_cons.mp h
    refine Parser.Grows.trans ?_ (ih has (c.step s a))
    cases a with
    | setenv environ => exact .refl _
    | read conv sect option fallback => exact getImpl_grows ha s.environ fallback

theorem getFun_run (hget : getFun conv p sect option = .ok (some value)) {as : List (Action V)}
    (h : ∀ a ∈ as, a.Named) (environ : Str → Option Str) :
    getFun conv (c.run ⟨environ, p⟩ as).parser sect option = .ok (some value) := by
  obtain ⟨text, htext, hconv⟩ := getFun_some.mp hget
  exact getFun_some.mpr ⟨text, Parser.get_grows (run_grows h ⟨environ, p⟩) htext, hconv⟩

def Stable (c : ConfigService) (conv : Str → Option V) (q : Parser) (sect option : Str) (value : V) : Prop :=
  ∀ as : List (Action V), (∀ a ∈ as, a.Named) → ∀ environ environ' fallback,
    c.getImpl environ' conv (c.run ⟨environ, q⟩ as).parser sect option fallback =
      (.ok value, (c.run ⟨environ, q⟩ as).parser)

theorem stable_of_some (h : getFun conv q sect option = .ok (some value)) : Stable c conv q sect option value :=
  fun _ has environ environ' fallback => getImpl_some (getFun_run h has environ) environ' fallback

theorem reads_are_stable (hsect : sect ≠ []) (h : (c.getImpl environ conv p sect option fallback).1 = .ok value) :
    (c.getImpl environ conv p sect option fallback).2 = p ∧ (∀ text, p.raw sect option ≠ .ok text) ∧
        (c.allowEnv = true → environ (c.varname sect option) = none) ∧ fallback = some value ∨
      Stable c conv (c.getImpl environ conv p sect option fallback).2 sect option value := by
  cases hget : getFun conv p sect option with
  | error e => simp [getImpl, hget] at h
  | ok x =>
    cases x with
    | some y =>
      rw [getImpl_some hget] at h ⊢
      obtain rfl := Except.ok.inj h
      exact .inr (stable_of_some hget)
    | none =>
      have habsent := getFun_none.mp hget
      cases hallow : c.allowEnv with
      | false =>
        simp only [getImpl, hget, hallow, Bool.false_eq_true, if_false] at h ⊢
        exact .inl ⟨trivial, habsent, False.elim, orFallback_none h⟩
      | true =>
        cases henv : environ (c.varname sect option) with
        | none =>
          simp only [getImpl, hget, hallow, if_true, henv] at h ⊢
          exact .inl ⟨trivial, habsent, fun _ => trivial, orFallback_none h⟩
        | some text =>
          cases hset : p.set sect option text with
          | error e => simp [getImpl, hget, hallow, henv, hset] at h
          | ok q =>
            simp only [getImpl, hget, hallow, if_true, henv, hset] at h ⊢
            obtain ⟨-, hraw⟩ := Parser.set_grows hset hsect habsent
            exact .inr (stable_of_some (orFallback_some ⟨text, hraw⟩ h))

end stable

def served : Parser := ⟨PyDict.empty.set "server".toList .empty, .empty⟩

def exported (name : Str) : Option Str :=
  if name = "QGSRV_SERVER_RESTARTMON_CHECK_TIME".toList then some "500".toList else none

def checkTime : Str := "restartmon_check_time".toList

def plainService : ConfigService := ⟨fun s => s.map Char.toUpper, true⟩

theorem reads_are_stable_checkTime :
    (plainService.getImpl exported some served "server".toList checkTime none).1 = .ok "500".toList ∧
      Stable plainService some (plainService.getImpl exported some served "server".toList checkTime none).2
        "server".toList checkTime "500".toList := by
  have hread : (plainService.getImpl exported some served "server".toList checkTime none).1 = .ok "500".toList := by rfl
  refine ⟨hread, ?_⟩
  rcases reads_are_stable (by decide) hread with ⟨-, -, hnone, -⟩ | hstable
  · exact absurd (hnone rfl) (by decide)
  · exact hstable

end ConfigService

end Config
