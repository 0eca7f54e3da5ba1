import PyQgisServer.Handlers.Middleware
import PyQgisServer.Library.Transition

namespace Middleware

open Transition

variable {D : Type}

inductive PathResult where
  | no
  | yes (path : String)
  | error

-- with the groups that the filter holds
def PathResult.withGroups (g : Groups) : PathResult → MatchResult
  | .no => .no
  | .yes path => .yes ⟨path, g⟩
  | .error => .error

-- one of the two attributes is set, the other one is left
def Groups.set (held : Groups) (p : Pattern) (g : Groups) : Groups :=
  if p.groupindex then { held with kwargs := g.kwargs } else { held with args := g.args }

namespace FilterBase

-- match as the source has it, with match_args and match_kwargs before and after
def matchHeld (f : FilterBase D) (path : String) (held : Groups) : PathResult × Groups :=
  match f.pattern with
  | none => (.yes path, held)
  | some p =>
    match p.groups path with
    | none => (.no, held)
    | some g =>
      match f.repl.filter (· ≠ "") with
      | none => (.yes path, held.set p g)
      | some repl =>
        match p.sub repl path with
        | none => (.error, held.set p g)
        | some path => (.yes path, held.set p g)

def Holds (f : FilterBase D) (held : Groups) : Prop :=
  match f.pattern with
  | none => held = ⟨[], []⟩
  | some p => if p.groupindex then held.args = [] else held.kwargs = []

theorem holds_init (f : FilterBase D) : f.Holds ⟨[], []⟩ := by
  rw [Holds]
  split
  · rfl
  · split
    · rfl
    · rfl

theorem set_holds {f : FilterBase D} {p : Pattern} {held : Groups} (hf : f.pattern = some p) (h : f.Holds held)
    (g : Groups) : f.Holds (held.set p g) ∧ held.set p g = matchGroups p g := by
  simp only [Holds, hf] at h ⊢
  rw [Groups.set, matchGroups]
  split at h
  · rename_i hindex
    rw [if_pos hindex, if_pos hindex, if_pos hindex]
    exact ⟨h, by rw [h]⟩
  · rename_i hindex
    rw [if_neg hindex, if_neg hindex, if_neg hindex]
    exact ⟨h, by rw [h]⟩

theorem matchHeld_eq {f : FilterBase D} {held : Groups} (h : f.Holds held) (path : String) :
    f.Holds (f.matchHeld path held).2 ∧
      f.matchPath path = (f.matchHeld path held).1.withGroups (f.matchHeld path held).2 := by
  rw [matchHeld, matchPath]
  cases hf : f.pattern with
  | none =>
    have hnone : held = ⟨[], []⟩ := by simpa only [Holds, hf] using h
    exact ⟨h, by rw [hnone]; rfl⟩
  | some p =>
    simp only
    cases p.groups path with
    | none => exact ⟨h, rfl⟩
    | some g =>
      obtain ⟨hset, heq⟩ := set_holds hf h g
      simp only
      cases f.repl.filter (· ≠ "") with
      | none => exact ⟨hset, by rw [heq]; rfl⟩
      | some repl =>
        simp only
        cases p.sub repl path with
        | none => exact ⟨hset, rfl⟩
        | some path => exact ⟨hset, by rw [heq]; rfl⟩

end FilterBase

-- the filter objects and the policies that name them, a filter may be in several
structure Router (D : Type) where
  filter : ℕ → FilterBase D
  policies : List (ℤ × List ℕ)

namespace Router

def policy (r : Router D) (p : ℤ × List ℕ) : Policy D := ⟨p.1, p.2.map r.filter⟩

def loaded (r : Router D) : List (Policy D) := r.policies.map r.policy

section findHandler

variable (r : Router D)

def firstFilter (request : HTTPRequest D) : List ℕ → (ℕ → Groups) → Option (Option (Application D)) × (ℕ → Groups)
  | [], held => (some none, held)
  | i :: filters, held =>
    let x := (r.filter i).matchHeld request.path (held i)
    let held := Function.update held i x.2
    match x.1 with
    | .no => firstFilter request filters held
    | .yes path => (some (some ⟨r.filter i, { request with path }, held i⟩), held)
    | .error => (none, held)

def findPolicies (request : HTTPRequest D) :
    List (ℤ × List ℕ) → (ℕ → Groups) → (Option (Handler D) × List (Application D)) × (ℕ → Groups)
  | [], held => ((some (.app request), []), held)
  | policy :: policies, held =>
    let x := r.firstFilter request policy.2 held
    match x.1 with
    | none => ((none, []), x.2)
    | some none => findPolicies request policies x.2
    | some (some a) =>
      match a.apply with
      | (.error e, request) => ((some (errorHandler request e), [a]), x.2)
      | (.ok (), request) =>
        let rest := findPolicies request policies x.2
        ((rest.1.1, a :: rest.1.2), rest.2)

def findHandler (held : ℕ → Groups) (request : HTTPRequest D) :
    (Option (Handler D) × List (Application D)) × (ℕ → Groups) :=
  r.findPolicies request r.policies held

end findHandler

def Holds (r : Router D) (held : ℕ → Groups) : Prop := ∀ i, (r.filter i).Holds (held i)

section isolated

variable {r : Router D} {held : ℕ → Groups}

theorem holds_update (h : r.Holds held) {i : ℕ} {g : Groups} (hg : (r.filter i).Holds g) :
    r.Holds (Function.update held i g) := by
  intro j
  rcases eq_or_ne j i with rfl | hne
  · rwa [Function.update_self]
  · rw [Function.update_of_ne hne]
    exact h j

theorem firstFilter_eq (request : HTTPRequest D) (filters : List ℕ) (h : r.Holds held) :
    (r.firstFilter request filters held).1 = Middleware.firstFilter request (filters.map r.filter) ∧
      r.Holds (r.firstFilter request filters held).2 := by
  induction filters generalizing held with
  | nil => exact ⟨rfl, h⟩
  | cons i filters ih =>
    obtain ⟨hholds, hmatch⟩ := FilterBase.matchHeld_eq (h i) request.path
    have hnext := holds_update h hholds
    rw [firstFilter, List.map_cons, Middleware.firstFilter, hmatch]
    cases ((r.filter i).matchHeld request.path (held i)).1 with
    | no => exact ih hnext
    | yes path =>
      refine ⟨?_, hnext⟩
      rw [Function.update_self]
      rfl
    | error => exact ⟨rfl, hnext⟩

theorem findPolicies_eq (request : HTTPRequest D) (policies : List (ℤ × List ℕ)) (h : r.Holds held) :
    (r.findPolicies request policies held).1 = Middleware.findHandler request (policies.map r.policy) ∧
      r.Holds (r.findPolicies request policies held).2 := by
  induction policies generalizing request held with
  | nil => exact ⟨rfl, h⟩
  | cons policy policies ih =>
    obtain ⟨hfirst, hnext⟩ := firstFilter_eq request policy.2 h
    rw [findPolicies, List.map_cons, Middleware.findHandler,
      show (r.policy policy).filters = policy.2.map r.filter from rfl, ← hfirst]
    simp only
    cases (r.firstFilter request policy.2 held).1 with
    | none => exact ⟨rfl, hnext⟩
    | some first =>
      cases first with
      | none => exact ih request hnext
      | some a =>
        simp only
        rcases a.apply with ⟨e | ⟨⟩, next⟩
        · exact ⟨rfl, hnext⟩
        · obtain ⟨hrest, hheld⟩ := ih next hnext
          refine ⟨?_, hheld⟩
          simp only
          rw [hrest]

theorem requests_are_isolated (r : Router D) (requests : List (HTTPRequest D)) :
    (answers r.findHandler (fun _ => ⟨[], []⟩) requests).1 =
      requests.map fun request => Middleware.findHandler request r.loaded :=
  answers_of_invariant (I := r.Holds) (fun _ request h => findPolicies_eq request r.policies h)
    (fun i => (r.filter i).holds_init) requests

end isolated

end Router

end Middleware
