import Mathlib.Data.List.Basic
import PyQgisServer.Library.PySorted

namespace Middleware

-- the data is what a request has beside its path
structure HTTPRequest (D : Type) where
  path : String
  data : D

structure Groups where
  args : List (Option String)
  kwargs : List (String × Option String)

-- re.Pattern: its groups where it matches, whether one of them has a name, and the first match
-- replaced, none for an invalid replacement
structure Pattern where
  groups : String → Option Groups
  groupindex : Bool
  sub : String → String → Option String

inductive Raised where
  | httpError (statusCode : ℕ) (reason : Option String)
  | exception

structure FilterBase (D : Type) where
  pattern : Option Pattern
  repl : Option String
  fn : HTTPRequest D → Groups → Except Raised Unit × HTTPRequest D

structure Policy (D : Type) where
  pri : ℤ
  filters : List (FilterBase D)

section loadAccessPolicies

variable {D : Type}

-- none for an object that is not a filter
def addFilters (filters : List (Option (FilterBase D))) (pri : ℤ) : Policy D := ⟨pri, filters.filterMap id⟩

def loadAccessPolicies (added : List (List (Option (FilterBase D)) × ℤ)) : List (Policy D) :=
  PySorted.descending Policy.pri (added.map fun x => addFilters x.1 x.2)

end loadAccessPolicies

structure Match where
  path : String
  groups : Groups

inductive MatchResult where
  | no
  | yes (m : Match)
  | error

namespace FilterBase

variable {D : Type}

-- named and unnamed groups are not used together
def matchGroups (p : Pattern) (g : Groups) : Groups := if p.groupindex then ⟨[], g.kwargs⟩ else ⟨g.args, []⟩

def matchPath (f : FilterBase D) (path : String) : MatchResult :=
  match f.pattern with
  | none => .yes ⟨path, [], []⟩
  | some p =>
    match p.groups path with
    | none => .no
    | some g =>
      match f.repl.filter (· ≠ "") with
      | none => .yes ⟨path, matchGroups p g⟩
      | some repl =>
        match p.sub repl path with
        | none => .error
        | some path => .yes ⟨path, matchGroups p g⟩

end FilterBase

-- a filter that is applied, to the request with the path it has rewritten
structure Application (D : Type) where
  filter : FilterBase D
  request : HTTPRequest D
  groups : Groups

inductive Handler (D : Type) where
  | app (request : HTTPRequest D)
  | error (statusCode : ℕ) (reason : Option String) (request : HTTPRequest D)

namespace Application

variable {D : Type}

def of (f : FilterBase D) (request : HTTPRequest D) (m : Match) : Application D :=
  ⟨f, { request with path := m.path }, m.groups⟩

def apply (a : Application D) : Except Raised Unit × HTTPRequest D := a.filter.fn a.request a.groups

end Application

section findHandler

variable {D : Type}

-- the loop over the filters of a policy: none of them matches, or one is applied, or none for an
-- invalid replacement
def firstFilter (request : HTTPRequest D) : List (FilterBase D) → Option (Option (Application D))
  | [] => some none
  | filt :: filters =>
    match filt.matchPath request.path with
    | .no => firstFilter request filters
    | .yes m => some (some (.of filt request m))
    | .error => none

def errorHandler (request : HTTPRequest D) : Raised → Handler D
  | .httpError statusCode reason => .error statusCode reason request
  | .exception => .error 500 none request

-- the handler and the filters that were applied, none for the error of an invalid replacement
def findHandler (request : HTTPRequest D) : List (Policy D) → Option (Handler D) × List (Application D)
  | [] => (some (.app request), [])
  | policy :: policies =>
    match firstFilter request policy.filters with
    | none => (none, [])
    | some none => findHandler request policies
    | some (some a) =>
      match a.apply with
      | (.error e, request) => (some (errorHandler request e), [a])
      | (.ok (), request) =>
        let rest := findHandler request policies
        (rest.1, a :: rest.2)

end findHandler

section guarded

variable {D : Type}

def FirstMatch (policy : Policy D) (request : HTTPRequest D) (a : Application D) : Prop :=
  ∃ before filt after m, policy.filters = before ++ filt :: after ∧ (∀ f ∈ before, f.matchPath request.path = .no) ∧
    filt.matchPath request.path = .yes m ∧ a = .of filt request m

inductive Passed : List (Policy D) → HTTPRequest D → List (Application D) → HTTPRequest D → Prop
  | nil (request : HTTPRequest D) : Passed [] request [] request
  | skip {policy : Policy D} {policies : List (Policy D)} {request final : HTTPRequest D} {log : List (Application D)}
      (hno : ∀ f ∈ policy.filters, f.matchPath request.path = .no) (h : Passed policies request log final) :
      Passed (policy :: policies) request log final
  | apply {policy : Policy D} {policies : List (Policy D)} {request next final : HTTPRequest D} {a : Application D}
      {log : List (Application D)} (hfirst : FirstMatch policy request a) (happly : a.apply = (.ok (), next))
      (h : Passed policies next log final) : Passed (policy :: policies) request (a :: log) final

def Raises (policies : List (Policy D)) (request : HTTPRequest D) (before : List (Application D)) (a : Application D)
    (e : Raised) (last : HTTPRequest D) : Prop :=
  ∃ higher policy lower next, policies = higher ++ policy :: lower ∧ Passed higher request before next ∧
    FirstMatch policy next a ∧ a.apply = (.error e, last)

structure Ordered (added policies : List (Policy D)) : Prop where
  perm : policies.Perm added
  decreasing : policies.Pairwise fun p q => q.pri ≤ p.pri
  stable : ∀ pri, policies.filter (fun p => p.pri = pri) = added.filter fun p => p.pri = pri

structure Guarded (policies : List (Policy D)) (request : HTTPRequest D) (handler : Option (Handler D))
    (log : List (Application D)) : Prop where
  app : ∀ final, handler = some (.app final) → Passed policies request log final
  httpError : ∀ before a statusCode reason last, Raises policies request before a (.httpError statusCode reason) last →
    handler = some (.error statusCode reason last) ∧ log = before ++ [a]
  exception : ∀ before a last, Raises policies request before a .exception last →
    handler = some (.error 500 none last) ∧ log = before ++ [a]
  last : ∀ a ∈ log, ∀ e next, a.apply = (.error e, next) →
    ∃ before, Raises policies request before a e next ∧ log = before ++ [a]

theorem firstFilter_skip {request : HTTPRequest D} {before : List (FilterBase D)}
    (h : ∀ f ∈ before, f.matchPath request.path = .no) (filters : List (FilterBase D)) :
    firstFilter request (before ++ filters) = firstFilter request filters := by
  induction before with
  | nil => rfl
  | cons filt before ih =>
    obtain ⟨hno, hrest⟩ := List.forall_mem_cons.mp h
    rw [List.cons_append, firstFilter, hno]
    exact ih hrest

theorem firstFilter_none {request : HTTPRequest D} {filters : List (FilterBase D)}
    (h : ∀ f ∈ filters, f.matchPath request.path = .no) : firstFilter request filters = some none := by
  have hskip := firstFilter_skip h []
  rwa [List.append_nil] at hskip

theorem FirstMatch.firstFilter {policy : Policy D} {request : HTTPRequest D} {a : Application D}
    (h : FirstMatch policy request a) : firstFilter request policy.filters = some (some a) := by
  obtain ⟨before, filt, after, m, hfilters, hbefore, hmatch, rfl⟩ := h
  rw [hfilters, firstFilter_skip hbefore, Middleware.firstFilter, hmatch]

theorem Passed.findHandler {policies : List (Policy D)} {request next : HTTPRequest D} {log : List (Application D)}
    (h : Passed policies request log next) (rest : List (Policy D)) :
    findHandler request (policies ++ rest) = ((findHandler next rest).1, log ++ (findHandler next rest).2) := by
  induction h with
  | nil request => rfl
  | skip hno h ih => rw [List.cons_append, Middleware.findHandler, firstFilter_none hno, ih]
  | apply hfirst happly h ih => simp only [List.cons_append, Middleware.findHandler, hfirst.firstFilter, happly, ih]

theorem Raises.findHandler {policies : List (Policy D)} {request last : HTTPRequest D} {before : List (Application D)}
    {a : Application D} {e : Raised} (h : Raises policies request before a e last) :
    findHandler request policies = (some (errorHandler last e), before ++ [a]) := by
  obtain ⟨higher, policy, lower, next, rfl, hpassed, hfirst, happly⟩ := h
  rw [hpassed.findHandler, Middleware.findHandler, hfirst.firstFilter]
  simp only [happly]

theorem Raises.skip {policy : Policy D} {policies : List (Policy D)} {request last : HTTPRequest D}
    {before : List (Application D)} {a : Application D} {e : Raised}
    (hno : ∀ f ∈ policy.filters, f.matchPath request.path = .no) (h : Raises policies request before a e last) :
    Raises (policy :: policies) request before a e last := by
  obtain ⟨higher, p, lower, next, rfl, hpassed, hrest⟩ := h
  exact ⟨policy :: higher, p, lower, next, rfl, hpassed.skip hno, hrest⟩

theorem Raises.apply {policy : Policy D} {policies : List (Policy D)} {request next last : HTTPRequest D}
    {before : List (Application D)} {a b : Application D} {e : Raised} (hfirst : FirstMatch policy request b)
    (happly : b.apply = (.ok (), next)) (h : Raises policies next before a e last) :
    Raises (policy :: policies) request (b :: before) a e last := by
  obtain ⟨higher, p, lower, r, rfl, hpassed, hrest⟩ := h
  exact ⟨policy :: higher, p, lower, r, rfl, hpassed.apply hfirst happly, hrest⟩

theorem firstFilter_cases (request : HTTPRequest D) (filters : List (FilterBase D)) :
    firstFilter request filters = some none ∧ (∀ f ∈ filters, f.matchPath request.path = .no) ∨
      (∃ before filt after m, filters = before ++ filt :: after ∧ (∀ f ∈ before, f.matchPath request.path = .no) ∧
        filt.matchPath request.path = .yes m ∧ firstFilter request filters = some (some (.of filt request m))) ∨
      firstFilter request filters = none := by
  induction filters with
  | nil => exact .inl ⟨rfl, fun f hf => absurd hf List.not_mem_nil⟩
  | cons filt filters ih =>
    rw [firstFilter]
    cases hmatch : filt.matchPath request.path with
    | no =>
      rcases ih with ⟨hnone, hall⟩ | ⟨before, f, after, m, hfilters, hbefore, hyes, hfirst⟩ | herror
      · exact .inl ⟨hnone, List.forall_mem_cons.mpr ⟨hmatch, hall⟩⟩
      · exact .inr (.inl ⟨filt :: before, f, after, m, by rw [hfilters]; rfl,
          List.forall_mem_cons.mpr ⟨hmatch, hbefore⟩, hyes, hfirst⟩)
      · exact .inr (.inr herror)
    | yes m =>
      exact .inr (.inl ⟨[], filt, filters, m, rfl, fun f hf => absurd hf List.not_mem_nil, hmatch, rfl⟩)
    | error => exact .inr (.inr rfl)

theorem Passed.returned {policies : List (Policy D)} {request final : HTTPRequest D} {log : List (Application D)}
    (h : Passed policies request log final) : ∀ a ∈ log, a.apply.1 = .ok () := by
  induction h with
  | nil request => exact fun a ha => absurd ha List.not_mem_nil
  | skip hno h ih => exact ih
  | apply hfirst happly h ih => exact List.forall_mem_cons.mpr ⟨by rw [happly], ih⟩

theorem findHandler_cases (policies : List (Policy D)) (request : HTTPRequest D) :
    (∃ final, (findHandler request policies).1 = some (.app final) ∧
        Passed policies request (findHandler request policies).2 final) ∨
      (∃ before a e last, Raises policies request before a e last) ∨
      ((findHandler request policies).1 = none ∧ ∀ a ∈ (findHandler request policies).2, a.apply.1 = .ok ()) := by
  induction policies generalizing request with
  | nil => exact .inl ⟨request, rfl, .nil request⟩
  | cons policy policies ih =>
    rw [findHandler]
    rcases firstFilter_cases request policy.filters with ⟨hnone, hno⟩ | hyes | herror
    · rw [hnone]
      rcases ih request with ⟨final, happ, hpassed⟩ | ⟨before, a, e, last, hraises⟩ | hnothing
      · exact .inl ⟨final, happ, hpassed.skip hno⟩
      · exact .inr (.inl ⟨before, a, e, last, hraises.skip hno⟩)
      · exact .inr (.inr hnothing)
    · obtain ⟨before, filt, after, m, hfilters, hbefore, hmatch, hfirst⟩ := hyes
      have hfirstMatch : FirstMatch policy request (.of filt request m) :=
        ⟨before, filt, after, m, hfilters, hbefore, hmatch, rfl⟩
      rw [hfirst]
      rcases happly : (Application.of filt request m).apply with ⟨e | ⟨⟩, next⟩
      · exact .inr (.inl ⟨[], _, e, next, [], policy, policies, request, rfl, .nil request, hfirstMatch, happly⟩)
      · simp only [happly]
        rcases ih next with ⟨final, happ, hpassed⟩ | ⟨before, a, e, last, hraises⟩ | ⟨hnone, hreturned⟩
        · exact .inl ⟨final, happ, hpassed.apply hfirstMatch happly⟩
        · exact .inr (.inl ⟨_, a, e, last, hraises.apply hfirstMatch happly⟩)
        · exact .inr (.inr ⟨hnone, List.forall_mem_cons.mpr ⟨by rw [happly], hreturned⟩⟩)
    · rw [herror]
      exact .inr (.inr ⟨rfl, fun a ha => absurd ha List.not_mem_nil⟩)

theorem errorHandler_ne_app (request final : HTTPRequest D) (e : Raised) : errorHandler request e ≠ .app final := by
  cases e with
  | httpError statusCode reason => rintro ⟨⟩
  | exception => rintro ⟨⟩

theorem not_returned {a : Application D} {e : Raised} {next : HTTPRequest D} (h : a.apply = (.error e, next)) :
    a.apply.1 ≠ .ok () := by
  rw [h]
  rintro ⟨⟩

theorem findHandler_guarded (policies : List (Policy D)) (request : HTTPRequest D) :
    Guarded policies request (findHandler request policies).1 (findHandler request policies).2 where
  app := by
    intro final hhandler
    rcases findHandler_cases policies request with ⟨other, happ, hpassed⟩ | ⟨before, a, e, last, hraises⟩ | ⟨hnone, -⟩
    · obtain rfl := Handler.app.inj (Option.some.inj (happ.symm.trans hhandler))
      exact hpassed
    · rw [hraises.findHandler] at hhandler
      exact absurd (Option.some.inj hhandler) (errorHandler_ne_app last final e)
    · rw [hnone] at hhandler
      cases hhandler
  httpError := by
    intro before a statusCode reason last hraises
    rw [hraises.findHandler]
    exact ⟨rfl, rfl⟩
  exception := by
    intro before a last hraises
    rw [hraises.findHandler]
    exact ⟨rfl, rfl⟩
  last := by
    intro a ha e next happly
    rcases findHandler_cases policies request with ⟨final, -, hpassed⟩ | ⟨before, b, e', last, hraises⟩ | ⟨-, hall⟩
    · exact absurd (hpassed.returned a ha) (not_returned happly)
    · rw [hraises.findHandler] at ha ⊢
      obtain ⟨higher, policy, lower, r, hpolicies, hpassed, hfirst, hb⟩ := hraises
      rcases List.mem_append.mp ha with hbefore | hlast
      · exact absurd (hpassed.returned a hbefore) (not_returned happly)
      · obtain rfl := List.mem_singleton.mp hlast
        obtain ⟨he, rfl⟩ := Prod.mk.inj (hb.symm.trans happly)
        obtain rfl := Except.error.inj he
        exact ⟨before, ⟨higher, policy, lower, r, hpolicies, hpassed, hfirst, hb⟩, rfl⟩
    · exact absurd (hall a ha) (not_returned happly)

theorem loadAccessPolicies_ordered (added : List (List (Option (FilterBase D)) × ℤ)) :
    Ordered (added.map fun x => addFilters x.1 x.2) (loadAccessPolicies added) :=
  ⟨PySorted.perm_descending _ _, PySorted.pairwise_descending _ _, PySorted.filter_descending _ _⟩

theorem access_guarded (added : List (List (Option (FilterBase D)) × ℤ)) (request : HTTPRequest D) :
    Ordered (added.map fun x => addFilters x.1 x.2) (loadAccessPolicies added) ∧
      Guarded (loadAccessPolicies added) request (findHandler request (loadAccessPolicies added)).1
        (findHandler request (loadAccessPolicies added)).2 :=
  ⟨loadAccessPolicies_ordered added, findHandler_guarded _ _⟩

end guarded

end Middleware
