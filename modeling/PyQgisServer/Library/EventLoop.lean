import Mathlib.Algebra.Order.Ring.Rat
import PyQgisServer.Library.PyDict

namespace EventLoop

variable {A : Type}

structure TimerHandle (A : Type) where
  arg : A
  due : ℚ
  deriving DecidableEq

-- the armed timers, by the number of their handle
structure Loop (A : Type) where
  time : ℚ
  timers : PyDict ℕ (TimerHandle A)
  created : ℕ
  fresh : ∀ h ∈ timers.keys, h < created

namespace Loop

def init : Loop A := ⟨0, .empty, 0, by simp⟩

def armed (l : Loop A) (h : ℕ) : Option (TimerHandle A) := l.timers.get? h

theorem lt_created {l : Loop A} {h : ℕ} {timer : TimerHandle A} (hl : l.armed h = some timer) : h < l.created :=
  l.fresh h (PyDict.mem_keys.mpr ⟨timer, hl⟩)

def callLater (l : Loop A) (delay : ℚ) (arg : A) : Loop A where
  time := l.time
  timers := l.timers.set l.created ⟨arg, l.time + delay⟩
  created := l.created + 1
  fresh := by
    intro h hh
    obtain ⟨timer, htimer⟩ := PyDict.mem_keys.mp hh
    rw [PyDict.get?_set] at htimer
    split at htimer
    · omega
    · have := l.lt_created htimer
      omega

-- without effect on a timer that has fired
def cancel (l : Loop A) (h : ℕ) : Loop A where
  time := l.time
  timers := l.timers.erase h
  created := l.created
  fresh := by
    intro k hk
    rw [PyDict.keys_erase] at hk
    exact l.fresh k (List.mem_filter.mp hk).1

def wait (l : Loop A) (d : ℚ) : Loop A := { l with time := l.time + d }

-- a timer fires at any time from when it is due
def pop (l : Loop A) (h : ℕ) : Option (A × Loop A) :=
  match l.armed h with
  | none => none
  | some timer => if timer.due ≤ l.time then some (timer.arg, l.cancel h) else none

@[simp] theorem armed_init (h : ℕ) : (init : Loop A).armed h = none := rfl

@[simp] theorem time_callLater (l : Loop A) (delay : ℚ) (arg : A) : (l.callLater delay arg).time = l.time := rfl

@[simp] theorem time_cancel (l : Loop A) (h : ℕ) : (l.cancel h).time = l.time := rfl

@[simp] theorem armed_wait (l : Loop A) (d : ℚ) (h : ℕ) : (l.wait d).armed h = l.armed h := rfl

theorem armed_callLater (l : Loop A) (delay : ℚ) (arg : A) (h : ℕ) :
    (l.callLater delay arg).armed h = if h = l.created then some ⟨arg, l.time + delay⟩ else l.armed h :=
  PyDict.get?_set l.timers l.created h _

theorem armed_cancel (l : Loop A) (h k : ℕ) : (l.cancel h).armed k = if k = h then none else l.armed k :=
  PyDict.get?_erase l.timers h k

theorem armed_cancelAll (l : Loop A) (hs : List ℕ) (k : ℕ) :
    (hs.foldl cancel l).armed k = if k ∈ hs then none else l.armed k := by
  induction hs generalizing l with
  | nil => simp
  | cons h hs ih =>
    rw [List.foldl_cons, ih, armed_cancel]
    by_cases hk : k = h
    · simp [hk]
    · simp [hk]

theorem pop_eq_some {l m : Loop A} {h : ℕ} {arg : A} (hp : l.pop h = some (arg, m)) :
    ∃ due, l.armed h = some ⟨arg, due⟩ ∧ due ≤ l.time ∧ m = l.cancel h := by
  cases hl : l.armed h with
  | none => simp [pop, hl] at hp
  | some timer =>
    simp only [pop, hl] at hp
    split at hp
    · rename_i hdue
      cases hp
      exact ⟨timer.due, rfl, hdue, rfl⟩
    · cases hp

end Loop

end EventLoop
