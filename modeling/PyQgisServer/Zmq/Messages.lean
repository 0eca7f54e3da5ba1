import Mathlib.Data.List.Basic

namespace Zmq

abbrev Bytes := List UInt8

inductive PyVal where
  | none
  | int (n : Int)
  | str (s : String)
  deriving DecidableEq, Repr

abbrev Dict := List (String × PyVal)

namespace Dict

def find (d : Dict) (k : String) : Option PyVal := d.lookup k

def assign (d : Dict) (k : String) (v : PyVal) : Dict :=
  if (d.lookup k).isSome then d.map fun x => if x.1 = k then (k, v) else x else d ++ [(k, v)]

def remove (d : Dict) (k : String) : Dict := d.filter fun x => x.1 ≠ k

variable (d : Dict) (k : String)

theorem isSome_find : (d.find k).isSome ↔ ∃ x ∈ d, x.1 = k := by
  rw [find, List.lookup_isSome_iff]
  exact exists_congr fun x => and_congr_right fun _ => by rw [beq_iff_eq, eq_comm]

theorem find_remove : (d.remove k).find k = none := by
  rw [← Option.not_isSome_iff_eq_none, isSome_find]
  rintro ⟨x, hx, rfl⟩
  simp [remove] at hx

theorem find_remove_ne {l : String} (h : l ≠ k) : (d.remove k).find l = d.find l := by
  induction d with
  | nil => rfl
  | cons x d ih =>
    obtain ⟨key, value⟩ := x
    by_cases hk : key = k
    · subst hk
      simpa [remove, find, List.lookup_cons, beq_false_of_ne h] using ih
    · by_cases hl : l = key
      · simp [remove, find, hk, hl]
      · simpa [remove, find, hk, List.lookup_cons, beq_false_of_ne hl] using ih

theorem isSome_find_assign (v : PyVal) (l : String) :
    ((d.assign k v).find l).isSome = ((d.find l).isSome || k == l) := by
  rw [Bool.eq_iff_iff, isSome_find, Bool.or_eq_true, isSome_find, beq_iff_eq, assign]
  split
  · rename_i hk
    obtain ⟨y, hy, hyk⟩ := (isSome_find d k).mp hk
    constructor
    · rintro ⟨x, hx, rfl⟩
      obtain ⟨z, hz, rfl⟩ := List.mem_map.mp hx
      split
      · exact .inr rfl
      · exact .inl ⟨z, hz, rfl⟩
    · rintro (⟨x, hx, rfl⟩ | rfl)
      · refine ⟨_, List.mem_map_of_mem hx, ?_⟩
        split
        · rename_i hxk
          exact hxk.symm
        · rfl
      · exact ⟨_, List.mem_map_of_mem hy, by rw [if_pos hyk]⟩
  · simp only [List.mem_append, List.mem_singleton]
    constructor
    · rintro ⟨x, hx | rfl, rfl⟩
      · exact .inl ⟨x, hx, rfl⟩
      · exact .inr rfl
    · rintro (⟨x, hx, rfl⟩ | rfl)
      · exact ⟨x, .inl hx, rfl⟩
      · exact ⟨(k, v), .inr rfl, rfl⟩

theorem find_map_assign (l : String) (v : PyVal) :
    find (d.map fun x => if x.1 = k then (k, v) else x) l =
      if l = k then (d.find k).map fun _ => v else d.find l := by
  induction d with
  | nil => simp [find]
  | cons x d ih =>
    obtain ⟨key, value⟩ := x
    simp only [find, List.map_cons] at ih ⊢
    by_cases hx : key = k
    · subst hx
      by_cases hl : l = key
      · simp [hl]
      · simpa [hl, List.lookup_cons, beq_false_of_ne hl] using ih
    · by_cases hl : l = k
      · subst hl
        simpa [hx, List.lookup_cons, beq_false_of_ne (Ne.symm hx)] using ih
      · by_cases hlx : l = key
        · simp [hx, hlx]
        · simpa [hx, hl, List.lookup_cons, beq_false_of_ne hlx] using ih

theorem find_assign (l : String) (v : PyVal) :
    (d.assign k v).find l = if l = k then some v else d.find l := by
  rw [assign]
  cases hk : d.lookup k with
  | some w =>
    have hfind : d.find k = some w := hk
    rw [if_pos (by simp), find_map_assign, hfind]
    rfl
  | none =>
    rw [if_neg (by simp)]
    by_cases hl : l = k
    · subst hl
      simp [find, List.lookup_append, hk]
    · rw [if_neg hl]
      simp [find, List.lookup_append, List.lookup_cons, beq_false_of_ne hl]

end Dict

structure RequestMessage where
  query : String
  headers : Dict
  method : String
  data : Option Bytes
  deriving DecidableEq, Repr

structure ReplyMessage where
  status : Int
  headers : Dict
  data : Bytes
  metadata : Option Dict
  deriving DecidableEq, Repr

inductive Pickled where
  | request (m : RequestMessage)
  | reply (m : ReplyMessage)
  | chunk (data : Bytes) (sendMore : Bool) (metadata : Option Dict)
  deriving DecidableEq, Repr

-- a pickled frame is kept as the object it carries; nothing in the code looks at its bytes
inductive Frame where
  | bytes (b : Bytes)
  | pickle (o : Pickled)
  deriving DecidableEq, Repr

def Frame.loads : Frame → Option Pickled
  | .pickle o => some o
  | .bytes _ => none

def workerReady : Frame := .bytes [114, 101, 97, 100, 121]

def err : Frame := .bytes [69, 82, 82]

def workerInternalError : Bytes :=
  [87, 111, 114, 107, 101, 114, 32, 105, 110, 116, 101, 114, 110, 97, 108, 32, 101, 114, 114, 111, 114]

def busy : Frame := .bytes [53, 48, 57]

structure Envelope where
  clientId : Frame
  msgid : Frame
  data : Frame
  deriving DecidableEq, Repr

end Zmq
