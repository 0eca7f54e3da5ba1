import PyQgisServer.Library.Transition
import PyQgisServer.Cache.Manager

namespace QgsCache

open Transition Urllib

-- history lists the keys of the lookups, the last one first
structure Lookups (P : Type) where
  manager : CacheManager P
  history : List Str

structure Lookup (P : Type) where
  store : Store P
  key : Str
  refresh : Bool

def MoreRecent (history : List Str) (older newer : Str) : Prop :=
  history.idxOf newer < history.idxOf older ∧ older ∈ history

instance (history : List Str) (older newer : Str) : Decidable (MoreRecent history older newer) := by
  unfold MoreRecent
  infer_instance

namespace Lookups

variable {P : Type}

def start (m : CacheManager P) : Lookups P := ⟨m, []⟩

def step (env : Tables) (s : Lookups P) (a : Lookup P) : Option (Lookups P) :=
  match s.manager.lookup env a.store a.key a.refresh with
  | (.ok _, m) => some ⟨m, a.key :: s.history⟩
  | (.error _, _) => none

def EvictsOldest (s t : Lookups P) : Prop :=
  ∀ e ∈ s.manager.lru.tableKeys, e ∉ t.manager.lru.tableKeys →
    ∀ k ∈ s.manager.lru.tableKeys, k ≠ e → MoreRecent s.history e k

def peeksLast (s : Lookups P) (a : Lookup P) : Bool :=
  a.refresh || a.key ∉ s.manager.lru.tableKeys || s.manager.lru.tableKeys.getLast? == some a.key

def Ordered (s : Lookups P) : Prop :=
  s.manager.lru.tableKeys.Pairwise (MoreRecent s.history) ∧ ∀ k ∈ s.manager.lru.tableKeys, k ∈ s.history

end Lookups

theorem moreRecent_cons {history : List Str} {older newer key : Str} (ho : older ≠ key)
    (hn : newer ≠ key) (h : MoreRecent history older newer) :
    MoreRecent (key :: history) older newer := by
  obtain ⟨hlt, hmem⟩ := h
  refine ⟨?_, List.mem_cons_of_mem _ hmem⟩
  rw [List.idxOf_cons_ne _ hn.symm, List.idxOf_cons_ne _ ho.symm]
  omega

theorem moreRecent_head {history : List Str} {older key : Str} (ho : older ≠ key)
    (h : older ∈ history) : MoreRecent (key :: history) older key := by
  refine ⟨?_, List.mem_cons_of_mem _ h⟩
  rw [List.idxOf_cons_self, List.idxOf_cons_ne _ ho.symm]
  omega

namespace Lookups

variable {P : Type}

theorem step_cases {env : Tables} {s t : Lookups P} {a : Lookup P} (h : step env s a = some t) :
    t.history = a.key :: s.history ∧
      (a.refresh = false ∧ a.key ∈ s.manager.lru.tableKeys ∧ t.manager = s.manager ∨
        ∃ d, t.manager.lru = s.manager.lru.setItem a.key d) := by
  unfold step at h
  split at h
  · rename_i v m hlookup
    obtain rfl := Option.some.inj h
    exact ⟨rfl, CacheManager.lookup_ok hlookup⟩
  · cases h

theorem pairwise_push {history l : List Str} {key : Str} (hne : ∀ x ∈ l, x ≠ key)
    (hp : l.Pairwise (MoreRecent history)) (hmem : ∀ x ∈ l, x ∈ history) :
    (l ++ [key]).Pairwise (MoreRecent (key :: history)) := by
  rw [List.pairwise_append]
  refine ⟨?_, List.pairwise_singleton _ _, ?_⟩
  · refine hp.imp_of_mem fun {x y} hx hy hxy => ?_
    exact moreRecent_cons (hne x hx) (hne y hy) hxy
  · intro x hx y hy
    obtain rfl := List.mem_singleton.mp hy
    exact moreRecent_head (hne x hx) (hmem x hx)

theorem ordered_step {env : Tables} {s t : Lookups P} {a : Lookup P} (hs : s.Ordered)
    (hok : s.peeksLast a = true) (h : step env s a = some t) : t.Ordered := by
  obtain ⟨hp, hmem⟩ := hs
  obtain ⟨hhist, ⟨hrefresh, hkey, hman⟩ | ⟨d, hset⟩⟩ := step_cases h
  · have hlast : s.manager.lru.tableKeys.getLast? = some a.key := by
      simpa [peeksLast, hrefresh, hkey] using hok
    obtain ⟨l, hl⟩ := List.getLast?_eq_some_iff.mp hlast
    have hnodup : (l ++ [a.key]).Nodup := hl ▸ s.manager.lru.nodup_tableKeys
    have hne : ∀ x ∈ l, x ≠ a.key := by
      rintro x hx rfl
      exact (List.disjoint_of_nodup_append hnodup) hx (List.mem_singleton_self _)
    rw [hl] at hp hmem
    rw [Ordered, hman, hhist, hl]
    refine ⟨pairwise_push hne (List.pairwise_append.mp hp).1 fun x hx => ?_, fun x hx => ?_⟩
    · exact hmem x (List.mem_append_left _ hx)
    · exact List.mem_cons_of_mem _ (hmem x hx)
  · have hsub : (popitems s.manager.lru.capacity (s.manager.lru.tableKeys.filter (· ≠ a.key))).Sublist
        s.manager.lru.tableKeys := (popitems_suffix _ _).sublist.trans List.filter_sublist
    have hne : ∀ x ∈ popitems s.manager.lru.capacity (s.manager.lru.tableKeys.filter (· ≠ a.key)),
        x ≠ a.key := by
      intro x hx
      simpa using (List.mem_filter.mp ((popitems_suffix _ _).subset hx)).2
    rw [Ordered, hset, hhist, Lru.tableKeys_setItem]
    refine ⟨pairwise_push hne (hp.sublist hsub) fun x hx => hmem x (hsub.subset hx), fun x hx => ?_⟩
    rcases List.mem_append.mp hx with hx | hx
    · exact List.mem_cons_of_mem _ (hmem x (hsub.subset hx))
    · exact List.mem_cons.mpr (.inl (List.mem_singleton.mp hx))

theorem ordered_evicts {env : Tables} {s t : Lookups P} {a : Lookup P} (hs : s.Ordered)
    (h : step env s a = some t) : EvictsOldest s t := by
  intro e he hgone k hk hne
  obtain ⟨-, ⟨-, -, hman⟩ | ⟨d, hset⟩⟩ := step_cases h
  · rw [hman] at hgone
    exact absurd he hgone
  · rw [hset] at hgone
    obtain ⟨l, hl⟩ := List.head?_eq_some_iff.mp (Lru.evicted_head he hgone)
    obtain ⟨hp, -⟩ := hs
    rw [hl, List.pairwise_cons] at hp
    rw [hl, List.mem_cons] at hk
    exact hp.1 k (hk.resolve_left hne)

theorem evicts_least_recent {env : Tables} {m : CacheManager P} (hm : m.lru.tableKeys = [])
    {s t : Lookups P} {a : Lookup P} (hs : Reach (step env) (fun s a => s.peeksLast a = true) (start m) s)
    (h : step env s a = some t) : EvictsOldest s t := by
  refine ordered_evicts (hs.invariant ?_ fun _ _ _ => ordered_step) h
  simp [Ordered, start, hm]

def pairManager : CacheManager Str := ⟨srvTable, .init 2 Nat.two_pos, .empty, []⟩

def lookupName (name : String) (refresh : Bool) : Lookup Str := ⟨openStore, name.toList, refresh⟩

theorem evicts_least_recent_refreshed :
    ∃ s t, step asciiTables s (lookupName "c" false) = some t ∧ EvictsOldest s t ∧
      "b".toList ∈ s.manager.lru.tableKeys ∧ "b".toList ∉ t.manager.lru.tableKeys := by
  have hm : Meets (step asciiTables) (fun s a => s.peeksLast a = true) (start pairManager)
      [lookupName "a" false, lookupName "b" false, lookupName "a" true] :=
    .of_meets (by decide)
  obtain ⟨s, hs, hp⟩ := Reach.exists_of_run
    (fun s => (step asciiTables s (lookupName "c" false)).any fun t =>
      "b".toList ∈ s.manager.lru.tableKeys && "b".toList ∉ t.manager.lru.tableKeys) hm (by decide)
  obtain ⟨t, ht, hb⟩ := (Option.any_eq_true _ _).mp hp
  simp only [Bool.and_eq_true, decide_eq_true_eq] at hb
  exact ⟨s, t, ht, evicts_least_recent rfl hs ht, hb⟩

theorem peeked_key_evicted :
    ¬ ∀ (env : Tables) (m : CacheManager Str) (s t : Lookups Str) (a : Lookup Str),
      m.lru.tableKeys = [] → Reach (step env) (fun _ _ => True) (start m) s → step env s a = some t →
      EvictsOldest s t := by
  intro h
  have hm : Meets (step asciiTables) (fun _ _ => True) (start pairManager)
      [lookupName "a" false, lookupName "b" false, lookupName "a" false] :=
    .of_forall (fun _ _ _ => trivial) _
  obtain ⟨s, hs, hp⟩ := Reach.exists_of_run
    (fun s => (step asciiTables s (lookupName "c" false)).any fun t =>
      "a".toList ∈ s.manager.lru.tableKeys && "a".toList ∉ t.manager.lru.tableKeys &&
        "b".toList ∈ s.manager.lru.tableKeys && !MoreRecent s.history "a".toList "b".toList)
    hm (by decide)
  obtain ⟨t, ht, hb⟩ := (Option.any_eq_true _ _).mp hp
  simp only [Bool.and_eq_true, Bool.not_eq_true', decide_eq_true_eq, decide_eq_false_iff_not] at hb
  obtain ⟨⟨⟨he, hgone⟩, hk⟩, holder⟩ := hb
  exact holder (h asciiTables pairManager s t _ rfl hs ht _ he hgone _ hk (by decide))

end Lookups

end QgsCache
