import PyQgisServer.Cache.Atomic
import PyQgisServer.Qgis.RefreshCache

namespace QgsCache

open Urllib Transition

-- the generator that refresh returns; calls counts the updates, each of which may find other handlers
structure Refreshing (P : Type) where
  manager : CacheManager P
  pending : List Str
  calls : ℕ

inductive Consumer where
  | next
  | peek (key : Str) (cachetype : Option CacheManager.CacheType)
  deriving DecidableEq

inductive Turned (P E : Type) where
  | yielded (key : Str) (update : UpdateState)
  | stopped
  | raised (e : E)
  | details (d : Option (CacheDetails P))

def Turned.key {P E : Type} : Turned P E → Option Str
  | .yielded key _ => some key
  | _ => none

section pass

variable {P E : Type} (raise : CacheError → E) (env : Tables) (handlers : ℕ → Services P E)

def refreshStaticWith (m : CacheManager P) (key : Str × ℕ) : Except E Unit × CacheManager P :=
  let r := m.updateStaticEntryWith ((handlers key.2).details raise env) key.1
  (r.1.map fun _ => (), r.2)

def refreshWith (m : CacheManager P) : Except E (Refreshing P) × CacheManager P :=
  match Sweep.forEach (refreshStaticWith raise env handlers) m m.static.keys.zipIdx with
  | (.error e, m) => (.error e, m)
  | (.ok (), m) => (.ok ⟨m, m.lru.tableKeys, m.static.keys.length⟩, m)

def turn (g : Refreshing P) : Consumer → Turned P E × Refreshing P
  | .next =>
    match g.pending with
    | [] => (.stopped, g)
    | key :: pending =>
      match g.manager.updateEntryWith ((handlers g.calls).details raise env) key with
      | (.error e, m) => (.raised e, ⟨m, [], g.calls + 1⟩)
      | (.ok update, m) => (.yielded key update, ⟨m, pending, g.calls + 1⟩)
  | .peek key cachetype => (.details (g.manager.peek key cachetype), g)

def NoneRaises (m : CacheManager P) : Prop :=
  ∀ n key d, m.lru.peek key = some d ∨ m.static.get? key = some d →
    ∃ v, ((handlers n).details raise env m.aliases key (some d)).1 = .ok v

end pass

structure Rotated {P : Type} (m : CacheManager P) (yielded : List Str) (g : Refreshing P) : Prop where
  keys : m.lru.tableKeys = yielded ++ g.pending
  tableKeys : g.manager.lru.tableKeys = g.pending ++ yielded
  capacity : g.manager.lru.capacity = m.lru.capacity
  static : g.manager.static.keys = m.static.keys

namespace Rotated

variable {P : Type} {m : CacheManager P} {yielded : List Str} {g : Refreshing P}

theorem nodup (h : Rotated m yielded g) : (yielded ++ g.pending).Nodup := h.keys ▸ m.lru.nodup_tableKeys

theorem ended (h : Rotated m yielded g) (hp : g.pending = []) :
    yielded = m.lru.tableKeys ∧ g.manager.lru.tableKeys = m.lru.tableKeys := by
  have hk := h.keys
  have ht := h.tableKeys
  rw [hp, List.append_nil] at hk
  rw [hp, List.nil_append] at ht
  exact ⟨hk.symm, ht.trans hk.symm⟩

theorem tableKeys_setItem {c : Lru Str (CacheDetails P)} {key : Str} {l : List Str} (d : CacheDetails P)
    (h : c.tableKeys = key :: l) : (c.setItem key d).tableKeys = l ++ [key] := by
  have hnodup := c.nodup_tableKeys
  have hmem : key ∈ c.tableKeys := h ▸ List.mem_cons_self
  rw [Lru.tableKeys_setItem, popitems_eq_self (Lru.length_filter_lt hmem)]
  rw [h, List.nodup_cons] at hnodup
  rw [h, List.filter_cons_of_neg (by simp), List.filter_eq_self.mpr]
  intro k hk
  rw [decide_eq_true_eq]
  rintro rfl
  exact hnodup.1 hk

theorem step (h : Rotated m yielded g) {key : Str} {pending : List Str} (hp : g.pending = key :: pending)
    {d : CacheDetails P} {t : CacheManager P} (ht : g.manager.Sets key d t) (n : ℕ) :
    Rotated m (yielded ++ [key]) ⟨t, pending, n⟩ where
  keys := by rw [h.keys, hp, List.append_assoc, List.singleton_append]
  tableKeys := by
    have hk := h.tableKeys
    rw [hp, List.cons_append] at hk
    rw [ht.lru, tableKeys_setItem d hk, List.append_assoc]
  capacity := ht.kept.capacity.trans h.capacity
  static := ht.kept.staticKeys.trans h.static

end Rotated

section pass

variable {P E : Type} {raise : CacheError → E} {env : Tables} {handlers : ℕ → Services P E}

variable (raise env handlers) in
theorem turn_next {m : CacheManager P} {yielded : List Str} {g : Refreshing P} (h : Rotated m yielded g)
    {key : Str} {pending : List Str} (hp : g.pending = key :: pending) :
    (∃ e t, ((handlers g.calls).details raise env g.manager.aliases key (g.manager.held key)).1 = .error e ∧
      turn raise env handlers g .next = (.raised e, ⟨t, [], g.calls + 1⟩)) ∨
    ∃ d u v t, ((handlers g.calls).details raise env g.manager.aliases key (g.manager.held key)).1 = .ok (d, u) ∧
      turn raise env handlers g .next = (.yielded key v, ⟨t, pending, g.calls + 1⟩) ∧
      t.aliases = ((handlers g.calls).details raise env g.manager.aliases key (g.manager.held key)).2 ∧
      g.manager.Sets key d t ∧ Rotated m (yielded ++ [key]) ⟨t, pending, g.calls + 1⟩ := by
  rcases CacheManager.updateEntryWith_cases ((handlers g.calls).details raise env) g.manager key with
    ⟨e, he, hu⟩ | ⟨d, u, v, t, hd, hu, ha, ht⟩
  · refine .inl ⟨e, (g.manager.updateEntryWith ((handlers g.calls).details raise env) key).2, he, ?_⟩
    simp only [turn, hp, hu]
  · exact .inr ⟨d, u, v, t, hd, by simp only [turn, hp, hu], ha, ht, h.step hp ht _⟩

theorem answers_rotated {m : CacheManager P} {yielded : List Str} {g : Refreshing P} (h : Rotated m yielded g)
    (acts : List Consumer) (hraised : ∀ e, .raised e ∉ (answers (turn raise env handlers) g acts).1) :
    let r := answers (turn raise env handlers) g acts
    Rotated m (yielded ++ r.1.filterMap Turned.key) r.2 ∧ (g.pending.length ≤ acts.count .next → r.2.pending = []) := by
  induction acts generalizing g yielded with
  | nil =>
    refine ⟨?_, fun hle => List.eq_nil_of_length_eq_zero (Nat.le_zero.mp hle)⟩
    rw [answers, List.filterMap_nil, List.append_nil]
    exact h
  | cons a acts ih =>
    rw [answers] at hraised ⊢
    have hrest : ∀ e, .raised e ∉ (answers (turn raise env handlers) (turn raise env handlers g a).2 acts).1 :=
      fun e he => hraised e (List.mem_cons_of_mem _ he)
    cases a with
    | peek key cachetype =>
      have hcount : (Consumer.peek key cachetype :: acts).count .next = acts.count .next :=
        List.count_cons_of_ne (by simp)
      rw [hcount]
      exact ih h hrest
    | next =>
      rw [List.count_cons_self]
      cases hp : g.pending with
      | nil =>
        have hturn : turn raise env handlers g .next = (.stopped, g) := by simp only [turn, hp]
        rw [hturn] at hrest ⊢
        obtain ⟨hrotated, hended⟩ := ih h hrest
        exact ⟨hrotated, fun _ => hended (by rw [hp]; exact Nat.zero_le _)⟩
      | cons key pending =>
        rcases turn_next raise env handlers h hp with
          ⟨e, t, -, hturn⟩ | ⟨d, u, v, t, -, hturn, -, -, hnext⟩
        · rw [hturn] at hraised
          exact absurd List.mem_cons_self (hraised e)
        · rw [hturn] at hrest ⊢
          obtain ⟨hrotated, hended⟩ := ih hnext hrest
          refine ⟨?_, fun hle => hended (Nat.le_of_succ_le_succ hle)⟩
          rw [List.append_assoc] at hrotated
          exact hrotated

structure Untouched (m : CacheManager P) (g : Refreshing P) : Prop where
  same : m.aliases.Same g.manager.aliases
  peek : ∀ k ∈ g.pending, g.manager.lru.peek k = m.lru.peek k

theorem Untouched.next {m : CacheManager P} {yielded : List Str} {g : Refreshing P} (hu : Untouched m g)
    (h : Rotated m yielded g) {key : Str} {pending : List Str} (hp : g.pending = key :: pending) {t : CacheManager P}
    {d : CacheDetails P} (hsame : g.manager.aliases.Same t.aliases) (ht : g.manager.Sets key d t) (n : ℕ) :
    Untouched m ⟨t, pending, n⟩ := by
  refine ⟨hu.same.trans hsame, fun k hk => ?_⟩
  have hnodup := (hp ▸ (List.nodup_append.mp h.nodup).2.1 : (key :: pending).Nodup)
  have hne : k ≠ key := by
    rintro rfl
    exact (List.nodup_cons.mp hnodup).1 hk
  have hmem : key ∈ g.manager.lru.tableKeys := by
    rw [h.tableKeys, hp]
    exact List.mem_cons_self
  rw [ht.lru, Lru.peek_setItem_ne hmem hne]
  exact hu.peek k (hp ▸ List.mem_cons_of_mem _ hk)

theorem turn_yields {m : CacheManager P} (hnone : NoneRaises raise env handlers m) {yielded : List Str}
    {g : Refreshing P} (h : Rotated m yielded g) (hu : Untouched m g) {key : Str} {pending : List Str}
    (hp : g.pending = key :: pending) :
    ∃ v t, turn raise env handlers g .next = (.yielded key v, ⟨t, pending, g.calls + 1⟩) ∧
      Rotated m (yielded ++ [key]) ⟨t, pending, g.calls + 1⟩ ∧ Untouched m ⟨t, pending, g.calls + 1⟩ := by
  have hkey : key ∈ g.pending := hp ▸ List.mem_cons_self
  have hmem : key ∈ m.lru.tableKeys := by
    rw [h.keys]
    exact List.mem_append_right _ hkey
  obtain ⟨d, hd⟩ := Option.ne_none_iff_exists'.mp (Lru.mem_tableKeys_iff.mp hmem)
  have hheld : g.manager.held key = some d := by
    rw [CacheManager.held, hu.peek key hkey, hd, Option.some_or]
  rcases turn_next raise env handlers h hp with ⟨e, t, he, -⟩ | ⟨d', u, v, t, -, hturn, ha, ht, hnext⟩
  · obtain ⟨w, hw⟩ := hnone g.calls key d (.inl hd)
    rw [hheld, details_congr hu.same, hw] at he
    cases he
  · exact ⟨v, t, hturn, hnext, hu.next h hp (ha ▸ details_same _ _ _ _ _ _) ht _⟩

theorem answers_none_raised {m : CacheManager P} (hnone : NoneRaises raise env handlers m) {yielded : List Str}
    {g : Refreshing P} (h : Rotated m yielded g) (hu : Untouched m g) (acts : List Consumer) :
    ∀ e, .raised e ∉ (answers (turn raise env handlers) g acts).1 := by
  induction acts generalizing g yielded with
  | nil => exact fun _ => List.not_mem_nil
  | cons a acts ih =>
    intro e
    rw [answers, List.mem_cons, not_or]
    cases a with
    | peek key cachetype => exact ⟨by rintro ⟨⟩, ih h hu e⟩
    | next =>
      cases hp : g.pending with
      | nil =>
        have hturn : turn raise env handlers g .next = (.stopped, g) := by simp only [turn, hp]
        rw [hturn]
        exact ⟨by rintro ⟨⟩, ih h hu e⟩
      | cons key pending =>
        obtain ⟨v, t, hturn, hnext, hu'⟩ := turn_yields hnone h hu hp
        rw [hturn]
        exact ⟨by rintro ⟨⟩, ih hnext hu' e⟩

variable (raise env handlers) in
theorem refreshStaticWith_cases (m : CacheManager P) (key : Str × ℕ) (hkey : key.1 ∈ m.static.keys) :
    (∃ e t, ((handlers key.2).details raise env m.aliases key.1 (m.static.get? key.1)).1 = .error e ∧
      refreshStaticWith raise env handlers m key = (.error e, t)) ∨
    ∃ d t, refreshStaticWith raise env handlers m key = (.ok (), t) ∧ m.aliases.Same t.aliases ∧ t.lru = m.lru ∧
      t.static = m.static.set key.1 d ∧ t.static.keys = m.static.keys := by
  simp only [refreshStaticWith, CacheManager.updateStaticEntryWith]
  cases hd : ((handlers key.2).details raise env m.aliases key.1 (m.static.get? key.1)).1 with
  | error e => exact .inl ⟨e, _, rfl, rfl⟩
  | ok r =>
    refine .inr ⟨r.1, _, rfl, ?_, rfl, rfl, PyDict.keys_set r.1 hkey⟩
    exact details_same raise env (handlers key.2) m.aliases key.1 (m.static.get? key.1)

structure Checked (m n : CacheManager P) : Prop where
  same : m.aliases.Same n.aliases
  lru : n.lru = m.lru
  keys : n.static.keys = m.static.keys

variable (raise env handlers) in
theorem forEach_static {m n : CacheManager P} (h : Checked m n) {keys : List (Str × ℕ)}
    (hnodup : (keys.map Prod.fst).Nodup) (hkeys : ∀ k ∈ keys, k.1 ∈ m.static.keys)
    (hget : ∀ k ∈ keys, n.static.get? k.1 = m.static.get? k.1) :
    (∃ t, Sweep.forEach (refreshStaticWith raise env handlers) n keys = (.ok (), t) ∧ Checked m t) ∨
      ¬ NoneRaises raise env handlers m ∧
        ∃ e t, Sweep.forEach (refreshStaticWith raise env handlers) n keys = (.error e, t) := by
  induction keys generalizing n with
  | nil => exact .inl ⟨n, rfl, h⟩
  | cons key keys ih =>
    obtain ⟨hkey, hnodup⟩ := List.nodup_cons.mp hnodup
    have hmem := hkeys key List.mem_cons_self
    rw [Sweep.forEach]
    rcases refreshStaticWith_cases raise env handlers n key (h.keys ▸ hmem) with
      ⟨e, t, he, ht⟩ | ⟨d, t, ht, hsame, hlru, hset, hstatic⟩
    · rw [ht]
      refine .inr ⟨fun hnone => ?_, e, t, rfl⟩
      obtain ⟨d, hd⟩ := PyDict.mem_keys.mp hmem
      obtain ⟨v, hv⟩ := hnone key.2 key.1 d (.inr hd)
      rw [hget key List.mem_cons_self, hd, details_congr h.same, hv] at he
      cases he
    · rw [ht]
      refine ih ⟨h.same.trans hsame, hlru.trans h.lru, hstatic.trans h.keys⟩ hnodup
        (fun k hk => hkeys k (List.mem_cons_of_mem _ hk)) fun k hk => ?_
      rw [hset, PyDict.get?_set, if_neg]
      · exact hget k (List.mem_cons_of_mem _ hk)
      · exact fun heq => hkey (heq ▸ List.mem_map_of_mem hk)

variable (raise env handlers) in
theorem refreshWith_cases (m : CacheManager P) :
    (∃ g, refreshWith raise env handlers m = (.ok g, g.manager) ∧ Rotated m [] g ∧ Untouched m g) ∨
      ¬ NoneRaises raise env handlers m ∧ ∃ e t, refreshWith raise env handlers m = (.error e, t) := by
  have hfst : m.static.keys.zipIdx.map Prod.fst = m.static.keys := List.zipIdx_map_fst 0 _
  have hnodup : (m.static.keys.zipIdx.map Prod.fst).Nodup := hfst.symm ▸ m.static.nodup_keys
  have hkeys : ∀ k ∈ m.static.keys.zipIdx, k.1 ∈ m.static.keys := fun k hk => hfst ▸ List.mem_map_of_mem hk
  rw [refreshWith]
  rcases forEach_static raise env handlers (m := m) (n := m) ⟨.refl _, rfl, rfl⟩ hnodup hkeys fun _ _ => rfl with
    ⟨t, ht, hsame, hlru, hkeys⟩ | ⟨hnone, e, t, ht⟩
  · rw [ht]
    refine .inl ⟨_, rfl, ⟨?_, ?_, ?_, hkeys⟩, hsame, fun k _ => ?_⟩
    · simp only [hlru, List.nil_append]
    · simp only [List.append_nil]
    · simp only [hlru]
    · simp only [hlru]
  · rw [ht]
    exact .inr ⟨hnone, e, t, rfl⟩

structure Preserved (m : CacheManager P) (acts : List Consumer) (r : List (Turned P E) × Refreshing P) : Prop where
  rotated : Rotated m (r.1.filterMap Turned.key) r.2
  exhausted : m.lru.len ≤ acts.count .next →
    r.1.filterMap Turned.key = m.lru.tableKeys ∧ r.2.manager.lru.tableKeys = m.lru.tableKeys

theorem preserved_of_rotated {m : CacheManager P} {g : Refreshing P} (h : Rotated m [] g) (acts : List Consumer)
    (hraised : ∀ e, .raised e ∉ (answers (turn raise env handlers) g acts).1) :
    Preserved m acts (answers (turn raise env handlers) g acts) := by
  obtain ⟨hrotated, hover⟩ := answers_rotated h acts hraised
  refine ⟨hrotated, fun hle => hrotated.ended (hover ?_)⟩
  have hlen : m.lru.tableKeys.length = m.lru.len := List.length_map _
  rw [h.keys, List.nil_append] at hlen
  omega

end pass

section pass

variable {P E : Type}

theorem refresh_preserves (raise : CacheError → E) (env : Tables) (handlers : ℕ → Services P E)
    (m : CacheManager P) (acts : List Consumer) :
    (∀ g t, refreshWith raise env handlers m = (.ok g, t) →
      (∀ e, .raised e ∉ (answers (turn raise env handlers) g acts).1) →
      Preserved m acts (answers (turn raise env handlers) g acts)) ∧
    (NoneRaises raise env handlers m → ∃ g t, refreshWith raise env handlers m = (.ok g, t) ∧
      ∀ e, .raised e ∉ (answers (turn raise env handlers) g acts).1) := by
  rcases refreshWith_cases raise env handlers m with
    ⟨g, hg, hrotated, huntouched⟩ | ⟨hnone, e, t, ht⟩
  · refine ⟨fun g' t hg' => ?_, fun hnone => ⟨g, _, hg, answers_none_raised hnone hrotated huntouched acts⟩⟩
    rw [hg] at hg'
    cases hg'
    exact preserved_of_rotated hrotated acts
  · refine ⟨fun g t' hg => ?_, fun h => absurd h hnone⟩
    rw [ht] at hg
    cases hg

def fullManager : CacheManager ℕ :=
  (((Snapshot.start srvTable 1).setLru "a".toList ⟨0, 0⟩).setLru "b".toList ⟨0, 0⟩).setStatic "b".toList ⟨0, 0⟩

-- each call finds a new version
def renewing (n : ℕ) : Services ℕ CacheError := fun _ _ _ => .ok ⟨n, n⟩

theorem refresh_preserves_full :
    fullManager.lru.len = fullManager.lru.capacity ∧
      ∃ g t, refreshWith id asciiTables renewing fullManager = (.ok g, t) ∧
        Preserved fullManager [.next, .peek "b".toList none, .next]
          (answers (turn id asciiTables renewing) g [.next, .peek "b".toList none, .next]) := by
  have hnone : NoneRaises id asciiTables renewing fullManager := by
    intro n key d h
    have hkey : key = "a".toList ∨ key = "b".toList := by
      rcases h with h | h
      · have hmem : key ∈ fullManager.lru.tableKeys := Lru.mem_tableKeys_iff.mpr (by rw [h]; exact nofun)
        have hkeys : fullManager.lru.tableKeys = ["a".toList, "b".toList] := by decide
        simpa [hkeys] using hmem
      · have hmem : key ∈ fullManager.static.keys := PyDict.mem_keys.mpr ⟨d, h⟩
        have hkeys : fullManager.static.keys = ["b".toList] := by decide
        exact .inr (by simpa [hkeys] using hmem)
    have hurl : ∃ url, (resolveAlias asciiTables srvTable key).1 = .ok url := by
      rcases hkey with rfl | rfl
      · exact ⟨⟨⟨"file".toList, [], "/srv/a".toList, [], []⟩, []⟩, by decide⟩
      · exact ⟨⟨⟨"file".toList, [], "/srv/b".toList, [], []⟩, []⟩, by decide⟩
    obtain ⟨url, hurl⟩ := hurl
    have hschemes : (resolveAlias asciiTables srvTable key).2.allowedSchemes = none :=
      (resolveAlias_same asciiTables srvTable key).allowedSchemes
    have haliases : fullManager.aliases = srvTable := rfl
    refine ⟨(⟨n, n⟩, updateState (some d) ⟨n, n⟩), ?_⟩
    simp only [Services.details, haliases, hurl, serviceScheme, hschemes]
    rfl
  obtain ⟨hpreserved, hraised⟩ := refresh_preserves id asciiTables renewing fullManager
    [.next, .peek "b".toList none, .next]
  obtain ⟨g, t, hg, hok⟩ := hraised hnone
  exact ⟨by decide, g, t, hg, hpreserved g t hg hok⟩

end pass

section store

variable {P : Type} {env : Tables} {s : Store P}

theorem refresh_with (env : Tables) (s : Store P) (m : CacheManager P) :
    m.refresh env s = ((refreshWith id env (fun _ => s.services env) m).1.map Refreshing.pending,
      (refreshWith id env (fun _ => s.services env) m).2) := by
  have hentry : CacheManager.refreshStatic env s = fun m key =>
      refreshStaticWith id env (fun _ => s.services env) m (key, 0) := by
    funext m key
    rw [CacheManager.refreshStatic, refreshStaticWith, CacheManager.updateStaticEntry_with]
  have hpass : Sweep.forEach (refreshStaticWith id env fun _ => s.services env) m m.static.keys.zipIdx =
      Sweep.forEach (CacheManager.refreshStatic env s) m m.static.keys := by
    rw [hentry, ← List.zipIdx_map_fst 0 m.static.keys, ← Sweep.forEach_map, List.zipIdx_map_fst]
    rfl
  rw [CacheManager.refresh, refreshWith, hpass]
  split <;> simp_all [Except.map]

theorem turn_of_refreshEntry {c c' : Qgis.HandlerClass P} {key : Str}
    (h : Qgis.HandlerClass.refreshEntry env s c key = (.ok (), c')) (keys : List Str) (n : ℕ) :
    ∃ update, turn id env (fun _ => s.services env) ⟨c.cacheService, key :: keys, n⟩ .next =
      (.yielded key update, ⟨c'.cacheService, keys, n + 1⟩) := by
  simp only [Qgis.HandlerClass.refreshEntry] at h
  simp only [turn, ← CacheManager.updateEntry_with]
  split at h
  · cases h
  · rename_i update hu
    have hc : c'.cacheService = (c.cacheService.updateEntry env s key).2 := by
      split at h
      · split at h
        · cases h
        · obtain rfl := (Prod.mk.inj h).2
          rfl
      · obtain rfl := (Prod.mk.inj h).2
        rfl
    refine ⟨update, ?_⟩
    rw [hc, show c.cacheService.updateEntry env s key = (.ok update, (c.cacheService.updateEntry env s key).2)
      from Prod.ext hu rfl]

theorem refreshEntry_consumes {c d : Qgis.HandlerClass P} {keys : List Str}
    (h : Sweep.forEach (Qgis.HandlerClass.refreshEntry env s) c keys = (.ok (), d)) (n : ℕ) :
    ∃ acts, keys.length ≤ acts.count .next ∧
      (answers (turn id env fun _ => s.services env) ⟨c.cacheService, keys, n⟩ acts).2.manager = d.cacheService ∧
      ∀ e, .raised e ∉ (answers (turn id env fun _ => s.services env) ⟨c.cacheService, keys, n⟩ acts).1 := by
  induction keys generalizing c n with
  | nil =>
    obtain rfl := (Prod.mk.inj h).2
    exact ⟨[], Nat.zero_le _, rfl, fun _ => List.not_mem_nil⟩
  | cons key keys ih =>
    rw [Sweep.forEach] at h
    split at h
    · cases h
    · rename_i c' hentry
      obtain ⟨acts, hcount, hmanager, hraised⟩ := ih h (n + 1)
      obtain ⟨update, hturn⟩ := turn_of_refreshEntry hentry keys n
      refine ⟨.next :: acts, ?_, ?_, fun e => ?_⟩
      · rw [List.count_cons_self]
        exact Nat.succ_le_succ hcount
      · rw [answers, hturn]
        exact hmanager
      · rw [answers, hturn, List.mem_cons, not_or]
        exact ⟨by rintro ⟨⟩, hraised e⟩

theorem refreshCache_order {c d : Qgis.HandlerClass P} {now done : ℚ}
    (h : c.refreshCache env s now done = (.ok (), d)) :
    d.cacheService.lru.tableKeys = c.cacheService.lru.tableKeys ∧
      d.cacheService.lru.capacity = c.cacheService.lru.capacity ∧
      d.cacheService.static.keys = c.cacheService.static.keys := by
  unfold Qgis.HandlerClass.refreshCache at h
  split at h
  · rw [refresh_with] at h
    rcases refreshWith_cases id env (fun _ => s.services env) c.cacheService with
      ⟨g, hg, hrotated, -⟩ | ⟨-, e, t, ht⟩
    · rw [hg] at h
      simp only [Except.map] at h
      split at h
      · cases h
      · rename_i c' hforEach
        cases h
        obtain ⟨acts, hcount, hmanager, hraised⟩ := refreshEntry_consumes hforEach g.calls
        have hpreserved := preserved_of_rotated hrotated acts hraised
        have hlen : g.pending.length = c.cacheService.lru.len := by
          rw [← List.nil_append g.pending, ← hrotated.keys]
          exact List.length_map _
        have hkeys := (hpreserved.exhausted (hlen ▸ hcount)).2
        have hcapacity := hpreserved.rotated.capacity
        have hstatic := hpreserved.rotated.static
        rw [hmanager] at hkeys hcapacity hstatic
        exact ⟨hkeys, hcapacity, hstatic⟩
    · rw [ht] at h
      cases h
  · cases h
    exact ⟨rfl, rfl, rfl⟩

end store

end QgsCache
