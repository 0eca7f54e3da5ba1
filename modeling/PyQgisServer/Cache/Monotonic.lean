import PyQgisServer.Cache.Freshness

namespace QgsCache

open Urllib Transition

namespace Snapshot

variable {P : Type} {origin : P → ℤ}

-- the lookups that have succeeded, with the date of the project they returned; the last one first
structure Reader (P : Type) where
  manager : CacheManager P
  served : List (Str × ℤ)

def serve (env : Tables) (r : Reader P) (a : Action origin) : Reader P where
  manager := step env r.manager a
  served :=
    match a with
    | .lookup s key refresh =>
      match (r.manager.lookup env s.toStore key refresh).1 with
      | .ok (project, _) => (key, origin project) :: r.served
      | .error _ => r.served
    | _ => r.served

def serveAll (env : Tables) : Reader P → List (Action origin) → Reader P := List.foldl (serve env)

def Monotonic (served : List (Str × ℤ)) : Prop := served.Pairwise fun x y => x.1 = y.1 → y.2 ≤ x.2

section history

variable (env : Tables) (aliases : AliasTable)

def Stamped (s : Snapshot origin) : Prop :=
  ∀ key v, version env s.toStore aliases key = .ok v → s.content v.2.1 = v.2.2

def Later (s s' : Snapshot origin) : Prop :=
  ∀ key v v', version env s.toStore aliases key = .ok v → version env s'.toStore aliases key = .ok v' → v.2.2 ≤ v'.2.2

def Async : Action origin → Prop
  | .lookup _ _ refresh => refresh = false
  | _ => True

def Settled (m : CacheManager P) : Action origin → Prop
  | .update s key => m.lru.peek key ≠ none → ∀ e ∈ m.static.get? key, ∀ v project,
      version env s.toStore m.aliases key = .ok v → s.readProject v.2.1 = .ok project → v.2.2 ≤ e.timestamp
  | _ => True

structure Ordered (world rest : List (Snapshot origin)) (m : CacheManager P) : Prop where
  sourced : Sourced env aliases world m
  behind : ∀ s ∈ rest, ∀ key d, m.Entry key d → ∀ v, version env s.toStore aliases key = .ok v → d.timestamp ≤ v.2.2
  ordered : ∀ key d e, m.lru.peek key = some d → m.static.get? key = some e → d.timestamp ≤ e.timestamp

structure Floor (rest : List (Snapshot origin)) (m : CacheManager P) (key : Str) (t : ℤ) : Prop where
  entry : ∀ d, m.Entry key d → t ≤ d.timestamp
  store : ∀ s ∈ rest, ∀ v, version env s.toStore aliases key = .ok v → t ≤ v.2.2

end history

variable {env : Tables} {aliases : AliasTable} {world rest : List (Snapshot origin)} {m : CacheManager P}
  {a : Action origin} {key : Str} {t : ℤ}

theorem dated_of_stamped (h : ∀ s ∈ world, Stamped env aliases s) : Dated env aliases world := by
  intro s hs s' hs' key v v' hv hv' ht
  rw [h s hs key v hv, h s' hs' key v' hv', ht]

theorem Sourced.origin_eq (h : Sourced env aliases world m) (hstamped : ∀ s ∈ world, Stamped env aliases s)
    {d : CacheDetails P} (hd : m.Entry key d) : origin d.project = d.timestamp := by
  obtain ⟨s, hs, v, hv, ht, hc⟩ := h.entries key d hd
  rw [← hc, ← ht]
  exact hstamped s hs key v hv

theorem Ordered.forward (h : Ordered env aliases world (a.store :: rest) m) : Forward env m a := by
  intro d hd v hv
  rw [version_congr h.sourced.same] at hv
  refine h.behind a.store List.mem_cons_self a.key d ?_ v hv
  cases a with
  | preload s key => exact .inr hd
  | update s key => exact CacheManager.entry_of_held hd
  | lookup s key refresh =>
    cases refresh with
    | true => exact CacheManager.entry_of_held hd
    | false => cases hd

theorem Ordered.update_time (h : Ordered env aliases world (a.store :: rest) m)
    (hdated : Dated env aliases world) (ha : a.store ∈ world) {d : CacheDetails P}
    (hdetails : ∀ d ∈ compared m a, m.Entry a.key d)
    (hd : update env a.store.toStore m.aliases a.key (compared m a) = .ok d) :
    ∃ v, version env a.store.toStore aliases a.key = .ok v ∧ v.2.2 = d.timestamp := by
  have hforward := h.forward
  rw [Forward, version_congr h.sourced.same] at hforward
  rw [update_congr h.sourced.same] at hd
  obtain ⟨v, hv, ht, -⟩ := update_readFrom hdated ha (fun d hd => h.sourced.entries _ d (hdetails d hd)) hforward hd
  exact ⟨v, hv, ht⟩

theorem Ordered.step_behind (h : Ordered env aliases world (a.store :: rest) m)
    (hdated : Dated env aliases world) (ha : a.store ∈ world) (hlater : ∀ s ∈ rest, Later env aliases a.store s) :
    ∀ s ∈ rest, ∀ key d, (step env m a).Entry key d → ∀ v, version env s.toStore aliases key = .ok v →
      d.timestamp ≤ v.2.2 := by
  intro s hs key d hd v hv
  rcases (step_effect env m a).1.entry hd with hold | ⟨rfl, hdetails, hu⟩
  · exact h.behind s (List.mem_cons_of_mem _ hs) key d hold v hv
  · obtain ⟨v', hv', ht⟩ := h.update_time hdated ha hdetails hu
    rw [← ht]
    exact hlater s hs a.key v' v hv' hv

theorem Floor.step (hf : Floor env aliases (a.store :: rest) m key t)
    (h : Ordered env aliases world (a.store :: rest) m) (hdated : Dated env aliases world) (ha : a.store ∈ world) :
    Floor env aliases rest (step env m a) key t := by
  refine ⟨fun d hd => ?_, fun s hs => hf.store s (List.mem_cons_of_mem _ hs)⟩
  rcases (step_effect env m a).1.entry hd with hold | ⟨rfl, hdetails, hu⟩
  · exact hf.entry d hold
  · obtain ⟨v, hv, ht⟩ := h.update_time hdated ha hdetails hu
    rw [← ht]
    exact hf.store a.store List.mem_cons_self v hv

theorem Ordered.floor (h : Ordered env aliases world rest m) {d : CacheDetails P} (hd : m.lru.peek key = some d) :
    Floor env aliases rest m key d.timestamp := by
  refine ⟨fun e he => ?_, fun s hs v hv => h.behind s hs key d (.inl hd) v hv⟩
  rcases he with he | he
  · obtain rfl := Option.some.inj (hd.symm.trans he)
    exact le_refl _
  · exact h.ordered key d e hd he

theorem update_read_or_kept {st : Store P} {old d : CacheDetails P} {n : AliasTable}
    (h : update env st n key (some old) = .ok d) {v : ProtocolHandler × Str × ℤ} (hv : version env st n key = .ok v) :
    v.2.2 ≤ old.timestamp ∨ ∃ project, st.readProject v.2.1 = .ok project := by
  obtain ⟨v', hv', hnew⟩ := update_cases h
  obtain rfl := Except.ok.inj (hv'.symm.trans hv)
  rcases hnew with ⟨hread, -, -⟩ | ⟨old', hold, hle, -⟩
  · exact .inr ⟨_, hread⟩
  · obtain rfl := Option.some.inj hold
    exact .inl hle

theorem Ordered.update_le (h : Ordered env aliases world (a.store :: rest) m)
    (hdated : Dated env aliases world) (ha : a.store ∈ world) (hasync : Async a) (hsettled : Settled env m a)
    {d e : CacheDetails P} (hl : (step env m a).lru = m.lru.setItem a.key d)
    (hd : update env a.store.toStore m.aliases a.key (compared m a) = .ok d) (hdetails : compared m a = m.held a.key)
    (hlru : m.lru.peek a.key ≠ none) (he : m.static.get? a.key = some e) : d.timestamp ≤ e.timestamp := by
  obtain ⟨old, hold⟩ := Option.ne_none_iff_exists'.mp hlru
  have hheld : m.held a.key = some old := by simp [CacheManager.held, hold]
  have hle := h.ordered a.key old e hold he
  obtain ⟨v, hv, ht⟩ := h.update_time hdated ha (fun d hd => CacheManager.entry_of_held (hdetails ▸ hd)) hd
  rw [← ht]
  cases a with
  | preload s key =>
    have hsame : m.lru = m.lru.setItem key d := (Announced.updateStaticEntry_lru env s.toStore key m).symm.trans hl
    have hpeek : m.lru.peek key = some d := by rw [hsame, Lru.peek_setItem_self]
    rw [ht]
    exact h.ordered key d e hpeek he
  | lookup s key refresh =>
    obtain rfl : refresh = false := hasync
    cases hdetails.trans hheld
  | update s key =>
    have hv' : version env s.toStore m.aliases key = .ok v := (version_congr h.sourced.same key).trans hv
    have hd' : update env s.toStore m.aliases key (some old) = .ok d := by
      rw [← hheld]
      exact hd
    rcases update_read_or_kept hd' hv' with hkept | ⟨project, hread⟩
    · exact hkept.trans hle
    · exact hsettled hlru e he v project hv' hread

theorem Ordered.step_ordered (h : Ordered env aliases world (a.store :: rest) m)
    (hdated : Dated env aliases world) (ha : a.store ∈ world) (hasync : Async a) (hsettled : Settled env m a) :
    ∀ key d e, (step env m a).lru.peek key = some d → (step env m a).static.get? key = some e →
      d.timestamp ≤ e.timestamp := by
  intro key d e hd he
  have hlru : ∀ {c}, (step env m a).lru = m.lru.setItem a.key c → key ≠ a.key → m.lru.peek key = some d := by
    intro c hl hne
    rw [hl] at hd
    exact Lru.peek_of_setItem hne hd
  have hself : ∀ {c}, (step env m a).lru = m.lru.setItem a.key c → key = a.key → d = c := by
    intro c hl heq
    rw [hl, heq, Lru.peek_setItem_self] at hd
    exact (Option.some.inj hd).symm
  have hstatic : ∀ {c}, (step env m a).static = m.static.set a.key c →
      (key = a.key → e = c) ∧ (key ≠ a.key → m.static.get? key = some e) := by
    intro c hs
    rw [hs, PyDict.get?_set] at he
    split at he
    · rename_i heq
      exact ⟨fun _ => (Option.some.inj he).symm, fun hne => absurd heq hne⟩
    · rename_i hne
      exact ⟨fun heq => absurd heq hne, fun _ => he⟩
  cases (step_effect env m a).1 with
  | unchanged hl hs => exact h.ordered key d e (hl ▸ hd) (hs ▸ he)
  | copied c hnone hc hl hs =>
    rw [hs] at he
    by_cases hkey : key = a.key
    · obtain rfl := hself hl hkey
      subst hkey
      rw [Option.some.inj (hc.symm.trans he)]
    · exact h.ordered key d e (hlru hl hkey) he
  | checked c hc hdetails hl hs =>
    rw [hl] at hd
    by_cases hkey : key = a.key
    · obtain rfl := (hstatic hs).1 hkey
      obtain ⟨v, hv, ht⟩ := h.update_time hdated ha (fun d hd => .inr (hdetails ▸ hd)) hc
      rw [← ht]
      exact h.behind a.store List.mem_cons_self key d (.inl hd) v (hkey ▸ hv)
    · exact h.ordered key d e hd ((hstatic hs).2 hkey)
  | synced c hc hdetails hl hs =>
    by_cases hkey : key = a.key
    · rw [hself hl hkey, (hstatic hs).1 hkey]
    · exact h.ordered key d e (hlru hl hkey) ((hstatic hs).2 hkey)
  | updated c hc hdetails hl hs hsame =>
    rw [hs] at he
    by_cases hkey : key = a.key
    · obtain rfl := hself hl hkey
      subst hkey
      by_cases hnone : m.lru.peek a.key = none
      · exact (hsame hnone e he).le
      · exact h.update_le hdated ha hasync hsettled hl hc hdetails hnone he
    · exact h.ordered key d e (hlru hl hkey) he

theorem Ordered.step (h : Ordered env aliases world (a.store :: rest) m) (hdated : Dated env aliases world)
    (ha : a.store ∈ world) (hlater : ∀ s ∈ rest, Later env aliases a.store s) (hasync : Async a)
    (hsettled : Settled env m a) : Ordered env aliases world rest (step env m a) where
  sourced := sourced_step hdated h.sourced ha h.forward
  behind := h.step_behind hdated ha hlater
  ordered := h.step_ordered hdated ha hasync hsettled

theorem ordered_start (n : ℕ) : Ordered env aliases world rest (start aliases n : CacheManager P) where
  sourced := sourced_start n
  behind := by
    rintro s hs key d (hd | hd)
    · cases hd
    · cases hd
  ordered := by
    intro key d e hd
    cases hd

theorem served_serve (env : Tables) (r : Reader P) (a : Action origin) :
    (serve env r a).served = r.served ∨ ∃ d, (serve env r a).manager.lru.peek a.key = some d ∧
      (serve env r a).served = (a.key, origin d.project) :: r.served := by
  cases a with
  | preload s key => exact .inl rfl
  | update s key => exact .inl rfl
  | lookup s key refresh =>
    rcases lookup_served env s.toStore r.manager key refresh with ⟨e, t, hr, -⟩ | ⟨d, u, t, hr, -, hd⟩
    · exact .inl (by simp only [serve, hr])
    · exact .inr ⟨d, by simpa only [serve, step, hr, Action.key] using hd, by simp only [serve, hr]; rfl⟩

structure Rising (env : Tables) (aliases : AliasTable) (world rest : List (Snapshot origin)) (r : Reader P) : Prop where
  ordered : Ordered env aliases world rest r.manager
  floor : ∀ key t, (key, t) ∈ r.served → Floor env aliases rest r.manager key t
  monotonic : Monotonic r.served

theorem rising_serve {r : Reader P} (h : Rising env aliases world (a.store :: rest) r)
    (hstamped : ∀ s ∈ world, Stamped env aliases s) (ha : a.store ∈ world)
    (hlater : ∀ s ∈ rest, Later env aliases a.store s) (hasync : Async a) (hsettled : Settled env r.manager a) :
    Rising env aliases world rest (serve env r a) := by
  have hdated := dated_of_stamped hstamped
  have hordered : Ordered env aliases world rest (serve env r a).manager :=
    h.ordered.step hdated ha hlater hasync hsettled
  have hfloor : ∀ key t, (key, t) ∈ r.served → Floor env aliases rest (serve env r a).manager key t :=
    fun key t hmem => (h.floor key t hmem).step h.ordered hdated ha
  rcases served_serve env r a with heq | ⟨d, hd, heq⟩
  · exact ⟨hordered, heq ▸ hfloor, heq ▸ h.monotonic⟩
  · have horigin : origin d.project = d.timestamp := hordered.sourced.origin_eq hstamped (.inl hd)
    rw [horigin] at heq
    refine ⟨hordered, fun key t hmem => ?_, ?_⟩
    · rw [heq] at hmem
      rcases List.mem_cons.mp hmem with hnew | hmem
      · cases hnew
        exact hordered.floor hd
      · exact hfloor key t hmem
    · rw [heq]
      refine List.pairwise_cons.mpr ⟨?_, h.monotonic⟩
      rintro ⟨key, t⟩ hmem rfl
      exact (hfloor a.key t hmem).entry d (.inl hd)

theorem reads_monotonic (env : Tables) (aliases : AliasTable) (n : ℕ) (as : List (Action origin))
    (hstamped : ∀ s ∈ as.map Action.store, Stamped env aliases s)
    (hlater : (as.map Action.store).Pairwise (Later env aliases)) (hasync : ∀ a ∈ as, Async a)
    (hsettled : Always (step env) (Settled env) (start aliases n) as) :
    Monotonic (serveAll env ⟨start aliases n, []⟩ as).served := by
  suffices h : ∀ (bs : List (Action origin)) (r : Reader P), (∀ b ∈ bs, b ∈ as) →
      (bs.map Action.store).Pairwise (Later env aliases) → Always (step env) (Settled env) r.manager bs →
      Rising env aliases (as.map Action.store) (bs.map Action.store) r → Monotonic (serveAll env r bs).served by
    exact h as ⟨start aliases n, []⟩ (fun _ => id) hlater hsettled
      ⟨ordered_start n, fun key t hmem => (List.not_mem_nil hmem).elim, .nil⟩
  intro bs
  induction bs with
  | nil => exact fun r _ _ _ hr => hr.monotonic
  | cons b bs ih =>
    intro r hmem hbs hsettled hr
    obtain ⟨hb, hbs⟩ := List.pairwise_cons.mp hbs
    have hin := hmem b List.mem_cons_self
    refine ih (serve env r b) (fun c hc => hmem c (List.mem_cons_of_mem _ hc)) hbs hsettled.2 ?_
    exact rising_serve hr hstamped (List.mem_map_of_mem hin) hb (hasync b hin) hsettled.1

-- the project changes from the first time to the second between the two halves of a refresh pass
def changedInPass (t u : ℤ) : List (Action (id : ℤ → ℤ)) :=
  [.preload (dated t) "a".toList, .lookup (dated t) "a".toList false,
    .preload (dated t) "a".toList, .update (dated u) "a".toList,
    .lookup (dated u) "a".toList false, .lookup (dated u) "b".toList false, .lookup (dated u) "a".toList false]

theorem changedInPass_history {t u : ℤ} (h : t ≤ u) :
    (∀ s ∈ (changedInPass t u).map Action.store, Stamped asciiTables srvTable s) ∧
      ((changedInPass t u).map Action.store).Pairwise (Later asciiTables srvTable) ∧
      ∀ a ∈ changedInPass t u, Async a := by
  have hstores : (changedInPass t u).map Action.store = [t, t, t, u, u, u, u].map dated := rfl
  have htimes : [t, t, t, u, u, u, u].Pairwise (· ≤ ·) := by simp [h]
  rw [hstores]
  refine ⟨fun s hs => ?_, htimes.map dated ?_, ?_⟩
  · obtain ⟨t', -, rfl⟩ := List.mem_map.mp hs
    intro key v hv
    exact (version_dated hv).symm
  · intro t' u' h' key v v' hv hv'
    rw [version_dated hv, version_dated hv']
    exact h'
  · simp [changedInPass, Async]

theorem unchanged_in_pass_reads_monotonic :
    Monotonic (serveAll asciiTables ⟨start srvTable 0, []⟩ (changedInPass 1 1)).served := by
  obtain ⟨hstamped, hlater, hasync⟩ := changedInPass_history (le_refl 1)
  refine reads_monotonic asciiTables srvTable 0 (changedInPass 1 1) hstamped hlater hasync
    ⟨trivial, trivial, trivial, ?_, trivial, trivial, trivial, trivial⟩
  intro _ e he v project hv _
  have hstatic : ((changedInPass 1 1).take 3 |>.foldl (step asciiTables) (start srvTable 0)).static.get? "a".toList =
      some ⟨1, 1⟩ := by decide
  obtain rfl := Option.some.inj (hstatic.symm.trans he)
  rw [version_dated hv]

theorem changed_in_pass_reads_go_back :
    (∀ s ∈ (changedInPass 1 2).map Action.store, Stamped asciiTables srvTable s) ∧
      ((changedInPass 1 2).map Action.store).Pairwise (Later asciiTables srvTable) ∧
      (∀ a ∈ changedInPass 1 2, Async a) ∧
      ¬ Monotonic (serveAll asciiTables ⟨start srvTable 0, []⟩ (changedInPass 1 2)).served := by
  obtain ⟨hstamped, hlater, hasync⟩ := changedInPass_history (t := 1) (u := 2) (by decide)
  refine ⟨hstamped, hlater, hasync, fun h => ?_⟩
  have hserved : (serveAll asciiTables ⟨start srvTable 0, []⟩ (changedInPass 1 2)).served =
      [("a".toList, 1), ("b".toList, 2), ("a".toList, 2), ("a".toList, 1)] := by decide
  rw [hserved] at h
  exact absurd ((List.pairwise_cons.mp h).1 ("a".toList, 2) (by decide) rfl) (by decide)

end Snapshot

end QgsCache
