import PyQgisServer.Library.Transition
import PyQgisServer.Zmq.Client

namespace Zmq

open Transition

namespace AsyncClient

theorem handlers_pop {c : AsyncClient} {m k : Frame} (h : (c.pop m).handlers k = true) : c.handlers k = true := by
  by_cases hk : k = m
  · simp [pop, hk] at h
  · simpa [pop, hk] using h

theorem handlers_poll {c : AsyncClient} {msg : List Frame} {k : Frame} (h : (c.poll msg).handlers k = true) :
    c.handlers k = true := by
  unfold poll at h
  split at h
  · split at h
    · simp only at h
      split at h
      · exact handlers_pop h
      · exact h
    · exact h
  · exact h

theorem handlers_cancel (c : AsyncClient) (m : Frame) : (c.cancel m).handlers = c.handlers := by
  rw [cancel]
  split
  · split <;> rfl
  · rfl

theorem handlers_expire (c : AsyncClient) (m : Frame) : (c.expire m).handlers = c.handlers := by
  rw [expire]
  split <;> rfl

theorem handlers_nextChunk (c : AsyncClient) (m : Frame) : (c.nextChunk m).handlers = c.handlers := by
  rw [nextChunk]
  split
  · split <;> rfl
  · rfl

end AsyncClient

-- a task of _poll that has not passed its loop exit
inductive PollTask where
  | created
  | receiving
  deriving DecidableEq

structure Polled where
  client : AsyncClient
  keys : List Frame
  keys_handlers : ∀ m, m ∈ keys ↔ client.handlers m = true
  polling : Bool
  tasks : List PollTask

inductive PollAct where
  | fetch (m : Frame) (sent : Bool)
  | start (i : ℕ)
  | receive (i : ℕ) (msg : List Frame)
  | failure (i : ℕ)
  | cancel (m : Frame)
  | expire (m : Frame)
  | forget (m : Frame)
  | nextChunk (m : Frame)

namespace Polled

def init : Polled where
  client := .init
  keys := []
  keys_handlers := by simp [AsyncClient.init]
  polling := false
  tasks := []

-- the client after a step that registers nothing
def set (s : Polled) (c : AsyncClient) (h : ∀ m, c.handlers m = true → s.client.handlers m = true) : Polled :=
  { s with
    client := c
    keys := s.keys.filter c.handlers
    keys_handlers := by
      intro m
      rw [List.mem_filter, s.keys_handlers]
      exact and_iff_right_of_imp (h m) }

def register (s : Polled) (m : Frame) : Polled :=
  { s with
    client := s.client.register m
    keys := m :: s.keys
    keys_handlers := by
      intro k
      by_cases hk : k = m
      · simp [AsyncClient.register, hk]
      · simp [AsyncClient.register, hk, s.keys_handlers] }

def loop (s : Polled) (i : ℕ) : Polled :=
  if s.keys = [] then { s with polling := false, tasks := s.tasks.eraseIdx i }
  else { s with tasks := s.tasks.set i .receiving }

def poll (s : Polled) (msg : List Frame) : Polled := s.set (s.client.poll msg) fun _ => AsyncClient.handlers_poll

def fetch (s : Polled) (m : Frame) : Polled :=
  if s.polling then s.register m else { s.register m with tasks := s.tasks ++ [.created] }

def step (s : Polled) : PollAct → Polled
  | .fetch m sent => if m ∉ s.keys ∧ sent then s.fetch m else s
  | .start i => if s.tasks[i]? = some .created then ({ s with polling := true } : Polled).loop i else s
  | .receive i msg => if s.tasks[i]? = some .receiving then (s.poll msg).loop i else s
  | .failure i => if s.tasks[i]? = some .receiving then s.loop i else s
  | .cancel m => s.set (s.client.cancel m) fun k h => by rwa [AsyncClient.handlers_cancel] at h
  | .expire m => s.set (s.client.expire m) fun k h => by rwa [AsyncClient.handlers_expire] at h
  | .forget m => s.set (s.client.pop m) fun _ => AsyncClient.handlers_pop
  | .nextChunk m => s.set (s.client.nextChunk m) fun k h => by rwa [AsyncClient.handlers_nextChunk] at h

def run (s : Polled) (as : List PollAct) : Polled := as.foldl step s

def NotRaced (s : Polled) : PollAct → Prop
  | .fetch m sent => m ∉ s.keys ∧ sent = true → .created ∉ s.tasks
  | _ => True

inductive Stepped (s : Polled) (a : PollAct) : Polled → Prop
  | idle (ha : NotRaced s a) : Stepped s a s
  | fetched (m : Frame) (ha : NotRaced s a ↔ .created ∉ s.tasks) : Stepped s a (s.fetch m)
  | looped (t : Polled) (i : ℕ) (task : PollTask) (ha : NotRaced s a) (htasks : t.tasks = s.tasks)
      (hi : s.tasks[i]? = some task) (hpolling : t.polling = true ∨ task = .receiving ∧ t.polling = s.polling) :
      Stepped s a (t.loop i)
  | changed (c : AsyncClient) (hc : ∀ m, c.handlers m = true → s.client.handlers m = true) (ha : NotRaced s a) :
      Stepped s a (s.set c hc)

theorem step_stepped (s : Polled) (a : PollAct) : Stepped s a (s.step a) := by
  cases a with
  | fetch m sent =>
    rw [step]
    split
    · rename_i hsent
      exact .fetched m ⟨fun hr => hr hsent, fun hr _ => hr⟩
    · rename_i hsent
      exact .idle fun hc => absurd hc hsent
  | start i =>
    rw [step]
    split
    · rename_i hi
      exact .looped { s with polling := true } i .created trivial rfl hi (.inl rfl)
    · exact .idle trivial
  | receive i msg =>
    rw [step]
    split
    · rename_i hi
      exact .looped (s.poll msg) i .receiving trivial rfl hi (.inr ⟨rfl, rfl⟩)
    · exact .idle trivial
  | failure i =>
    rw [step]
    split
    · rename_i hi
      exact .looped s i .receiving trivial rfl hi (.inr ⟨rfl, rfl⟩)
    · exact .idle trivial
  | cancel m =>
    rw [step]
    exact .changed _ _ trivial
  | expire m =>
    rw [step]
    exact .changed _ _ trivial
  | forget m =>
    rw [step]
    exact .changed _ _ trivial
  | nextChunk m =>
    rw [step]
    exact .changed _ _ trivial

structure Live (s : Polled) : Prop where
  registered : s.keys ≠ [] → s.tasks ≠ []
  polling : s.polling = true → s.tasks ≠ []

variable {s : Polled}

theorem keys_set {c : AsyncClient} {h : ∀ m, c.handlers m = true → s.client.handlers m = true}
    (hk : (s.set c h).keys ≠ []) : s.keys ≠ [] := by
  intro hnil
  exact hk (by simp [set, hnil])

theorem Live.set (h : Live s) (c : AsyncClient) (hc : ∀ m, c.handlers m = true → s.client.handlers m = true) :
    Live (s.set c hc) := ⟨fun hk => h.registered (keys_set hk), h.polling⟩

theorem Live.loop {i : ℕ} (hi : s.tasks[i]? ≠ none) : Live (s.loop i) := by
  rw [Polled.loop]
  split
  · rename_i hkeys
    exact ⟨fun hk => absurd hkeys hk, by simp⟩
  · have htasks : s.tasks.set i .receiving ≠ [] := by
      rw [ne_eq, List.set_eq_nil_iff]
      rintro hnil
      simp [hnil] at hi
    exact ⟨fun _ => htasks, fun _ => htasks⟩

theorem Live.fetch (h : Live s) (m : Frame) : Live (s.fetch m) := by
  rw [Polled.fetch]
  split
  · rename_i hp
    exact ⟨fun _ => h.polling hp, fun _ => h.polling hp⟩
  · exact ⟨by simp, by simp⟩

theorem Live.step (h : Live s) (a : PollAct) : Live (s.step a) := by
  have hstep := step_stepped s a
  generalize s.step a = t at hstep ⊢
  cases hstep with
  | idle ha => exact h
  | fetched m ha => exact h.fetch m
  | looped t i task ha htasks hi hpolling => exact .loop (by simp [htasks, hi])
  | changed c hc ha => exact h.set c hc

theorem Live.run (h : Live s) (as : List PollAct) : Live (s.run as) := by
  induction as generalizing s with
  | nil => exact h
  | cons a as ih => exact ih (h.step a)

theorem live_init : Live init := ⟨by simp [init], by simp [init]⟩

def Reads (s : Polled) (i : ℕ) : Prop :=
  s.tasks[i]? = some .receiving ∨ s.tasks[i]? = some .created ∧ (s.step (.start i)).tasks[i]? = some .receiving

theorem Live.reads (h : Live s) {m : Frame} (hm : s.client.handlers m = true) : ∃ i, s.Reads i := by
  have hkeys : s.keys ≠ [] := List.ne_nil_of_mem ((s.keys_handlers m).mpr hm)
  obtain ⟨t, ts, htasks⟩ := List.exists_cons_of_ne_nil (h.registered hkeys)
  refine ⟨0, ?_⟩
  cases t with
  | receiving => exact .inl (by simp [htasks])
  | created =>
    have hcreated : s.tasks[0]? = some .created := by simp [htasks]
    refine .inr ⟨hcreated, ?_⟩
    simp [Polled.step, Polled.loop, hkeys, htasks]

theorem registered_handler_has_poller (as : List PollAct) (m : Frame)
    (hm : (init.run as).client.handlers m = true) : ∃ i, (init.run as).Reads i :=
  (live_init.run as).reads hm

theorem second_request_has_poller :
    ∃ i, (init.run [.fetch (.bytes [1]) true, .start 0, .forget (.bytes [1]), .fetch (.bytes [2]) true]).Reads i :=
  registered_handler_has_poller _ (.bytes [2]) (by decide)

structure Single (s : Polled) : Prop where
  single : s.tasks.length ≤ 1
  polling : s.polling = true ↔ .receiving ∈ s.tasks

theorem eq_singleton {t : PollTask} {i : ℕ} {ts : List PollTask} (hlen : ts.length ≤ 1) (hi : ts[i]? = some t) :
    ts = [t] ∧ i = 0 := by
  cases ts with
  | nil => simp at hi
  | cons u us =>
    obtain rfl : us = [] := by simpa using hlen
    cases i with
    | zero => exact ⟨by simpa using hi, rfl⟩
    | succ i => simp at hi

theorem Single.loop {t : PollTask} {i : ℕ} (hlen : s.tasks.length ≤ 1) (hi : s.tasks[i]? = some t)
    (hp : s.polling = true) : Single (s.loop i) := by
  obtain ⟨htasks, rfl⟩ := eq_singleton hlen hi
  rw [Polled.loop]
  split
  · exact ⟨by simp [htasks], by simp [htasks]⟩
  · exact ⟨by simp [htasks], by simp [htasks, hp]⟩

theorem Single.fetch_iff (h : Single s) (m : Frame) :
    ((s.fetch m).tasks.length ≤ 1 ↔ .created ∉ s.tasks) ∧ (.created ∉ s.tasks → Single (s.fetch m)) := by
  rw [Polled.fetch]
  by_cases hp : s.polling = true
  · rw [if_pos hp]
    have hcreated : .created ∉ s.tasks := by
      intro hc
      obtain ⟨i, hi⟩ := List.getElem?_of_mem (h.polling.mp hp)
      rw [(eq_singleton h.single hi).1] at hc
      cases List.mem_singleton.mp hc
    exact ⟨iff_of_true h.single hcreated, fun _ => ⟨h.single, h.polling⟩⟩
  · rw [if_neg hp]
    have hnil : .created ∉ s.tasks → s.tasks = [] := by
      intro hc
      refine List.eq_nil_iff_forall_not_mem.mpr fun t ht => ?_
      cases t with
      | created => exact hc ht
      | receiving => exact hp (h.polling.mpr ht)
    refine ⟨⟨fun hlen => ?_, fun hc => by simp [hnil hc]⟩, fun hc => ⟨by simp [hnil hc], ?_⟩⟩
    · have hempty : s.tasks = [] := by simpa using hlen
      simp [hempty]
    · simpa [hnil hc, register] using hp

theorem Single.step (h : Single s) (a : PollAct) :
    ((s.step a).tasks.length ≤ 1 ↔ NotRaced s a) ∧ (NotRaced s a → Single (s.step a)) := by
  have of_single : ∀ t : Polled, Single t → NotRaced s a →
      (t.tasks.length ≤ 1 ↔ NotRaced s a) ∧ (NotRaced s a → Single t) :=
    fun t ht ha => ⟨iff_of_true ht.single ha, fun _ => ht⟩
  have hstep := step_stepped s a
  generalize s.step a = t at hstep ⊢
  cases hstep with
  | idle ha => exact of_single s h ha
  | fetched m ha =>
    rw [ha]
    exact h.fetch_iff m
  | looped t i task ha htasks hi hpolling =>
    refine of_single _ (.loop (htasks ▸ h.single) (htasks ▸ hi) ?_) ha
    rcases hpolling with hp | ⟨rfl, hp⟩
    · exact hp
    · rw [hp]
      exact h.polling.mpr (List.mem_of_getElem? hi)
  | changed c hc ha => exact of_single _ ⟨h.single, h.polling⟩ ha

theorem at_most_one_poller_iff (as : List PollAct) :
    Always step (fun s a => (s.step a).tasks.length ≤ 1) init as ↔ Always step NotRaced init as :=
  Always.congr (I := Single) (fun _ a h => h.step a) ⟨by simp [init], by simp [init]⟩ as

theorem two_requests_create_two_pollers :
    ¬ Always step (fun s a => (s.step a).tasks.length ≤ 1) init
      [.fetch (.bytes [1]) true, .fetch (.bytes [2]) true] := by
  rintro ⟨-, hlen, -⟩
  exact absurd hlen (by decide)

end Polled

end Zmq
