import PyQgisServer.Zmq.Poller

namespace Zmq

open Transition

-- what the poller has read of the answer to a request: broken is an error after the reply of a stream
inductive Progress where
  | awaiting
  | streaming
  | broken
  | complete
  deriving DecidableEq

namespace Progress

def isError (data : Frame) (rest : List Frame) : Bool := rest ≠ [] ∧ data = err

def next (data : Frame) (rest : List Frame) : Progress → Progress
  | .awaiting =>
    if isError data rest then .complete
    else match data.loads with
      | some (.reply r) => if r.status = 206 then .streaming else .complete
      | _ => .awaiting
  | .streaming =>
    if isError data rest then .broken
    else match data.loads with
      | some (.chunk _ hasMore _) => if hasMore then .streaming else .complete
      | _ => .streaming
  | .broken => if isError data rest then .broken else .complete
  | .complete => .complete

end Progress

-- where the coroutine of an exchange is: in _get, in the handler that writes to the HTTP client, in _next_chunk
inductive Phase where
  | waiting
  | writing
  | reading
  | ended
  deriving DecidableEq

structure Exchange where
  client : AsyncClient
  phase : Phase
  progress : Progress

-- cancelled is the cancellation of the awaiting task, failed an exception of the handler, which drops the iteration
inductive ExchangeAct where
  | receive (msg : List Frame)
  | reply
  | chunk
  | timeout
  | written
  | failed
  | cancelled
  deriving DecidableEq

namespace Exchange

def start (c : AsyncClient) (m : Frame) : Exchange := ⟨c.register m, .waiting, .awaiting⟩

section step

variable (m : Frame) (s : Exchange)

def receive (msg : List Frame) : Exchange :=
  { s with
    client := s.client.poll msg
    progress :=
      match msg with
      | k :: data :: rest => if k = m then s.progress.next data rest else s.progress
      | _ => s.progress }

-- the except clauses of fetch and fetch_more
def raise : Exchange := { s with client := s.client.pop m, phase := .ended }

def reply (h : AsyncResponseHandler) : Exchange :=
  match h.future with
  | .result => { s with phase := if h.status = 206 then .writing else .ended }
  | .exception _ => s.raise m
  | _ => s

def chunk (h : AsyncResponseHandler) : Exchange :=
  match h.chunks[h.taken]? with
  | some (_, hasMore) => { s with client := s.client.nextChunk m, phase := if hasMore then .writing else .ended }
  | none => s

def step : ExchangeAct → Exchange
  | .receive msg => s.receive m msg
  | .reply =>
    match s.phase, s.client.responses m with
    | .waiting, some h => s.reply m h
    | _, _ => s
  | .chunk =>
    match s.phase, s.client.responses m with
    | .reading, some h => s.chunk m h
    | _, _ => s
  | .timeout =>
    match s.phase, s.client.responses m with
    | .waiting, some h =>
      if h.future = .pending then ({ s with client := (s.client.cancel m).expire m } : Exchange).raise m else s
    | .reading, some h =>
      if h.chunks.length ≤ h.taken then ({ s with client := s.client.expire m } : Exchange).raise m else s
    | _, _ => s
  | .written => if s.phase = .writing then { s with phase := .reading } else s
  | .failed => if s.phase = .writing then { s with phase := .ended } else s
  | .cancelled => if s.phase = .ended then s else { s with client := s.client.cancel m, phase := .ended }

end step

end Exchange

namespace AsyncClient

variable {c : AsyncClient} {m : Frame} {h : AsyncResponseHandler} {p : Progress}

theorem take_error {data : Frame} {rest : List Frame} (herr : Progress.isError data rest = true) :
    ∃ code, h.take data rest = h.setException (.proxy code) := by
  obtain ⟨hrest, hdata⟩ := of_decide_eq_true herr
  obtain ⟨code, codes, rfl⟩ := List.exists_cons_of_ne_nil hrest
  exact ⟨code, if_pos hdata⟩

theorem take_result {data : Frame} {rest : List Frame} (herr : Progress.isError data rest = false) :
    h.take data rest = h.setResult data := by
  cases rest with
  | nil => rfl
  | cons code codes =>
    have hdata : data ≠ err := fun hc => of_decide_eq_false herr ⟨by simp, hc⟩
    exact if_neg hdata

inductive Follows (c : AsyncClient) (m : Frame) : Progress → Prop
  | awaiting (h : AsyncResponseHandler) (hkey : c.handlers m = true) (hh : c.responses m = some h)
      (hstatus : h.status = -1) (hfuture : h.future = .pending) (hmore : h.hasMore = false)
      (hchunks : ∀ x ∈ h.chunks, x.2 = true) : Follows c m .awaiting
  | streaming (h : AsyncResponseHandler) (hkey : c.handlers m = true) (hh : c.responses m = some h)
      (hstatus : h.status = 206) (hfuture : h.future = .result) (hmore : h.hasMore = true)
      (hchunks : ∀ x ∈ h.chunks, x.2 = true) : Follows c m .streaming
  | broken (h : AsyncResponseHandler) (hkey : c.handlers m = true) (hh : c.responses m = some h)
      (hstatus : h.status = 206) (hfuture : h.future = .result) (hmore : h.hasMore = false)
      (hchunks : ∀ x ∈ h.chunks, x.2 = true) : Follows c m .broken
  | complete (h : AsyncResponseHandler) (hkey : c.handlers m = false) (hh : c.responses m = some h) :
      Follows c m .complete

theorem responses_setResponse (c : AsyncClient) (m : Frame) (h : AsyncResponseHandler) :
    (c.setResponse m h).responses m = some h := by simp [setResponse]

theorem poll_done {k : AsyncResponseHandler} {data : Frame} {rest : List Frame} (hkey : c.handlers m = true)
    (hh : c.responses m = some h) (htake : h.take data rest = ⟨k, false⟩) (hdone : k.done = true) :
    Follows (c.poll (m :: data :: rest)) m .complete := by
  simp only [poll, hkey, hh, htake, hdone, Bool.not_false, Bool.and_self, if_true]
  exact .complete k (by simp [pop]) (by simp [setResponse, pop])

theorem poll_open {k : AsyncResponseHandler} {r : Bool} {data : Frame} {rest : List Frame}
    (hkey : c.handlers m = true) (hh : c.responses m = some h) (htake : h.take data rest = ⟨k, r⟩)
    (hopen : (!r && k.done) = false) : c.poll (m :: data :: rest) = c.setResponse m k := by
  simp only [poll, hkey, hh, htake, hopen]
  rfl

theorem poll_awaiting (hkey : c.handlers m = true) (hh : c.responses m = some h) (hstatus : h.status = -1)
    (hfuture : h.future = .pending) (hmore : h.hasMore = false) (hchunks : ∀ x ∈ h.chunks, x.2 = true)
    (data : Frame) (rest : List Frame) :
    Follows (c.poll (m :: data :: rest)) m (Progress.next data rest .awaiting) := by
  cases herr : Progress.isError data rest with
  | true =>
    obtain ⟨code, htake⟩ := take_error (h := h) herr
    simp only [AsyncResponseHandler.setException, AsyncResponseHandler.resolve, hfuture, if_true] at htake
    simp only [Progress.next, herr, if_true]
    exact poll_done hkey hh htake rfl
  | false =>
    have htake : h.take data rest = h.setResult data := take_result herr
    simp only [AsyncResponseHandler.setResult, hstatus, if_true] at htake
    simp only [Progress.next, herr, Bool.false_eq_true, if_false]
    have hraised : h.take data rest = ⟨h, true⟩ → Follows (c.poll (m :: data :: rest)) m .awaiting := by
      intro hr
      rw [poll_open hkey hh hr rfl]
      exact .awaiting h hkey (responses_setResponse c m h) hstatus hfuture hmore hchunks
    cases hl : data.loads with
    | none =>
      rw [hl] at htake
      exact hraised htake
    | some v =>
      rw [hl] at htake
      cases v with
      | request q => exact hraised htake
      | chunk body more extra => exact hraised htake
      | reply r =>
        by_cases h206 : r.status = 206
        · simp only [h206, if_true, AsyncResponseHandler.resolve, hfuture] at htake ⊢
          rw [poll_open hkey hh htake rfl]
          exact .streaming _ hkey (responses_setResponse c m _) rfl rfl rfl (by simp)
        · simp only [h206, if_false, AsyncResponseHandler.resolve, hfuture, if_true] at htake ⊢
          exact poll_done hkey hh htake (by simp [AsyncResponseHandler.done, hmore])

theorem poll_failed (hkey : c.handlers m = true) (hh : c.responses m = some h) (hstatus : h.status = 206)
    (hfuture : h.future = .result) (hchunks : ∀ x ∈ h.chunks, x.2 = true) {data : Frame} {rest : List Frame}
    (herr : Progress.isError data rest = true) : Follows (c.poll (m :: data :: rest)) m .broken := by
  obtain ⟨code, htake⟩ := take_error (h := h) herr
  simp only [AsyncResponseHandler.setException, AsyncResponseHandler.resolve, hfuture] at htake
  rw [poll_open hkey hh htake rfl]
  exact .broken _ hkey (responses_setResponse c m _) hstatus rfl rfl hchunks

theorem poll_streaming (hkey : c.handlers m = true) (hh : c.responses m = some h) (hstatus : h.status = 206)
    (hfuture : h.future = .result) (hmore : h.hasMore = true) (hchunks : ∀ x ∈ h.chunks, x.2 = true)
    (data : Frame) (rest : List Frame) :
    Follows (c.poll (m :: data :: rest)) m (Progress.next data rest .streaming) := by
  cases herr : Progress.isError data rest with
  | true =>
    simp only [Progress.next, herr, if_true]
    exact poll_failed hkey hh hstatus hfuture hchunks herr
  | false =>
    have htake : h.take data rest = h.setResult data := take_result herr
    simp only [AsyncResponseHandler.setResult, hstatus, hmore, if_true] at htake
    simp only [Progress.next, herr, Bool.false_eq_true, if_false]
    have hraised : h.take data rest = ⟨h, true⟩ → Follows (c.poll (m :: data :: rest)) m .streaming := by
      intro hr
      rw [poll_open hkey hh hr rfl]
      exact .streaming h hkey (responses_setResponse c m h) hstatus hfuture hmore hchunks
    cases hl : data.loads with
    | none =>
      rw [hl] at htake
      exact hraised htake
    | some v =>
      rw [hl] at htake
      cases v with
      | request q => exact hraised htake
      | reply r => exact hraised htake
      | chunk body more extra =>
        cases more with
        | false => exact poll_done hkey hh htake (by simp [AsyncResponseHandler.done, hfuture])
        | true =>
          rw [poll_open hkey hh htake (by simp [AsyncResponseHandler.done])]
          refine .streaming _ hkey (responses_setResponse c m _) rfl hfuture rfl ?_
          intro x hx
          rcases List.mem_append.mp hx with hx | hx
          · exact hchunks x hx
          · rw [List.mem_singleton.mp hx]

theorem poll_broken (hkey : c.handlers m = true) (hh : c.responses m = some h) (hstatus : h.status = 206)
    (hfuture : h.future = .result) (hmore : h.hasMore = false) (hchunks : ∀ x ∈ h.chunks, x.2 = true)
    (data : Frame) (rest : List Frame) :
    Follows (c.poll (m :: data :: rest)) m (Progress.next data rest .broken) := by
  cases herr : Progress.isError data rest with
  | true =>
    simp only [Progress.next, herr, if_true]
    exact poll_failed hkey hh hstatus hfuture hchunks herr
  | false =>
    have htake : h.take data rest = h.setResult data := take_result herr
    simp only [AsyncResponseHandler.setResult, hstatus, hmore] at htake
    simp only [Progress.next, herr]
    exact poll_done hkey hh htake (by simp [AsyncResponseHandler.done, hfuture, hmore])

theorem poll_unregistered (hkey : c.handlers m = false) (data : Frame) (rest : List Frame) :
    c.poll (m :: data :: rest) = c := by
  simp [poll, hkey]

theorem poll_ne {k : Frame} (hk : k ≠ m) (data : Frame) (rest : List Frame) :
    (c.poll (k :: data :: rest)).handlers m = c.handlers m ∧
      (c.poll (k :: data :: rest)).responses m = c.responses m := by
  cases hkey : c.handlers k with
  | false =>
    rw [poll_unregistered hkey]
    exact ⟨rfl, rfl⟩
  | true =>
    cases hh : c.responses k with
    | none => simp [poll, hkey, hh]
    | some h =>
      simp only [poll, hkey, hh]
      split
      · simp [pop, setResponse, hk.symm]
      · simp [setResponse, hk.symm]

theorem Follows.poll (hf : Follows c m p) (data : Frame) (rest : List Frame) :
    Follows (c.poll (m :: data :: rest)) m (p.next data rest) := by
  cases hf with
  | awaiting h hkey hh hstatus hfuture hmore hchunks => exact poll_awaiting hkey hh hstatus hfuture hmore hchunks _ _
  | streaming h hkey hh hstatus hfuture hmore hchunks => exact poll_streaming hkey hh hstatus hfuture hmore hchunks _ _
  | broken h hkey hh hstatus hfuture hmore hchunks => exact poll_broken hkey hh hstatus hfuture hmore hchunks _ _
  | complete h hkey hh =>
    rw [poll_unregistered hkey]
    exact .complete h hkey hh

theorem Follows.congr {d : AsyncClient} (hf : Follows c m p) (hkeys : d.handlers m = c.handlers m)
    (hresponses : d.responses m = c.responses m) : Follows d m p := by
  cases hf with
  | awaiting h hkey hh hstatus hfuture hmore hchunks =>
    exact .awaiting h (hkeys.trans hkey) (hresponses.trans hh) hstatus hfuture hmore hchunks
  | streaming h hkey hh hstatus hfuture hmore hchunks =>
    exact .streaming h (hkeys.trans hkey) (hresponses.trans hh) hstatus hfuture hmore hchunks
  | broken h hkey hh hstatus hfuture hmore hchunks =>
    exact .broken h (hkeys.trans hkey) (hresponses.trans hh) hstatus hfuture hmore hchunks
  | complete h hkey hh => exact .complete h (hkeys.trans hkey) (hresponses.trans hh)

theorem Follows.nextChunk (hf : Follows c m p) : Follows (c.nextChunk m) m p := by
  have hkeys := congrFun (handlers_nextChunk c m) m
  have htaken : ∀ {h}, c.responses m = some h → ∃ n, (c.nextChunk m).responses m = some { h with taken := n } := by
    intro h hh
    simp only [AsyncClient.nextChunk, hh]
    split
    · exact ⟨_, responses_setResponse c m _⟩
    · exact ⟨h.taken, hh⟩
  cases hf with
  | awaiting h hkey hh hstatus hfuture hmore hchunks =>
    obtain ⟨n, hn⟩ := htaken hh
    exact .awaiting _ (hkeys.trans hkey) hn hstatus hfuture hmore hchunks
  | streaming h hkey hh hstatus hfuture hmore hchunks =>
    obtain ⟨n, hn⟩ := htaken hh
    exact .streaming _ (hkeys.trans hkey) hn hstatus hfuture hmore hchunks
  | broken h hkey hh hstatus hfuture hmore hchunks =>
    obtain ⟨n, hn⟩ := htaken hh
    exact .broken _ (hkeys.trans hkey) hn hstatus hfuture hmore hchunks
  | complete h hkey hh =>
    obtain ⟨n, hn⟩ := htaken hh
    exact .complete _ (hkeys.trans hkey) hn

theorem Follows.handlers_iff (hf : Follows c m p) : c.handlers m = false ↔ p = .complete := by
  cases hf with
  | awaiting h hkey => simp [hkey]
  | streaming h hkey => simp [hkey]
  | broken h hkey => simp [hkey]
  | complete h hkey => simp [hkey]

theorem Follows.complete_of (hf : Follows c m p) (hh : c.responses m = some h)
    (hend : (h.future = .result ∧ h.status ≠ 206) ∨ ∃ x ∈ h.chunks, x.2 = false) : p = .complete := by
  have hopen : ∀ k, c.responses m = some k → (k.future = .pending ∨ k.status = 206) →
      (∀ x ∈ k.chunks, x.2 = true) → False := by
    intro k hk hstate hchunks
    obtain rfl := Option.some.inj (hh.symm.trans hk)
    rcases hend with ⟨hfuture, hstatus⟩ | ⟨x, hx, hlast⟩
    · rcases hstate with hpending | h206
      · rw [hpending] at hfuture
        cases hfuture
      · exact hstatus h206
    · rw [hchunks x hx] at hlast
      cases hlast
  cases hf with
  | awaiting k hkey hk hstatus hfuture hmore hchunks => exact (hopen k hk (.inl hfuture) hchunks).elim
  | streaming k hkey hk hstatus hfuture hmore hchunks => exact (hopen k hk (.inr hstatus) hchunks).elim
  | broken k hkey hk hstatus hfuture hmore hchunks => exact (hopen k hk (.inr hstatus) hchunks).elim
  | complete k hkey hk => rfl

end AsyncClient

namespace Exchange

variable {m : Frame} {s : Exchange}

def Unwound (m : Frame) (s : Exchange) : Prop := s.phase = .ended → s.client.handlers m = false

def Received (s : Exchange) : ExchangeAct → Prop
  | .cancelled => s.phase ≠ .ended → s.progress = .complete
  | .failed => s.phase = .writing → s.progress = .complete
  | _ => True

structure Tracked (m : Frame) (s : Exchange) : Prop where
  follows : s.phase ≠ .ended → s.client.Follows m s.progress
  unwound : Unwound m s

theorem Tracked.receive (h : Tracked m s) (msg : List Frame) : Tracked m (s.receive m msg) where
  follows := by
    intro hphase
    have hf := h.follows hphase
    cases msg with
    | nil => exact hf
    | cons k msg =>
      cases msg with
      | nil => exact hf
      | cons data rest =>
        by_cases hk : k = m
        · subst hk
          simpa [Exchange.receive] using hf.poll data rest
        · obtain ⟨hkeys, hresponses⟩ := AsyncClient.poll_ne (c := s.client) hk data rest
          simpa [Exchange.receive, hk] using hf.congr hkeys hresponses
  unwound := by
    intro hphase
    have hkey := h.unwound hphase
    rw [← Bool.not_eq_true] at hkey ⊢
    exact fun hc => hkey (AsyncClient.handlers_poll hc)

theorem tracked_raise (m : Frame) (s : Exchange) : Tracked m (s.raise m) where
  follows := fun hphase => absurd rfl hphase
  unwound := fun _ => by simp [raise, AsyncClient.pop]

theorem Tracked.reply (h : Tracked m s) (hphase : s.phase ≠ .ended) {r : AsyncResponseHandler}
    (hr : s.client.responses m = some r) : Tracked m (s.reply m r) := by
  rw [Exchange.reply]
  cases hfuture : r.future with
  | pending => exact h
  | cancelled => exact h
  | exception e => exact tracked_raise m s
  | result =>
    have hf := h.follows hphase
    refine ⟨fun _ => hf, fun hended => ?_⟩
    have hstatus : r.status ≠ 206 := fun hc => by simp [hc] at hended
    exact hf.handlers_iff.mpr (hf.complete_of hr (.inl ⟨hfuture, hstatus⟩))

theorem Tracked.chunk (h : Tracked m s) (hphase : s.phase ≠ .ended) {r : AsyncResponseHandler}
    (hr : s.client.responses m = some r) : Tracked m (s.chunk m r) := by
  rw [Exchange.chunk]
  cases hitem : r.chunks[r.taken]? with
  | none => exact h
  | some item =>
    obtain ⟨body, hasMore⟩ := item
    have hf := h.follows hphase
    refine ⟨fun _ => hf.nextChunk, fun hended => ?_⟩
    have hlast : hasMore = false := by
      cases hasMore with
      | false => rfl
      | true => cases hended
    exact hf.nextChunk.handlers_iff.mpr (hf.complete_of hr (.inr ⟨_, List.mem_of_getElem? hitem, hlast⟩))

theorem Tracked.timeout (h : Tracked m s) : Tracked m (s.step m .timeout) := by
  simp only [Exchange.step]
  split
  · split
    · exact tracked_raise m _
    · exact h
  · split
    · exact tracked_raise m _
    · exact h
  · exact h

theorem Tracked.keeps {t : Exchange} {a : ExchangeAct} (h : Tracked m t) (ha : Received s a) :
    (Unwound m t ↔ Received s a) ∧ (Received s a → Tracked m t) := ⟨iff_of_true h.unwound ha, fun _ => h⟩

theorem Tracked.drops (h : Tracked m s) (hphase : s.phase ≠ .ended) {t : Exchange} (ht : t.phase = .ended)
    (hkeys : t.client.handlers m = s.client.handlers m) :
    (Unwound m t ↔ s.progress = .complete) ∧ (s.progress = .complete → Tracked m t) := by
  have hiff : t.client.handlers m = false ↔ s.progress = .complete := hkeys ▸ (h.follows hphase).handlers_iff
  exact ⟨⟨fun hu => hiff.mp (hu ht), fun hp _ => hiff.mpr hp⟩, fun hp => ⟨fun hc => absurd ht hc, fun _ => hiff.mpr hp⟩⟩

theorem Tracked.step (h : Tracked m s) (a : ExchangeAct) :
    (Unwound m (s.step m a) ↔ Received s a) ∧ (Received s a → Tracked m (s.step m a)) := by
  cases a with
  | receive msg => exact (h.receive msg).keeps trivial
  | timeout => exact h.timeout.keeps trivial
  | reply =>
    refine Tracked.keeps ?_ trivial
    simp only [Exchange.step]
    split
    · rename_i r hphase hr
      exact h.reply (by simp [hphase]) hr
    · exact h
  | chunk =>
    refine Tracked.keeps ?_ trivial
    simp only [Exchange.step]
    split
    · rename_i r hphase hr
      exact h.chunk (by simp [hphase]) hr
    · exact h
  | written =>
    refine Tracked.keeps ?_ trivial
    simp only [Exchange.step]
    split
    · rename_i hphase
      exact ⟨fun _ => h.follows (by simp [hphase]), fun hc => by cases hc⟩
    · exact h
  | failed =>
    by_cases hphase : s.phase = .writing
    · have hstep : s.step m .failed = { s with phase := .ended } := if_pos hphase
      have hreceived : Received s .failed ↔ s.progress = .complete := ⟨fun hr => hr hphase, fun hp _ => hp⟩
      rw [hstep, hreceived]
      exact h.drops (by simp [hphase]) rfl rfl
    · have hstep : s.step m .failed = s := if_neg hphase
      rw [hstep]
      exact h.keeps fun hc => absurd hc hphase
  | cancelled =>
    by_cases hphase : s.phase = .ended
    · have hstep : s.step m .cancelled = s := if_pos hphase
      rw [hstep]
      exact h.keeps fun hc => absurd hphase hc
    · have hstep : s.step m .cancelled = { s with client := s.client.cancel m, phase := .ended } := if_neg hphase
      have hreceived : Received s .cancelled ↔ s.progress = .complete := ⟨fun hr => hr hphase, fun hp _ => hp⟩
      rw [hstep, hreceived]
      exact h.drops hphase rfl (congrFun (AsyncClient.handlers_cancel s.client m) m)

theorem tracked_start (c : AsyncClient) (m : Frame) : Tracked m (start c m) where
  follows := fun _ => .awaiting .new (by simp [start, AsyncClient.register])
    (by simp [start, AsyncClient.register, AsyncClient.setResponse]) rfl rfl rfl (by simp [AsyncResponseHandler.new])
  unwound := fun hc => by cases hc

theorem handler_removed_iff (c : AsyncClient) (m : Frame) (as : List ExchangeAct) :
    Always (step m) (fun s a => Unwound m (s.step m a)) (start c m) as ↔ Always (step m) Received (start c m) as :=
  Always.congr (I := Tracked m) (fun _ a h => h.step a) (tracked_start c m) as

-- a task that is cancelled before the first frame, and a stream whose HTTP client is gone
theorem dropped_exchange_leaves_its_handler :
    ¬ Always (step (.bytes [1])) (fun s a => Unwound (.bytes [1]) (s.step (.bytes [1]) a))
        (start .init (.bytes [1])) [.cancelled] ∧
      ¬ Always (step (.bytes [1])) (fun s a => Unwound (.bytes [1]) (s.step (.bytes [1]) a))
        (start .init (.bytes [1]))
        [.receive [.bytes [1], .pickle (.reply ⟨206, [], [], none⟩)], .reply, .failed] := by
  constructor
  · rintro ⟨hunwound, -⟩
    exact absurd (hunwound rfl) (by decide)
  · rintro ⟨-, -, hunwound, -⟩
    exact absurd (hunwound (by decide)) (by decide)

end Exchange

end Zmq
