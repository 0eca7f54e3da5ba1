import PyQgisServer.Zmq.Network
import PyQgisServer.Zmq.Streams

namespace Zmq

open Links

def downFrame (c m : Frame) : Frame × List Frame → Option Frame
  | (c', [m', d]) => if c' = c ∧ m' = m then some d else none
  | _ => none

def Frame.chunk (d : Frame) : Option (Bytes × Bool) :=
  match d.loads with
  | some (.chunk body hasMore _) => some (body, hasMore)
  | _ => none

namespace AsyncResponseHandler

structure Reads (h : AsyncResponseHandler) (got : List Frame) : Prop where
  fresh : h.status = -1 → h.chunks = []
  blank : h.data = none → h.status = -1 ∧ h.headers = [] ∧ h.metadata = none
  header : ∀ d, h.data = some d → .pickle (.reply ⟨h.status, h.headers, d, h.metadata⟩) ∈ got
  chunks : h.chunks = got.filterMap Frame.chunk

theorem new_reads : new.Reads [] where
  fresh := fun _ => rfl
  blank := fun _ => ⟨rfl, rfl, rfl⟩
  header := fun _ h => by cases h
  chunks := rfl

theorem resolve_reads {h : AsyncResponseHandler} {got : List Frame} (f : Future)
    (hr : h.Reads got) : (h.resolve f).handler.Reads got := by
  unfold resolve
  split <;> exact ⟨hr.fresh, hr.blank, hr.header, hr.chunks⟩

theorem setException_reads {h : AsyncResponseHandler} {got : List Frame} (e : FetchError)
    (hr : h.Reads got) : (h.setException e).handler.Reads got :=
  resolve_reads _ ⟨hr.fresh, hr.blank, hr.header, hr.chunks⟩

theorem setResult_reads {h : AsyncResponseHandler} {got : List Frame} (d : Frame)
    (hr : h.Reads got) :
    (h.setResult d).handler.Reads got ∨ (h.setResult d).handler.Reads (got ++ [d]) := by
  unfold setResult
  split
  · rename_i hst
    split
    · rename_i m hm
      right
      have hd : d = .pickle (.reply m) := by
        cases d with
        | bytes b => simp [Frame.loads] at hm
        | pickle o => simpa [Frame.loads] using hm
      have hnil : got.filterMap Frame.chunk = [] := hr.chunks ▸ hr.fresh hst
      have hchunk : d.chunk = none := by simp [hd, Frame.chunk, Frame.loads]
      have hgot : (got ++ [d]).filterMap Frame.chunk = [] := by
        simp [hnil, hchunk]
      have hmem : ∀ x, some m.data = some x →
          Frame.pickle (.reply ⟨m.status, m.headers, x, m.metadata⟩) ∈ got ++ [d] := by
        rintro x ⟨⟩
        simp [hd]
      apply resolve_reads
      split
      · exact ⟨fun _ => rfl, (by simp), hmem, hgot.symm⟩
      · exact ⟨fun _ => hr.fresh hst, (by simp), hmem, (hr.fresh hst).trans hgot.symm⟩
    · exact .inl hr
  · rename_i hst
    split
    · split
      · rename_i body hasMore extra hd
        right
        refine ⟨fun h1 => absurd h1 hst, hr.blank, fun x hx => ?_, ?_⟩
        · exact List.mem_append_left _ (hr.header x hx)
        · simp [hr.chunks, Frame.chunk, hd]
      · exact .inl hr
    · exact .inl hr

end AsyncResponseHandler

namespace AsyncClient

def Reads (c : AsyncClient) (m : Frame) (got : List Frame) : Prop :=
  match c.responses m with
  | none => got = []
  | some h => h.Reads got

theorem setResponse_reads {c : AsyncClient} {m : Frame} {h : AsyncResponseHandler}
    {got : List Frame} (hr : h.Reads got) : (c.setResponse m h).Reads m got := by
  simpa [Reads, setResponse] using hr

theorem setResponse_reads_ne {c : AsyncClient} {m n : Frame} {h : AsyncResponseHandler}
    {got : List Frame} (hn : n ≠ m) (hr : c.Reads n got) : (c.setResponse m h).Reads n got := by
  simpa [Reads, setResponse, Function.update_of_ne hn] using hr

theorem reads_some {c : AsyncClient} {m : Frame} {h : AsyncResponseHandler} {got : List Frame}
    (hc : c.responses m = some h) : c.Reads m got ↔ h.Reads got := by
  simp [Reads, hc]

theorem update_reads {c : AsyncClient} {m n : Frame} {h k : AsyncResponseHandler}
    {got : List Frame} (hc : c.responses m = some h) (hk : h.Reads got → k.Reads got)
    (hr : c.Reads n got) : (c.setResponse m k).Reads n got := by
  by_cases hn : n = m
  · subst hn
    exact setResponse_reads (hk ((reads_some hc).mp hr))
  · exact setResponse_reads_ne hn hr

theorem act_reads {c : AsyncClient} {m : Frame} {got : List Frame} (a : ClientAct)
    (hr : c.Reads m got) : (c.act a).Reads m got := by
  cases a with
  | cancel n =>
    simp only [act, cancel]
    split
    · rename_i h hc
      split
      · exact update_reads hc (fun hh => ⟨hh.fresh, hh.blank, hh.header, hh.chunks⟩) hr
      · exact hr
    · exact hr
  | expire n =>
    simp only [act, expire]
    split
    · rename_i h hc
      exact update_reads hc (fun hh => ⟨hh.fresh, hh.blank, hh.header, hh.chunks⟩) hr
    · exact hr
  | forget n => exact hr
  | nextChunk n =>
    simp only [act, nextChunk]
    split
    · rename_i h hc
      split
      · exact update_reads hc (fun hh => ⟨hh.fresh, hh.blank, hh.header, hh.chunks⟩) hr
      · exact hr
    · exact hr
  | terminate => exact hr

theorem poll_reads {c : AsyncClient} {m n d : Frame} {rest got : List Frame}
    (hd : rest = [] ∨ d = err) (hr : c.Reads n got) :
    (c.poll (m :: d :: rest)).Reads n got ∨
      n = m ∧ rest = [] ∧ (c.poll (m :: d :: rest)).Reads n (got ++ [d]) := by
  simp only [poll]
  split
  · rename_i h _ hc
    have hpop (k : AsyncClient) (b : Bool) (g : List Frame) :
        (if b then k.pop m else k).Reads n g ↔ k.Reads n g := by
      cases b <;> exact Iff.rfl
    simp only [hpop]
    by_cases hn : n = m
    · subst hn
      have hh := (reads_some hc).mp hr
      cases rest with
      | nil =>
        rcases AsyncResponseHandler.setResult_reads d hh with h1 | h1
        · exact .inl (setResponse_reads h1)
        · exact .inr ⟨rfl, rfl, setResponse_reads h1⟩
      | cons code rest =>
        have hd : d = err := hd.resolve_left (by simp)
        left
        rw [AsyncResponseHandler.take, if_pos hd]
        exact setResponse_reads (AsyncResponseHandler.setException_reads _ hh)
    · exact .inl (setResponse_reads_ne hn hr)
  · exact .inl hr

theorem register_reads {c : AsyncClient} {m n : Frame} {got : List Frame}
    (hc : c.responses m = none) (hr : c.Reads n got) : (c.register m).Reads n got := by
  by_cases hn : n = m
  · subst hn
    simp only [Reads, hc] at hr
    subst hr
    exact setResponse_reads (c := c) AsyncResponseHandler.new_reads
  · exact setResponse_reads_ne (c := c) hn hr

end AsyncClient

namespace Network

variable {maxqueue timeout : ℤ}

def requested (x : Frame × Frame × RequestMessage) : Envelope :=
  ⟨x.1, x.2.1, .pickle (.request x.2.2)⟩

def Flows (s : Network) (c m : Frame) : Prop :=
  ∃ got, (s.client c).Reads m got ∧
    (got ++ (s.clientDown.filterMap (downFrame c m) ++ s.pool.up.filterMap (upFrame c m))).Sublist
      (s.pool.written.filterMap (wroteFrame c m))

structure Paired (s : Network) : Prop where
  fresh : (s.fetched.map fun x => (x.1, x.2.1)).Nodup
  held : s.pool.held + (s.clientUp.map requested : Multiset Envelope) ≤
    (s.fetched.map requested : Multiset Envelope)
  traced : s.pool.Traced
  down : ∀ x ∈ s.clientDown, ∃ m d, x.2 = [m, d] ∨ x.2 = [m, err, busy]
  flows : ∀ c m, s.Flows c m

theorem init_paired : init.Paired where
  fresh := .nil
  held := by simp [init, Pool.init, Pool.held, Broker.init]
  traced := ⟨by simp [init, Pool.init], by simp [init, Pool.init], by simp [init, Pool.init]⟩
  down := by simp [init]
  flows := fun c m => ⟨[], rfl, by simp [init, Pool.init]⟩

theorem Paired.taken_le {s : Network} (hs : s.Paired) :
    (s.pool.taken.map (·.2) : Multiset Envelope) ≤ (s.fetched.map requested : Multiset Envelope) := by
  refine le_trans ?_ hs.held
  refine le_trans ?_ (Multiset.le_add_right _ _)
  exact Multiset.le_add_left _ _

theorem Paired.taken_requested {s : Network} {w : Frame} {e : Envelope} (hs : s.Paired)
    (h : (w, e) ∈ s.pool.taken) : ∃ x ∈ s.fetched, requested x = e := by
  have he : e ∈ (s.pool.taken.map (·.2) : Multiset Envelope) :=
    Multiset.mem_coe.mpr (List.mem_map.mpr ⟨(w, e), h, rfl⟩)
  exact List.mem_map.mp (Multiset.mem_coe.mp (Multiset.mem_of_le hs.taken_le he))

theorem Paired.taken_nodup {s : Network} (hs : s.Paired) :
    (s.pool.taken.map fun x => (x.2.clientId, x.2.msgid)).Nodup := by
  have hle := Multiset.map_le_map (f := fun e : Envelope => (e.clientId, e.msgid)) hs.taken_le
  simp only [Multiset.map_coe, List.map_map] at hle
  exact Multiset.coe_nodup.mp (Multiset.nodup_of_le hle (Multiset.coe_nodup.mpr hs.fresh))

theorem Paired.taken_unique {s : Network} {w v : Frame} {e f : Envelope} (hs : s.Paired)
    (hw : (w, e) ∈ s.pool.taken) (hv : (v, f) ∈ s.pool.taken) (hc : e.clientId = f.clientId)
    (hm : e.msgid = f.msgid) : w = v ∧ e = f := by
  have h := List.inj_on_of_nodup_map hs.taken_nodup hw hv (by simp [hc, hm])
  exact Prod.mk.inj h

theorem Flows.of_client {s t : Network} {c m : Frame} (hs : s.Flows c m)
    (hc : ∀ got, (s.client c).Reads m got → (t.client c).Reads m got)
    (hd : (t.clientDown.filterMap (downFrame c m)).Sublist (s.clientDown.filterMap (downFrame c m)))
    (hu : (t.pool.up.filterMap (upFrame c m)).Sublist (s.pool.up.filterMap (upFrame c m)))
    (hw : t.pool.written = s.pool.written) : t.Flows c m := by
  obtain ⟨got, hr, hsub⟩ := hs
  refine ⟨got, hc got hr, ?_⟩
  rw [hw]
  exact ((List.Sublist.refl got).append (hd.append hu)).trans hsub

theorem setClient_self (s : Network) (c : Frame) (f : AsyncClient → AsyncClient) :
    (s.setClient c f).client c = f (s.client c) := Function.update_self _ _ _

theorem setClient_ne (s : Network) {c d : Frame} (f : AsyncClient → AsyncClient) (h : d ≠ c) :
    (s.setClient c f).client d = s.client d := Function.update_of_ne h _ _

theorem setClient_paired {s : Network} {c : Frame} {f : AsyncClient → AsyncClient} (hs : s.Paired)
    (hf : ∀ m got, (s.client c).Reads m got → (f (s.client c)).Reads m got) :
    (s.setClient c f).Paired := by
  refine ⟨hs.fresh, hs.held, hs.traced, hs.down, fun d m => ?_⟩
  refine (hs.flows d m).of_client (fun got hr => ?_) (.refl _) (.refl _) rfl
  by_cases hd : d = c
  · subst hd
    rw [setClient_self]
    exact hf m got hr
  · rw [setClient_ne s f hd]
    exact hr

theorem poll_paired {s : Network} {c : Frame} {msg : List Frame} {clientDown : Links Frame (List Frame)}
    (hs : s.Paired) (hr : Links.recv c s.clientDown = some (msg, clientDown)) :
    Paired { s.setClient c fun k => k.poll msg with clientDown } := by
  have hsub := recv_sublist hr
  refine ⟨hs.fresh, hs.held, hs.traced, fun x hx => hs.down x (hsub.subset hx), fun d m => ?_⟩
  by_cases hd : d = c
  · subst hd
    obtain ⟨got, hgot, hflow⟩ := hs.flows d m
    obtain ⟨n, b, hmsg⟩ := hs.down _ (recv_mem hr)
    obtain ⟨x, rest, rfl, hx⟩ : ∃ x rest, msg = n :: x :: rest ∧ (rest = [] ∨ x = err) := by
      rcases hmsg with h | h
      · exact ⟨b, [], h, .inl rfl⟩
      · exact ⟨err, [busy], h, .inr rfl⟩
    have hkeep : ((s.client d).poll (n :: x :: rest)).Reads m got →
        Flows { s.setClient d fun k => k.poll (n :: x :: rest) with clientDown } d m := by
      intro hk
      refine ⟨got, ?_, ?_⟩
      · rw [← setClient_self s d fun k => k.poll (n :: x :: rest)] at hk
        exact hk
      · exact ((List.Sublist.refl got).append ((hsub.filterMap _).append (.refl _))).trans hflow
    rcases AsyncClient.poll_reads (m := n) hx hgot with hk | ⟨rfl, rfl, hk⟩
    · exact hkeep hk
    · have hnext : s.clientDown.filterMap (downFrame d m) = x :: clientDown.filterMap (downFrame d m) := by
        refine Links.filterMap_recv hr (fun y _ hy => ?_) (by simp [downFrame])
        unfold downFrame at hy
        split at hy
        · split at hy
          · rename_i hcond
            exact hcond.1
          · cases hy
        · cases hy
      refine ⟨got ++ [x], ?_, ?_⟩
      · rw [← setClient_self s d fun k => k.poll [m, x]] at hk
        exact hk
      · rw [hnext] at hflow
        simpa [setClient] using hflow
  · refine (hs.flows d m).of_client (fun got hr => ?_) (hsub.filterMap _) (.refl _) rfl
    rw [← setClient_ne s (fun k => k.poll msg) hd] at hr
    exact hr

theorem toClient_backend (b : Broker) (w c m d : Frame) (ok : Bool) :
    (b.onBackend [w, c, m, d] ok).2.filterMap Event.toClient = [] ∨
      (b.onBackend [w, c, m, d] ok).2.filterMap Event.toClient = [(c, [m, d])] := by
  simp only [Broker.onBackend]
  split
  · exact .inl rfl
  · cases ok with
    | false => exact .inl rfl
    | true => exact .inr rfl

theorem toClient_frontend (maxqueue : ℤ) (b : Broker) (c m d : Frame) (tm : ℚ) (ok : Bool) :
    (b.onFrontend maxqueue [c, m, d] tm ok).2.filterMap Event.toClient = [] ∨
      (b.onFrontend maxqueue [c, m, d] tm ok).2.filterMap Event.toClient = [(c, [m, err, busy])] := by
  simp only [Broker.onFrontend]
  split
  · cases ok with
    | false => exact .inl rfl
    | true => exact .inr rfl
  · exact .inl rfl

theorem toClient_dispatch {timeout now : ℚ} {env : Sends} {b c : Broker} {log : List Event}
    (h : Broker.Dispatches timeout now env b log c) : log.filterMap Event.toClient = [] := by
  induction h with
  | done b => rfl
  | drop hb ht h ih | fail hb hw hf h ih | send hb hw hd ht h ih =>
    simpa [List.filterMap_cons, Event.toClient] using ih

theorem advance_quiet {s : Network} {r : Pool × List Event} (hs : s.Paired)
    (hheld : r.1.held ≤ s.pool.held) (ht : r.1.Traced)
    (he : r.2.filterMap Event.toClient = [])
    (hf : ∀ c m, ∃ new,
      (r.1.up.filterMap (upFrame c m)).Sublist (s.pool.up.filterMap (upFrame c m) ++ new) ∧
      r.1.written.filterMap (wroteFrame c m) = s.pool.written.filterMap (wroteFrame c m) ++ new) :
    (s.advance r).Paired := by
  refine ⟨hs.fresh, (add_le_add_left hheld _).trans hs.held, ht, fun x hx => ?_, fun c m => ?_⟩
  · simp only [advance, he, List.append_nil] at hx
    exact hs.down x hx
  · obtain ⟨got, hr, hsub⟩ := hs.flows c m
    obtain ⟨new, hup, hwrote⟩ := hf c m
    refine ⟨got, hr, ?_⟩
    simp only [advance, he, List.append_nil, hwrote]
    have := hsub.append (List.Sublist.refl new)
    simp only [List.append_assoc] at this
    exact ((List.Sublist.refl got).append ((List.Sublist.refl _).append hup)).trans this

theorem up_recv {s : Network} {w d : Frame} {e : Envelope} {up : Links Frame (List Frame)}
    (hs : s.Paired) (hr : Links.recv w s.pool.up = some ([e.clientId, e.msgid, d], up))
    (he : (w, e) ∈ s.pool.taken) :
    s.pool.up.filterMap (upFrame e.clientId e.msgid) =
      d :: up.filterMap (upFrame e.clientId e.msgid) := by
  refine Links.filterMap_recv hr (fun x hx hsome => ?_) (by simp [upFrame])
  obtain ⟨v, msg⟩ := x
  rcases hs.traced.up _ hx with hmsg | ⟨f, b, hf, hmsg⟩
  · obtain rfl : msg = [workerReady] := hmsg
    simp [upFrame] at hsome
  · obtain rfl : msg = [f.clientId, f.msgid, b] := hmsg
    simp only [upFrame] at hsome
    split at hsome
    · rename_i hcm
      exact (hs.taken_unique hf he hcm.1 hcm.2).1
    · cases hsome

theorem backend_paired {s : Network} {w : Frame} {ok : Bool} {r : Pool × List Event}
    (hs : s.Paired) (h : s.pool.perform maxqueue timeout (.backend w ok) = some r) :
    (s.advance r).Paired := by
  have ht := Pool.perform_traced hs.traced h
  have hheld := Pool.perform_held rfl h
  obtain ⟨msg, up, hr, rfl⟩ := Pool.perform_backend h
  have hsub := recv_sublist hr
  rcases hs.traced.up _ (recv_mem hr) with hmsg | ⟨e, d, he, hmsg⟩
  · refine advance_quiet hs hheld ht ?_ fun c m => ⟨[], ?_, (List.append_nil _).symm⟩
    · obtain rfl : msg = [workerReady] := hmsg
      rfl
    · rw [List.append_nil]
      exact hsub.filterMap _
  · obtain rfl : msg = [e.clientId, e.msgid, d] := hmsg
    rcases toClient_backend s.pool.broker w e.clientId e.msgid d ok with hout | hout
    · refine advance_quiet hs hheld ht hout fun c m => ⟨[], ?_, (List.append_nil _).symm⟩
      rw [List.append_nil]
      exact hsub.filterMap _
    · refine ⟨hs.fresh, (add_le_add_left hheld _).trans hs.held, ht, fun x hx => ?_, fun c m => ?_⟩
      · simp only [advance, hout] at hx
        rcases List.mem_append.mp hx with hx | hx
        · exact hs.down x hx
        · obtain rfl := List.mem_singleton.mp hx
          exact ⟨e.msgid, d, .inl rfl⟩
      · obtain ⟨got, hgot, hflow⟩ := hs.flows c m
        refine ⟨got, hgot, List.Sublist.trans ?_ hflow⟩
        refine (List.Sublist.refl got).append ?_
        simp only [advance, hout, List.filterMap_append, List.append_assoc]
        refine (List.Sublist.refl _).append ?_
        by_cases hcm : e.clientId = c ∧ e.msgid = m
        · obtain ⟨rfl, rfl⟩ := hcm
          rw [up_recv hs hr he]
          simp [downFrame]
        · simpa [List.filterMap_cons, downFrame, hcm] using hsub.filterMap _

theorem frontend_paired {s : Network} {c m : Frame} {q : RequestMessage} {tm : ℚ} {ok : Bool}
    {r : Pool × List Event} {clientUp : Links Frame (Frame × RequestMessage)} (hs : s.Paired)
    (hr : Links.recv c s.clientUp = some ((m, q), clientUp))
    (h : s.pool.perform maxqueue timeout (.frontend c m q tm ok) = some r) :
    ({ s with clientUp }.advance r).Paired := by
  have ht := Pool.perform_traced hs.traced h
  have hup : (s.clientUp.map requested : Multiset Envelope) =
      (clientUp.map requested : Multiset Envelope) + {⟨c, m, .pickle (.request q)⟩} := by
    rw [Multiset.coe_eq_coe.mpr ((recv_perm hr).map requested), List.map_cons,
      ← Multiset.cons_coe, ← Multiset.singleton_add, add_comm]
    rfl
  have hheld : r.1.held + (clientUp.map requested : Multiset Envelope) ≤
      (s.fetched.map requested : Multiset Envelope) := by
    refine le_trans ?_ hs.held
    rw [hup, add_comm (clientUp.map requested : Multiset Envelope), ← add_assoc]
    exact add_le_add_left (Pool.frontend_held h) _
  obtain rfl := Pool.perform_frontend h
  refine ⟨hs.fresh, hheld, ht, fun x hx => ?_, fun d n => ?_⟩
  · rcases List.mem_append.mp hx with hx | hx
    · exact hs.down x hx
    · rcases toClient_frontend maxqueue s.pool.broker c m (.pickle (.request q)) tm ok with hout | hout
      · rw [hout] at hx
        cases hx
      · rw [hout, List.mem_singleton] at hx
        exact ⟨m, err, .inr (by rw [hx])⟩
  · refine (hs.flows d n).of_client (fun _ => id) ?_ (.refl _) rfl
    rcases toClient_frontend maxqueue s.pool.broker c m (.pickle (.request q)) tm ok with hout | hout
    · simp [advance, hout]
    · simp [advance, hout, List.filterMap_cons, downFrame]

theorem pool_paired {s : Network} {a : Act} {r : Pool × List Event} (hs : s.Paired)
    (ha : a.fromClient = false) (h : s.pool.perform maxqueue timeout a = some r) :
    (s.advance r).Paired := by
  have ht := Pool.perform_traced hs.traced h
  have hheld := Pool.perform_held ha h
  cases a with
  | backend w ok => exact backend_paired hs h
  | frontend c m q tm ok => cases ha
  | dispatch now env =>
    obtain ⟨b, log, hd, rfl⟩ := Pool.perform_dispatch h
    exact advance_quiet hs hheld ht (toClient_dispatch hd) fun c m => ⟨[], by simp, by simp⟩
  | work w a =>
    obtain ⟨hw, hout⟩ := Pool.perform_work h
    refine advance_quiet hs hheld ht (by rw [hout]; rfl) fun c m => ?_
    obtain ⟨new, hup, hwrote⟩ := Pool.work_appends hw c m
    exact ⟨new, by rw [hup], hwrote⟩
  | crash w =>
    obtain rfl := Option.some.inj h
    exact advance_quiet hs hheld ht rfl fun c m => ⟨[], by simp, by simp⟩
  | loseUp i =>
    obtain rfl := Option.some.inj h
    refine advance_quiet hs hheld ht rfl fun c m => ⟨[], ?_, by simp⟩
    rw [List.append_nil]
    exact (s.pool.up.eraseIdx_sublist i).filterMap _
  | loseDown i =>
    obtain rfl := Option.some.inj h
    exact advance_quiet hs hheld ht rfl fun c m => ⟨[], by simp, by simp⟩

theorem fetch_paired {s : Network} {c m : Frame} {r : RequestMessage} (hs : s.Paired)
    (hf : (c, m) ∉ s.fetched.map fun x => (x.1, x.2.1)) :
    Paired { s with clientUp := s.clientUp ++ [(c, m, r)], fetched := s.fetched ++ [(c, m, r)] } := by
  refine ⟨?_, ?_, hs.traced, hs.down, hs.flows⟩
  · simp only [List.map_append, List.map_cons, List.map_nil]
    exact hs.fresh.append (List.nodup_singleton _) (List.disjoint_singleton.mpr hf)
  · simp only [List.map_append, ← Multiset.coe_add, ← add_assoc]
    exact add_le_add_left hs.held _

theorem step_paired {s t : Network} {a : NetAct} (hs : s.Paired)
    (h : step maxqueue timeout s a = some t) : t.Paired := by
  cases a with
  | fetch c m r =>
    simp only [step] at h
    split at h
    · cases h
    · rename_i hf
      obtain rfl := Option.some.inj h
      exact fetch_paired hs hf
  | register c m =>
    simp only [step] at h
    split at h
    · rename_i hc
      obtain rfl := Option.some.inj h
      exact setClient_paired hs fun n got hr => AsyncClient.register_reads hc hr
    · cases h
  | poll c =>
    simp only [step] at h
    split at h
    · rename_i msg clientDown hr
      obtain rfl := Option.some.inj h
      exact poll_paired hs hr
    · cases h
  | client c a =>
    obtain rfl := Option.some.inj h
    exact setClient_paired hs fun n got hr => AsyncClient.act_reads a hr
  | frontend c tm ok =>
    simp only [step] at h
    split at h
    · rename_i m r clientUp hr
      obtain ⟨p, hp, rfl⟩ := Option.map_eq_some_iff.mp h
      exact frontend_paired hs hr hp
    · cases h
  | pool a =>
    simp only [step] at h
    split at h
    · cases h
    · rename_i ha
      obtain ⟨p, hp, rfl⟩ := Option.map_eq_some_iff.mp h
      exact pool_paired hs (by simpa using ha) hp
  | loseClientUp i =>
    obtain rfl := Option.some.inj h
    refine ⟨hs.fresh, le_trans ?_ hs.held, hs.traced, hs.down, hs.flows⟩
    gcongr
    exact ((s.clientUp.eraseIdx_sublist i).map _).subperm
  | loseClientDown i =>
    obtain rfl := Option.some.inj h
    have hsub := s.clientDown.eraseIdx_sublist i
    refine ⟨hs.fresh, hs.held, hs.traced, fun x hx => hs.down x (hsub.subset hx), fun c m => ?_⟩
    exact (hs.flows c m).of_client (fun _ => id) (hsub.filterMap _) (.refl _) rfl

end Network

def Pool.produced (s : Pool) (e : Envelope) : List Frame :=
  s.written.filterMap fun x => if x.2.1 = e then some x.2.2 else none

namespace Network

theorem Paired.produced {s : Network} {c m : Frame} {r : RequestMessage} (hs : s.Paired)
    (hf : (c, m, r) ∈ s.fetched) :
    s.pool.written.filterMap (wroteFrame c m) = s.pool.produced (requested (c, m, r)) := by
  refine List.filterMap_congr fun x hx => ?_
  obtain ⟨w, e, d⟩ := x
  obtain ⟨y, hy, he⟩ := hs.taken_requested (hs.traced.written _ hx)
  obtain rfl : requested y = e := he
  have heq : (requested y).clientId = c ∧ (requested y).msgid = m ↔ requested y = requested (c, m, r) := by
    constructor
    · rintro ⟨hc, hm⟩
      rw [List.inj_on_of_nodup_map hs.fresh hy hf (Prod.ext hc hm)]
    · intro h
      rw [h]
      exact ⟨rfl, rfl⟩
  simp only [wroteFrame, heq]

theorem reach_paired {s : Network}
    (hs : Transition.Reach (step maxqueue timeout) (fun _ _ => True) init s) : s.Paired :=
  hs.invariant init_paired fun _ _ _ hI _ ha => step_paired hI ha

theorem no_cross_delivery {s : Network}
    (hs : Transition.Reach (step maxqueue timeout) (fun _ _ => True) init s) :
    (s.pool.taken.map (·.2)).Nodup ∧
    (∀ x ∈ s.pool.taken, ∃ y ∈ s.fetched, requested y = x.2) ∧
    ∀ c m r h, (c, m, r) ∈ s.fetched → (s.client c).responses m = some h →
      (h.data = none → h.status = -1 ∧ h.headers = [] ∧ h.metadata = none) ∧
      (∀ d, h.data = some d → .pickle (.reply ⟨h.status, h.headers, d, h.metadata⟩) ∈
        s.pool.produced (requested (c, m, r))) ∧
      h.chunks.Sublist ((s.pool.produced (requested (c, m, r))).filterMap Frame.chunk) := by
  have hI := reach_paired hs
  refine ⟨?_, fun x hx => hI.taken_requested hx, fun c m r h hf hh => ?_⟩
  · have hkeys := hI.taken_nodup
    rw [← Function.comp_def (fun e : Envelope => (e.clientId, e.msgid)), ← List.map_map] at hkeys
    exact hkeys.of_map
  · obtain ⟨got, hr, hsub⟩ := hI.flows c m
    rw [hI.produced hf] at hsub
    have hread := (AsyncClient.reads_some hh).mp hr
    have hgot := (List.sublist_append_left got _).trans hsub
    refine ⟨hread.blank, fun d hd => hgot.subset (hread.header d hd), ?_⟩
    rw [hread.chunks]
    exact hgot.filterMap _

def streamed : List NetAct :=
  [.fetch Pool.client1 (.bytes [1]) (Pool.getMap none), .register Pool.client1 (.bytes [1]),
    .pool (.work Pool.worker1 .ready), .pool (.backend Pool.worker1 true),
    .frontend Pool.client1 0 true, .pool (.dispatch 1 Pool.sendAll),
    .pool (.work Pool.worker1 .recv),
    .pool (.work Pool.worker1 (.write 200 [] [1] true none true)),
    .pool (.work Pool.worker1 (.write 206 [] [2] false none true)),
    .pool (.backend Pool.worker1 true), .pool (.dispatch 2 Pool.sendAll),
    .poll Pool.client1, .pool (.backend Pool.worker1 true), .poll Pool.client1]

theorem no_cross_delivery_streamed :
    ∃ (s : Network) (h : AsyncResponseHandler), h.data = some [1] ∧ h.chunks = [([2], false)] ∧
      .pickle (.reply ⟨h.status, h.headers, [1], h.metadata⟩) ∈
        s.pool.produced (requested (Pool.client1, .bytes [1], Pool.getMap none)) ∧
      h.chunks.Sublist ((s.pool.produced
        (requested (Pool.client1, .bytes [1], Pool.getMap none))).filterMap Frame.chunk) := by
  have hm : Transition.Meets (step 100 3000) (fun _ _ => True) init streamed :=
    .of_forall (fun _ _ _ => trivial) init
  obtain ⟨s, hs, hp⟩ := Transition.Reach.exists_of_run
    (fun s : Network => decide ((Pool.client1, Frame.bytes [1], Pool.getMap none) ∈ s.fetched) &&
      ((s.client Pool.client1).responses (.bytes [1])).any fun h : AsyncResponseHandler =>
        decide (h.data = some [1] ∧ h.chunks = [([2], false)])) hm (by decide +kernel)
  simp only [Bool.and_eq_true, decide_eq_true_eq, Option.any_eq_true] at hp
  obtain ⟨hf, h, hh, hd, hc⟩ := hp
  obtain ⟨-, hheader, hchunks⟩ := (no_cross_delivery hs).2.2 _ _ _ h hf hh
  exact ⟨s, h, hd, hc, hheader [1] hd, hchunks⟩

end Network

end Zmq
