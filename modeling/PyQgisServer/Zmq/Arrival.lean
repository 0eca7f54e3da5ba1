import PyQgisServer.Zmq.Board

namespace Zmq

open Links

namespace AsyncResponseHandler

def untaken (h : AsyncResponseHandler) : AsyncResponseHandler := { h with taken := 0 }

variable (h : AsyncResponseHandler)

theorem untaken_resolve (f : Future) :
    h.untaken.resolve f = ⟨(h.resolve f).handler.untaken, (h.resolve f).raised⟩ := by
  rw [resolve, resolve]
  cases hf : h.future with
  | pending => simp [untaken, hf]
  | _ => simp [untaken, hf]

theorem untaken_setException (e : FetchError) :
    h.untaken.setException e = ⟨(h.setException e).handler.untaken, (h.setException e).raised⟩ :=
  untaken_resolve { h with hasMore := false } (.exception e)

theorem untaken_setResult (data : Frame) :
    h.untaken.setResult data = ⟨(h.setResult data).handler.untaken, (h.setResult data).raised⟩ := by
  unfold setResult
  by_cases hstatus : h.status = -1
  · have hstatus' : h.untaken.status = -1 := hstatus
    rw [if_pos hstatus, if_pos hstatus']
    split
    · rename_i reply _
      by_cases hstream : reply.status = 206
      · simp only [if_pos hstream]
        exact untaken_resolve ⟨_, h.future, [], h.taken, true, _, _, _⟩ .result
      · simp only [if_neg hstream]
        exact untaken_resolve ⟨_, h.future, h.chunks, h.taken, h.hasMore, _, _, _⟩ .result
    · rfl
  · have hstatus' : h.untaken.status ≠ -1 := hstatus
    rw [if_neg hstatus, if_neg hstatus']
    cases hmore : h.hasMore with
    | false => simp [untaken, hmore]
    | true =>
      have hmore' : h.untaken.hasMore = true := hmore
      rw [if_pos hmore', if_pos rfl]
      split <;> rfl

theorem untaken_take (data : Frame) (rest : List Frame) :
    h.untaken.take data rest = ⟨(h.take data rest).handler.untaken, (h.take data rest).raised⟩ := by
  cases rest with
  | nil => exact untaken_setResult h data
  | cons code rest =>
    rw [take, take]
    split
    · exact untaken_setException h _
    · exact untaken_setResult h data

end AsyncResponseHandler

namespace AsyncClient

open AsyncResponseHandler

abbrev View := Option AsyncResponseHandler × Bool

def view (k : AsyncClient) (m : Frame) : View := ((k.responses m).map untaken, k.handlers m)

def View.read (v : View) (msg : List Frame) : View :=
  match v, msg with
  | (some h, true), data :: rest => (some (h.take data rest).handler,
      !(!(h.take data rest).raised && (h.take data rest).handler.done))
  | v, _ => v

def reading (msgs : List (List Frame)) : View := msgs.foldl View.read (some .new, true)

section view

variable {k : AsyncClient} {m n : Frame}

theorem view_poll (k : AsyncClient) (m : Frame) (msg : List Frame) :
    (k.poll (m :: msg)).view m = (k.view m).read msg := by
  cases msg with
  | nil =>
    rw [poll]
    · cases hv : k.view m with
      | mk h b => cases h <;> cases b <;> rfl
    · rintro c d rest ⟨⟩
  | cons data rest =>
    simp only [poll, view]
    cases hkey : k.handlers m with
    | false =>
      cases k.responses m with
      | _ => simp [View.read, hkey]
    | true =>
      cases hh : k.responses m with
      | none => simp [View.read, hh, hkey]
      | some h =>
        simp only [Option.map_some, View.read, untaken_take]
        have hdone : (h.take data rest).handler.untaken.done = (h.take data rest).handler.done := rfl
        rw [hdone]
        cases hpop : !(h.take data rest).raised && (h.take data rest).handler.done with
        | true => simp [setResponse, pop]
        | false => simp [setResponse, hkey]

theorem view_poll_ne (hn : n ≠ m) (k : AsyncClient) (msg : List Frame) : (k.poll (n :: msg)).view m = k.view m := by
  cases msg with
  | nil => rfl
  | cons data rest =>
    simp only [poll]
    split
    · split <;> simp [view, setResponse, pop, Function.update_of_ne (Ne.symm hn)]
    · rfl

theorem view_register (k : AsyncClient) (m : Frame) : (k.register m).view m = (some .new, true) := by
  simp [view, register, setResponse, untaken, AsyncResponseHandler.new]

theorem view_register_ne (hn : n ≠ m) (k : AsyncClient) : (k.register n).view m = k.view m := by
  simp [view, register, setResponse, Function.update_of_ne (Ne.symm hn)]

theorem view_setResponse_ne (hn : n ≠ m) (k : AsyncClient) (h : AsyncResponseHandler) :
    (k.setResponse n h).view m = k.view m := by
  simp [view, setResponse, Function.update_of_ne (Ne.symm hn)]

def waits (m : Frame) : ClientAct → Bool
  | .cancel n => n ≠ m
  | .expire n => n ≠ m
  | .forget n => n ≠ m
  | .nextChunk _ => true
  | .terminate => false

theorem view_act {a : ClientAct} (ha : waits m a = true) (k : AsyncClient) : (k.act a).view m = k.view m := by
  cases a with
  | cancel n =>
    simp only [act, cancel]
    split
    · split
      · exact view_setResponse_ne (of_decide_eq_true ha) k _
      · rfl
    · rfl
  | expire n =>
    simp only [act, expire]
    split
    · exact view_setResponse_ne (of_decide_eq_true ha) k _
    · rfl
  | forget n => simp [act, pop, view, Function.update_of_ne (Ne.symm (of_decide_eq_true ha))]
  | nextChunk n =>
    simp only [act, nextChunk]
    split
    · rename_i h hh
      split
      · by_cases hn : n = m
        · subst hn
          simp [view, setResponse, hh, untaken]
        · exact view_setResponse_ne hn k _
      · rfl
    · rfl
  | terminate => cases ha

def Arrived (k : AsyncClient) (m : Frame) (msgs : List (List Frame)) : Prop :=
  k.view m = reading msgs ∨ k.responses m = none ∧ msgs = []

theorem responses_none_iff : k.responses m = none ↔ (k.view m).1 = none := by
  simp [view]

theorem Arrived.congr {l : AsyncClient} {msgs : List (List Frame)} (h : k.Arrived m msgs)
    (hview : l.view m = k.view m) : l.Arrived m msgs := by
  rw [Arrived, responses_none_iff, hview, ← responses_none_iff]
  exact h

theorem reading_append (msgs : List (List Frame)) (msg : List Frame) :
    reading (msgs ++ [msg]) = (reading msgs).read msg := by
  rw [reading, List.foldl_append]
  rfl

theorem View.read_isSome (v : View) (msg : List Frame) : (v.read msg).1.isSome = v.1.isSome := by
  unfold View.read
  split <;> rfl

theorem reading_isSome (msgs : List (List Frame)) : (reading msgs).1.isSome = true := by
  have hfold (v : View) : (msgs.foldl View.read v).1.isSome = v.1.isSome := by
    induction msgs generalizing v with
    | nil => rfl
    | cons msg msgs ih => rw [List.foldl_cons, ih, View.read_isSome]
  exact hfold (some .new, true)

theorem Arrived.poll {msgs : List (List Frame)} (h : k.Arrived m msgs) (hreg : k.responses m ≠ none)
    (msg : List Frame) : (k.poll (m :: msg)).Arrived m (msgs ++ [msg]) := by
  have hview := h.resolve_right fun hnone => hreg hnone.1
  exact .inl (by rw [view_poll, hview, reading_append])

theorem Arrived.register {msgs : List (List Frame)} (h : k.Arrived m msgs) (hnone : k.responses m = none) :
    (k.register m).Arrived m msgs := by
  rcases h with hview | ⟨-, rfl⟩
  · have hsome := reading_isSome msgs
    rw [← hview, responses_none_iff.mp hnone] at hsome
    cases hsome
  · exact .inl (view_register k m)

end view

end AsyncClient

namespace Pool

def Accounted (s : Pool) : Prop := ∀ x ∈ s.taken, x.2 ∈ (s.worker x.1).current ∨ x ∈ s.finished

section accounted

variable {maxqueue timeout : ℤ} {s t : Pool}

theorem Accounted.goto (h : s.Accounted) {w : Frame} (hw : (s.worker w).current = []) (l : Loop) :
    (s.goto w l).Accounted := by
  intro x hx
  rcases h x hx with hcurrent | hfinished
  · by_cases hxw : x.1 = w
    · rw [hxw, hw] at hcurrent
      cases hcurrent
    · exact .inl (by rw [goto_ne _ _ _ hxw]; exact hcurrent)
  · exact .inr hfinished

theorem Accounted.finish (h : s.Accounted) {w : Frame} {g : RequestHandler} (hw : s.worker w = .handling g) (l : Loop) :
    ∀ x ∈ s.taken, x.2 ∈ ((s.goto w l).worker x.1).current ∨ x ∈ s.finished ++ [(w, g.origin)] := by
  intro x hx
  rcases h x hx with hcurrent | hfinished
  · by_cases hxw : x.1 = w
    · rw [hxw, hw, Loop.current, List.mem_singleton] at hcurrent
      exact .inr (List.mem_append_right _ (List.mem_singleton.mpr (Prod.ext hxw hcurrent)))
    · exact .inl (by rw [goto_ne _ _ _ hxw]; exact hcurrent)
  · exact .inr (List.mem_append_left _ hfinished)

theorem work_accounted {w : Frame} {a : Work} (h : s.Accounted) (hs : s.work w a = some t) : t.Accounted := by
  cases work_works hs with
  | ready hl => exact h.goto (by rw [hl]; rfl) .receiving
  | again hl => exact h.goto (by rw [hl]; rfl) _
  | restart hl => exact h.goto (by rw [hl]; rfl) _
  | next hl => exact h.goto (by rw [hl]; rfl) _
  | close hl => exact h.goto (by rw [hl]; rfl) _
  | @recv e down r hl hr hm =>
    intro x hx
    rcases List.mem_append.mp hx with hx | hx
    · exact h.goto (w := w) (by rw [hl]; rfl) _ x hx
    · obtain rfl := List.mem_singleton.mp hx
      refine .inl ?_
      simp only [goto_self, Loop.current, RequestHandler.origin_new hm, List.mem_singleton]
  | garbage hl hr hm =>
    intro x hx
    exact (h.goto (by rw [hl]; rfl) .checking x hx).imp_right (List.mem_append_left _)
  | @write g statusCode headers data sendMore metadata ok hl =>
    intro x hx
    rw [goto_taken, reply_taken] at hx
    rw [goto_finished, reply_finished]
    refine (h x hx).imp_left fun hcurrent => ?_
    by_cases hxw : x.1 = w
    · rw [hxw, hl] at hcurrent
      rw [hxw, goto_self, Loop.current, RequestHandler.send_origin]
      exact hcurrent
    · rw [goto_ne _ _ _ hxw, reply_worker]
      exact hcurrent
  | done hl => exact h.finish hl .checking
  | @fail g hl hh =>
    intro x hx
    have hreplied : (s.reply w g
        ({ g with statusCode := 500 }.send workerInternalError false none true).sent).Accounted := by
      intro y hy
      rw [reply_taken] at hy
      rw [reply_worker, reply_finished]
      exact h y hy
    have hfinished := hreplied.finish (w := w) (g := g) (by rw [reply_worker]; exact hl) (.leaving false) x hx
    rw [reply_finished] at hfinished
    exact hfinished

theorem perform_accounted {a : Act} (h : s.Accounted) (ha : a.lossless = true) {r : Pool × List Event}
    (hr : s.perform maxqueue timeout a = some r) : r.1.Accounted := by
  cases a with
  | backend w ok =>
    obtain ⟨msg, up, -, rfl⟩ := perform_backend hr
    exact h
  | frontend c m q tm ok =>
    obtain rfl := perform_frontend hr
    exact h
  | dispatch now env =>
    obtain ⟨b, log, -, rfl⟩ := perform_dispatch hr
    exact h
  | work w a => exact work_accounted h (perform_work hr).1
  | crash w => cases ha
  | loseUp i => cases ha
  | loseDown i => cases ha

end accounted

end Pool

namespace Network

theorem step_pool {maxqueue timeout : ℤ} {s t : Network} {a : NetAct} (ha : a.lossless = true)
    (h : step maxqueue timeout s a = some t) :
    t.pool = s.pool ∨ ∃ b r, b.lossless = true ∧ s.pool.perform maxqueue timeout b = some r ∧ t.pool = r.1 := by
  cases a with
  | fetch c m r =>
    simp only [step] at h
    split at h
    · cases h
    · obtain rfl := Option.some.inj h
      exact .inl rfl
  | register c m =>
    simp only [step] at h
    split at h
    · obtain rfl := Option.some.inj h
      exact .inl rfl
    · cases h
  | poll c =>
    simp only [step] at h
    split at h
    · obtain rfl := Option.some.inj h
      exact .inl rfl
    · cases h
  | client c b =>
    obtain rfl := Option.some.inj h
    exact .inl rfl
  | frontend c tm ok =>
    simp only [step] at h
    split at h
    · obtain ⟨r, hr, rfl⟩ := Option.map_eq_some_iff.mp h
      exact .inr ⟨_, r, rfl, hr, rfl⟩
    · cases h
  | pool b =>
    simp only [step] at h
    split at h
    · cases h
    · obtain ⟨r, hr, rfl⟩ := Option.map_eq_some_iff.mp h
      exact .inr ⟨b, r, ha, hr, rfl⟩
  | loseClientUp i => cases ha
  | loseClientDown i => cases ha

theorem Paired.not_taken {s : Network} (hs : s.Paired) {x : Frame × Frame × RequestMessage} (hx : x ∈ s.clientUp)
    {y : Frame × Envelope} (hy : y ∈ s.pool.taken) : y.2.key ≠ (x.1, x.2.1) := by
  have hle : (s.pool.taken.map (·.2) : Multiset Envelope) + (s.clientUp.map requested : Multiset Envelope) ≤
      (s.fetched.map requested : Multiset Envelope) :=
    (add_le_add_left (Multiset.le_add_left _ _) _).trans hs.held
  have hkeys := Multiset.map_le_map (f := Envelope.key) hle
  simp only [Multiset.coe_add, Multiset.map_coe, List.map_append, List.map_map] at hkeys
  have hnodup := Multiset.coe_nodup.mp (Multiset.nodup_of_le hkeys (Multiset.coe_nodup.mpr hs.fresh))
  intro heq
  refine (List.nodup_append.mp hnodup).2.2 y.2.key (List.mem_map.mpr ⟨y, hy, rfl⟩) _ ?_ heq
  exact List.mem_map.mpr ⟨x, hx, rfl⟩

theorem Paired.written_nil {s : Network} (hs : s.Paired) {c m : Frame} (h : ∀ y ∈ s.pool.taken, y.2.key ≠ (c, m)) :
    s.pool.written.filterMap (wroteFrame c m) = [] ∧ s.pool.up.filterMap (upFrame c m) = [] := by
  have hwritten : s.pool.written.filterMap (wroteFrame c m) = [] := by
    rw [List.filterMap_eq_nil_iff]
    intro x hx
    have hne := h _ (hs.traced.written x hx)
    rw [Ne, Envelope.key, Prod.mk.injEq] at hne
    exact if_neg hne
  refine ⟨hwritten, ?_⟩
  obtain ⟨got, -, hsub⟩ := hs.flows c m
  rw [hwritten, List.sublist_nil, List.append_eq_nil_iff, List.append_eq_nil_iff] at hsub
  exact hsub.2.2

end Network

namespace Logged

def answerRest (c m : Frame) : Frame × List Frame → Option (List Frame)
  | (c', m' :: rest) => if c' = c ∧ m' = m then some rest else none
  | _ => none

def arriving (s : Logged) (c m : Frame) : List (List Frame) :=
  s.net.clientDown.filterMap (answerRest c m) ++ (s.net.pool.up.filterMap (upFrame c m)).map ([·])

def refusals (c m : Frame) (log : List Event) : List (List Frame) :=
  (((log.filterMap Event.rejected).map Envelope.key).filter (· = (c, m))).map fun _ => [err, busy]

def answered (s : Logged) (c m : Frame) : List (List Frame) :=
  refusals c m s.log ++ (s.net.pool.written.filterMap (wroteFrame c m)).map ([·])

def Flow (s : Logged) (c m : Frame) : Prop :=
  ∃ msgs, (s.net.client c).Arrived m msgs ∧ msgs ++ s.arriving c m = s.answered c m

-- nothing is lost, sends to clients succeed, and the client waits for the answer, which does not come
-- before it has registered the handler
def undisturbed (c m : Frame) (s : Logged) (a : NetAct) : Bool :=
  a.lossless &&
    match a with
    | .client d b => d ≠ c || AsyncClient.waits m b
    | .poll d => d ≠ c || (recv c s.net.clientDown).bind (·.1.head?) ≠ some m ||
        ((s.net.client c).responses m).isSome
    | .frontend _ _ ok => ok
    | .pool (.backend _ ok) => ok
    | _ => true

section flow

variable {maxqueue timeout : ℤ} {c m : Frame} {s t : Logged}

theorem undisturbed_lossless {a : NetAct} (ha : s.undisturbed c m a = true) : a.lossless = true := by
  unfold undisturbed at ha
  exact (Bool.and_eq_true_iff.mp ha).1

theorem refusals_append (log log' : List Event) :
    refusals c m (log ++ log') = refusals c m log ++ refusals c m log' := by
  simp [refusals]

theorem Flow.of (h : s.Flow c m) (new : List (List Frame))
    (hview : (t.net.client c).view m = (s.net.client c).view m) (harriving : t.arriving c m = s.arriving c m ++ new)
    (hanswered : t.answered c m = s.answered c m ++ new) : t.Flow c m := by
  obtain ⟨msgs, harrived, heq⟩ := h
  refine ⟨msgs, harrived.congr hview, ?_⟩
  rw [harriving, hanswered, ← heq, List.append_assoc]

theorem answerRest_key {x : Frame × List Frame} (h : (answerRest c m x).isSome) : x.1 = c := by
  unfold answerRest at h
  split at h
  · split at h
    · rename_i hcond
      exact hcond.1
    · cases h
  · cases h

theorem advance_flow (h : s.Flow c m) {r : Pool × List Event} (hclient : r.2.filterMap Event.toClient = [])
    (hrefusals : refusals c m r.2 = []) (happends : Pool.Appends c m s.net.pool r.1) :
    Flow ⟨s.net.advance r, s.log ++ r.2⟩ c m := by
  obtain ⟨new, hup, hwritten⟩ := happends
  refine h.of (new.map ([·])) rfl ?_ ?_
  · simp only [arriving, Network.advance, hclient, List.append_nil, hup, List.map_append, List.append_assoc]
  · simp only [answered, Network.advance, refusals_append, hrefusals, List.append_nil, hwritten, List.map_append,
      List.append_assoc]

theorem poll_flow (h : s.Flow c m) {d : Frame} {msg : List Frame} {clientDown : Links Frame (List Frame)}
    (hr : recv d s.net.clientDown = some (msg, clientDown))
    (hreg : d = c → msg.head? = some m → (s.net.client c).responses m ≠ none) :
    Flow ⟨{ s.net.setClient d fun k => k.poll msg with clientDown }, s.log⟩ c m := by
  obtain ⟨msgs, harrived, heq⟩ := h
  have hother : answerRest c m (d, msg) = none →
      s.net.clientDown.filterMap (answerRest c m) = clientDown.filterMap (answerRest c m) := filterMap_recv_none hr
  by_cases hd : d = c
  · subst hd
    have hself : (s.net.setClient d fun k => k.poll msg).client d = (s.net.client d).poll msg :=
      Network.setClient_self s.net d _
    cases msg with
    | nil =>
      refine ⟨msgs, ?_, ?_⟩
      · exact harrived.congr (by rw [hself]; rfl)
      · rw [arriving, hother rfl] at heq
        exact heq
    | cons n msg =>
      by_cases hn : n = m
      · subst hn
        have hnext : s.net.clientDown.filterMap (answerRest d n) = msg :: clientDown.filterMap (answerRest d n) :=
          filterMap_recv hr (fun x _ => answerRest_key) (by simp [answerRest])
        refine ⟨msgs ++ [msg], ?_, ?_⟩
        · show ((s.net.setClient d fun k => k.poll (n :: msg)).client d).Arrived n _
          rw [hself]
          exact harrived.poll (hreg rfl rfl) msg
        · have hanswered :
              Logged.answered ⟨{ s.net.setClient d fun k => k.poll (n :: msg) with clientDown }, s.log⟩ d n =
                s.answered d n := rfl
          rw [arriving, hnext] at heq
          rw [hanswered, ← heq]
          simp [arriving, Network.setClient]
      · refine ⟨msgs, ?_, ?_⟩
        · refine harrived.congr ?_
          show ((s.net.setClient d fun k => k.poll (n :: msg)).client d).view m = _
          rw [hself, AsyncClient.view_poll_ne hn]
        · rw [arriving, hother (by simp [answerRest, hn])] at heq
          exact heq
  · refine ⟨msgs, ?_, ?_⟩
    · refine harrived.congr ?_
      show ((s.net.setClient d fun k => k.poll msg).client c).view m = _
      rw [Network.setClient_ne s.net _ (Ne.symm hd)]
    · rw [arriving, hother ?_] at heq
      · exact heq
      · by_contra hsome
        exact hd (answerRest_key (Option.isSome_iff_ne_none.mpr hsome))

theorem backend_flow (h : s.Flow c m) (hp : s.net.Paired) (hc : c ≠ workerReady) {w : Frame} {r : Pool × List Event}
    (hr : s.net.pool.perform maxqueue timeout (.backend w true) = some r) :
    Flow ⟨s.net.advance r, s.log ++ r.2⟩ c m := by
  obtain ⟨msg, up, hrecv, rfl⟩ := Pool.perform_backend hr
  have hquiet := (onBackend_quiet s.net.pool.broker (w :: msg) true).1
  have hrefusals : refusals c m (s.net.pool.broker.onBackend (w :: msg) true).2 = [] := by
    simp only [refusals, hquiet, List.map_nil, List.filter_nil]
  rcases hp.traced.up _ (recv_mem hrecv) with hmsg | ⟨e, d, he, hmsg⟩
  · obtain rfl : msg = [workerReady] := hmsg
    refine advance_flow h rfl hrefusals ⟨[], ?_, (List.append_nil _).symm⟩
    rw [List.append_nil, filterMap_recv_none hrecv rfl]
  · obtain rfl : msg = [e.clientId, e.msgid, d] := hmsg
    by_cases hcm : e.clientId = c ∧ e.msgid = m
    · obtain ⟨rfl, rfl⟩ := hcm
      have hout : (s.net.pool.broker.onBackend [w, e.clientId, e.msgid, d] true).2 =
          [.forward e.clientId e.msgid d true] := by
        simp only [Broker.onBackend, if_neg hc]
      refine h.of [] rfl ?_ ?_
      · simp only [arriving, Network.advance, hout, List.filterMap_append, Network.up_recv hp hrecv he]
        simp [Event.toClient, answerRest]
      · simp only [answered, Network.advance, refusals_append, hrefusals, List.append_nil]
    · refine h.of [] rfl ?_ ?_
      · have hup : s.net.pool.up.filterMap (upFrame c m) = up.filterMap (upFrame c m) :=
          filterMap_recv_none hrecv (if_neg hcm)
        simp only [arriving, Network.advance, List.filterMap_append, hup, List.append_nil]
        rcases Network.toClient_backend s.net.pool.broker w e.clientId e.msgid d true with hout | hout
        · rw [hout, List.filterMap_nil, List.append_nil]
        · simp [hout, answerRest, hcm]
      · simp only [answered, Network.advance, refusals_append, hrefusals, List.append_nil]

theorem frontend_flow (h : s.Flow c m) (hp : s.net.Paired) {d n : Frame} {q : RequestMessage} {tm : ℚ}
    {clientUp : Links Frame (Frame × RequestMessage)} {r : Pool × List Event}
    (hrecv : recv d s.net.clientUp = some ((n, q), clientUp))
    (hr : s.net.pool.perform maxqueue timeout (.frontend d n q tm true) = some r) :
    Flow ⟨({ s.net with clientUp }).advance r, s.log ++ r.2⟩ c m := by
  obtain rfl := Pool.perform_frontend hr
  simp only [Broker.onFrontend]
  split
  · by_cases hcm : d = c ∧ n = m
    · obtain ⟨rfl, rfl⟩ := hcm
      obtain ⟨hwritten, hup⟩ := hp.written_nil fun y hy => hp.not_taken (recv_mem hrecv) hy
      refine h.of [[err, busy]] rfl ?_ ?_
      · simp [arriving, Network.advance, hup, Event.toClient, answerRest]
      · simp [answered, Network.advance, hwritten, refusals, Event.rejected, Envelope.key]
    · refine h.of [] rfl ?_ ?_
      · simp [arriving, Network.advance, Event.toClient, answerRest, hcm]
      · simp [answered, Network.advance, refusals, Event.rejected, Envelope.key, hcm]
  · refine h.of [] rfl ?_ ?_
    · simp [arriving, Network.advance, Event.toClient]
    · simp [answered, Network.advance, refusals, Event.rejected]

theorem dispatch_refusals {timeout now : ℚ} {env : Sends} {b d : Broker} {log : List Event}
    (h : Broker.Dispatches timeout now env b log d) : log.filterMap Event.rejected = [] := by
  induction h with
  | done b => rfl
  | drop hb ht h ih | fail hb hw hf h ih | send hb hw hd ht h ih =>
    simpa [List.filterMap_cons, Event.rejected] using ih

theorem pool_flow (h : s.Flow c m) (hp : s.net.Paired) (hc : c ≠ workerReady) {a : Act}
    (ha : s.undisturbed c m (.pool a) = true) (hclient : a.fromClient = false) {r : Pool × List Event}
    (hr : s.net.pool.perform maxqueue timeout a = some r) : Flow ⟨s.net.advance r, s.log ++ r.2⟩ c m := by
  have hlossless : a.lossless = true := undisturbed_lossless ha
  cases a with
  | backend w ok =>
    obtain rfl : ok = true := by simpa [undisturbed, NetAct.lossless, Act.lossless] using ha
    exact backend_flow h hp hc hr
  | frontend d n q tm ok => cases hclient
  | dispatch now env =>
    obtain ⟨b, log, hd, rfl⟩ := Pool.perform_dispatch hr
    refine advance_flow h (Network.toClient_dispatch hd) ?_ ⟨[], by simp, by simp⟩
    simp [refusals, dispatch_refusals hd]
  | work w a =>
    obtain ⟨hwork, hout⟩ := Pool.perform_work hr
    refine advance_flow h (by rw [hout]; rfl) (by rw [hout]; rfl) (Pool.work_appends hwork c m)
  | crash w => cases hlossless
  | loseUp i => cases hlossless
  | loseDown i => cases hlossless

theorem step_flow (h : s.Flow c m) (hp : s.net.Paired) (hc : c ≠ workerReady) {a : NetAct}
    (ha : s.undisturbed c m a = true) (hs : step maxqueue timeout s a = some t) : t.Flow c m := by
  obtain ⟨net, hnet, rfl⟩ := Option.map_eq_some_iff.mp hs
  obtain ⟨msgs, harrived, heq⟩ := h
  have hquiet : net.clientDown = s.net.clientDown → net.pool = s.net.pool →
      msgs ++ arriving ⟨net, s.log ++ []⟩ c m = answered ⟨net, s.log ++ []⟩ c m := by
    intro hdown hpool
    simp only [arriving, answered, hdown, hpool, List.append_nil]
    exact heq
  cases a with
  | fetch d n r =>
    simp only [Network.step] at hnet
    split at hnet
    · cases hnet
    · obtain rfl := Option.some.inj hnet
      exact ⟨msgs, harrived, hquiet rfl rfl⟩
  | register d n =>
    simp only [Network.step] at hnet
    split at hnet
    · rename_i hnone
      obtain rfl := Option.some.inj hnet
      refine ⟨msgs, ?_, hquiet rfl rfl⟩
      by_cases hd : d = c
      · subst hd
        rw [Network.setClient_self]
        by_cases hn : n = m
        · subst hn
          exact harrived.register hnone
        · exact harrived.congr (AsyncClient.view_register_ne hn _)
      · rw [Network.setClient_ne s.net _ (Ne.symm hd)]
        exact harrived
    · cases hnet
  | poll d =>
    simp only [Network.step] at hnet
    split at hnet
    · rename_i msg clientDown hr
      obtain rfl := Option.some.inj hnet
      have hreg : d = c → msg.head? = some m → (s.net.client c).responses m ≠ none := by
        rintro rfl hhead
        simpa [undisturbed, NetAct.lossless, hr, hhead, Option.isSome_iff_ne_none] using ha
      have hpolled := poll_flow ⟨msgs, harrived, heq⟩ hr hreg
      rw [← List.append_nil s.log] at hpolled
      exact hpolled
    · cases hnet
  | client d b =>
    obtain rfl := Option.some.inj hnet
    refine ⟨msgs, ?_, hquiet rfl rfl⟩
    by_cases hd : d = c
    · subst hd
      rw [Network.setClient_self]
      exact harrived.congr (AsyncClient.view_act (by simpa [undisturbed, NetAct.lossless] using ha) _)
    · rw [Network.setClient_ne s.net _ (Ne.symm hd)]
      exact harrived
  | frontend d tm ok =>
    obtain rfl : ok = true := by simpa [undisturbed, NetAct.lossless] using ha
    simp only [Network.step] at hnet
    split at hnet
    · rename_i n r clientUp hr
      obtain ⟨p, hperform, rfl⟩ := Option.map_eq_some_iff.mp hnet
      have hevents : events maxqueue timeout s.net (.frontend d tm true) = p.2 := by
        simp [events, hr, hperform]
      rw [hevents]
      exact frontend_flow ⟨msgs, harrived, heq⟩ hp hr hperform
    · cases hnet
  | pool a =>
    simp only [Network.step] at hnet
    split at hnet
    · cases hnet
    · rename_i hclient
      obtain ⟨p, hperform, rfl⟩ := Option.map_eq_some_iff.mp hnet
      have hevents : events maxqueue timeout s.net (.pool a) = p.2 := by
        simp [events, hperform]
      rw [hevents]
      exact pool_flow ⟨msgs, harrived, heq⟩ hp hc ha (by simpa using hclient) hperform
  | loseClientUp i => cases ha
  | loseClientDown i => cases ha

theorem step_accounted {a : NetAct} (h : s.net.pool.Accounted) (ha : a.lossless = true)
    (hs : step maxqueue timeout s a = some t) : t.net.pool.Accounted := by
  obtain ⟨net, hnet, rfl⟩ := Option.map_eq_some_iff.mp hs
  rcases Network.step_pool ha hnet with hpool | ⟨b, r, hb, hperform, hpool⟩
  · rw [hpool]
    exact h
  · rw [hpool]
    exact Pool.perform_accounted h hb hperform

structure Arrives (s : Logged) (c m : Frame) : Prop where
  paired : s.net.Paired
  accounted : s.net.pool.Accounted
  flow : s.Flow c m

theorem init_arrives : init.Arrives c m where
  paired := Network.init_paired
  accounted := by simp [Pool.Accounted, init, Network.init, Pool.init]
  flow := ⟨[], .inr ⟨rfl, rfl⟩, by simp [arriving, answered, refusals, init, Network.init, Pool.init]⟩

theorem reach_arrives (hc : c ≠ workerReady)
    (hs : Transition.Reach (step maxqueue timeout) (fun s a => s.undisturbed c m a = true) init s) : s.Arrives c m := by
  refine hs.invariant (I := fun s => s.Arrives c m) init_arrives fun s a t h ha hstep => ?_
  obtain ⟨net, hnet, rfl⟩ := Option.map_eq_some_iff.mp hstep
  exact ⟨Network.step_paired h.paired hnet, step_accounted h.accounted (undisturbed_lossless ha) hstep,
    step_flow h.flow h.paired hc ha hstep⟩

theorem refusals_nil {log : List Event} (h : (c, m) ∉ (log.filterMap Event.rejected).map Envelope.key) :
    refusals c m log = [] := by
  have hfilter : ((log.filterMap Event.rejected).map Envelope.key).filter (· = (c, m)) = [] := by
    rw [List.filter_eq_nil_iff]
    intro k hk hkey
    rw [decide_eq_true_eq] at hkey
    exact h (hkey ▸ hk)
  rw [refusals, hfilter, List.map_nil]

theorem refusals_singleton {log : List Event} (h : (c, m) ∈ (log.filterMap Event.rejected).map Envelope.key)
    (hnodup : ((log.filterMap Event.rejected).map Envelope.key).Nodup) : refusals c m log = [[err, busy]] := by
  rw [refusals, List.filter_eq, List.count_eq_one_of_mem hnodup h]
  rfl

theorem Arrives.view (h : s.Arrives c m) (hquiet : s.arriving c m = []) (hreg : (s.net.client c).responses m ≠ none) :
    (s.net.client c).view m = AsyncClient.reading (s.answered c m) := by
  obtain ⟨msgs, harrived, heq⟩ := h.flow
  rw [hquiet, List.append_nil] at heq
  rw [← heq]
  exact harrived.resolve_right fun hnone => hreg hnone.1

theorem view_of_fate (hc : c ≠ workerReady)
    (hs : Transition.Reach (step maxqueue timeout) (fun s a => s.undisturbed c m a = true) init s) {r : RequestMessage}
    (hf : (c, m, r) ∈ s.net.fetched) (hquiet : s.arriving c m = []) (hreg : (s.net.client c).responses m ≠ none) :
    (∀ w, s.Has (c, m) (.finished w) → (s.net.client c).view m =
      AsyncClient.reading ((s.net.pool.produced (Network.requested (c, m, r))).map ([·]))) ∧
    (s.Has (c, m) .refused → (s.net.client c).view m = AsyncClient.reading [[err, busy]]) ∧
    (s.Has (c, m) .expired → (s.net.client c).view m = AsyncClient.reading []) := by
  have h := reach_arrives hc hs
  have hlossless : ∀ (s : Logged) (a : NetAct), s.undisturbed c m a = true → false = true ∨ a.lossless = true :=
    fun _ _ ha => .inr (undisturbed_lossless ha)
  obtain ⟨b, hmoves, hsim⟩ := reach_simulated hlossless init_simulated hs
  have hunique {f g : Fate} (hf : s.Has (c, m) f) (hg : s.Has (c, m) g) : f = g :=
    Option.some.inj (((has_iff hmoves hsim.represents).mp hf).symm.trans ((has_iff hmoves hsim.represents).mp hg))
  have hrefusals {f : Fate} (hfate : s.Has (c, m) f) (hne : f ≠ .refused) : refusals c m s.log = [] :=
    refusals_nil fun hmem => hne (hunique hfate ⟨_, rfl, hmem⟩)
  have hwritten {f : Fate} (hfate : s.Has (c, m) f) (hhandled : ∀ w, f ≠ .handled w)
      (hfinished : ∀ w, f ≠ .finished w) : s.net.pool.written.filterMap (wroteFrame c m) = [] := by
    refine (h.paired.written_nil fun y hy hkey => ?_).1
    rcases h.accounted y hy with hcurrent | hmem
    · exact hhandled y.1 (hunique hfate ⟨_, rfl, List.mem_map.mpr ⟨y.2, hcurrent, hkey⟩⟩)
    · exact hfinished y.1 (hunique hfate ⟨_, rfl, List.mem_map.mpr ⟨y.2, mem_queue.mpr hmem, hkey⟩⟩)
  have hview := h.view hquiet hreg
  rw [answered] at hview
  refine ⟨fun w hfate => ?_, fun hfate => ?_, fun hfate => ?_⟩
  · rw [hview, hrefusals hfate (by rintro ⟨⟩), h.paired.produced hf, List.nil_append]
  · obtain ⟨tokens, htokens, hmem⟩ := hfate
    obtain rfl := Option.some.inj htokens
    have hnodup := (hsim.represents.place .refused _ rfl).nodup
    have hfate : s.Has (c, m) .refused := ⟨_, rfl, hmem⟩
    rw [hview, refusals_singleton hmem hnodup, hwritten hfate (by rintro w ⟨⟩) (by rintro w ⟨⟩)]
    rfl
  · rw [hview, hrefusals hfate (by rintro ⟨⟩), hwritten hfate (by rintro w ⟨⟩) (by rintro w ⟨⟩)]
    rfl

end flow

end Logged

end Zmq
