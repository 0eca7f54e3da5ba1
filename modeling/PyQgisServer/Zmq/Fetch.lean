import PyQgisServer.Zmq.Client

namespace Zmq

structure Chunk where
  data : Bytes
  hasMore : Bool
  metadata : Option Dict
  deriving DecidableEq

def Chunk.frame (c : Chunk) : Frame := .pickle (.chunk c.data c.hasMore c.metadata)

def AsyncClient.receive (k : AsyncClient) (m : Frame) (frames : List Frame) : AsyncClient :=
  frames.foldl (fun k f => k.poll [m, f]) (k.register m)

def delivered : List Chunk → List (Bytes × Bool)
  | [] => []
  | c :: cs => (c.data, c.hasMore) :: if c.hasMore then delivered cs else []

namespace AsyncClient

theorem poll_popped {k : AsyncClient} {m : Frame} (h : k.handlers m = false) (f : Frame) : k.poll [m, f] = k := by
  simp [poll, h]

theorem polls_popped {k : AsyncClient} {m : Frame} (h : k.handlers m = false) (frames : List Frame) :
    frames.foldl (fun k f => k.poll [m, f]) k = k := by
  induction frames with
  | nil => rfl
  | cons f frames ih => rw [List.foldl_cons, poll_popped h, ih]

theorem poll_set {k : AsyncClient} {m : Frame} {a b : AsyncResponseHandler} (f : Frame)
    (hm : k.handlers m = true) (ha : k.responses m = some a) (hb : a.setResult f = ⟨b, false⟩) :
    ((k.poll [m, f]).responses m = some b) ∧ (k.poll [m, f]).handlers m = !b.done := by
  simp only [poll, hm, ha, AsyncResponseHandler.take, hb, Bool.not_false, Bool.true_and]
  cases hdone : b.done with
  | true => simp [setResponse, pop]
  | false => simp [setResponse, hm]

structure Streams (k : AsyncClient) (m : Frame) (a : AsyncResponseHandler) : Prop where
  handlers : k.handlers m = true
  responses : k.responses m = some a
  hasMore : a.hasMore = true
  status : a.status ≠ -1
  future : a.future = .result

theorem poll_chunk {k : AsyncClient} {m : Frame} {a : AsyncResponseHandler} (h : k.Streams m a) (c : Chunk) :
    (k.poll [m, c.frame]).responses m =
        some { a with hasMore := c.hasMore, chunks := a.chunks ++ [(c.data, c.hasMore)] } ∧
      (k.poll [m, c.frame]).handlers m = c.hasMore := by
  have hset : a.setResult c.frame =
      ⟨{ a with hasMore := c.hasMore, chunks := a.chunks ++ [(c.data, c.hasMore)] }, false⟩ := by
    simp [AsyncResponseHandler.setResult, h.status, h.hasMore, Chunk.frame, Frame.loads]
  obtain ⟨hresponses, hhandlers⟩ := poll_set c.frame h.handlers h.responses hset
  refine ⟨hresponses, hhandlers.trans ?_⟩
  simp [AsyncResponseHandler.done, h.future]

theorem polls_chunks {k : AsyncClient} {m : Frame} {a : AsyncResponseHandler} (h : k.Streams m a)
    (cs : List Chunk) :
    ((cs.map Chunk.frame).foldl (fun k f => k.poll [m, f]) k).responses m =
        some { a with hasMore := cs.all Chunk.hasMore, chunks := a.chunks ++ delivered cs } ∧
      ((cs.map Chunk.frame).foldl (fun k f => k.poll [m, f]) k).handlers m = cs.all Chunk.hasMore := by
  induction cs generalizing k a with
  | nil =>
    refine ⟨?_, h.handlers⟩
    simp only [List.map_nil, List.foldl_nil, h.responses, List.all_nil, delivered, List.append_nil, ← h.hasMore]
  | cons c cs ih =>
    obtain ⟨hresponses, hhandlers⟩ := poll_chunk h c
    rw [List.map_cons, List.foldl_cons]
    cases hc : c.hasMore with
    | false =>
      rw [hc] at hhandlers
      rw [polls_popped hhandlers, hresponses]
      simp [delivered, hc, hhandlers]
    | true =>
      rw [hc] at hresponses hhandlers
      have hstreams := ih (k := k.poll [m, c.frame]) ⟨hhandlers, hresponses, rfl, h.status, h.future⟩
      rw [hstreams.1, hstreams.2]
      simp [delivered, hc]

theorem poll_reply (k : AsyncClient) (m : Frame) (r : ReplyMessage) :
    ((k.register m).poll [m, .pickle (.reply r)]).responses m =
        some ⟨r.headers, .result, [], 0, decide (r.status = 206), some r.data, r.metadata, r.status⟩ ∧
      ((k.register m).poll [m, .pickle (.reply r)]).handlers m = decide (r.status = 206) := by
  have hset : AsyncResponseHandler.new.setResult (.pickle (.reply r)) =
      ⟨⟨r.headers, .result, [], 0, decide (r.status = 206), some r.data, r.metadata, r.status⟩, false⟩ := by
    by_cases hr : r.status = 206
    · simp [AsyncResponseHandler.setResult, AsyncResponseHandler.new, Frame.loads, hr,
        AsyncResponseHandler.resolve]
    · simp [AsyncResponseHandler.setResult, AsyncResponseHandler.new, Frame.loads, hr,
        AsyncResponseHandler.resolve]
  obtain ⟨hresponses, hhandlers⟩ := poll_set (k := k.register m) (m := m) (a := .new) (.pickle (.reply r))
    (by simp [register]) (by simp [register, setResponse]) hset
  refine ⟨hresponses, hhandlers.trans ?_⟩
  simp [AsyncResponseHandler.done]

theorem receive_single {r : ReplyMessage} (h : r.status ≠ 206) (k : AsyncClient) (m : Frame)
    (frames : List Frame) :
    (k.receive m (.pickle (.reply r) :: frames)).responses m =
        some ⟨r.headers, .result, [], 0, false, some r.data, r.metadata, r.status⟩ ∧
      (k.receive m (.pickle (.reply r) :: frames)).handlers m = false := by
  obtain ⟨hresponses, hhandlers⟩ := poll_reply k m r
  rw [decide_eq_false h] at hresponses hhandlers
  rw [receive, List.foldl_cons, polls_popped hhandlers]
  exact ⟨hresponses, hhandlers⟩

theorem receive_stream {r : ReplyMessage} (h : r.status = 206) (k : AsyncClient) (m : Frame) (cs : List Chunk) :
    (k.receive m (.pickle (.reply r) :: cs.map Chunk.frame)).responses m =
        some ⟨r.headers, .result, delivered cs, 0, cs.all Chunk.hasMore, some r.data, r.metadata, 206⟩ ∧
      (k.receive m (.pickle (.reply r) :: cs.map Chunk.frame)).handlers m = cs.all Chunk.hasMore := by
  obtain ⟨hresponses, hhandlers⟩ := poll_reply k m r
  rw [decide_eq_true h] at hresponses hhandlers
  have hstreams : ((k.register m).poll [m, .pickle (.reply r)]).Streams m _ :=
    ⟨hhandlers, hresponses, rfl, by simp [h], rfl⟩
  rw [receive, List.foldl_cons, (polls_chunks hstreams cs).1, (polls_chunks hstreams cs).2]
  simp [h]

end AsyncClient

end Zmq
