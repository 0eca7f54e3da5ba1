import PyQgisServer.Handlers.Truncation
import PyQgisServer.Zmq.Arrival

namespace Handlers

open Zmq

section reading

variable (t : Tornado) (cors : Dict) (p : Prelude) (method : String) (req : HttpRequest)

def answerTo (h : AsyncResponseHandler) : Option Received :=
  (fetchResult h).map fun result => t.serve ((handleRequest p method req result).calls cors)

theorem answerTo_untaken (h : AsyncResponseHandler) :
    answerTo t cors p method req h.untaken = answerTo t cors p method req h := by
  rw [answerTo, answerTo, fetchResult, fetchResult]
  cases hf : h.future with
  | _ => simp only [AsyncResponseHandler.untaken, hf] <;> rfl

theorem view_receive (k : AsyncClient) (m : Frame) (frames : List Frame) :
    (k.receive m frames).view m = AsyncClient.reading (frames.map ([·])) := by
  have hfold (l : AsyncClient) : (frames.foldl (fun l f => l.poll [m, f]) l).view m =
      (frames.map ([·])).foldl AsyncClient.View.read (l.view m) := by
    induction frames generalizing l with
    | nil => rfl
    | cons f frames ih => rw [List.foldl_cons, ih, AsyncClient.view_poll, List.map_cons, List.foldl_cons]
  rw [AsyncClient.receive, hfold, AsyncClient.view_register, AsyncClient.reading]

theorem outcome_of_view {k l : AsyncClient} {m : Frame} {frames : List Frame} {h : AsyncResponseHandler}
    (hh : l.responses m = some h) (hview : l.view m = AsyncClient.reading (frames.map ([·]))) :
    answerTo t cors p method req h = outcome t cors p method req k m frames := by
  rw [← view_receive k m frames, AsyncClient.view, AsyncClient.view, hh, Prod.mk.injEq] at hview
  obtain ⟨g, hg, hgh⟩ := Option.map_eq_some_iff.mp hview.1.symm
  have houtcome : outcome t cors p method req k m frames = answerTo t cors p method req g := by
    rw [outcome, hg]
    rfl
  rw [houtcome, ← answerTo_untaken, ← hgh, answerTo_untaken]

theorem future_of_view {l : AsyncClient} {m : Frame} {g h : AsyncResponseHandler} {b : Bool}
    (hh : l.responses m = some h) (hview : l.view m = (some g, b)) : h.future = g.future := by
  rw [AsyncClient.view, hh, Option.map_some, Prod.mk.injEq, Option.some.injEq] at hview
  rw [← hview.1]
  rfl

end reading

variable {maxqueue timeout : ℤ} {c m : Frame} {s : Logged} {r : RequestMessage} {h : AsyncResponseHandler}

theorem network_is_transparent (t : Tornado) (cors : Dict) (p : Prelude) (method : String) (req : HttpRequest)
    (hc : c ≠ workerReady)
    (hs : Transition.Reach (Logged.step maxqueue timeout) (fun s a => s.undisturbed c m a = true) .init s)
    (hf : (c, m, r) ∈ s.net.fetched) (hquiet : s.arriving c m = []) (hh : (s.net.client c).responses m = some h) :
    (∀ w, s.Has (c, m) (.finished w) → answerTo t cors p method req h =
      outcome t cors p method req .init m (s.net.pool.produced (Network.requested (c, m, r)))) ∧
    (s.Has (c, m) .refused → fetchResult h = some (.error (.proxy busy))) ∧
    (s.Has (c, m) .expired → fetchResult h = none) := by
  obtain ⟨hfinished, hrefused, hexpired⟩ := Logged.view_of_fate hc hs hf hquiet (by rw [hh]; rintro ⟨⟩)
  refine ⟨fun w hw => outcome_of_view t cors p method req hh (hfinished w hw), fun hfate => ?_, fun hfate => ?_⟩
  · have hfuture : h.future = .exception (.proxy busy) := future_of_view hh (hrefused hfate)
    rw [fetchResult, hfuture]
  · have hfuture : h.future = .pending := future_of_view hh (hexpired hfate)
    rw [fetchResult, hfuture]

def answeredWhole : List NetAct := Network.streamed ++ [.pool (.work Pool.worker1 .done)]

theorem network_is_transparent_streamed : ∃ (s : Logged) (h : AsyncResponseHandler),
    (s.net.client Pool.client1).responses (.bytes [1]) = some h ∧
      answerTo plainTornado [] getMapPrelude "GET" getMapRequest h =
        outcome plainTornado [] getMapPrelude "GET" getMapRequest .init (.bytes [1])
          (s.net.pool.produced (Network.requested (Pool.client1, .bytes [1], Pool.getMap none))) := by
  have hm : Transition.Meets (Logged.step 100 3000)
      (fun s a => s.undisturbed Pool.client1 (.bytes [1]) a = true) .init answeredWhole :=
    Transition.Meets.of_meets (by decide +kernel)
  obtain ⟨s, hs, hp⟩ := Transition.Reach.exists_of_run
    (fun s : Logged => decide ((Pool.client1, Frame.bytes [1], Pool.getMap none) ∈ s.net.fetched) &&
      decide (s.arriving Pool.client1 (.bytes [1]) = []) &&
      ((s.net.client Pool.client1).responses (.bytes [1])).isSome &&
      decide ((Pool.worker1, Network.requested (Pool.client1, .bytes [1], Pool.getMap none)) ∈ s.net.pool.finished))
    hm (by decide +kernel)
  simp only [Bool.and_eq_true, decide_eq_true_eq, Option.isSome_iff_exists] at hp
  obtain ⟨⟨⟨hf, hquiet⟩, h, hh⟩, hfinished⟩ := hp
  have hfate : s.Has (Pool.client1, .bytes [1]) (.finished Pool.worker1) :=
    ⟨_, rfl, List.mem_map.mpr ⟨_, Links.mem_queue.mpr hfinished, rfl⟩⟩
  exact ⟨s, h, hh, (network_is_transparent plainTornado [] getMapPrelude "GET" getMapRequest (by decide) hs hf hquiet
    hh).1 Pool.worker1 hfate⟩

end Handlers
