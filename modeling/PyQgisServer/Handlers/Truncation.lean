import PyQgisServer.Handlers.Tornado
import PyQgisServer.Zmq.Fetch

namespace Handlers

open Zmq

theorem fetchMore_delivered (cs : List Chunk) :
    fetchMore (delivered cs) = ((cs.takeWhile Chunk.hasMore).map Chunk.data, cs.all Chunk.hasMore) := by
  induction cs with
  | nil => rfl
  | cons c cs ih =>
    rw [delivered, fetchMore]
    cases hc : c.hasMore with
    | false => simp [hc]
    | true => simp [hc, ih]

def outcome (t : Tornado) (cors : Dict) (p : Prelude) (method : String) (req : HttpRequest)
    (k : AsyncClient) (m : Frame) (frames : List Frame) : Option Received :=
  (((k.receive m frames).responses m).bind fetchResult).map fun result =>
    t.serve ((handleRequest p method req result).calls cors)

def everything (data : Bytes) (cs : List Chunk) : Option Bytes :=
  if cs.all Chunk.hasMore then none else some (data ++ ((cs.takeWhile Chunk.hasMore).map Chunk.data).flatten)

def NeverTruncated (r : Received) (data : Bytes) (cs : List Chunk) : Prop :=
  r.complete = true → some r.body = everything data cs

section stream

variable {t : Tornado} {reply : ReplyMessage} {cors : Dict} {cs : List Chunk}

theorem streamed_calls_sent (ht : t.Documented)
    (hfits : t.fits (reply.headers ++ cors)
      (reply.data ++ ((cs.takeWhile Chunk.hasMore).map Chunk.data).flatten) = true) :
    t.serve (replyCalls (reply.headers ++ cors) 200 reply.data ++
        moreCalls ((cs.takeWhile Chunk.hasMore).map Chunk.data)) =
      ⟨200, reply.headers ++ cors, reply.data ++ ((cs.takeWhile Chunk.hasMore).map Chunk.data).flatten, true⟩ := by
  have hmore : ∀ chunks, moreCalls chunks = [] ∨ ∃ more, moreCalls chunks = .flush :: more :=
    fun chunks => .inr ⟨_, rfl⟩
  have hstatus := sentStatus_replyCalls (reply.headers ++ cors) 200 reply.data
    (hmore ((cs.takeWhile Chunk.hasMore).map Chunk.data))
  have hheaders := sentHeaders_replyCalls (reply.headers ++ cors) 200 reply.data
    (hmore ((cs.takeWhile Chunk.hasMore).map Chunk.data))
  have hbody := sentBody_replyCalls (reply.headers ++ cors) 200 reply.data
    (moreCalls ((cs.takeWhile Chunk.hasMore).map Chunk.data))
  rw [sentBody_moreCalls] at hbody
  have hsent := ht.sends (replyCalls (reply.headers ++ cors) 200 reply.data ++
    moreCalls ((cs.takeWhile Chunk.hasMore).map Chunk.data)) ?_ ?_ ?_
  · rw [hsent, hstatus, hheaders, hbody]
  · rw [List.any_append, replyCalls_noError, moreCalls_noError]
    rfl
  · rw [hheaders, hbody]
    exact hfits
  · rw [hstatus]
    rfl

theorem stream_outcome (ht : t.Documented) (hstatus : reply.status = 206)
    (hfits : t.fits (reply.headers ++ cors)
      (reply.data ++ ((cs.takeWhile Chunk.hasMore).map Chunk.data).flatten) = true)
    (p : Prelude) (method : String) (req : HttpRequest) (k : AsyncClient) (m : Frame) :
    outcome t cors p method req k m (.pickle (.reply reply) :: cs.map Chunk.frame) =
      some ⟨200, reply.headers ++ cors,
        reply.data ++ ((cs.takeWhile Chunk.hasMore).map Chunk.data).flatten, true⟩ := by
  rw [outcome, (AsyncClient.receive_stream hstatus k m cs).1]
  simp only [fetchResult, Option.bind_some, Option.map_some, handleRequest]
  rw [calls_respond_stream _ _ _ rfl, fetchMore_delivered, Option.getD_some]
  have hsent := streamed_calls_sent ht hfits
  cases cs.all Chunk.hasMore with
  | false =>
    rw [if_neg Bool.false_ne_true, List.append_nil]
    exact congrArg some hsent
  | true =>
    rw [if_pos rfl, ht.endsLate, hsent]
    · rw [List.any_append, replyCalls_noError, moreCalls_noError]
      rfl
    · exact List.mem_append_right _ List.mem_cons_self

theorem never_truncated_iff (ht : t.Documented) (hstatus : reply.status = 206)
    (hfits : t.fits (reply.headers ++ cors)
      (reply.data ++ ((cs.takeWhile Chunk.hasMore).map Chunk.data).flatten) = true)
    (p : Prelude) (method : String) (req : HttpRequest) (k : AsyncClient) (m : Frame) :
    (∀ r, outcome t cors p method req k m (.pickle (.reply reply) :: cs.map Chunk.frame) = some r →
      NeverTruncated r reply.data cs) ↔ ∃ c ∈ cs, c.hasMore = false := by
  have hend : cs.all Chunk.hasMore = false ↔ ∃ c ∈ cs, c.hasMore = false := by simp
  rw [stream_outcome ht hstatus hfits, ← hend]
  constructor
  · intro h
    have heverything := h _ rfl rfl
    rw [everything] at heverything
    split at heverything
    · cases heverything
    · rename_i hall
      simpa using hall
  · intro h r hr _
    obtain rfl := Option.some.inj hr
    rw [everything, if_neg (by simp [h])]

end stream

def streamReply : ReplyMessage := ⟨206, [], [1], none⟩

theorem ended_stream_is_complete :
    (∀ r, outcome plainTornado [] getMapPrelude "GET" getMapRequest .init (.bytes [1])
        [.pickle (.reply streamReply), Chunk.frame ⟨[2], true, none⟩, Chunk.frame ⟨[], false, none⟩] = some r →
      NeverTruncated r [1] [⟨[2], true, none⟩, ⟨[], false, none⟩]) ↔
      ∃ c ∈ ([⟨[2], true, none⟩, ⟨[], false, none⟩] : List Chunk), c.hasMore = false :=
  @never_truncated_iff plainTornado streamReply [] [⟨[2], true, none⟩, ⟨[], false, none⟩]
    plainTornado_documented rfl (by decide) getMapPrelude "GET" getMapRequest .init (.bytes [1])

theorem truncated_stream_looks_complete :
    ∃ r, outcome plainTornado [] getMapPrelude "GET" getMapRequest .init (.bytes [1])
        [.pickle (.reply streamReply), Chunk.frame ⟨[2], true, none⟩] = some r ∧
      r.status = 200 ∧ ¬ NeverTruncated r [1] [⟨[2], true, none⟩] := by
  have hout := @stream_outcome plainTornado streamReply [] [⟨[2], true, none⟩]
    plainTornado_documented rfl (by decide) getMapPrelude "GET" getMapRequest .init (.bytes [1])
  refine ⟨_, hout, rfl, fun h => ?_⟩
  exact absurd (h rfl) (by decide)

end Handlers
