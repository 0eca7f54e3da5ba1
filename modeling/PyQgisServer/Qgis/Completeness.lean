import PyQgisServer.Qgis.Emission
import PyQgisServer.Qgis.Survival

namespace Qgis

open QgsCache Zmq

def Complete (frames : List Frame) : Prop :=
  (∃ m, frames = [.pickle (.reply m)] ∧ m.status ≠ 206) ∨
    ∃ m, ∃ cs : List Chunk, ∃ c, frames = .pickle (.reply m) :: (cs ++ [c]).map Chunk.frame ∧ m.status = 206 ∧
      (∀ d ∈ cs, d.hasMore = true) ∧ c.hasMore = false

def Unended (frames : List Frame) : Prop :=
  ∃ m, ∃ cs : List Chunk, frames = .pickle (.reply m) :: cs.map Chunk.frame ∧ m.status = 206 ∧
    ∀ c ∈ cs, c.hasMore = true

theorem frame_injective : Function.Injective Chunk.frame := by
  rintro ⟨data, hasMore, metadata⟩ ⟨data', hasMore', metadata'⟩ h
  simpa [Chunk.frame] using h

theorem Unended.not_complete {frames : List Frame} (h : Unended frames) : ¬ Complete frames := by
  obtain ⟨m, cs, rfl, hm, hmore⟩ := h
  rintro (⟨n, hn, hstatus⟩ | ⟨n, ds, c, hn, -, -, hlast⟩)
  · obtain rfl : m = n := by simpa using (List.cons.inj hn).1
    exact hstatus hm
  · have hcs := List.map_injective_iff.mpr frame_injective (List.cons.inj hn).2
    have hc := hmore c (hcs ▸ List.mem_append_right ds List.mem_cons_self)
    rw [hlast] at hc
    cases hc

theorem nil_not_complete : ¬ Complete [] := by
  rintro (⟨m, hm, -⟩ | ⟨m, cs, c, hm, -⟩)
  · cases hm
  · cases hm

theorem Unended.chunk {frames : List Frame} (h : Unended frames) {c : Chunk} (hc : c.hasMore = true) :
    Unended (frames ++ [c.frame]) := by
  obtain ⟨m, cs, rfl, hm, hmore⟩ := h
  refine ⟨m, cs ++ [c], by simp, hm, fun d hd => ?_⟩
  rcases List.mem_append.mp hd with hd | hd
  · exact hmore d hd
  · rw [List.mem_singleton.mp hd]
    exact hc

theorem Unended.ended {frames : List Frame} (h : Unended frames) {c : Chunk} (hc : c.hasMore = false) :
    Complete (frames ++ [c.frame]) := by
  obtain ⟨m, cs, rfl, hm, hmore⟩ := h
  exact .inr ⟨m, cs, c, by simp, hm, hmore, hc⟩

-- how a handler ends; the exceptions of zmq have except clauses of their own
inductive Ending where
  | finish
  | raises (e : CacheError)
  | raisesZmq

section turn

variable {P : Type} (o : Outside) (c : HandlerClass P)

def endTurn (r : Response) : Ending → Response × Loop
  | .finish => answerError o (Server.ended c (r.finish o))
  | .raises e => answerError o ⟨some e, r, c⟩
  | .raisesZmq => (r, .checking)

-- what run_worker makes of a handler that does ops with its response
def turn (r : Response) (ops : List Op) (ending : Ending) : Response × Loop :=
  match r.run o ops with
  | .ok r => endTurn o c r ending
  | .error r => answerError o ⟨some .keyError, r, c⟩

end turn

inductive Fate where
  | leaves
  | whole
  | cut
  deriving DecidableEq

section fate

variable (report : ℕ → Bool)

-- of a stream that is open before flush n
def streamFate : ℕ → Bool → Bool → List Op → Ending → Fate
  | n, _, _, [], .finish => if report n then .whole else .cut
  | _, _, _, [], _ => .cut
  | n, typed, finished, .flush :: ops, ending =>
    if report n then if finished then .whole else streamFate (n + 1) typed false ops ending
    else if typed then streamFate (n + 1) false finished ops ending
    else .cut
  | n, typed, finished, _ :: ops, ending => streamFate n typed finished ops ending

-- of a response with nothing sent; typed says that it has a Content-Type
def fate : Int → Bool → List Op → Ending → Fate
  | _, _, [], .raises _ => .leaves
  | _, _, [], .raisesZmq => .cut
  | status, typed, [], .finish =>
    if report 0 then if status = 206 then .cut else .whole else if typed then .whole else .leaves
  | status, typed, .flush :: ops, ending =>
    if report 0 then if sentAs true status = 206 then streamFate report 1 typed false ops ending else .whole
    else if typed then .whole
    else .leaves
  | _, typed, .setStatusCode code :: ops, ending => fate code typed ops ending
  | status, typed, .setHeader key _ :: ops, ending => fate status (typed || key == "Content-Type") ops ending
  | _, typed, .sendError code _ :: ops, ending =>
    if code = 206 then streamFate report 0 typed true ops ending else .whole
  | status, typed, _ :: ops, ending => fate status typed ops ending

end fate

def Response.typed (r : Response) : Bool := (r.handler.headers.find "Content-Type").isSome

def Settles (h : RequestHandler) (answer : Response × Loop) : Fate → Prop
  | .leaves => answer.2 = .leaving false
  | .whole => answer.2 = .checking ∧ ∃ frames, answer.1.sent = frames.map h.frames ∧ Complete frames
  | .cut => answer.2 = .checking ∧ ∃ frames, answer.1.sent = frames.map h.frames ∧ ¬ Complete frames

section turn

variable {P : Type} {o : Outside} {c : HandlerClass P} {r t : Response} {op : Op} {ops : List Op} {ending : Ending}

theorem turn_ok (h : r.apply o op = .ok t) : turn o c r (op :: ops) ending = turn o c t ops ending := by
  rw [turn, turn, Response.run, h]

theorem turn_error (h : r.apply o op = .error t) :
    turn o c r (op :: ops) ending = answerError o ⟨some .keyError, t, c⟩ := by
  rw [turn, Response.run, h]

theorem answerError_written (h : r.handler.headerWritten = true) (raised : Option CacheError) :
    answerError o ⟨raised, r, c⟩ = (r, .checking) := by
  cases raised with
  | none => rfl
  | some e => rw [answerError, if_pos h]

theorem answerError_fresh (h : r.handler.headerWritten = false) (e : CacheError) :
    (answerError o ⟨some e, r, c⟩).2 = .leaving false := by
  simp only [answerError, h, Bool.false_eq_true, if_false]
  split <;> rfl

theorem answerError_reaches {x : Except Response Response} (hx : Response.Reaches o x r)
    (h : r.handler.headerWritten = true) : answerError o (Server.ended c x) = (r, .checking) := by
  rcases hx with rfl | ⟨rfl, -⟩
  · exact answerError_written h none
  · exact answerError_written h _

section settles

variable {h : RequestHandler} {frames : List Frame}

theorem settles_whole (hsent : r.sent = frames.map h.frames) (hcomplete : Complete frames) (hemits : r.Emits t []) :
    Settles h (t, .checking) .whole := by
  refine ⟨rfl, frames, ?_, hcomplete⟩
  have hsame := hemits.sent
  rw [List.map_nil, List.append_nil] at hsame
  exact hsame.trans hsent

theorem endTurn_closed (hclosed : r.Closed) (hsent : r.sent = frames.map h.frames) (hcomplete : Complete frames) :
    Settles h (endTurn o c r ending) .whole := by
  cases ending with
  | finish =>
    obtain ⟨t, ht, htclosed, hemits⟩ : ∃ t, Response.Reaches o (r.finish o) t ∧ t.Closed ∧ r.Emits t [] :=
      Response.apply_closed hclosed (.inr (rfl : Op.finish = .finish))
    rw [endTurn, answerError_reaches ht htclosed.headerWritten]
    exact settles_whole hsent hcomplete hemits
  | raises e =>
    rw [endTurn, answerError_written hclosed.headerWritten]
    exact settles_whole hsent hcomplete (.refl r)
  | raisesZmq => exact settles_whole hsent hcomplete (.refl r)

theorem turn_closed (hclosed : r.Closed) (hops : ∀ op ∈ ops, op.replies = true)
    (hsent : r.sent = frames.map h.frames) (hcomplete : Complete frames) :
    Settles h (turn o c r ops ending) .whole := by
  obtain ⟨t, ht, htclosed, hemits⟩ := Response.run_closed (o := o) hclosed fun op hop => .inl (hops op hop)
  rcases ht with ht | ⟨ht, -⟩
  · simp only [turn, ht]
    refine endTurn_closed htclosed ?_ hcomplete
    simpa [hsent] using hemits.sent
  · simp only [turn, ht]
    rw [answerError_written htclosed.headerWritten]
    exact settles_whole hsent hcomplete hemits

structure Unfinished (h : RequestHandler) (r : Response) (frames : List Frame) : Prop where
  streaming : r.Streaming
  sent : r.sent = frames.map h.frames
  origin : r.handler.frames = h.frames
  unended : Unended frames

theorem Unfinished.settles_cut (hr : Unfinished h r frames) : Settles h (r, .checking) .cut :=
  ⟨rfl, frames, hr.sent, hr.unended.not_complete⟩

theorem Unfinished.of_eq (hr : Unfinished h r frames) (hhandler : t.handler.headerWritten = r.handler.headerWritten)
    (hstatus : t.handler.statusCode = r.handler.statusCode) (hframes : t.handler.frames = r.handler.frames)
    (hsent : t.sent = r.sent) : Unfinished h t frames :=
  ⟨⟨hhandler.trans hr.streaming.headerWritten, hstatus.trans hr.streaming.statusCode⟩, hsent.trans hr.sent,
    hframes.trans hr.origin, hr.unended⟩

theorem Unfinished.flush (hw : ∀ n, o.write n = true) (hr : Unfinished h r frames) {metadata : Option Dict}
    (hm : o.report r.reports = some metadata) :
    ∃ t, r.flush o = .ok t ∧ t.reports = r.reports + 1 ∧
      (r.finished = false → t.finished = false ∧ t.handler.headers = r.handler.headers ∧
        ∃ gs, Unfinished h t gs) ∧
      (r.finished = true → t.Closed ∧ ∃ gs, t.sent = gs.map h.frames ∧ Complete gs) := by
  obtain ⟨t, ht, hflushed⟩ := Response.flush_streaming hm hw hr.streaming
  have hsent : ∀ gs, r.sent ++ gs.map r.handler.frames = (frames ++ gs).map h.frames := by
    intro gs
    rw [hr.sent, hr.origin, List.map_append]
  refine ⟨t, ht, hflushed.reports, fun hf => ?_, fun hf => ?_⟩
  · rw [hf] at hflushed
    refine ⟨hflushed.finished.trans hf, ?_, frames ++ [Chunk.frame ⟨r.buffer, true, metadata⟩],
      ⟨?_, ?_⟩, hflushed.sent.trans (hsent _), hflushed.emits.frames.trans hr.origin, hr.unended.chunk rfl⟩
    · rw [hflushed.handler]
      simp [Response.flushedHeaders, hf]
    · rw [hflushed.handler]
    · rw [hflushed.handler]
      rfl
  · rw [hf] at hflushed
    refine ⟨⟨?_, ?_⟩, _, hflushed.sent.trans (hsent _), ?_⟩
    · rw [hflushed.handler]
    · rw [hflushed.handler]
      exact (by decide : (200 : Int) ≠ 206)
    · have hended :=
        (hr.unended.chunk (c := ⟨r.buffer, true, metadata⟩) rfl).ended (c := ⟨[], false, metadata⟩) rfl
      rw [List.append_assoc] at hended
      exact hended

theorem Unfinished.flush_raises (hr : Unfinished h r frames) (hm : o.report r.reports = none) :
    (r.typed = true ∧ ∃ t, r.flush o = .ok t ∧ Unfinished h t frames ∧ t.reports = r.reports + 1 ∧
        t.finished = r.finished ∧ t.typed = false) ∨
      r.typed = false ∧ ∃ t, r.flush o = .error t ∧ Unfinished h t frames := by
  cases htype : r.handler.headers.find "Content-Type" with
  | none =>
    refine .inr ⟨?_, _, Response.flush_untyped hm htype, hr.of_eq rfl rfl rfl rfl⟩
    rw [Response.typed, htype]
    rfl
  | some value =>
    have hflush := Response.flush_typed hm htype
    rw [Response.sendError_written_eq (by exact hr.streaming.headerWritten)] at hflush
    refine .inl ⟨?_, _, hflush, hr.of_eq rfl rfl rfl rfl, rfl, rfl, ?_⟩
    · rw [Response.typed, htype]
      rfl
    · exact congrArg Option.isSome (Dict.find_remove r.handler.headers "Content-Type")

theorem endTurn_streaming (hw : ∀ n, o.write n = true) (hr : Unfinished h r frames) (n : ℕ) (typed finished : Bool)
    (hn : r.reports = n) :
    Settles h (endTurn o c r ending) (streamFate (fun n => (o.report n).isSome) n typed finished [] ending) := by
  cases ending with
  | raises e =>
    rw [endTurn, answerError_written hr.streaming.headerWritten]
    exact hr.settles_cut
  | raisesZmq => exact hr.settles_cut
  | finish =>
    have hfinish : Unfinished h { r with finished := true } frames := hr.of_eq rfl rfl rfl rfl
    rw [streamFate, endTurn, Response.finish]
    cases hm : o.report n with
    | some metadata =>
      obtain ⟨t, ht, -, -, hended⟩ := hfinish.flush hw (hn ▸ hm)
      obtain ⟨hclosed, gs, hgs, hcomplete⟩ := hended rfl
      rw [ht, Server.ended, answerError_written hclosed.headerWritten]
      exact ⟨rfl, gs, hgs, hcomplete⟩
    | none =>
      rcases hfinish.flush_raises (hn ▸ hm) with ⟨-, t, ht, hopen, -⟩ | ⟨-, t, ht, hopen⟩
      · rw [ht, Server.ended, answerError_written hopen.streaming.headerWritten]
        exact hopen.settles_cut
      · rw [ht, Server.ended, answerError_written hopen.streaming.headerWritten]
        exact hopen.settles_cut

theorem turn_streaming (hw : ∀ n, o.write n = true) (hr : Unfinished h r frames)
    (hops : ∀ op ∈ ops, op.replies = true) :
    Settles h (turn o c r ops ending)
      (streamFate (fun n => (o.report n).isSome) r.reports r.typed r.finished ops ending) := by
  induction ops generalizing r frames with
  | nil => exact endTurn_streaming hw hr _ _ _ rfl
  | cons op ops ih =>
    have hops' : ∀ op ∈ ops, op.replies = true := fun op hop => hops op (List.mem_cons_of_mem _ hop)
    have hop := hops op List.mem_cons_self
    cases op with
    | write data => exact ih (r := { r with buffer := r.buffer ++ data }) (hr.of_eq rfl rfl rfl rfl) hops'
    | setStatusCode | setHeader | sendError =>
      rw [turn_ok (Response.apply_written hr.streaming.headerWritten rfl)]
      exact ih hr hops'
    | flush =>
      rw [streamFate]
      cases hm : o.report r.reports with
      | some metadata =>
        obtain ⟨t, ht, hreports, hmore, hended⟩ := hr.flush hw hm
        have happly : r.apply o .flush = .ok t := ht
        rw [turn_ok happly]
        cases hf : r.finished with
        | true =>
          obtain ⟨hclosed, gs, hgs, hcomplete⟩ := hended hf
          exact turn_closed hclosed hops' hgs hcomplete
        | false =>
          obtain ⟨hfinished, hheaders, gs, hopen⟩ := hmore hf
          have hsettles := ih hopen hops'
          rw [hreports, hfinished, Response.typed, hheaders] at hsettles
          exact hsettles
      | none =>
        rcases hr.flush_raises hm with
          ⟨htyped, t, ht, hopen, hreports, hfinished, huntyped⟩ | ⟨htyped, t, ht, hopen⟩
        · have hsettles := ih hopen hops'
          rw [hreports, hfinished, huntyped] at hsettles
          have happly : r.apply o .flush = .ok t := ht
          rw [turn_ok happly, htyped]
          exact hsettles
        · have happly : r.apply o .flush = .error t := ht
          rw [turn_error happly, htyped, answerError_written hopen.streaming.headerWritten]
          exact hopen.settles_cut
    | finish | clear | truncate | setExtraHeader | removeHeader => simp [Op.replies, Op.answers] at hop

structure Unsent (h : RequestHandler) (r : Response) : Prop where
  headerWritten : r.handler.headerWritten = false
  origin : r.handler.frames = h.frames
  sent : r.sent = []

structure Headed (h : RequestHandler) (r : Response) (status : Int) : Prop where
  headerWritten : r.handler.headerWritten = true
  statusCode : r.handler.statusCode = status
  origin : r.handler.frames = h.frames
  sent : ∃ m, r.sent = [Frame.pickle (.reply m)].map h.frames ∧ m.status = status

theorem Headed.unfinished {status : Int} (hr : Headed h r status) (hs : status = 206) :
    ∃ frames, Unfinished h r frames := by
  obtain ⟨m, hsent, hm⟩ := hr.sent
  exact ⟨_, ⟨hr.headerWritten, hr.statusCode.trans hs⟩, hsent, hr.origin, m, [], rfl, hm.trans hs, nofun⟩

theorem Headed.complete {status : Int} (hr : Headed h r status) (hs : status ≠ 206) :
    r.Closed ∧ ∃ frames, r.sent = frames.map h.frames ∧ Complete frames := by
  obtain ⟨m, hsent, hm⟩ := hr.sent
  exact ⟨⟨hr.headerWritten, hr.statusCode.trans_ne hs⟩, _, hsent, .inl ⟨m, rfl, hm.trans_ne hs⟩⟩

theorem Headed.settles {status : Int} (hr : Headed h r status) :
    Settles h (r, .checking) (if status = 206 then .cut else .whole) := by
  split
  · rename_i hs
    obtain ⟨gs, hopen⟩ := hr.unfinished hs
    exact hopen.settles_cut
  · rename_i hs
    obtain ⟨-, gs, hgs, hcomplete⟩ := hr.complete hs
    exact ⟨rfl, gs, hgs, hcomplete⟩

theorem turn_headed (hw : ∀ n, o.write n = true) {status : Int} (hr : Headed h r status)
    (hops : ∀ op ∈ ops, op.replies = true) :
    Settles h (turn o c r ops ending) (if status = 206 then
      streamFate (fun n => (o.report n).isSome) r.reports r.typed r.finished ops ending else .whole) := by
  split
  · rename_i hs
    obtain ⟨gs, hopen⟩ := hr.unfinished hs
    exact turn_streaming hw hopen hops
  · rename_i hs
    obtain ⟨hclosed, gs, hgs, hcomplete⟩ := hr.complete hs
    exact turn_closed hclosed hops hgs hcomplete

theorem Unsent.flush (hw : ∀ n, o.write n = true) (hr : Unsent h r) {metadata : Option Dict}
    (hm : o.report r.reports = some metadata) :
    ∃ t, r.flush o = .ok t ∧ Headed h t (sentAs (!r.finished) r.handler.statusCode) ∧
      t.reports = r.reports + 1 ∧ t.finished = r.finished ∧ t.handler.headers = r.flushedHeaders := by
  obtain ⟨t, ht, hflushed⟩ := Response.flush_fresh hm hw hr.headerWritten
  refine ⟨t, ht, ⟨?_, ?_, hflushed.emits.frames.trans hr.origin, ?_⟩, hflushed.reports, hflushed.finished, ?_⟩
  · rw [hflushed.handler]
  · rw [hflushed.handler]
  · rw [hflushed.sent, hr.sent, hr.origin]
    exact ⟨_, rfl, rfl⟩
  · rw [hflushed.handler]

theorem Unsent.sendError (hw : ∀ n, o.write n = true) (hr : Unsent h r) (code : Int) (message : String) :
    Headed h (r.sendError o code message) code ∧ (r.sendError o code message).reports = r.reports ∧
      (r.sendError o code message).finished = true ∧ (r.sendError o code message).typed = r.typed := by
  have hset : r.setStatusCode code = { r with handler := { r.handler with statusCode := code } } := by
    rw [Response.setStatusCode, if_neg (by simp [hr.headerWritten])]
  have hfresh : (r.setStatusCode code).handler.headerWritten = false := by
    rw [hset]
    exact hr.headerWritten
  obtain ⟨t, ht, hwrote⟩ := Response.send_fresh hw hfresh (encode message) false none
  have herror : r.sendError o code message = { t with finished := true } := by
    rw [Response.sendError, if_neg (by simp [hr.headerWritten]), ht]
  rw [hset] at hwrote
  rw [herror]
  refine ⟨⟨?_, ?_, ?_, ?_⟩, hwrote.reports, rfl, ?_⟩
  · exact congrArg RequestHandler.headerWritten hwrote.handler
  · exact congrArg RequestHandler.statusCode hwrote.handler
  · exact (congrArg RequestHandler.frames hwrote.handler).trans hr.origin
  · refine ⟨⟨code, r.handler.headers, encode message, none⟩, ?_, rfl⟩
    rw [← hr.origin]
    refine hwrote.sent.trans ?_
    rw [hr.sent]
    rfl
  · simp only [Response.typed, hwrote.handler]

theorem Unsent.flush_raises (hw : ∀ n, o.write n = true) (hr : Unsent h r) (hm : o.report r.reports = none) :
    (r.typed = true ∧ ∃ t, r.flush o = .ok t ∧ Headed h t 500) ∨
      r.typed = false ∧ ∃ t, r.flush o = .error t ∧ Unsent h t := by
  cases htype : r.handler.headers.find "Content-Type" with
  | none =>
    refine .inr ⟨?_, _, Response.flush_untyped hm htype, hr.headerWritten, hr.origin, hr.sent⟩
    rw [Response.typed, htype]
    rfl
  | some value =>
    refine .inl ⟨?_, _, Response.flush_typed hm htype, ?_⟩
    · rw [Response.typed, htype]
      rfl
    · have hunsent : Unsent h (({ r with reports := r.reports + 1 } : Response).removeHeader "Content-Type") :=
        ⟨hr.headerWritten, hr.origin, hr.sent⟩
      exact (hunsent.sendError hw 500 "Internal server error").1

theorem endTurn_unsent (hw : ∀ n, o.write n = true) (hr : Unsent h r) (hreports : r.reports = 0) :
    Settles h (endTurn o c r ending) (fate (fun n => (o.report n).isSome) r.handler.statusCode r.typed [] ending) := by
  cases ending with
  | raises e => exact answerError_fresh hr.headerWritten e
  | raisesZmq => exact ⟨rfl, [], hr.sent, nil_not_complete⟩
  | finish =>
    have hfinish : Unsent h { r with finished := true } := ⟨hr.headerWritten, hr.origin, hr.sent⟩
    rw [fate, endTurn, Response.finish]
    cases hm : o.report 0 with
    | some metadata =>
      obtain ⟨t, ht, hheaded, -⟩ := hfinish.flush hw (hreports ▸ hm)
      rw [ht, Server.ended, answerError_written hheaded.headerWritten, Option.isSome_some, if_pos rfl]
      exact hheaded.settles
    | none =>
      rcases hfinish.flush_raises hw (hreports ▸ hm) with ⟨htyped, t, ht, hheaded⟩ | ⟨htyped, t, ht, hunsent⟩
      · have htyped : r.typed = true := htyped
        rw [ht, Server.ended, answerError_written hheaded.headerWritten, htyped]
        exact hheaded.settles
      · have htyped : r.typed = false := htyped
        rw [ht, Server.ended, htyped]
        exact answerError_fresh hunsent.headerWritten _

theorem turn_unsent (hw : ∀ n, o.write n = true) (hr : Unsent h r) (hreports : r.reports = 0)
    (hf : r.finished = false) (hops : ∀ op ∈ ops, op.replies = true) :
    Settles h (turn o c r ops ending)
      (fate (fun n => (o.report n).isSome) r.handler.statusCode r.typed ops ending) := by
  induction ops generalizing r with
  | nil => exact endTurn_unsent hw hr hreports
  | cons op ops ih =>
    have hops' : ∀ op ∈ ops, op.replies = true := fun op hop => hops op (List.mem_cons_of_mem _ hop)
    have hop := hops op List.mem_cons_self
    cases op with
    | write data =>
      exact ih (r := { r with buffer := r.buffer ++ data }) ⟨hr.headerWritten, hr.origin, hr.sent⟩ hreports hf hops'
    | setStatusCode code =>
      rw [turn_ok (Response.apply_setStatusCode hr.headerWritten code)]
      exact ih (r := { r with handler := { r.handler with statusCode := code } })
        ⟨hr.headerWritten, hr.origin, hr.sent⟩ hreports hf hops'
    | setHeader key value =>
      rw [turn_ok (Response.apply_setHeader hr.headerWritten key value), fate, Response.typed, ← Dict.isSome_find_assign]
      exact ih (r := { r with handler := { r.handler with headers := r.handler.headers.assign key value } })
        ⟨hr.headerWritten, hr.origin, hr.sent⟩ hreports hf hops'
    | sendError code message =>
      obtain ⟨hheaded, hreports', hfinished, htyped⟩ := hr.sendError hw code message
      have happly : r.apply o (.sendError code message) = .ok (r.sendError o code message) := rfl
      have hsettles : Settles h (turn o c (r.sendError o code message) ops ending) _ := turn_headed hw hheaded hops'
      rw [hreports', hreports, hfinished, htyped] at hsettles
      rw [turn_ok happly]
      exact hsettles
    | flush =>
      rw [fate]
      cases hm : o.report 0 with
      | some metadata =>
        obtain ⟨t, ht, hheaded, hreports', hfinished, hheaders⟩ := hr.flush hw (hreports ▸ hm)
        have happly : r.apply o .flush = .ok t := ht
        rw [hf, Bool.not_false] at hheaded
        have htyped : t.typed = r.typed := by
          rw [Response.typed, hheaders, Response.flushedHeaders, if_neg (by simp [hf]), ← Response.typed]
        have hsettles : Settles h (turn o c t ops ending) _ := turn_headed hw hheaded hops'
        rw [hreports', hreports, hfinished, hf, htyped] at hsettles
        rw [turn_ok happly, Option.isSome_some, if_pos rfl]
        exact hsettles
      | none =>
        rcases hr.flush_raises hw (hreports ▸ hm) with ⟨htyped, t, ht, hheaded⟩ | ⟨htyped, t, ht, hunsent⟩
        · have happly : r.apply o .flush = .ok t := ht
          rw [turn_ok happly, htyped]
          exact turn_headed hw hheaded hops'
        · have happly : r.apply o .flush = .error t := ht
          rw [turn_error happly, htyped]
          exact answerError_fresh hunsent.headerWritten _
    | finish | clear | truncate | setExtraHeader | removeHeader => simp [Op.replies, Op.answers] at hop

end settles

end turn

def CompleteBeforeReady (h : RequestHandler) (broadcast : Option Broadcast) (answer : Response × Loop) : Prop :=
  checkBroadcast broadcast answer.2 = .top → ∃ frames, answer.1.sent = frames.map h.frames ∧ Complete frames

theorem checkBroadcast_top {broadcast : Option Broadcast} {loop : Loop} :
    checkBroadcast broadcast loop = .top ↔ loop = .top ∨ loop = .checking ∧ broadcast ≠ some .restart := by
  cases loop with
  | checking =>
    rw [checkBroadcast]
    split
    · rename_i hb
      simp [hb]
    · rename_i hb
      simp [hb]
  | _ => simp [checkBroadcast]

theorem settles_completeBeforeReady_iff {h : RequestHandler} {answer : Response × Loop} {f : Fate}
    (hs : Settles h answer f) (broadcast : Option Broadcast) :
    CompleteBeforeReady h broadcast answer ↔ broadcast = some .restart ∨ f ≠ .cut := by
  rw [CompleteBeforeReady, checkBroadcast_top]
  cases f with
  | leaves =>
    have hloop : answer.2 = .leaving false := hs
    simp [hloop]
  | whole =>
    obtain ⟨-, frames, hsent, hcomplete⟩ := hs
    exact ⟨fun _ => .inr (by decide), fun _ _ => ⟨frames, hsent, hcomplete⟩⟩
  | cut =>
    obtain ⟨hloop, frames, hsent, hcut⟩ := hs
    constructor
    · intro hc
      by_contra hb
      rw [not_or] at hb
      obtain ⟨gs, hgs, hcomplete⟩ := hc (.inr ⟨hloop, hb.1⟩)
      obtain rfl := List.map_injective_iff.mpr h.frames_injective (hsent.symm.trans hgs)
      exact hcut hcomplete
    · rintro (rfl | hne)
      · rintro (htop | ⟨-, hb⟩)
        · rw [hloop] at htop
          cases htop
        · exact absurd rfl hb
      · exact absurd rfl hne

theorem complete_before_ready_iff {P : Type} {o : Outside} (hw : ∀ n, o.write n = true) {ops : List Op}
    (hops : ∀ op ∈ ops, op.replies = true) (ending : Ending) (broadcast : Option Broadcast) (c : HandlerClass P)
    (clientId correlationId : Frame) (message : RequestMessage) :
    CompleteBeforeReady (.new clientId correlationId message) broadcast
        (turn o c (.new (.new clientId correlationId message)) ops ending) ↔
      broadcast = some .restart ∨ fate (fun n => (o.report n).isSome) 200 false ops ending ≠ .cut :=
  settles_completeBeforeReady_iff (turn_unsent hw ⟨rfl, rfl, rfl⟩ rfl rfl hops) broadcast

def getMapHandler : RequestHandler := .new Pool.client1 (.bytes [1]) ⟨"", [], "GET", none⟩

theorem finished_stream_complete :
    CompleteBeforeReady getMapHandler none
      (turn working emptyClass (.new getMapHandler) [.write [1], .flush, .write [2]] .finish) :=
  (complete_before_ready_iff working_works.write (by decide) .finish none emptyClass Pool.client1 (.bytes [1])
    ⟨"", [], "GET", none⟩).mpr (.inr (by decide))

theorem raised_stream_cut :
    ¬ CompleteBeforeReady getMapHandler none
      (turn working emptyClass (.new getMapHandler) [.write [1], .flush] (.raises .keyError)) := by
  intro h
  obtain ⟨frames, hsent, hcomplete⟩ := h (by decide)
  have hframes : [Frame.pickle (.reply ⟨206, [], [1], none⟩)].map getMapHandler.frames =
      frames.map getMapHandler.frames := hsent
  obtain rfl := List.map_injective_iff.mpr getMapHandler.frames_injective hframes
  exact Unended.not_complete ⟨_, [], rfl, rfl, nofun⟩ hcomplete

end Qgis
