import PyQgisServer.Qgis.Flush

namespace Qgis

open Zmq

namespace Op

def data : Op → Bytes
  | .write data => data
  | _ => []

def flushes : Op → Bool
  | .flush => true
  | _ => false

def answers : Op → Bool
  | .write _ | .flush | .setStatusCode _ | .setHeader _ _ => true
  | _ => false

def replies : Op → Bool
  | .sendError _ _ => true
  | op => op.answers

def heads : Op → Bool
  | .setStatusCode _ | .setHeader _ _ | .sendError _ _ => true
  | _ => false

theorem replies_of_answers {op : Op} (h : op.answers = true) : op.replies = true := by
  cases op with
  | sendError => rfl
  | _ => exact h

end Op

def written (ops : List Op) : Bytes := ops.flatMap Op.data

def bodyAtFlush : List Op → Bytes
  | .flush :: _ => []
  | op :: ops => op.data ++ bodyAtFlush ops
  | [] => []

def statusAtFlush (status : Int) : List Op → Int
  | .flush :: _ => status
  | .setStatusCode code :: ops => statusAtFlush code ops
  | _ :: ops => statusAtFlush status ops
  | [] => status

def headersAtFlush (headers : Dict) : List Op → Dict
  | .flush :: _ => headers
  | .setHeader key value :: ops => headersAtFlush (headers.assign key value) ops
  | _ :: ops => headersAtFlush headers ops
  | [] => headers

def answerHeaders (headers : Dict) (ops : List Op) (body : Bytes) : Dict :=
  if ops.any Op.flushes = false ∧ body ≠ [] then
    (headersAtFlush headers ops).assign "Content-Length" (.int body.length)
  else headersAtFlush headers ops

structure Answered (h : RequestHandler) (buffer : Bytes) (ops : List Op) (reply : ReplyMessage)
    (cs : List Chunk) : Prop where
  status : reply.status = sentAs (ops.any Op.flushes) (statusAtFlush h.statusCode ops)
  headers : reply.headers = answerHeaders h.headers ops (buffer ++ written ops)
  data : reply.data = buffer ++ bodyAtFlush ops
  body : reply.status = 206 →
    reply.data ++ ((cs.takeWhile Chunk.hasMore).map Chunk.data).flatten = buffer ++ written ops
  ended : reply.status = 206 → statusAtFlush h.statusCode ops = 200 → cs.all Chunk.hasMore = false

section answered

variable {h : RequestHandler} {buffer : Bytes} {ops : List Op} {reply : ReplyMessage} {cs : List Chunk}

theorem Answered.write {data : Bytes} (ha : Answered h (buffer ++ data) ops reply cs) :
    Answered h buffer (.write data :: ops) reply cs := by
  obtain ⟨hstatus, hheaders, hdata, hbody, hended⟩ := ha
  rw [List.append_assoc] at hheaders hdata hbody
  exact ⟨hstatus, hheaders, hdata, hbody, hended⟩

theorem Answered.setStatusCode {code : Int} (ha : Answered { h with statusCode := code } buffer ops reply cs) :
    Answered h buffer (.setStatusCode code :: ops) reply cs :=
  ⟨ha.status, ha.headers, ha.data, ha.body, ha.ended⟩

theorem Answered.setHeader {key : String} {value : PyVal}
    (ha : Answered { h with headers := h.headers.assign key value } buffer ops reply cs) :
    Answered h buffer (.setHeader key value :: ops) reply cs :=
  ⟨ha.status, ha.headers, ha.data, ha.body, ha.ended⟩

end answered

def ending (data : Bytes) (metadata : Option Dict) : List Chunk := [⟨data, true, metadata⟩, ⟨[], false, metadata⟩]

theorem delivered_ending {cs : List Chunk} (h : ∀ c ∈ cs, c.hasMore = true) (data : Bytes)
    (metadata : Option Dict) :
    (((cs ++ ending data metadata).takeWhile Chunk.hasMore).map Chunk.data).flatten =
      (cs.map Chunk.data).flatten ++ data := by
  rw [List.takeWhile_append_of_pos h, List.map_append, List.flatten_append]
  simp [ending]

theorem ending_ends (cs : List Chunk) (data : Bytes) (metadata : Option Dict) :
    (cs ++ ending data metadata).all Chunk.hasMore = false := by
  simp [ending]

namespace Response

structure Emits (r t : Response) (fs : List Frame) : Prop where
  frames : t.handler.frames = r.handler.frames
  sent : t.sent = r.sent ++ fs.map r.handler.frames

theorem Emits.refl (r : Response) : r.Emits r [] := ⟨rfl, by simp⟩

theorem Emits.of_eq {r t : Response} (hframes : t.handler.frames = r.handler.frames) (hsent : t.sent = r.sent) :
    r.Emits t [] :=
  ⟨hframes, by simp [hsent]⟩

theorem Emits.trans {r t u : Response} {fs gs : List Frame} (h : r.Emits t fs) (h' : t.Emits u gs) :
    r.Emits u (fs ++ gs) where
  frames := h'.frames.trans h.frames
  sent := by rw [h'.sent, h.sent, h.frames, List.map_append, List.append_assoc]

theorem Emits.of_finished {r t : Response} {fs : List Frame}
    (h : ({ r with finished := true } : Response).Emits t fs) : r.Emits t fs :=
  ⟨h.frames, h.sent⟩

theorem Flushed.emits {r t : Response} {status : Int} {fs : List Frame} (h : r.Flushed t status fs) :
    r.Emits t fs where
  frames := by
    rw [h.handler]
    rfl
  sent := h.sent

section run

variable {o : Outside} {r t : Response} {ops : List Op}

theorem setStatusCode_written (h : r.handler.headerWritten = true) (code : Int) : r.setStatusCode code = r := by
  rw [setStatusCode, if_pos h]

theorem setHeader_written (h : r.handler.headerWritten = true) (key : String) (value : PyVal) :
    r.setHeader key value = r := by
  rw [setHeader, if_pos h]

theorem sendError_written_eq (h : r.handler.headerWritten = true) (code : Int) (message : String) :
    r.sendError o code message = r := by
  rw [sendError, if_pos h]

theorem apply_written (h : r.handler.headerWritten = true) {op : Op} (hop : op.heads = true) : r.apply o op = .ok r := by
  cases op with
  | setStatusCode code => exact congrArg Except.ok (setStatusCode_written h code)
  | setHeader key value => exact congrArg Except.ok (setHeader_written h key value)
  | sendError code message => exact congrArg Except.ok (sendError_written_eq h code message)
  | write | flush | finish | clear | truncate | setExtraHeader | removeHeader => cases hop

theorem apply_setStatusCode (h : r.handler.headerWritten = false) (code : Int) :
    r.apply o (.setStatusCode code) = .ok { r with handler := { r.handler with statusCode := code } } := by
  rw [apply, setStatusCode, h]
  rfl

theorem apply_setHeader (h : r.handler.headerWritten = false) (key : String) (value : PyVal) :
    r.apply o (.setHeader key value) =
      .ok { r with handler := { r.handler with headers := r.handler.headers.assign key value } } := by
  rw [apply, setHeader, h]
  rfl

def Reaches (o : Outside) (x : Except Response Response) (t : Response) : Prop :=
  x = .ok t ∨ x = .error t ∧ ∃ n, o.report n = none

theorem Reaches.ok {x : Except Response Response} (h : Reaches o x t) (ho : o.Works) : x = .ok t := by
  rcases h with h | ⟨-, n, hn⟩
  · exact h
  · obtain ⟨metadata, hm⟩ := ho.report n
    rw [hn] at hm
    cases hm

theorem flush_reaches (h : r.Closed) : ∃ t, Reaches o (r.flush o) t ∧ t.Closed ∧ r.Emits t [] := by
  cases hm : o.report r.reports with
  | some metadata =>
    obtain ⟨t, ht, hflushed⟩ := flush_closed hm h
    refine ⟨t, .inl ht, ⟨by rw [hflushed.handler], ?_⟩, hflushed.emits⟩
    rw [hflushed.handler]
    exact h.statusCode
  | none =>
    cases htype : r.handler.headers.find "Content-Type" with
    | none => exact ⟨_, .inr ⟨flush_untyped hm htype, _, hm⟩, ⟨h.headerWritten, h.statusCode⟩, .of_eq rfl rfl⟩
    | some value =>
      have hflush := flush_typed hm htype
      rw [sendError_written_eq (by exact h.headerWritten)] at hflush
      exact ⟨_, .inl hflush, ⟨h.headerWritten, h.statusCode⟩, .of_eq rfl rfl⟩

theorem apply_closed (h : r.Closed) {op : Op} (hop : op.replies = true ∨ op = .finish) :
    ∃ t, Reaches o (r.apply o op) t ∧ t.Closed ∧ r.Emits t [] := by
  cases op with
  | write data => exact ⟨_, .inl rfl, ⟨h.headerWritten, h.statusCode⟩, .of_eq rfl rfl⟩
  | flush => exact flush_reaches h
  | finish =>
    obtain ⟨t, ht, hclosed, hemits⟩ := flush_reaches (o := o) (r := { r with finished := true })
      ⟨h.headerWritten, h.statusCode⟩
    exact ⟨t, ht, hclosed, hemits.of_finished⟩
  | setStatusCode | setHeader | sendError =>
    rw [apply_written h.headerWritten rfl]
    exact ⟨r, .inl rfl, h, .refl r⟩
  | clear | truncate | setExtraHeader | removeHeader => simp [Op.replies, Op.answers] at hop

theorem run_closed (h : r.Closed) (hops : ∀ op ∈ ops, op.replies = true ∨ op = .finish) :
    ∃ t, Reaches o (r.run o ops) t ∧ t.Closed ∧ r.Emits t [] := by
  induction ops generalizing r with
  | nil => exact ⟨r, .inl rfl, h, .refl r⟩
  | cons op ops ih =>
    obtain ⟨t, ht, hclosed, hemits⟩ := apply_closed (o := o) h (hops op List.mem_cons_self)
    obtain ⟨u, hu, hclosed', hemits'⟩ := ih hclosed fun op hop => hops op (List.mem_cons_of_mem _ hop)
    rcases ht with ht | ⟨ht, hraised⟩
    · refine ⟨u, ?_, hclosed', hemits.trans hemits'⟩
      rw [run, ht]
      exact hu
    · refine ⟨t, .inr ⟨?_, hraised⟩, hclosed, hemits⟩
      rw [run, ht]

variable (ho : o.Works)
include ho

theorem run_finishes_closed (h : r.Closed) (n : ℕ) :
    ∃ t, r.run o (List.replicate n .finish) = .ok t ∧ r.Emits t [] := by
  obtain ⟨t, ht, -, hemits⟩ := run_closed (o := o) h fun _ hop => .inr (List.eq_of_mem_replicate hop)
  exact ⟨t, ht.ok ho, hemits⟩

structure Streams (r t : Response) (cs : List Chunk) (data : Bytes) : Prop where
  streaming : t.Streaming
  finished : t.finished = false
  emits : r.Emits t (cs.map Chunk.frame)
  more : ∀ c ∈ cs, c.hasMore = true
  data : r.buffer ++ data = (cs.map Chunk.data).flatten ++ t.buffer

omit ho in
theorem Streams.refl (h : r.Streaming) (hf : r.finished = false) : r.Streams r [] [] where
  streaming := h
  finished := hf
  emits := .refl r
  more := nofun
  data := by simp

omit ho in
theorem Streams.trans {u : Response} {cs ds : List Chunk} {data data' : Bytes} (h : r.Streams t cs data)
    (h' : t.Streams u ds data') : r.Streams u (cs ++ ds) (data ++ data') where
  streaming := h'.streaming
  finished := h'.finished
  emits := by
    rw [List.map_append]
    exact h.emits.trans h'.emits
  more c hc := (List.mem_append.mp hc).elim (h.more c) (h'.more c)
  data := by
    rw [← List.append_assoc, h.data, List.append_assoc, h'.data, List.map_append, List.flatten_append,
      List.append_assoc]

theorem apply_streams (h : r.Streaming) (hf : r.finished = false) {op : Op} (hop : op.answers = true) :
    ∃ t cs, r.apply o op = .ok t ∧ r.Streams t cs op.data := by
  cases op with
  | write data =>
    exact ⟨_, [], rfl, ⟨h.headerWritten, h.statusCode⟩, hf, .of_eq rfl rfl, nofun, rfl⟩
  | flush =>
    obtain ⟨metadata, hm⟩ := ho.report r.reports
    obtain ⟨t, ht, hflushed⟩ := flush_streaming hm ho.write h
    rw [hf] at hflushed
    refine ⟨t, [⟨r.buffer, true, metadata⟩], ht, ⟨?_, ?_⟩, hflushed.finished.trans hf, hflushed.emits, ?_, ?_⟩
    · rw [hflushed.handler]
    · rw [hflushed.handler]
      rfl
    · simp
    · simp [hflushed.buffer, Op.data]
  | setStatusCode | setHeader =>
    rw [apply_written h.headerWritten rfl]
    exact ⟨r, [], rfl, .refl h hf⟩
  | finish | clear | truncate | setExtraHeader | removeHeader | sendError => simp [Op.answers] at hop

theorem run_streams (h : r.Streaming) (hf : r.finished = false) (hops : ∀ op ∈ ops, op.answers = true) :
    ∃ t cs, r.run o ops = .ok t ∧ r.Streams t cs (written ops) := by
  induction ops generalizing r with
  | nil => exact ⟨r, [], rfl, .refl h hf⟩
  | cons op ops ih =>
    obtain ⟨t, cs, ht, hstreams⟩ := apply_streams ho h hf (hops op List.mem_cons_self)
    obtain ⟨u, ds, hu, hstreams'⟩ :=
      ih hstreams.streaming hstreams.finished fun op hop => hops op (List.mem_cons_of_mem _ hop)
    refine ⟨u, cs ++ ds, ?_, hstreams.trans hstreams'⟩
    rw [run, ht]
    exact hu

omit ho in
theorem run_append {ops' : List Op} (h : r.run o ops = .ok t) : r.run o (ops ++ ops') = t.run o ops' := by
  induction ops generalizing r with
  | nil =>
    cases h
    rfl
  | cons op ops ih =>
    rw [run] at h
    rw [List.cons_append, run]
    cases hop : r.apply o op with
    | error u =>
      rw [hop] at h
      cases h
    | ok u =>
      rw [hop] at h
      exact ih h

theorem run_finishes_streaming (h : r.Streaming) (n : ℕ) :
    ∃ t metadata, r.run o (List.replicate (n + 1) .finish) = .ok t ∧
      r.Emits t ((ending r.buffer metadata).map Chunk.frame) := by
  obtain ⟨metadata, hm⟩ := ho.report r.reports
  obtain ⟨t, ht, hflushed⟩ := flush_streaming (r := { r with finished := true }) hm ho.write
    ⟨h.headerWritten, h.statusCode⟩
  have hclosed : t.Closed := by
    constructor
    · rw [hflushed.handler]
    · rw [hflushed.handler]
      exact (by decide : (200 : Int) ≠ 206)
  obtain ⟨u, hu, hemits⟩ := run_finishes_closed ho hclosed n
  refine ⟨u, metadata, ?_, (hflushed.emits.trans hemits).of_finished⟩
  rw [List.replicate_succ, run, apply, finish, ht]
  exact hu

theorem run_finishes_fresh (h : r.handler.headerWritten = false) (n : ℕ) :
    ∃ t reply cs, r.run o (List.replicate (n + 1) .finish) = .ok t ∧
      r.Emits t (.pickle (.reply reply) :: cs.map Chunk.frame) ∧ Answered r.handler r.buffer [] reply cs := by
  obtain ⟨metadata, hm⟩ := ho.report r.reports
  obtain ⟨t, ht, hflushed⟩ := flush_fresh (r := { r with finished := true }) hm ho.write h
  have hrun : ∀ u, t.run o (List.replicate n .finish) = .ok u →
      r.run o (List.replicate (n + 1) .finish) = .ok u := by
    intro u hu
    rw [List.replicate_succ, run, apply, finish, ht]
    exact hu
  have hheaders : ({ r with finished := true } : Response).flushedHeaders =
      answerHeaders r.handler.headers [] (r.buffer ++ written []) := by
    simp [flushedHeaders, answerHeaders, written, headersAtFlush]
  have hwritten : t.handler.headerWritten = true := by rw [hflushed.handler]
  have hstatus : t.handler.statusCode = r.handler.statusCode := by
    rw [hflushed.handler]
    rfl
  have hanswered : ∀ cs, ((cs.takeWhile Chunk.hasMore).map Chunk.data).flatten = [] →
      Answered r.handler r.buffer [] ⟨r.handler.statusCode,
        ({ r with finished := true } : Response).flushedHeaders, r.buffer, metadata⟩ cs := by
    intro cs hcs
    refine ⟨rfl, hheaders, by simp [bodyAtFlush], fun _ => by simp [hcs, written], fun h206 h200 => ?_⟩
    exact absurd (h206.symm.trans h200) (by decide)
  by_cases hs : r.handler.statusCode = 206
  · cases n with
    | zero => exact ⟨t, _, [], hrun t rfl, hflushed.emits.of_finished, hanswered [] rfl⟩
    | succ n =>
      obtain ⟨u, metadata', hu, hemits⟩ := run_finishes_streaming ho ⟨hwritten, hstatus.trans hs⟩ n
      rw [hflushed.buffer] at hemits
      exact ⟨u, _, _, hrun u hu, (hflushed.emits.trans hemits).of_finished, hanswered _ rfl⟩
  · obtain ⟨u, hu, hemits⟩ := run_finishes_closed ho ⟨hwritten, hstatus.trans_ne hs⟩ n
    exact ⟨u, _, [], hrun u hu, (hflushed.emits.trans hemits).of_finished, hanswered [] rfl⟩

theorem run_flush (h : r.handler.headerWritten = false) (hf : r.finished = false)
    (hops : ∀ op ∈ ops, op.answers = true) (n : ℕ) :
    ∃ t reply cs, r.run o (.flush :: ops ++ List.replicate (n + 1) .finish) = .ok t ∧
      r.Emits t (.pickle (.reply reply) :: cs.map Chunk.frame) ∧
      Answered r.handler r.buffer (.flush :: ops) reply cs := by
  obtain ⟨metadata, hm⟩ := ho.report r.reports
  obtain ⟨t, ht, hflushed⟩ := flush_fresh hm ho.write h
  rw [hf, Bool.not_false] at hflushed
  have hrun : ∀ u, t.run o (ops ++ List.replicate (n + 1) .finish) = .ok u →
      r.run o (.flush :: ops ++ List.replicate (n + 1) .finish) = .ok u := by
    intro u hu
    rw [List.cons_append, run, apply, ht]
    exact hu
  have hheaders : r.flushedHeaders =
      answerHeaders r.handler.headers (.flush :: ops) (r.buffer ++ written (.flush :: ops)) := by
    simp [flushedHeaders, hf, answerHeaders, headersAtFlush, Op.flushes]
  have hwritten : t.handler.headerWritten = true := by rw [hflushed.handler]
  have hstatus : t.handler.statusCode = sentAs true r.handler.statusCode := by rw [hflushed.handler]
  by_cases hs : sentAs true r.handler.statusCode = 206
  · obtain ⟨u, cs, hu, hstreams⟩ := run_streams ho ⟨hwritten, hstatus.trans hs⟩ (hflushed.finished.trans hf) hops
    obtain ⟨v, metadata', hv, hemits⟩ := run_finishes_streaming ho hstreams.streaming n
    have hall := (hflushed.emits.trans hstreams.emits).trans hemits
    rw [List.append_assoc, ← List.map_append] at hall
    refine ⟨v, _, _, hrun v ((run_append hu).trans hv), hall, rfl, hheaders, by simp [bodyAtFlush], fun _ => ?_, ?_⟩
    · have hdata := hstreams.data
      rw [hflushed.buffer, List.nil_append] at hdata
      rw [delivered_ending hstreams.more, ← hdata]
      rfl
    · exact fun _ _ => ending_ends cs u.buffer metadata'
  · have hclosed : ∀ op ∈ ops ++ List.replicate (n + 1) .finish, op.replies = true ∨ op = .finish := by
      intro op hop
      rcases List.mem_append.mp hop with hop | hop
      · exact .inl (Op.replies_of_answers (hops op hop))
      · exact .inr (List.eq_of_mem_replicate hop)
    obtain ⟨u, hu, -, hemits⟩ := run_closed (o := o) ⟨hwritten, hstatus.trans_ne hs⟩ hclosed
    exact ⟨u, _, [], hrun u (hu.ok ho), hflushed.emits.trans hemits, rfl, hheaders, by simp [bodyAtFlush],
      fun h206 => absurd h206 hs, fun h206 => absurd h206 hs⟩

omit ho in
theorem run_cons {op : Op} {ops' : List Op} (h : r.apply o op = .ok t) :
    r.run o (op :: ops ++ ops') = t.run o (ops ++ ops') := by
  rw [List.cons_append, run, h]

theorem run_answer (h : r.handler.headerWritten = false) (hf : r.finished = false)
    (hops : ∀ op ∈ ops, op.answers = true) (n : ℕ) :
    ∃ t reply cs, r.run o (ops ++ List.replicate (n + 1) .finish) = .ok t ∧
      r.Emits t (.pickle (.reply reply) :: cs.map Chunk.frame) ∧ Answered r.handler r.buffer ops reply cs := by
  induction ops generalizing r with
  | nil => exact run_finishes_fresh ho h n
  | cons op ops ih =>
    have hops' : ∀ op ∈ ops, op.answers = true := fun op hop => hops op (List.mem_cons_of_mem _ hop)
    have hop := hops op List.mem_cons_self
    cases op with
    | flush => exact run_flush ho h hf hops' n
    | write data =>
      obtain ⟨t, reply, cs, ht, hemits, hanswered⟩ := ih (r := { r with buffer := r.buffer ++ data }) h hf hops'
      exact ⟨t, reply, cs, (run_cons rfl).trans ht, ⟨hemits.frames, hemits.sent⟩, hanswered.write⟩
    | setStatusCode code =>
      obtain ⟨t, reply, cs, ht, hemits, hanswered⟩ :=
        ih (r := { r with handler := { r.handler with statusCode := code } }) h hf hops'
      exact ⟨t, reply, cs, (run_cons (apply_setStatusCode h code)).trans ht, ⟨hemits.frames, hemits.sent⟩,
        hanswered.setStatusCode⟩
    | setHeader key value =>
      obtain ⟨t, reply, cs, ht, hemits, hanswered⟩ :=
        ih (r := { r with handler := { r.handler with headers := r.handler.headers.assign key value } }) h hf hops'
      exact ⟨t, reply, cs, (run_cons (apply_setHeader h key value)).trans ht, ⟨hemits.frames, hemits.sent⟩,
        hanswered.setHeader⟩
    | finish | clear | truncate | setExtraHeader | removeHeader | sendError => simp [Op.answers] at hop

theorem new_answers {h : RequestHandler} (hfresh : h.headerWritten = false) (hops : ∀ op ∈ ops, op.answers = true)
    (n : ℕ) :
    ∃ t reply cs, (new h).run o (ops ++ List.replicate (n + 1) .finish) = .ok t ∧
      t.sent = (.pickle (.reply reply) :: cs.map Chunk.frame).map h.frames ∧ Answered h [] ops reply cs := by
  obtain ⟨t, reply, cs, ht, hemits, hanswered⟩ := run_answer (r := new h) ho hfresh rfl hops n
  exact ⟨t, reply, cs, ht, hemits.sent, hanswered⟩

end run

end Response

end Qgis
