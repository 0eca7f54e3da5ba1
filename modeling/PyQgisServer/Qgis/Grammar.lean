import PyQgisServer.Qgis.Completeness

namespace Qgis

open QgsCache Zmq

def Grammatical (frames : List Frame) : Prop := ∃ whole, Complete whole ∧ frames <+: whole

theorem Complete.grammatical {frames : List Frame} (h : Complete frames) : Grammatical frames :=
  ⟨frames, h, List.prefix_rfl⟩

theorem Unended.grammatical {frames : List Frame} (h : Unended frames) : Grammatical frames :=
  ⟨frames ++ [Chunk.frame ⟨[], false, none⟩], h.ended rfl, List.prefix_append _ _⟩

theorem grammatical_nil : Grammatical [] :=
  ⟨[.pickle (.reply ⟨200, [], [], none⟩)], .inl ⟨_, rfl, by decide⟩, List.nil_prefix⟩

inductive Call where
  | response (op : Op)
  | send (data : Bytes) (sendMore : Bool) (metadata : Option Dict)

namespace Response

def call (o : Outside) (r : Response) : Call → Response
  | .response op => settled (r.apply o op)
  | .send data sendMore metadata => settled (r.send o data sendMore metadata)

-- the exceptions may be caught between the calls
def calls (o : Outside) : Response → List Call → Response := List.foldl (call o)

inductive Stage (r : Response) : List Frame → Prop
  | unsent (h : r.handler.headerWritten = false) : Stage r []
  | opened {frames : List Frame} (h : r.Streaming) (hf : Unended frames) : Stage r frames
  | closed {frames : List Frame} (h : r.Closed) (hf : Complete frames) : Stage r frames

theorem Stage.grammatical {r : Response} {frames : List Frame} (h : r.Stage frames) : Grammatical frames := by
  cases h with
  | unsent h => exact grammatical_nil
  | opened h hf => exact hf.grammatical
  | closed h hf => exact hf.grammatical

def Advances (r t : Response) : Prop := ∀ frames, r.Stage frames → ∃ fs, r.Emits t fs ∧ t.Stage (frames ++ fs)

variable {o : Outside} {r t : Response}

theorem Advances.refl (r : Response) : r.Advances r :=
  fun frames h => ⟨[], .refl r, by rwa [List.append_nil]⟩

theorem Advances.trans {u : Response} (h : r.Advances t) (h' : t.Advances u) : r.Advances u := by
  intro frames hr
  obtain ⟨fs, hemits, ht⟩ := h frames hr
  obtain ⟨gs, hemits', hu⟩ := h' (frames ++ fs) ht
  exact ⟨fs ++ gs, hemits.trans hemits', by rwa [← List.append_assoc]⟩

theorem Quiet.advances (h : r.Quiet t) : r.Advances t := by
  have hframes : t.handler.frames = r.handler.frames := by
    rw [← h.handler]
    rfl
  have hwritten : t.handler.headerWritten = r.handler.headerWritten := by rw [← h.handler]
  intro frames hstage
  refine ⟨[], .of_eq hframes h.sent, ?_⟩
  rw [List.append_nil]
  cases hstage with
  | unsent hw => exact .unsent (hwritten.trans hw)
  | opened hr hf => exact .opened ⟨hwritten.trans hr.headerWritten, (h.status hr.headerWritten).trans hr.statusCode⟩ hf
  | closed hr hf =>
    exact .closed ⟨hwritten.trans hr.headerWritten, (h.status hr.headerWritten).trans_ne hr.statusCode⟩ hf

theorem reply_stage {m : ReplyMessage} (hwritten : t.handler.headerWritten = true)
    (hstatus : t.handler.statusCode = m.status) : t.Stage [.pickle (.reply m)] := by
  by_cases h206 : m.status = 206
  · exact .opened ⟨hwritten, hstatus.trans h206⟩ ⟨m, [], rfl, h206, by simp⟩
  · exact .closed ⟨hwritten, hstatus.trans_ne h206⟩ (.inl ⟨m, rfl, h206⟩)

theorem send_advances (o : Outside) (r : Response) (data : Bytes) (sendMore : Bool) (metadata : Option Dict) :
    r.Advances (settled (r.send o data sendMore metadata)) := by
  rw [settled_send]
  intro frames h
  cases h with
  | unsent hw =>
    rw [send_unwritten hw]
    cases o.write r.writes with
    | false => exact ⟨[], ⟨rfl, rfl⟩, .unsent hw⟩
    | true => exact ⟨[_], ⟨rfl, rfl⟩, reply_stage rfl rfl⟩
  | opened h hf =>
    rw [send_open h.headerWritten h.statusCode]
    cases o.write r.writes with
    | false => exact ⟨[], ⟨rfl, rfl⟩, .opened ⟨h.headerWritten, h.statusCode⟩ (by rwa [List.append_nil])⟩
    | true =>
      refine ⟨[Chunk.frame ⟨data, sendMore, metadata⟩], ⟨rfl, rfl⟩, ?_⟩
      cases sendMore with
      | true => exact .opened ⟨h.headerWritten, rfl⟩ (hf.chunk rfl)
      | false => exact .closed ⟨h.headerWritten, by simp⟩ (hf.ended rfl)
  | closed h hf =>
    rw [send_ended h.headerWritten h.statusCode]
    exact ⟨[], ⟨rfl, rfl⟩, .closed ⟨h.headerWritten, h.statusCode⟩ (by rwa [List.append_nil])⟩

theorem extra_advances (r : Response) (headers : Dict) : r.Advances { r with extraHeaders := headers } := by
  intro frames hstage
  refine ⟨[], .of_eq rfl rfl, ?_⟩
  rw [List.append_nil]
  cases hstage with
  | unsent hw => exact .unsent hw
  | opened hr hf => exact .opened ⟨hr.headerWritten, hr.statusCode⟩ hf
  | closed hr hf => exact .closed ⟨hr.headerWritten, hr.statusCode⟩ hf

theorem Becomes.advances {extra : Bool} (h : r.Becomes o extra t) : r.Advances t := by
  induction h with
  | refl => exact .refl r
  | tail _ hchange ih =>
    refine ih.trans ?_
    cases hchange with
    | quiet hquiet => exact hquiet.advances
    | extra _ headers => exact extra_advances _ headers
    | send data sendMore metadata => exact send_advances o _ data sendMore metadata

theorem calls_advances (o : Outside) (r : Response) (cs : List Call) : r.Advances (calls o r cs) := by
  induction cs generalizing r with
  | nil => exact .refl r
  | cons c cs ih =>
    refine Advances.trans ?_ (ih (call o r c))
    cases c with
    | response op =>
      have hop : r.Becomes o true (settled (r.apply o op)) := apply_becomes r fun _ => rfl
      exact hop.advances
    | send data sendMore metadata => exact send_advances o r data sendMore metadata

theorem answerError_advances {P : Type} (o : Outside) (r : Response) (c : HandlerClass P) (raised : Option CacheError) :
    r.Advances (answerError o ⟨raised, r, c⟩).1 := by
  cases raised with
  | none => exact .refl r
  | some e =>
    have hsend := (setStatusCode_quiet r 500).advances.trans (send_advances o _ workerInternalError false none)
    simp only [answerError]
    split
    · exact .refl r
    · split
      · rename_i t ht
        rw [ht] at hsend
        exact hsend
      · rename_i t ht
        rw [ht] at hsend
        exact hsend

theorem frames_follow_grammar {P : Type} (o : Outside) (clientId correlationId : Frame) (request : RequestMessage)
    (cs : List Call) (c : HandlerClass P) (raised : Option CacheError) :
    ∃ frames, (answerError o ⟨raised, calls o (new (.new clientId correlationId request)) cs, c⟩).1.sent =
      frames.map (fun f => [clientId, correlationId, f]) ∧ Grammatical frames := by
  have hcalls := calls_advances o (new (.new clientId correlationId request)) cs
  obtain ⟨fs, hemits, hstage⟩ := hcalls.trans (answerError_advances o _ c raised) [] (.unsent rfl)
  exact ⟨fs, hemits.sent, hstage.grammatical⟩

end Response

end Qgis
