import PyQgisServer.Handlers.Arguments
import PyQgisServer.Library.Json
import PyQgisServer.Library.StrFormat

namespace Handlers

open Zmq Urllib

-- a monitor without dynamic routing has no default key
structure Monitor where
  globalTags : PyDict Str Str
  dynamicRouting : Bool
  routingKey : Str
  defaultRouting : Option Str

def Monitor.init (globalTags : PyDict Str Str) (routingKey : Str) (defaultRouting : Option Str) : Monitor :=
  match routingKey with
  | '@' :: key => ⟨globalTags, true, key, defaultRouting⟩
  | key => ⟨globalTags, false, key, none⟩

-- what a field of the routing key may stand for: META, a header, or something that is reached from these
inductive MetaObject (X : Type) where
  | headers (d : PyDict String String)
  | text (s : Str)
  | other (x : X)

def metaName : Str := "META".toList

-- the items of META and the texts without a specification; rest has the attributes and all the others
def metaObjects {X : Type} (rest : StrFormat.Objects (MetaObject X)) (headers : PyDict String String) :
    StrFormat.Objects (MetaObject X) where
  decimal := rest.decimal
  argument name := if name = metaName then some (.headers headers) else none
  getattr := rest.getattr
  getitem
    | .headers d, .inl name =>
      match d.get? (String.ofList name) with
      | none => .error .keyError
      | some value => .ok (.text value.toList)
    | .headers _, .inr _ => .error .keyError
    | o, index => rest.getitem o index
  convert := rest.convert
  format
    | .text s, [] => .ok s
    | o, spec => rest.format o spec

inductive EmitError where
  | unicodeDecodeError
  | unboundLocalError
  | typeError
  | format (e : StrFormat.Error)
  | publish

structure Publication where
  data : PyDict Str Json.Value
  message : Str
  routingKey : Str

namespace Monitor

variable {X : Type} (m : Monitor) (rest : StrFormat.Objects (MetaObject X)) (headers : PyDict String String)

-- without a default key the name routing_key is not bound
def route : Except EmitError Str :=
  if m.dynamicRouting then
    match StrFormat.format (metaObjects rest headers) m.routingKey with
    | .ok key => .ok key
    | .error .keyError =>
      match m.defaultRouting with
      | some (c :: key) => .ok (c :: key)
      | _ => .error .unboundLocalError
    | .error e => .error (.format e)
  else .ok m.routingKey

def data (params : PyDict Str Json.Value) (key : Str) : PyDict Str Json.Value :=
  ((m.globalTags.mapValues Json.Value.str).set "ROUTING_KEY".toList (.str key)).update params

-- published tells whether the client takes the message
def emit (published : Publication → Bool) (params : PyDict Str Json.Value) : Except EmitError Publication := do
  let key ← m.route rest headers
  match Json.dumps false (.dict (m.data params key).items) with
  | none => .error .typeError
  | some message =>
    let p : Publication := ⟨m.data params key, message, key⟩
    if published p then .ok p else .error .publish

end Monitor

-- _service_name of the handler, the path of the request, and what get_all gives of its headers, each value of a
-- repeated header on its own
structure Endpoint where
  service : Str
  path : Str
  getAll : List (String × String)

-- a repeated header keeps the last value
def Endpoint.headers (e : Endpoint) : PyDict String String := e.getAll.foldl (fun d x => d.set x.1 x.2) .empty

def toDict (params : List (Str × Json.Value)) : PyDict Str Json.Value := params.foldl (fun d x => d.set x.1 x.2) .empty

def OAPIHandler.getMonitorParams (e : Endpoint) (args : Arguments) : List (Str × Json.Value) :=
  [(mapName, match args.get? mapName with
    | none => .str "__unknown__".toList
    | some v => .list (v.all.map .bytes)),
   ("SERVICE".toList, .str e.service), ("REQUEST".toList, .str e.path)]

def FrontHandler.monitorParams (e : Endpoint) (args : Arguments) :
    FrontHandler → Except EmitError (PyDict Str Json.Value)
  | .ows =>
    match OwsHandler.getMonitorParams args with
    | none => .error .unicodeDecodeError
    | some params => .ok (toDict (params.map fun x => (x.1.toList, .str x.2)))
  | .oapi => .ok (toDict (OAPIHandler.getMonitorParams e args))

structure Outcome where
  status : ℤ
  responseTime : ℚ
  metadata : Dict

def truncate (q : ℚ) : ℤ := q.num.tdiv q.den

def toJson : PyVal → Json.Value
  | .none => .null
  | .int n => .int n
  | .str s => .str s.toList

def Outcome.params (o : Outcome) : PyDict Str Json.Value :=
  toDict [("RESPONSE_TIME".toList, .int (truncate (o.responseTime * 1000))), ("RESPONSE_STATUS".toList, .int o.status),
    ("RESPONSE_MEMUSED".toList, ((o.metadata.find "mem_used").map toJson).getD (.int 0))]

section emit

variable {X : Type} (rest : StrFormat.Objects (MetaObject X)) (published : Publication → Bool) (monitor : Option Monitor)
  (t : Texts) (e : Endpoint) (r : ArgRequest) (o : Outcome)

-- the parameters are never empty
def AsyncClientHandler.emit : Except EmitError (Option Publication) :=
  match monitor with
  | none => .ok none
  | some m => do
    let params ← r.front.monitorParams e (r.prepared t)
    (m.emit rest e.headers published (params.update o.params)).map some

def Emitted : Prop :=
  ∃ publication, AsyncClientHandler.emit rest published monitor t e r o = .ok publication ∧
    ∀ p ∈ publication, Json.dumps false (.dict p.data.items) = some p.message ∧
      ∀ v, mapValues t r.args r.front = some v → p.data.get? mapName = some (.str (decodeBytes v.first))

structure Routed (m : Monitor) : Prop where
  formatted : m.dynamicRouting = true →
    (∃ key, StrFormat.format (metaObjects rest e.headers) m.routingKey = .ok key) ∨
      StrFormat.format (metaObjects rest e.headers) m.routingKey = .error .keyError ∧
        ∃ c key, m.defaultRouting = some (c :: key)

structure Monitorable (m : Monitor) : Prop where
  routed : Routed rest e m
  request : r.front = .ows → ∀ v, (r.prepared t).get? "REQUEST".toList = some v → (decodeStrict v.first).isSome = true
  map : r.front = .oapi → mapValues t r.args .oapi = none

end emit

section params

theorem forall_values_toDict {p : Json.Value → Prop} {l : List (Str × Json.Value)} (h : ∀ x ∈ l, p x.2) :
    ∀ v ∈ (toDict l).values, p v := by
  suffices hfold : ∀ d : PyDict Str Json.Value, (∀ v ∈ d.values, p v) →
      ∀ v ∈ (l.foldl (fun d x => d.set x.1 x.2) d).values, p v from
    hfold .empty nofun
  intro d hd
  induction l generalizing d with
  | nil => exact hd
  | cons x l ih =>
    obtain ⟨hx, hl⟩ := List.forall_mem_cons.mp h
    exact ih hl _ (PyDict.forall_values_set hd x.1 hx)

def Serialisable (v : Json.Value) : Prop := (Json.dumps false v).isSome = true

theorem serialisable_str (s : Str) : Serialisable (.str s) := by
  rw [Serialisable, Json.dumps_str]
  rfl

theorem serialisable_int (n : ℤ) : Serialisable (.int n) := by
  rw [Serialisable, Json.dumps_int]
  rfl

theorem serialisable_toJson (v : PyVal) : Serialisable (toJson v) := by
  cases v with
  | none =>
    rw [Serialisable, toJson, Json.dumps]
    rfl
  | int n => exact serialisable_int n
  | str s => exact serialisable_str s.toList

theorem not_serialisable_bytes (v : ArgValues) : ¬ Serialisable (.list (v.all.map .bytes)) := by
  rw [Serialisable, Json.dumps, ArgValues.all, List.map_cons, Json.dumpsList, Json.dumps]
  exact Bool.false_ne_true

theorem outcome_serialisable (o : Outcome) : ∀ v ∈ o.params.values, Serialisable v := by
  refine forall_values_toDict fun x hx => ?_
  simp only [List.mem_cons, List.not_mem_nil, or_false] at hx
  obtain rfl | rfl | rfl := hx
  · exact serialisable_int _
  · exact serialisable_int _
  · cases o.metadata.find "mem_used" with
    | none => exact serialisable_int 0
    | some v => exact serialisable_toJson v

theorem dumps_data_iff (m : Monitor) (params : PyDict Str Json.Value) (key : Str) :
    (Json.dumps false (.dict (m.data params key).items)).isSome = true ↔ ∀ v ∈ params.values, Serialisable v := by
  have htags : ∀ v ∈ (m.globalTags.mapValues Json.Value.str).values, Serialisable v := by
    intro v hv
    obtain ⟨k, hk⟩ := PyDict.mem_values.mp hv
    rw [PyDict.get?_mapValues] at hk
    obtain ⟨s, -, rfl⟩ := Option.map_eq_some_iff.mp hk
    exact serialisable_str s
  have hbase := PyDict.forall_values_set htags "ROUTING_KEY".toList (serialisable_str key)
  rw [Json.dumps_dict_isSome, ← PyDict.forall_values_update hbase, PyDict.values, List.forall_mem_map]
  rfl

theorem outcome_map (o : Outcome) : o.params.get? mapName = none := by
  have hkeys : o.params.keys = ["RESPONSE_TIME".toList, "RESPONSE_STATUS".toList, "RESPONSE_MEMUSED".toList] := rfl
  rw [PyDict.get?_eq_none, hkeys]
  decide

theorem get?_data (m : Monitor) {params : PyDict Str Json.Value} {v : Json.Value} (h : params.get? mapName = some v)
    (key : Str) (o : Outcome) : (m.data (params.update o.params) key).get? mapName = some v := by
  rw [Monitor.data, PyDict.get?_update, PyDict.get?_update, outcome_map, Option.none_or, h, Option.some_or]

theorem toDict_map (a b c : Json.Value) :
    (toDict [(mapName, a), ("SERVICE".toList, b), ("REQUEST".toList, c)]).get? mapName = some a := rfl

theorem getMonitorParams_eq (args : Arguments) :
    OwsHandler.getMonitorParams args =
      (OwsHandler.monitorParam args "MAP").bind fun map =>
        (OwsHandler.monitorParam args "SERVICE").bind fun service =>
          (OwsHandler.monitorParam args "REQUEST").map fun request =>
            [("MAP", map), ("SERVICE", service), ("REQUEST", request)] := by
  rw [OwsHandler.getMonitorParams, OwsHandler.monitorArguments, List.mapM_cons, List.mapM_cons, List.mapM_cons,
    List.mapM_nil]
  cases OwsHandler.monitorParam args "MAP" with
  | none => rfl
  | some map =>
    cases OwsHandler.monitorParam args "SERVICE" with
    | none => rfl
    | some service =>
      cases OwsHandler.monitorParam args "REQUEST" <;> rfl

theorem monitorParam_isSome (args : Arguments) (name : String) :
    (OwsHandler.monitorParam args name).isSome = true ↔
      ∀ v, args.get? name.toList = some v → (decodeStrict v.first).isSome = true := by
  rw [OwsHandler.monitorParam]
  cases args.get? name.toList with
  | none => simp
  | some v => simp

theorem getArgument_first {t : Texts} {args : Arguments} {name : Str} {x : Option Str}
    (h : getArgument t args name = some x) {v : ArgValues} (hv : args.get? name = some v) :
    (decodeStrict v.first).isSome = true := by
  rw [getArgument, hv] at h
  split at h
  · rename_i hnone
    cases hnone
  · rename_i w hw
    obtain rfl := Option.some.inj hw
    split at h
    · rename_i hall
      exact List.all_eq_true.mp hall v.first List.mem_cons_self
    · cases h

structure Faithful (args : Arguments) (params : PyDict Str Json.Value) : Prop where
  serialisable : ∀ v ∈ params.values, Serialisable v
  map : ∀ v, args.get? mapName = some v → params.get? mapName = some (.str (decodeBytes v.first))

def Decodes (args : Arguments) (name : String) : Prop :=
  ∀ v, args.get? name.toList = some v → (decodeStrict v.first).isSome = true

theorem monitorParams_ows {args : Arguments} (e : Endpoint) (hmap : Decodes args "MAP")
    (hservice : Decodes args "SERVICE") (hrequest : Decodes args "REQUEST") :
    ∃ params, FrontHandler.monitorParams e args .ows = .ok params ∧ Faithful args params := by
  obtain ⟨map, hmap⟩ := Option.isSome_iff_exists.mp ((monitorParam_isSome args "MAP").mpr hmap)
  obtain ⟨service, hservice⟩ := Option.isSome_iff_exists.mp ((monitorParam_isSome args "SERVICE").mpr hservice)
  obtain ⟨request, hrequest⟩ := Option.isSome_iff_exists.mp ((monitorParam_isSome args "REQUEST").mpr hrequest)
  refine ⟨_, by rw [FrontHandler.monitorParams, getMonitorParams_eq, hmap, hservice, hrequest]; rfl, ?_, ?_⟩
  · refine forall_values_toDict fun x hx => ?_
    obtain ⟨y, -, rfl⟩ := List.mem_map.mp hx
    exact serialisable_str y.2
  · intro v hv
    have hfirst : OwsHandler.monitorParam args "MAP" = decodeStrict v.first := by
      rw [OwsHandler.monitorParam]
      change (match args.get? mapName with | none => _ | some v => decodeStrict v.first) = _
      rw [hv]
    rw [hmap] at hfirst
    rw [← (decodeStrict_some hfirst.symm).1]
    exact toDict_map _ _ _

theorem monitorParams_undecoded {args : Arguments} (e : Endpoint) (h : ¬ Decodes args "REQUEST") :
    FrontHandler.monitorParams e args .ows = .error .unicodeDecodeError := by
  have hrequest : OwsHandler.monitorParam args "REQUEST" = none := by
    rw [← Option.not_isSome_iff_eq_none]
    exact mt (monitorParam_isSome args "REQUEST").mp h
  have hnone : OwsHandler.getMonitorParams args = none := by
    rw [getMonitorParams_eq, hrequest]
    simp
  rw [FrontHandler.monitorParams, hnone]

theorem monitorParams_oapi (e : Endpoint) (args : Arguments) :
    ∃ params, FrontHandler.monitorParams e args .oapi = .ok params ∧
      (args.get? mapName = none → Faithful args params) ∧
      ∀ v, args.get? mapName = some v → params.get? mapName = some (.list (v.all.map .bytes)) := by
  refine ⟨_, rfl, fun hnone => ⟨forall_values_toDict fun x hx => ?_, fun v hv => ?_⟩, fun v hv => ?_⟩
  · rw [OAPIHandler.getMonitorParams, hnone] at hx
    simp only [List.mem_cons, List.not_mem_nil, or_false] at hx
    obtain rfl | rfl | rfl := hx <;> exact serialisable_str _
  · rw [hnone] at hv
    cases hv
  · rw [OAPIHandler.getMonitorParams, hv]
    exact toDict_map _ _ _

end params

section emitted

variable {X : Type} {rest : StrFormat.Objects (MetaObject X)} {published : Publication → Bool} {t : Texts}
  {e : Endpoint} {r : ArgRequest} {o : Outcome}

theorem route_iff (m : Monitor) : (∃ key, m.route rest e.headers = .ok key) ↔ Routed rest e m := by
  rw [Monitor.route]
  cases hdynamic : m.dynamicRouting with
  | false => exact iff_of_true ⟨m.routingKey, rfl⟩ ⟨fun h => by rw [hdynamic] at h; cases h⟩
  | true =>
    rw [if_pos rfl]
    constructor
    · rintro ⟨key, hkey⟩
      refine ⟨fun _ => ?_⟩
      cases hformat : StrFormat.format (metaObjects rest e.headers) m.routingKey with
      | ok formatted => exact .inl ⟨formatted, rfl⟩
      | error err =>
        rw [hformat] at hkey
        cases err with
        | keyError =>
          simp only at hkey
          split at hkey
          · rename_i c key' hdefault
            exact .inr ⟨rfl, c, key', hdefault⟩
          · cases hkey
        | indexError => cases hkey
        | valueError => cases hkey
        | attributeError => cases hkey
        | typeError => cases hkey
    · rintro ⟨hformatted⟩
      rcases hformatted hdynamic with ⟨key, hkey⟩ | ⟨hmissing, c, key, hdefault⟩
      · exact ⟨key, by rw [hkey]⟩
      · exact ⟨c :: key, by rw [hmissing, hdefault]⟩

theorem emit_inv {m : Monitor} {headers : PyDict String String} {params : PyDict Str Json.Value} {p : Publication}
    (h : m.emit rest headers published params = .ok p) :
    ∃ key, m.route rest headers = .ok key ∧ p.data = m.data params key ∧
      Json.dumps false (.dict p.data.items) = some p.message := by
  rw [Monitor.emit] at h
  cases hroute : m.route rest headers with
  | error err =>
    rw [hroute] at h
    cases h
  | ok key =>
    rw [hroute] at h
    simp only [bind, Except.bind] at h
    split at h
    · cases h
    · rename_i message hmessage
      split at h
      · obtain rfl := Except.ok.inj h
        exact ⟨key, rfl, rfl, hmessage⟩
      · cases h

theorem emit_publishes (hpublished : ∀ p, published p = true) {m : Monitor} {headers : PyDict String String}
    {params : PyDict Str Json.Value} {key : Str} (hroute : m.route rest headers = .ok key)
    (hparams : ∀ v ∈ params.values, Serialisable v) :
    ∃ p, m.emit rest headers published params = .ok p := by
  obtain ⟨message, hmessage⟩ := Option.isSome_iff_exists.mp ((dumps_data_iff m params key).mpr hparams)
  refine ⟨⟨m.data params key, message, key⟩, ?_⟩
  rw [Monitor.emit, hroute]
  simp only [bind, Except.bind, hmessage, hpublished, if_true]

theorem forward_decodes {cfg : ServerConfig} {getfeaturelimit : ℤ} {f : Forwarded}
    (h : r.forward cfg t getfeaturelimit = some f) :
    Decodes (r.prepared t) "MAP" ∧ Decodes (r.prepared t) "SERVICE" := by
  obtain ⟨map, hmap, hf⟩ := Option.bind_eq_some_iff.mp h
  obtain ⟨service, hservice, -⟩ := Option.map_eq_some_iff.mp hf
  exact ⟨fun v hv => getArgument_first hmap hv, fun v hv => getArgument_first hservice hv⟩

section params

variable {m : Monitor} {params : PyDict Str Json.Value}

theorem emit_eq (monitor : Monitor) (hparams : r.front.monitorParams e (r.prepared t) = .ok params) :
    AsyncClientHandler.emit rest published (some monitor) t e r o =
      (monitor.emit rest e.headers published (params.update o.params)).map some := by
  rw [AsyncClientHandler.emit, hparams]
  rfl

theorem emitted_of_faithful (hpublished : ∀ p, published p = true)
    (hparams : r.front.monitorParams e (r.prepared t) = .ok params) (hfaithful : Faithful (r.prepared t) params)
    (hrouted : Routed rest e m) : Emitted rest published (some m) t e r o := by
  obtain ⟨key, hkey⟩ := (route_iff m).mpr hrouted
  have hvalues : ∀ v ∈ (params.update o.params).values, Serialisable v :=
    (PyDict.forall_values_update hfaithful.serialisable o.params).mpr (outcome_serialisable o)
  obtain ⟨p, hp⟩ := emit_publishes hpublished hkey hvalues
  obtain ⟨key', -, hdata, hmessage⟩ := emit_inv hp
  refine ⟨some p, by rw [emit_eq m hparams, hp]; rfl, ?_⟩
  rintro q ⟨⟩
  refine ⟨hmessage, fun v hv => ?_⟩
  rw [hdata]
  refine get?_data m (hfaithful.map v ?_) key' o
  rw [← hv]
  exact prepare_map t r.args r.front

theorem emitted_inv (hparams : r.front.monitorParams e (r.prepared t) = .ok params)
    (h : Emitted rest published (some m) t e r o) :
    Routed rest e m ∧ ∀ v, params.get? mapName = some v → Serialisable v := by
  obtain ⟨publication, hemit, -⟩ := h
  rw [emit_eq m hparams] at hemit
  cases hp : m.emit rest e.headers published (params.update o.params) with
  | error err =>
    rw [hp] at hemit
    cases hemit
  | ok p =>
    obtain ⟨key, hkey, hdata, hmessage⟩ := emit_inv hp
    refine ⟨(route_iff m).mp ⟨key, hkey⟩, fun v hv => ?_⟩
    rw [hdata] at hmessage
    have hvalues := (dumps_data_iff m (params.update o.params) key).mp (by rw [hmessage]; rfl)
    have hvalue := PyDict.get?_update params o.params mapName
    rw [outcome_map, Option.none_or, hv] at hvalue
    exact hvalues v (PyDict.mem_values.mpr ⟨mapName, hvalue⟩)

theorem emitted_ows_iff (hpublished : ∀ p, published p = true) (hmap : Decodes (r.prepared t) "MAP")
    (hservice : Decodes (r.prepared t) "SERVICE") (hfront : r.front = .ows) :
    Emitted rest published (some m) t e r o ↔ Routed rest e m ∧ Decodes (r.prepared t) "REQUEST" := by
  constructor
  · intro hemitted
    have hrequest : Decodes (r.prepared t) "REQUEST" := by
      by_contra hnot
      obtain ⟨publication, hemit, -⟩ := hemitted
      rw [AsyncClientHandler.emit, hfront, monitorParams_undecoded e hnot] at hemit
      cases hemit
    obtain ⟨params, hparams, -⟩ := monitorParams_ows e hmap hservice hrequest
    exact ⟨(emitted_inv (hfront ▸ hparams) hemitted).1, hrequest⟩
  · rintro ⟨hrouted, hrequest⟩
    obtain ⟨params, hparams, hfaithful⟩ := monitorParams_ows e hmap hservice hrequest
    exact emitted_of_faithful hpublished (hfront ▸ hparams) hfaithful hrouted

theorem emitted_oapi_iff (hpublished : ∀ p, published p = true) (hfront : r.front = .oapi) :
    Emitted rest published (some m) t e r o ↔ Routed rest e m ∧ (r.prepared t).get? mapName = none := by
  obtain ⟨params, hparams, hfaithful, hlist⟩ := monitorParams_oapi e (r.prepared t)
  constructor
  · intro hemitted
    obtain ⟨hrouted, hserialisable⟩ := emitted_inv (hfront ▸ hparams) hemitted
    refine ⟨hrouted, ?_⟩
    cases hv : (r.prepared t).get? mapName with
    | none => rfl
    | some v => exact absurd (hserialisable _ (hlist v hv)) (not_serialisable_bytes v)
  · rintro ⟨hrouted, hmissing⟩
    exact emitted_of_faithful hpublished (hfront ▸ hparams) (hfaithful hmissing) hrouted

end params

theorem emitted_iff (hpublished : ∀ p, published p = true) (cfg : ServerConfig) (getfeaturelimit : ℤ) {f : Forwarded}
    (h : r.forward cfg t getfeaturelimit = some f) (monitor : Option Monitor) (e : Endpoint) (o : Outcome) :
    Emitted rest published monitor t e r o ↔ ∀ m, monitor = some m → Monitorable rest t e r m := by
  cases monitor with
  | none => exact iff_of_true ⟨none, rfl, nofun⟩ nofun
  | some m =>
    obtain ⟨hmap, hservice⟩ := forward_decodes h
    have hprepared : (r.prepared t).get? mapName = mapValues t r.args r.front := prepare_map t r.args r.front
    cases hfront : r.front with
    | ows =>
      have hows : r.front ≠ .oapi := by
        rw [hfront]
        decide
      rw [emitted_ows_iff hpublished hmap hservice hfront]
      constructor
      · rintro ⟨hrouted, hrequest⟩ m' ⟨⟩
        exact ⟨hrouted, fun _ => hrequest, fun hoapi => absurd hoapi hows⟩
      · intro hmonitorable
        obtain ⟨hrouted, hrequest, -⟩ := hmonitorable m rfl
        exact ⟨hrouted, hrequest hfront⟩
    | oapi =>
      have hoapi : r.front ≠ .ows := by
        rw [hfront]
        decide
      rw [emitted_oapi_iff hpublished hfront, hprepared, hfront]
      constructor
      · rintro ⟨hrouted, hmissing⟩ m' ⟨⟩
        exact ⟨hrouted, fun hows => absurd hows hoapi, fun _ => hmissing⟩
      · intro hmonitorable
        obtain ⟨hrouted, -, hmissing⟩ := hmonitorable m rfl
        exact ⟨hrouted, hmissing hfront⟩

end emitted

def plainObjects : StrFormat.Objects (MetaObject Empty) where
  decimal c := if c.isDigit then some (c.toNat - 48) else none
  argument _ := none
  getattr _ _ := .error .attributeError
  getitem
    | .text s, .inr n =>
      match s[n]? with
      | none => .error .indexError
      | some c => .ok (.text [c])
    | _, _ => .error .typeError
  convert _ o := o
  format _ _ := .error .valueError

def staticMonitor : Monitor := .init .empty "qgis".toList none

def okOutcome : Outcome := ⟨200, 0, []⟩

theorem emitted_single_map :
    ∃ f, (mapRequest ⟨Urllib.encode "a".toList, []⟩).forward defaultConfig plainTexts (-1) = some f ∧
      Emitted plainObjects (fun _ => true) (some staticMonitor) plainTexts ⟨[], [], []⟩
        (mapRequest ⟨Urllib.encode "a".toList, []⟩) okOutcome := by
  refine ⟨_, rfl, (emitted_iff (fun _ => rfl) defaultConfig (-1) rfl (some staticMonitor) ⟨[], [], []⟩ okOutcome).mpr ?_⟩
  rintro m ⟨⟩
  refine ⟨⟨fun hdynamic => by cases hdynamic⟩, fun _ v hv => ?_, fun hfront => by cases hfront⟩
  cases hv

def apiRequest (values : ArgValues) : ArgRequest where
  front := .oapi
  client := requestWith "Accept" "application/json"
  args := PyDict.empty.set mapName values
  body := []
  bodyArguments := false
  method := "GET"
  allowed := by decide

theorem api_map_not_emitted :
    ¬ ∀ (monitor : Option Monitor) (t : Texts) (cfg : ServerConfig) (getfeaturelimit : ℤ) (r : ArgRequest)
      (f : Forwarded) (e : Endpoint) (o : Outcome), r.forward cfg t getfeaturelimit = some f →
      Emitted plainObjects (fun _ => true) monitor t e r o := by
  intro h
  have hemitted := h (some staticMonitor) plainTexts defaultConfig (-1) (apiRequest ⟨Urllib.encode "a".toList, []⟩) _
    ⟨"WFS3".toList, "/wfs3".toList, []⟩ okOutcome rfl
  have hmonitorable := (emitted_iff (fun _ => rfl) defaultConfig (-1) rfl (some staticMonitor) _ okOutcome).mp hemitted
  cases (hmonitorable staticMonitor rfl).map rfl

end Handlers
