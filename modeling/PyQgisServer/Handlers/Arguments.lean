import Mathlib
import PyQgisServer.Handlers.Whitelist
import PyQgisServer.Library.PyStr
import PyQgisServer.Library.Urllib.Quote

namespace Handlers

open Zmq Urllib

-- the values of an argument, those of the query first; there is always one
structure ArgValues where
  first : Bytes
  more : List Bytes

def ArgValues.all (v : ArgValues) : List Bytes := v.first :: v.more

def ArgValues.last (v : ArgValues) : Bytes := v.more.getLastD v.first

abbrev Arguments := PyDict Str ArgValues

-- str.upper, and what get_argument takes off the text of a value
structure Texts where
  upper : Str → Str
  strip : Str → Str
  upper_upper : ∀ s, upper (upper s) = upper s
  upper_capitals : ∀ s : Str, s.all Char.isUpper = true → upper s = s

def mapName : Str := "MAP".toList

namespace OwsHandler

def prepare (t : Texts) (args : Arguments) : Arguments :=
  args.items.foldl (fun d x => d.set (t.upper x.1) x.2) .empty

section fixGetfeature

def isBlank (b : UInt8) : Bool := b == 32 || (9 ≤ b && b ≤ 13)

def isDigit (b : UInt8) : Bool := 48 ≤ b && b ≤ 57

-- decimal digits, zeros in front counted, with single underscores between them
def digits (s : Bytes) : Option ℤ :=
  if (s.splitOn 95).all (fun group => group ≠ [] && group.all isDigit) ∧
      (s.splitOn 95).flatten.length ≤ PyStr.maxStrDigits then
    some ((s.splitOn 95).flatten.foldl (fun n b => 10 * n + (b.toNat - 48)) 0)
  else none

-- int of bytes, none for ValueError
def pyInt (s : Bytes) : Option ℤ :=
  match (s.dropWhile isBlank).rdropWhile isBlank with
  | 43 :: rest => digits rest
  | 45 :: rest => (digits rest).map (- ·)
  | rest => digits rest

def upperByte (b : UInt8) : UInt8 := if 97 ≤ b ∧ b ≤ 122 then b - 32 else b

def lowerByte (b : UInt8) : UInt8 := if 65 ≤ b ∧ b ≤ 90 then b + 32 else b

variable (getfeaturelimit : ℤ) (arguments : PyDict Str Bytes)

def isGetFeature : Bool :=
  ((arguments.get? "SERVICE".toList).getD []).map upperByte == Urllib.encode "WFS".toList &&
    ((arguments.get? "REQUEST".toList).getD []).map lowerByte == Urllib.encode "getfeature".toList

def limitKey : Str :=
  if (Urllib.encode "2.".toList).isPrefixOf ((arguments.get? "VERSION".toList).getD []) then "COUNT".toList
  else "MAXFEATURES".toList

def actualLimit (key : Str) : Option ℤ :=
  match arguments.get? key with
  | none => some 0
  | some value => pyInt value

def limit (key : Str) : ℤ :=
  match actualLimit arguments key with
  | some n => if n > 0 then min getfeaturelimit n else getfeaturelimit
  | none => getfeaturelimit

def fixGetfeature : PyDict Str Bytes :=
  if getfeaturelimit > 0 && isGetFeature arguments then
    arguments.set (limitKey arguments)
      (Urllib.encode (toString (limit getfeaturelimit arguments (limitKey arguments))).toList)
  else arguments

end fixGetfeature

def monitorArguments : List String := ["MAP", "SERVICE", "REQUEST"]

def monitorParam (args : Arguments) (name : String) : Option Str :=
  match args.get? name.toList with
  | none => some "__unknown__".toList
  | some v => decodeStrict v.first

-- none for UnicodeDecodeError
def getMonitorParams (args : Arguments) : Option (List (String × Str)) :=
  monitorArguments.mapM fun name => (monitorParam args name).map (name, ·)

end OwsHandler

namespace OAPIHandler

def prepare (t : Texts) (args : Arguments) : Arguments :=
  if mapName ∈ args.keys then args
  else
    match args.items.find? fun x => t.upper x.1 = mapName with
    | none => args
    | some x => (args.erase x.1).set mapName x.2

end OAPIHandler

namespace FrontHandler

def prepare (t : Texts) : FrontHandler → Arguments → Arguments
  | .ows => OwsHandler.prepare t
  | .oapi => OAPIHandler.prepare t

def firstArguments (getfeaturelimit : ℤ) (front : FrontHandler) (args : Arguments) : PyDict Str Bytes :=
  match front with
  | .ows => OwsHandler.fixGetfeature getfeaturelimit (args.mapValues ArgValues.first)
  | .oapi => args.mapValues ArgValues.first

def encodeArguments (getfeaturelimit : ℤ) (front : FrontHandler) (args : Arguments) : Str :=
  '?' :: urlencode (front.firstArguments getfeaturelimit args).items

end FrontHandler

-- the last value of the argument without the blanks around it, none for the status 400 of a value
-- that is no UTF-8
def getArgument (t : Texts) (args : Arguments) (name : Str) : Option (Option Str) :=
  match args.get? name with
  | none => some none
  | some v =>
    if v.all.all fun b => (decodeStrict b).isSome then some (some (t.strip (decodeBytes v.last))) else none

structure ArgRequest where
  front : FrontHandler
  client : ClientRequest
  args : Arguments
  body : Bytes
  bodyArguments : Bool
  method : String
  allowed : method ∈ front.methods

namespace ArgRequest

section forward

variable (cfg : ServerConfig) (t : Texts) (getfeaturelimit : ℤ) (r : ArgRequest)

def prepared : Arguments := r.front.prepare t r.args

def forward : Option Forwarded :=
  (getArgument t (r.prepared t) mapName).bind fun map =>
    (getArgument t (r.prepared t) "SERVICE".toList).map fun service =>
      r.client.forward cfg (map.map String.ofList)
        (String.ofList (r.front.encodeArguments getfeaturelimit (r.prepared t)))
        ⟨r.body, service.getD [] ≠ [], r.bodyArguments⟩ r.front r.method r.allowed

end forward

end ArgRequest

section prepared

variable (t : Texts) (args : Arguments)

-- the values that a handler takes for those of MAP: for OWS the last of the arguments that read
-- MAP in any case, for the API MAP itself or else the first of the others
def mapValues : FrontHandler → Option ArgValues
  | .ows => ((args.items.filter fun x => t.upper x.1 = mapName).getLast?).map Prod.snd
  | .oapi => (args.get? mapName).or ((args.items.find? fun x => t.upper x.1 = mapName).map Prod.snd)

theorem get?_upper (items : List (Str × ArgValues)) (d : Arguments) (k : Str) :
    (items.foldl (fun d x => d.set (t.upper x.1) x.2) d).get? k =
      (((items.filter fun x => t.upper x.1 = k).getLast?).map Prod.snd).or (d.get? k) := by
  induction items generalizing d with
  | nil => rfl
  | cons x items ih =>
    rw [List.foldl_cons, ih, PyDict.get?_set]
    by_cases hk : t.upper x.1 = k
    · rw [if_pos hk.symm, List.filter_cons_of_pos (by simpa using hk), List.getLast?_cons]
      cases (items.filter fun x => t.upper x.1 = k).getLast? <;> rfl
    · rw [if_neg (Ne.symm hk), List.filter_cons_of_neg (by simpa using hk)]

theorem ows_keys {k : Str} (h : k ∈ (OwsHandler.prepare t args).keys) : t.upper k = k := by
  obtain ⟨v, hv⟩ := PyDict.mem_keys.mp h
  rw [OwsHandler.prepare, get?_upper] at hv
  have hnone : (PyDict.empty : Arguments).get? k = none := rfl
  rw [hnone, Option.or_none] at hv
  obtain ⟨x, hx, -⟩ := Option.map_eq_some_iff.mp hv
  have hk : t.upper x.1 = k := by simpa using (List.mem_filter.mp (List.mem_of_getLast? hx)).2
  rw [← hk, t.upper_upper]

theorem prepare_map (front : FrontHandler) : (front.prepare t args).get? mapName = mapValues t args front := by
  cases front with
  | ows =>
    have hnone : (PyDict.empty : Arguments).get? mapName = none := rfl
    rw [FrontHandler.prepare, OwsHandler.prepare, get?_upper, hnone, Option.or_none]
    rfl
  | oapi =>
    rw [FrontHandler.prepare, OAPIHandler.prepare, mapValues]
    split
    · rename_i hmem
      obtain ⟨v, hv⟩ := PyDict.mem_keys.mp hmem
      rw [hv]
      rfl
    · rename_i hnot
      rw [PyDict.get?_eq_none.mpr hnot, Option.none_or]
      split
      · rename_i hfind
        rw [hfind, PyDict.get?_eq_none.mpr hnot]
        rfl
      · rename_i x hfind
        rw [hfind, PyDict.get?_set, if_pos rfl]
        rfl

theorem upper_mapName : t.upper mapName = mapName := t.upper_capitals mapName (by decide)

theorem oapi_alone_iff (h : (mapValues t args .oapi).isSome = true) :
    (∀ k ∈ (OAPIHandler.prepare t args).keys, t.upper k = mapName → k = mapName) ↔
      ∀ k ∈ args.keys, ∀ l ∈ args.keys, t.upper k = mapName → t.upper l = mapName → k = l := by
  unfold OAPIHandler.prepare
  split
  · rename_i hmem
    constructor
    · intro hall k hk l hl hupper hupper'
      rw [hall k hk hupper, hall l hl hupper']
    · intro hall k hk hupper
      exact hall k hk mapName hmem hupper (upper_mapName t)
  · rename_i hnot
    split
    · rename_i hfind
      rw [mapValues, hfind, PyDict.get?_eq_none.mpr hnot] at h
      cases h
    · rename_i x hfind
      have hx : x.1 ∈ args.keys := List.mem_map.mpr ⟨x, List.mem_of_find?_eq_some hfind, rfl⟩
      have hupperx : t.upper x.1 = mapName := by simpa using List.find?_some hfind
      have hkeys : ∀ k, k ∈ ((args.erase x.1).set mapName x.2).keys ↔ k = mapName ∨ k ∈ args.keys ∧ k ≠ x.1 := by
        intro k
        rw [PyDict.mem_keys_set, PyDict.keys_erase, List.mem_filter, decide_eq_true_eq]
      constructor
      · intro hall k hk l hl hupper hupper'
        have hsame : ∀ m ∈ args.keys, t.upper m = mapName → m = x.1 := by
          intro m hm hupperm
          by_contra hne
          have heq := hall m ((hkeys m).mpr (.inr ⟨hm, hne⟩)) hupperm
          exact hnot (heq ▸ hm)
        rw [hsame k hk hupper, hsame l hl hupper']
      · intro hall k hk hupper
        rcases (hkeys k).mp hk with heq | ⟨hmem, hne⟩
        · exact heq
        · exact absurd (hall k hmem x.1 hx hupper hupperx) hne

end prepared

section location

variable (cfg : ServerConfig) (t : Texts) (getfeaturelimit : ℤ) (ignoreCase : Bool) (r : ArgRequest)

def readsMap (name : Str) : Bool := if ignoreCase then t.upper name == mapName else name == mapName

structure SeesLocation (m : RequestMessage) : Prop where
  query : ∀ loc, m.headers.find "X-Map-Location" = some (.str (String.ofList loc)) →
    ((formPairs m.query.toList.tail).filter fun x => readsMap t ignoreCase x.1) = [(mapName, loc)]
  monitor : ∀ loc, m.headers.find "X-Map-Location" = some (.str (String.ofList loc)) → r.front = .ows →
    ∀ params, OwsHandler.getMonitorParams (r.prepared t) = some params → params.lookup "MAP" = some loc

def clientLocation : Option Str :=
  (if Passes cfg "X-Map-Location" then r.client.headers.get? "X-Map-Location" else none).map String.toList

def lastMap : Option Str :=
  ((mapValues t r.args r.front).map fun v => t.strip (decodeBytes v.last)).filter (· ≠ [])

structure MapsAgree : Prop where
  first : ∀ loc, (clientLocation cfg r).or (lastMap t r) = some loc →
    ((mapValues t r.args r.front).map fun v => decodeBytes v.first) = some loc
  alone : ((clientLocation cfg r).or (lastMap t r)).isSome = true → ignoreCase = true → r.front = .oapi →
    ∀ k ∈ r.args.keys, ∀ l ∈ r.args.keys, t.upper k = mapName → t.upper l = mapName → k = l

theorem limitKey_capitals (arguments : PyDict Str Bytes) :
    (OwsHandler.limitKey arguments).all Char.isUpper = true ∧ OwsHandler.limitKey arguments ≠ mapName := by
  unfold OwsHandler.limitKey
  split
  · decide
  · decide

theorem get?_fixGetfeature (arguments : PyDict Str Bytes) :
    (OwsHandler.fixGetfeature getfeaturelimit arguments).get? mapName = arguments.get? mapName := by
  unfold OwsHandler.fixGetfeature
  split
  · rw [PyDict.get?_set, if_neg (Ne.symm (limitKey_capitals arguments).2)]
  · rfl

theorem keys_fixGetfeature {arguments : PyDict Str Bytes} {k : Str}
    (h : k ∈ (OwsHandler.fixGetfeature getfeaturelimit arguments).keys) :
    k ∈ arguments.keys ∨ k = OwsHandler.limitKey arguments := by
  unfold OwsHandler.fixGetfeature at h
  split at h
  · obtain ⟨v, hv⟩ := PyDict.mem_keys.mp h
    rw [PyDict.get?_set] at hv
    split at hv
    · rename_i hk
      exact .inr hk
    · exact .inl (PyDict.mem_keys.mpr ⟨v, hv⟩)
  · exact .inl h

theorem firstArguments_map :
    (r.front.firstArguments getfeaturelimit (r.prepared t)).get? mapName =
      (mapValues t r.args r.front).map ArgValues.first := by
  rw [← prepare_map, ← PyDict.get?_mapValues, ArgRequest.prepared]
  cases r.front with
  | ows => exact get?_fixGetfeature _ _
  | oapi => rfl

theorem ows_alone {k : Str}
    (h : k ∈ (FrontHandler.firstArguments getfeaturelimit .ows (FrontHandler.prepare t .ows r.args)).keys)
    (hupper : t.upper k = mapName) : k = mapName := by
  have hkey : t.upper k = k := by
    rcases keys_fixGetfeature _ h with hmem | rfl
    · rw [PyDict.keys_mapValues] at hmem
      exact ows_keys t r.args hmem
    · exact t.upper_capitals _ (limitKey_capitals _).1
  rw [← hkey, hupper]

theorem firstArguments_alone_iff (h : (mapValues t r.args r.front).isSome = true) :
    (∀ k ∈ (r.front.firstArguments getfeaturelimit (r.prepared t)).keys, readsMap t ignoreCase k = true → k = mapName) ↔
      (ignoreCase = true → r.front = .oapi →
        ∀ k ∈ r.args.keys, ∀ l ∈ r.args.keys, t.upper k = mapName → t.upper l = mapName → k = l) := by
  cases ignoreCase with
  | false => simp [readsMap]
  | true =>
    simp only [readsMap, if_true, beq_iff_eq, true_implies]
    rw [ArgRequest.prepared]
    cases hfront : r.front with
    | ows =>
      refine iff_of_true (fun k hk hupper => ?_) (fun hoapi => by cases hoapi)
      exact ows_alone t getfeaturelimit r hk hupper
    | oapi =>
      rw [hfront] at h
      rw [FrontHandler.firstArguments, PyDict.keys_mapValues, FrontHandler.prepare, oapi_alone_iff t r.args h]
      simp

theorem formPairs_firstArguments (loc : Str) :
    ((formPairs (r.front.encodeArguments getfeaturelimit (r.prepared t)).tail).filter
      fun x => readsMap t ignoreCase x.1) = [(mapName, loc)] ↔
      ((mapValues t r.args r.front).map fun v => decodeBytes v.first) = some loc ∧
        (ignoreCase = true → r.front = .oapi →
          ∀ k ∈ r.args.keys, ∀ l ∈ r.args.keys, t.upper k = mapName → t.upper l = mapName → k = l) := by
  have hreads : readsMap t ignoreCase mapName = true := by
    unfold readsMap
    split
    · rw [upper_mapName, beq_self_eq_true]
    · rw [beq_self_eq_true]
  have hitems : (formPairs (r.front.encodeArguments getfeaturelimit (r.prepared t)).tail).filter
      (fun x => readsMap t ignoreCase x.1) =
      (((r.front.firstArguments getfeaturelimit (r.prepared t)).mapValues decodeBytes).filterKeys
        (readsMap t ignoreCase)).items := by
    rw [FrontHandler.encodeArguments, List.tail_cons, formPairs_urlencode]
    rfl
  have hmap : (((mapValues t r.args r.front).map ArgValues.first).map decodeBytes) =
      (mapValues t r.args r.front).map fun v => decodeBytes v.first := by
    rw [Option.map_map]
    rfl
  rw [hitems, PyDict.items_filterKeys_eq_singleton, PyDict.get?_mapValues, firstArguments_map, hmap,
    PyDict.keys_mapValues]
  simp only [hreads, true_and]
  refine and_congr_right fun hfirst => ?_
  refine firstArguments_alone_iff t getfeaturelimit ignoreCase r ?_
  rw [← Option.isSome_map, hfirst]
  rfl

theorem getArgument_map {map : Option Str} (h : getArgument t (r.prepared t) mapName = some map) :
    map = (mapValues t r.args r.front).map fun v => t.strip (decodeBytes v.last) := by
  rw [getArgument, ArgRequest.prepared, prepare_map] at h
  split at h
  · rename_i hnone
    rw [hnone, ← Option.some.inj h]
    rfl
  · rename_i v hsome
    split at h
    · rw [hsome, ← Option.some.inj h]
      rfl
    · cases h

structure Forwards (f : Forwarded) : Prop where
  query : f.message.query.toList = r.front.encodeArguments getfeaturelimit (r.prepared t)
  location : f.message.headers.find "X-Map-Location" =
    ((clientLocation cfg r).or (lastMap t r)).map fun loc => .str (String.ofList loc)

theorem message_query (f : Forwarded) : f.message.query = f.query := by
  unfold Forwarded.message forwarded
  split <;> rfl

theorem forward_forwards {f : Forwarded} (h : r.forward cfg t getfeaturelimit = some f) :
    Forwards cfg t getfeaturelimit r f := by
  obtain ⟨map, hmap, hf⟩ := Option.bind_eq_some_iff.mp h
  obtain ⟨service, -, rfl⟩ := Option.map_eq_some_iff.mp hf
  refine ⟨?_, ?_⟩
  · rw [message_query, ClientRequest.forward, String.toList_ofList]
  · have hown := find_ownHeaders_computed cfg r.client (map.map String.ofList) r.front _ List.mem_cons_self
    have hempty : ∀ s : Str, String.ofList s = "" ↔ s = [] := fun s => by
      rw [← String.toList_inj, String.toList_ofList, String.toList_empty]
    have hlast : (map.map String.ofList).filter (· ≠ "") = (lastMap t r).map String.ofList := by
      rw [lastMap, ← getArgument_map t r hmap]
      cases map with
      | none => rfl
      | some s =>
        by_cases hs : s = []
        · subst hs
          rfl
        · have hne : String.ofList s ≠ "" := mt (hempty s).mp hs
          simp [Option.filter, hs, hne]
    rw [find_received, hown, hlast, clientLocation]
    cases hclient : (if Passes cfg "X-Map-Location" then r.client.headers.get? "X-Map-Location" else none) with
    | none => simp [Option.map_map, Function.comp_def]
    | some loc => simp

theorem monitor_map {params : List (String × Str)} (h : OwsHandler.getMonitorParams (r.prepared t) = some params)
    {loc : Str} (hfirst : ((mapValues t r.args r.front).map fun v => decodeBytes v.first) = some loc) :
    params.lookup "MAP" = some loc := by
  obtain ⟨v, hv, rfl⟩ := Option.map_eq_some_iff.mp hfirst
  have hprepared : (r.prepared t).get? "MAP".toList = some v := by
    rw [← hv, ← prepare_map]
    rfl
  rw [OwsHandler.getMonitorParams, OwsHandler.monitorArguments, List.mapM_cons] at h
  obtain ⟨x, hx, hrest⟩ := Option.bind_eq_some_iff.mp h
  obtain ⟨rest, -, hparams⟩ := Option.bind_eq_some_iff.mp hrest
  obtain rfl := Option.some.inj hparams
  obtain ⟨value, hvalue, rfl⟩ := Option.map_eq_some_iff.mp hx
  rw [OwsHandler.monitorParam, hprepared] at hvalue
  rw [List.lookup_cons_self, (decodeStrict_some hvalue).1]

theorem seesLocation_iff {f : Forwarded} (h : r.forward cfg t getfeaturelimit = some f) :
    SeesLocation t ignoreCase r f.message ↔ MapsAgree cfg t ignoreCase r := by
  obtain ⟨hquery, hlocation⟩ := forward_forwards cfg t getfeaturelimit r h
  have hfind : ∀ loc, f.message.headers.find "X-Map-Location" = some (.str (String.ofList loc)) ↔
      (clientLocation cfg r).or (lastMap t r) = some loc := by
    intro loc
    rw [hlocation, Option.map_eq_some_iff]
    constructor
    · rintro ⟨loc', hloc, heq⟩
      rw [hloc, String.ofList_injective (PyVal.str.inj heq)]
    · intro hloc
      exact ⟨loc, hloc, rfl⟩
  constructor
  · intro hsees
    have hboth := fun loc hloc => (formPairs_firstArguments t getfeaturelimit ignoreCase r loc).mp
      (hquery ▸ hsees.query loc ((hfind loc).mpr hloc))
    refine ⟨fun loc hloc => (hboth loc hloc).1, fun hsome => ?_⟩
    obtain ⟨loc, hloc⟩ := Option.isSome_iff_exists.mp hsome
    exact (hboth loc hloc).2
  · intro hagree
    refine ⟨fun loc hloc => ?_, fun loc hloc _ params hparams => ?_⟩
    · have hloc := (hfind loc).mp hloc
      rw [hquery]
      exact (formPairs_firstArguments t getfeaturelimit ignoreCase r loc).mpr
        ⟨hagree.first loc hloc, hagree.alone (hloc ▸ rfl)⟩
    · exact monitor_map t r hparams (hagree.first loc ((hfind loc).mp hloc))

end location

def plainTexts : Texts where
  upper := List.map Char.toUpper
  strip s := (s.dropWhile Char.isWhitespace).rdropWhile Char.isWhitespace
  upper_upper s := by
    rw [List.map_map]
    exact List.map_congr_left fun c _ => c.toUpper_toUpper_eq_toUpper
  upper_capitals s h := by
    refine (List.map_congr_left fun c hc => ?_).trans s.map_id
    exact Char.toUpper_eq_of_not_isLower (Char.not_isLower_of_isUpper (List.all_eq_true.mp h c hc))

def mapRequest (values : ArgValues) : ArgRequest where
  front := .ows
  client := requestWith "Accept" "text/xml"
  args := PyDict.empty.set "map".toList values
  body := []
  bodyArguments := false
  method := "GET"
  allowed := List.mem_cons_self

theorem sees_single_map :
    ∃ f, (mapRequest ⟨Urllib.encode "a".toList, []⟩).forward defaultConfig plainTexts (-1) = some f ∧
      SeesLocation plainTexts true (mapRequest ⟨Urllib.encode "a".toList, []⟩) f.message := by
  refine ⟨_, rfl, (seesLocation_iff defaultConfig plainTexts (-1) true
    (mapRequest ⟨Urllib.encode "a".toList, []⟩) rfl).mpr ⟨fun loc hloc => ?_, fun _ _ hfront => ?_⟩⟩
  · rw [← hloc]
    decide +kernel
  · cases hfront

-- the header is the last of two values and the query keeps the first
theorem repeated_map_differs :
    ¬ ∀ (cfg : ServerConfig) (t : Texts) (getfeaturelimit : ℤ) (ignoreCase : Bool) (r : ArgRequest) (f : Forwarded),
      r.forward cfg t getfeaturelimit = some f → SeesLocation t ignoreCase r f.message := by
  intro h
  have hagree := (seesLocation_iff defaultConfig plainTexts (-1) true
    (mapRequest ⟨Urllib.encode "a".toList, [Urllib.encode "b".toList]⟩) rfl).mp (h _ _ _ _ _ _ rfl)
  have hfirst := hagree.first "b".toList (by decide +kernel)
  exact absurd hfirst (by decide)

end Handlers
