import PyQgisServer.Cache.PostgresQuery
import PyQgisServer.Library.Postgres.Reading

namespace QgsCache

open Urllib Postgres

def selectWord : Text := "select".toList

def fromWord : Text := "from".toList

def whereWord : Text := "where".toList

def metadataColumn : Text := "metadata".toList

def projectsTable : Text := "qgis_projects".toList

def nameColumn : Text := "name".toList

structure QueryWords (d : Dialect) : Prop where
  keywords : ∀ w ∈ [selectWord, fromWord, whereWord], d.reserved w = true
  names : ∀ w ∈ [metadataColumn, projectsTable, nameColumn], d.reserved w = false

-- select metadata from schema.qgis_projects where name = 'prjname'
def selectTokens (schema prjname : Text) : List Token :=
  [.keyword selectWord, .ident metadataColumn, .keyword fromWord, .ident schema, .self '.', .ident projectsTable,
    .keyword whereWord, .ident nameColumn, .self '=', .str prjname]

-- the text is given as a C string
def cString (s : Text) : Text := s.takeWhile (· != '\x00')

def SaysWhatItMeans (d : Dialect) (env : Tables) (insecure : Bool) (url : ParseResult) : Prop :=
  ∃ l, metadataQuery env insecure url = .ok l ∧
    lex d (cString l.text) = some (selectTokens (schemaName url) (projectName url))

structure PlainIdentifier (d : Dialect) (s : Text) : Prop where
  word : IsWord s
  lower : fold s = s
  size : (s.map Char.utf8Size).sum ≤ nameSize
  free : d.reserved s = false

structure PlainValue (s : Text) : Prop where
  quote : '\'' ∉ s
  terminator : '\x00' ∉ s

section clip

theorem clip_eq_self_iff {n : ℕ} {s : Text} : clip n s = s ↔ (s.map Char.utf8Size).sum ≤ n := by
  induction s generalizing n with
  | nil => simp [clip]
  | cons c s ih =>
    rw [clip, List.map_cons, List.sum_cons]
    split
    · rename_i hc
      rw [List.cons_inj_right, ih]
      omega
    · rename_i hc
      exact iff_of_false (by simp) (by omega)

theorem plainIdentifier_iff {d : Dialect} {s : Text} :
    PlainIdentifier d s ↔ IsWord s ∧ d.reserved (fold s) = false ∧ s = clip nameSize (fold s) := by
  constructor
  · rintro ⟨hword, hlower, hsize, hfree⟩
    rw [hlower]
    exact ⟨hword, hfree, (clip_eq_self_iff.mpr hsize).symm⟩
  · rintro ⟨hword, hfree, hclip⟩
    have hlower : fold s = s := by
      have hlength : (clip nameSize (fold s)).length = (fold s).length := by rw [← hclip, fold, List.length_map]
      rw [(prefix_clip nameSize (fold s)).eq_of_length hlength] at hclip
      exact hclip.symm
    rw [hlower] at hclip hfree
    exact ⟨hword, hlower, clip_eq_self_iff.mp hclip.symm, hfree⟩

end clip

def selectText : Text := "select metadata from ".toList

def whereText : Text := ".qgis_projects where name='".toList

section reading

variable {d : Dialect}

theorem wordToken_plain {s : Text} (h : PlainIdentifier d s) : wordToken d s = .ident s := by
  rw [wordToken, h.lower, if_neg (by simp [h.free]), clip_eq_self_iff.mpr h.size]

theorem wordToken_keyword {w : Text} (hfold : fold w = w) (h : d.reserved w = true) : wordToken d w = .keyword w := by
  rw [wordToken, hfold, if_pos h]

variable (hd : QueryWords d)
include hd

theorem column_plain {w : Text} (h : w ∈ [metadataColumn, projectsTable, nameColumn]) : PlainIdentifier d w := by
  have hwords : ∀ w ∈ [metadataColumn, projectsTable, nameColumn],
      IsWord w ∧ fold w = w ∧ (w.map Char.utf8Size).sum ≤ nameSize := by
    decide
  obtain ⟨hword, hlower, hsize⟩ := hwords w h
  exact ⟨hword, hlower, hsize, hd.names w h⟩

theorem lex_column {w : Text} (h : w ∈ [metadataColumn, projectsTable, nameColumn]) {e : Char} (he : EndsWord e)
    (r : Text) : lex d (w ++ e :: r) = (lex d (e :: r)).map (.ident w :: ·) := by
  have hplain := column_plain hd h
  rw [lex_word hplain.word he, wordToken_plain hplain]

theorem lex_keyword {w : Text} (h : w ∈ [selectWord, fromWord, whereWord]) (r : Text) :
    lex d (w ++ ' ' :: r) = (lex d r).map (.keyword w :: ·) := by
  have hwords : ∀ w ∈ [selectWord, fromWord, whereWord], IsWord w ∧ fold w = w := by decide
  obtain ⟨hword, hlower⟩ := hwords w h
  have hspace : EndsWord ' ' := ⟨by decide, by decide, by decide⟩
  rw [lex_word hword hspace, wordToken_keyword hlower (hd.keywords w h), lex_space (by decide)]

theorem lex_head (r : Text) :
    lex d (selectText ++ r) = (lex d r).map ([.keyword selectWord, .ident metadataColumn, .keyword fromWord] ++ ·) := by
  have htext : selectText ++ r =
      selectWord ++ ' ' :: (metadataColumn ++ ' ' :: (fromWord ++ ' ' :: r)) := rfl
  rw [htext, lex_keyword hd (by simp), lex_column hd (by simp) ⟨by decide, by decide, by decide⟩, lex_space (by decide),
    lex_keyword hd (by simp)]
  simp only [Option.map_map]
  rfl

theorem lex_tail (r : Text) :
    lex d (whereText ++ r) = (lex d ('\'' :: r)).map
      ([.self '.', .ident projectsTable, .keyword whereWord, .ident nameColumn, .self '='] ++ ·) := by
  have htext : whereText ++ r =
      '.' :: 'q' :: ("gis_projects".toList ++ ' ' :: (whereWord ++ ' ' :: (nameColumn ++ '=' :: '\'' :: r))) := rfl
  have htable : 'q' :: ("gis_projects".toList ++ ' ' :: (whereWord ++ ' ' :: (nameColumn ++ '=' :: '\'' :: r))) =
      projectsTable ++ ' ' :: (whereWord ++ ' ' :: (nameColumn ++ '=' :: '\'' :: r)) := rfl
  rw [htext, lex_dot (by decide) (by decide), htable, lex_column hd (by simp) ⟨by decide, by decide, by decide⟩,
    lex_space (by decide), lex_keyword hd (by simp), lex_column hd (by simp) ⟨by decide, by decide, by decide⟩,
    lex_equals (by decide)]
  simp only [Option.map_map]
  rfl

omit hd

theorem wordToken_ne_self (w : Text) (c : Char) : wordToken d w ≠ .self c := by
  rw [wordToken]
  split <;> simp

theorem whole_of_dot {r rest : Text} {ts : List Token} (hlex : lex d r = some (.self '.' :: ts))
    (hsuffix : r <:+ whereText ++ rest) (hlength : (whereText ++ rest).length ≤ r.length + 2) :
    r = whereText ++ rest := by
  have hno : ∀ w : Text, IsWord w → r ≠ w ++ ' ' :: ("where name='".toList ++ rest) := by
    intro w hw heq
    rw [heq, lex_word hw ⟨by decide, by decide, by decide⟩] at hlex
    obtain ⟨ts', -, hcons⟩ := Option.map_eq_some_iff.mp hlex
    exact wordToken_ne_self w '.' (List.cons.inj hcons).1
  obtain ⟨p, hp⟩ := hsuffix
  have hshort : p.length ≤ 2 := by
    rw [← hp, List.length_append] at hlength
    omega
  match p, hshort with
  | [], _ => exact hp
  | [_], _ =>
    have htable := (List.cons.inj hp).2
    exact absurd htable (hno "qgis_projects".toList (by decide))
  | [_, _], _ =>
    have htable := (List.cons.inj (List.cons.inj hp).2).2
    exact absurd htable (hno "gis_projects".toList (by decide))

theorem cString_append {s : Text} (h : '\x00' ∉ s) (t : Text) : cString (s ++ t) = s ++ cString t := by
  refine List.takeWhile_append_of_pos fun c hc => ?_
  rw [bne_iff_ne]
  rintro rfl
  exact h hc

theorem prefix_cString (s : Text) : cString s <+: s := List.takeWhile_prefix _

theorem terminator_notMem (s : Text) : '\x00' ∉ cString s := by
  intro h
  have hne := List.mem_takeWhile_imp h
  simp at hne

theorem cString_append_of_mem {s : Text} (h : '\x00' ∈ s) (t : Text) : cString (s ++ t) = cString s := by
  rw [cString, cString, List.takeWhile_append, if_neg]
  intro hlength
  have hself := (List.takeWhile_prefix (fun c : Char => c != '\x00') (l := s)).eq_of_length hlength
  have hmem : '\x00' ∈ cString s := by
    rw [cString, hself]
    exact h
  exact terminator_notMem s hmem

theorem selectMetadata_eq (schema prjname : Text) :
    selectMetadata schema prjname = selectText ++ (schema ++ (whereText ++ (prjname ++ ['\'']))) := by
  have happend : ∀ a b c e f : Text, a ++ b ++ c ++ e ++ f = a ++ (b ++ (c ++ (e ++ f))) := by
    intro a b c e f
    simp only [List.append_assoc]
  exact happend _ _ _ _ _

theorem cString_select (schema prjname : Text) :
    cString (selectMetadata schema prjname) =
      selectText ++ cString (schema ++ (whereText ++ (prjname ++ ['\'']))) := by
  rw [selectMetadata_eq, cString_append (by decide)]

include hd

theorem lex_plain {schema prjname : Text} (hschema : PlainIdentifier d schema) (hvalue : PlainValue prjname) :
    lex d (cString (selectMetadata schema prjname)) = some (selectTokens schema prjname) := by
  have hzero : '\x00' ∉ schema := by
    obtain ⟨c, v, rfl, hc, hv⟩ := hschema.word
    have hnot : isIdentCont '\x00' = false := by decide
    intro hmem
    rcases List.mem_cons.mp hmem with heq | hmem
    · rw [← heq] at hc
      exact absurd (isIdentCont_of_start hc) (by simp [hnot])
    · exact absurd (hv _ hmem) (by simp [hnot])
  have hself : cString (prjname ++ ['\'']) = prjname ++ ['\''] := by
    rw [cString_append hvalue.terminator]
    rfl
  have hdot : whereText ++ (prjname ++ ['\'']) = '.' :: ("qgis_projects where name='".toList ++ (prjname ++ ['\''])) := rfl
  rw [cString_select, cString_append hzero, cString_append (by decide), hself, lex_head hd]
  conv_lhs => rw [hdot, lex_word hschema.word ⟨by decide, by decide, by decide⟩, ← hdot]
  rw [lex_tail hd, ← List.cons_append, lex_literal hvalue.quote, wordToken_plain hschema]
  rfl

omit hd in
theorem literal_of_lex {value tail : Text} (h : lex d ('\'' :: tail) = some [.str value])
    (hlength : tail.length ≤ value.length + 1) : ∃ r, tail = value ++ '\'' :: r ∧ '\'' ∉ value := by
  obtain ⟨u, r, hskip, htoken, -⟩ := lex_cons h
  rw [skip_start (by decide) (by simp) (by simp)] at hskip
  obtain rfl := Option.some.inj hskip
  have hspelled := token_spelled htoken
  have hcost : r.length + (value.length + 2) ≤ ('\'' :: tail).length := hspelled.cost.length
  rw [List.length_cons] at hcost
  obtain ⟨hliteral, hquote⟩ := hspelled.str value rfl (by rw [List.length_cons]; omega)
  exact ⟨r, (List.cons.inj hliteral).2, hquote⟩

omit hd in
theorem schema_of_lex {schema prjname tail : Text} (htail : tail.length ≤ prjname.length + 1)
    (h : lex d (schema ++ (whereText ++ tail)) = some (.ident schema :: .self '.' ::
      [.ident projectsTable, .keyword whereWord, .ident nameColumn, .self '=', .str prjname])) :
    PlainIdentifier d schema ∧ lex d (whereText ++ tail) = some (.self '.' ::
      [.ident projectsTable, .keyword whereWord, .ident nameColumn, .self '=', .str prjname]) := by
  obtain ⟨u, r, hskip, htoken, hrest⟩ := lex_cons h
  have hskipped := skip_suffix hskip
  have hspelled := token_spelled htoken
  have hcost : r.length + schema.length ≤ u.length := hspelled.cost.length
  have hneed : prjname.length + 26 ≤ r.length := by
    have hsum := lex_length hrest
    simp only [List.map_cons, List.map_nil, List.sum_cons, List.sum_nil, Token.cost] at hsum
    have htable : projectsTable.length = 13 := rfl
    have hwhere : whereWord.length = 5 := rfl
    have hname : nameColumn.length = 4 := rfl
    omega
  have hmid : (whereText ++ tail).length = 27 + tail.length := List.length_append
  have hall : (schema ++ (whereText ++ tail)).length = schema.length + (whereText ++ tail).length := List.length_append
  have hlength := hskipped.length_le
  have hsuffix : r <:+ whereText ++ tail :=
    List.suffix_of_suffix_length_le (hspelled.nonempty.suffix.trans hskipped) (List.suffix_append _ _) (by omega)
  have hr : r = whereText ++ tail := whole_of_dot hrest hsuffix (by omega)
  have hu : u = schema ++ (whereText ++ tail) := by
    refine hskipped.eq_of_length ?_
    rw [hr] at hcost
    omega
  subst hr hu
  obtain ⟨w, hw, hword, hfree, hclip⟩ := hspelled.ident schema rfl (by omega)
  obtain rfl : w = schema := List.append_cancel_right hw.symm
  exact ⟨plainIdentifier_iff.mpr ⟨hword, hfree, hclip⟩, hrest⟩

theorem plain_of_lex {schema prjname : Text}
    (h : lex d (cString (selectMetadata schema prjname)) = some (selectTokens schema prjname)) :
    PlainIdentifier d schema ∧ PlainValue prjname := by
  rw [cString_select, lex_head hd] at h
  obtain ⟨ts, hlex, heq⟩ := Option.map_eq_some_iff.mp h
  have hts : ts = .ident schema :: .self '.' :: [.ident projectsTable, .keyword whereWord, .ident nameColumn, .self '=',
      .str prjname] := by simpa [selectTokens] using heq
  subst hts
  have hzero : '\x00' ∉ schema := by
    intro hmem
    rw [cString_append_of_mem hmem] at hlex
    have hneed := lex_length hlex
    have hshort := (prefix_cString schema).length_le
    simp only [List.map_cons, List.sum_cons, Token.cost] at hneed
    omega
  rw [cString_append hzero, cString_append (by decide)] at hlex
  have htail : (cString (prjname ++ ['\''])).length ≤ prjname.length + 1 := by
    have hlength := (prefix_cString (prjname ++ ['\''])).length_le
    rwa [List.length_append, List.length_singleton] at hlength
  obtain ⟨hplain, hrest⟩ := schema_of_lex htail hlex
  rw [lex_tail hd] at hrest
  obtain ⟨ts, hlast, heq⟩ := Option.map_eq_some_iff.mp hrest
  have hts : ts = [.str prjname] := by simpa using heq
  subst hts
  obtain ⟨r, hr, hquote⟩ := literal_of_lex hlast htail
  refine ⟨hplain, hquote, fun hmem => terminator_notMem (prjname ++ ['\'']) ?_⟩
  rw [hr]
  exact List.mem_append_left _ hmem

end reading

section accepted

variable {d : Dialect}

theorem saysWhatItMeans_iff (hd : QueryWords d) {env : Tables} {db : Database} {insecure : Bool} {url : ParseResult}
    {s : Str} {t : ℤ} (h : checkUnsafeUrl env db insecure url = .ok (s, t)) :
    SaysWhatItMeans d env insecure url ↔ PlainIdentifier d (schemaName url) ∧ PlainValue (projectName url) := by
  obtain ⟨l, hl, -⟩ := accepted env insecure url h
  have htext : l.text = selectMetadata (schemaName url) (projectName url) := metadataQuery_text env insecure url hl
  constructor
  · rintro ⟨l', hl', hlex⟩
    obtain rfl := Except.ok.inj (hl.symm.trans hl')
    rw [htext] at hlex
    exact plain_of_lex hd hlex
  · rintro ⟨hschema, hvalue⟩
    refine ⟨l, hl, ?_⟩
    rw [htext]
    exact lex_plain hd hschema hvalue

end accepted

def reservedWords : List String :=
  ["all", "analyse", "analyze", "and", "any", "array", "as", "asc", "asymmetric", "authorization", "binary", "both",
    "case", "cast", "check", "collate", "collation", "column", "concurrently", "constraint", "create", "cross",
    "current_catalog", "current_date", "current_role", "current_schema", "current_time", "current_timestamp",
    "current_user", "default", "deferrable", "desc", "distinct", "do", "else", "end", "except", "false", "fetch", "for",
    "foreign", "freeze", "from", "full", "grant", "group", "having", "ilike", "in", "initially", "inner", "intersect",
    "into", "is", "isnull", "join", "lateral", "leading", "left", "like", "limit", "localtime", "localtimestamp",
    "natural", "not", "notnull", "null", "offset", "on", "only", "or", "order", "outer", "overlaps", "placing",
    "primary", "references", "returning", "right", "select", "session_user", "similar", "some", "symmetric",
    "system_user", "table", "tablesample", "then", "to", "trailing", "true", "union", "unique", "user", "using",
    "variadic", "verbose", "when", "where", "window", "with"]

-- escapes, of which the query has none, are not read
def plainDialect : Dialect where
  reserved w := (reservedWords.map String.toList).contains w
  unescape s := if '\\' ∈ s ∨ '\'' ∈ s then none else some s
  unicode c s := if c ∈ s then none else some s
  unescape_length s v h := by
    split at h
    · cases h
    · rw [Option.some.inj h]
  unicode_length c s v h := by
    split at h
    · cases h
    · rw [Option.some.inj h]

theorem plainDialect_words : QueryWords plainDialect := ⟨by decide, by decide⟩

example : lex plainDialect "where name='x' or 'a'='a' -- '".toList =
    some [.keyword whereWord, .ident nameColumn, .self '=', .str ['x'], .keyword "or".toList, .str ['a'], .self '=',
      .str ['a']] := by
  decide

theorem schema_and_project_read :
    ∃ s t, checkUnsafeUrl asciiTables anyDatabase false
        ⟨⟨"postgres".toList, [], "/".toList, "schema=qgis&project=france_parts".toList, []⟩, []⟩ = .ok (s, t) ∧
      SaysWhatItMeans plainDialect asciiTables false
        ⟨⟨"postgres".toList, [], "/".toList, "schema=qgis&project=france_parts".toList, []⟩, []⟩ := by
  have hok : checkUnsafeUrl asciiTables anyDatabase false
      ⟨⟨"postgres".toList, [], "/".toList, "schema=qgis&project=france_parts".toList, []⟩, []⟩ =
      .ok ("postgresql:///?project=france_parts&schema=qgis".toList, 0) := by
    decide
  have hschema : schemaName ⟨⟨"postgres".toList, [], "/".toList, "schema=qgis&project=france_parts".toList, []⟩, []⟩ =
      "qgis".toList := by
    decide
  have hproject : projectName ⟨⟨"postgres".toList, [], "/".toList, "schema=qgis&project=france_parts".toList, []⟩,
      []⟩ = "france_parts".toList := by
    decide
  refine ⟨_, _, hok, (saysWhatItMeans_iff plainDialect_words hok).mpr ?_⟩
  rw [hschema, hproject]
  exact ⟨⟨by decide, by decide, by decide, by decide⟩, ⟨by decide, by decide⟩⟩

-- a quote in the project ends the literal, and the rest of the value is read as a condition
theorem quote_ends_literal :
    ¬ ∀ (d : Dialect) (env : Tables) (db : Database) (insecure : Bool) (url : ParseResult) (s : Str) (t : ℤ),
      QueryWords d → checkUnsafeUrl env db insecure url = .ok (s, t) → SaysWhatItMeans d env insecure url := by
  intro h
  have hok : checkUnsafeUrl asciiTables anyDatabase false
      ⟨⟨"postgres".toList, [], "/".toList, "project=x' or 'a'='a".toList, []⟩, []⟩ =
      .ok ("postgresql:///?project=x' or 'a'='a&schema=public".toList, 0) := by
    decide
  have hplain := (saysWhatItMeans_iff plainDialect_words hok).mp (h _ _ _ _ _ _ _ plainDialect_words hok)
  exact hplain.2.quote (by decide)

end QgsCache
