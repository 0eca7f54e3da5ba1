import PyQgisServer.Cache.PostgresQuery
import PyQgisServer.Library.Urllib.ReadBack

namespace QgsCache

open Urllib

structure SameProject (env : Tables) (l : MetadataQuery) (r : ParseResult) : Prop where
  host : r.hostname env = l.connexion.host
  port : r.port = some l.connexion.port
  user : r.username = l.connexion.user
  params : ∀ name, firstValue r.query name = l.param name

section readBack

variable (env : Tables) (insecure : Bool) (url : ParseResult)

def ReadsChecked (s : Str) : Prop :=
  ∃ l, metadataQuery env insecure url = .ok l ∧ ∃ r, urlparse env s [] = some r ∧ SameProject env l r

structure WrittenPlain : Prop where
  front : insecure = false → url.hostname env = none ∧ url.port = some none ∧ url.username ≠ some [] ∧
    allowedNetloc env (userNetloc url) = true
  project : Carried ("project".toList, projectName url)
  schema : Carried ("schema".toList, schemaName url)
  params : ∀ name value, name ≠ "project".toList → name ≠ "schema".toList →
    insecure = true ∨ name ∈ allowedSecureParams → firstValue url.query name = some value → Carried (name, value)

def written (name : Str) : Option Str :=
  if name = "project".toList then some (projectName url)
  else if name = "schema".toList then some (schemaName url)
  else if insecure || name ∈ allowedSecureParams then firstValue url.query name
  else none

theorem queryOptions_get? (name : Str) :
    (queryOptions insecure url).get? name =
      if name = "dbname".toList ∨ name = "schema".toList ∨ name = "project".toList then none
      else if insecure || name ∈ allowedSecureParams then firstValue url.query name else none := by
  rw [queryOptions, PyDict.get?_erase, PyDict.get?_erase, PyDict.get?_erase, queryParams_get?]
  by_cases hdbname : name = "dbname".toList
  · rw [if_pos hdbname, if_pos (.inl hdbname)]
  · rw [if_neg hdbname]
    by_cases hschema : name = "schema".toList
    · rw [if_pos hschema, if_pos (.inr (.inl hschema))]
    · rw [if_neg hschema]
      by_cases hproject : name = "project".toList
      · rw [if_pos hproject, if_pos (.inr (.inr hproject))]
      · have hnone : ¬(name = "dbname".toList ∨ name = "schema".toList ∨ name = "project".toList) := fun h =>
          h.elim hdbname fun h => h.elim hschema hproject
        rw [if_neg hproject, if_neg hnone]

theorem writtenParams_get? (name : Str) : (writtenParams insecure url).get? name = written insecure url name := by
  have hplain : (((queryOptions insecure url).set "project".toList (projectName url)).set "schema".toList
      (schemaName url)).get? name =
      if name = "dbname".toList then none else written insecure url name := by
    rw [PyDict.get?_set, PyDict.get?_set, queryOptions_get?, written]
    by_cases hschema : name = "schema".toList
    · have hne : name ≠ "dbname".toList := hschema ▸ by decide
      have hne' : name ≠ "project".toList := hschema ▸ by decide
      rw [if_pos hschema, if_neg hne, if_neg hne', if_pos hschema]
    · by_cases hproject : name = "project".toList
      · have hne : name ≠ "dbname".toList := hproject ▸ by decide
        rw [if_neg hschema, if_pos hproject, if_neg hne, if_pos hproject]
      · rw [if_neg hschema, if_neg hproject, if_neg hproject, if_neg hschema]
        by_cases hdbname : name = "dbname".toList
        · rw [if_pos (.inl hdbname), if_pos hdbname]
        · rw [if_neg fun h => h.elim hdbname fun h => h.elim hschema hproject, if_neg hdbname]
  have hdbname : written insecure url "dbname".toList = firstValue url.query "dbname".toList := by
    have hallowed : (insecure || "dbname".toList ∈ allowedSecureParams) = true := by
      rw [Bool.or_eq_true, decide_eq_true_eq]
      exact .inr (by decide)
    rw [written, if_neg (by decide), if_neg (by decide), if_pos hallowed]
  unfold writtenParams
  cases hvalue : firstValue url.query "dbname".toList with
  | none =>
    simp only
    rw [hplain]
    split
    · rename_i hname
      rw [hname, hdbname, hvalue]
    · rfl
  | some value =>
    obtain ⟨c, rest, rfl⟩ := List.exists_cons_of_ne_nil (firstValue_ne_nil hvalue)
    simp only
    rw [PyDict.get?_set, hplain]
    split
    · rename_i hname
      rw [hname, hdbname, hvalue]
    · rfl

theorem writtenParams_ne_nil (hproject : projectName url ≠ []) :
    ∀ x ∈ (writtenParams insecure url).items, x.2 ≠ [] := by
  intro x hx
  have hget := PyDict.get?_eq_some.mpr hx
  rw [writtenParams_get?, written] at hget
  split at hget
  · exact Option.some.inj hget ▸ hproject
  · split at hget
    · rw [← Option.some.inj hget, schemaName]
      cases hschema : firstValue url.query "schema".toList with
      | none => decide
      | some value => exact firstValue_ne_nil hschema
    · split at hget
      · exact firstValue_ne_nil hget
      · cases hget

theorem carried_iff : (∀ x ∈ (writtenParams insecure url).items, Carried x) ↔
    Carried ("project".toList, projectName url) ∧ Carried ("schema".toList, schemaName url) ∧
      ∀ name value, name ≠ "project".toList → name ≠ "schema".toList →
        insecure = true ∨ name ∈ allowedSecureParams → firstValue url.query name = some value →
          Carried (name, value) := by
  have hmem : ∀ name value, (name, value) ∈ (writtenParams insecure url).items ↔
      written insecure url name = some value := by
    intro name value
    rw [← PyDict.get?_eq_some, writtenParams_get?]
  constructor
  · intro h
    refine ⟨h _ ((hmem _ _).mpr ?_), h _ ((hmem _ _).mpr ?_), fun name value hp hs hallowed hvalue =>
      h _ ((hmem _ _).mpr ?_)⟩
    · rw [written, if_pos rfl]
    · rw [written, if_neg (by decide), if_pos rfl]
    · have hallowed : (insecure || name ∈ allowedSecureParams) = true := by
        rw [Bool.or_eq_true, decide_eq_true_eq]
        exact hallowed
      rw [written, if_neg hp, if_neg hs, if_pos hallowed, hvalue]
  · rintro ⟨hproject, hschema, hrest⟩ ⟨name, value⟩ hx
    have hget := (hmem name value).mp hx
    rw [written] at hget
    split at hget
    · rename_i hname
      rw [hname, ← Option.some.inj hget]
      exact hproject
    · rename_i hp
      split at hget
      · rename_i hname
        rw [hname, ← Option.some.inj hget]
        exact hschema
      · rename_i hs
        split at hget
        · rename_i hallowed
          rw [Bool.or_eq_true, decide_eq_true_eq] at hallowed
          exact hrest name value hp hs hallowed hget
        · cases hget

end readBack

section front

variable {env : Tables}

theorem hostinfo_user (user : Str) : hostinfo (user ++ ['@']) = ([], []) := by
  have hhost : (user ++ ['@']).rtakeWhile (· != '@') = [] := List.rtakeWhile_concat_neg _ _ _ (by simp)
  rw [hostinfo, hhost]
  rfl

theorem userinfo_user (user : Str) : userinfo (user ++ ['@']) = some user := by
  have hinfo : (user ++ ['@']).rdropWhile (· != '@') = user ++ ['@'] := List.rdropWhile_concat_neg _ _ _ (by simp)
  rw [userinfo, if_pos (by simp), hinfo, List.dropLast_concat]

def frontResult (netloc : Str) : ParseResult := ⟨⟨"postgresql".toList, netloc, ['/'], [], []⟩, []⟩

theorem urlparse_front {netloc : Str} (hend : ∀ c ∈ netloc, isNetlocEnd c = false ∧ isUnsafe c = false) :
    urlparse env (secureScheme ++ netloc ++ ['/']) [] =
      if allowedNetloc env netloc then some (frontResult netloc) else none := by
  have hscheme : secureScheme ++ netloc ++ ['/'] = "postgresql".toList ++ ':' :: ('/' :: '/' :: netloc ++ ['/']) := by
    rw [List.append_assoc]
    rfl
  have hclean : clean (secureScheme ++ netloc ++ ['/']) = secureScheme ++ netloc ++ ['/'] := by
    refine clean_eq_self (fun c hc => ?_) fun c hc => ?_
    · obtain rfl : 'p' = c := Option.some.inj hc
      decide
    · rcases List.mem_append.mp hc with hc | hc
      · rcases List.mem_append.mp hc with hc | hc
        · simpa using List.all_eq_true.mp (by decide : secureScheme.all (!isUnsafe ·) = true) c hc
        · exact (hend c hc).2
      · obtain rfl := List.mem_singleton.mp hc
        decide
  have hsplit := splitScheme_scheme (t := '/' :: '/' :: netloc ++ ['/']) (d := [])
    (by decide : isScheme "postgresql".toList = true)
  have hslash : ∀ c, (['/'] : Str).head? = some c → isNetlocEnd c = true := by
    rintro c hc
    obtain rfl := Option.some.inj hc
    decide
  have hnetloc := splitNetloc_slashes (fun c hc => (hend c hc).1) hslash
  rw [urlparse, urlsplit, hclean, hscheme, hsplit]
  simp only [hnetloc]
  by_cases hallowed : allowedNetloc env netloc = true
  · rw [if_pos hallowed, if_pos hallowed]
    rfl
  · rw [if_neg hallowed, if_neg hallowed]
    rfl

variable {text : Str} {url : ParseResult} (hurl : urlparse env text [] = some url)
include hurl

theorem frontNetloc_plain (insecure : Bool) :
    ∀ c ∈ frontNetloc insecure url, isNetlocEnd c = false ∧ isUnsafe c = false := by
  have hclean := (urlparse_clean (.inl rfl) hurl).split
  have hurlNetloc : ∀ c ∈ url.netloc, isNetlocEnd c = false ∧ isUnsafe c = false := fun c hc =>
    ⟨hclean.netloc c hc, hclean.safe c (by simp [hc])⟩
  intro c hc
  unfold frontNetloc at hc
  split at hc
  · exact hurlNetloc c hc
  · rcases mem_userNetloc hc with rfl | hc
    · decide
    · exact hurlNetloc c hc

theorem urlparse_written (insecure : Bool) :
    urlparse env (postgresUrl (frontNetloc insecure url) (writtenParams insecure url)) [] =
      if allowedNetloc env (frontNetloc insecure url) then
        some ((frontResult (frontNetloc insecure url)).withQuery
          (dropUnsafe (joinPairs (writtenParams insecure url).items)))
      else none := by
  obtain ⟨hquery, hfragment⟩ := schemeBase_plain fun c hc => (frontNetloc_plain hurl insecure c hc).1
  rw [postgresUrl_of_items rfl]
  have hread := @urlparse_query env _ (joinPairs (writtenParams insecure url).items) hquery hfragment
  rw [urlparse_front (frontNetloc_plain hurl insecure)] at hread
  refine hread.trans ?_
  split
  · rfl
  · rfl

structure SameFront (env : Tables) (netloc : Str) (url : ParseResult) : Prop where
  allowed : allowedNetloc env netloc = true
  host : (frontResult netloc).hostname env = url.hostname env
  port : (frontResult netloc).port = url.port
  user : (frontResult netloc).username = url.username

theorem sameFront_insecure : SameFront env (frontNetloc true url) url :=
  ⟨(urlparse_clean (.inl rfl) hurl).split.allowed, rfl, rfl, rfl⟩

omit hurl

theorem hostname_user (user : Str) : (frontResult (user ++ ['@'])).hostname env = none := by
  have hhost := hostinfo_user user
  rw [SplitResult.hostname, if_pos]
  exact congrArg Prod.fst hhost

theorem port_user (user : Str) : (frontResult (user ++ ['@'])).port = some none := by
  have hhost := hostinfo_user user
  rw [SplitResult.port, if_pos]
  exact congrArg Prod.snd hhost

theorem username_user {user : Str} (h : ':' ∉ user) : (frontResult (user ++ ['@'])).username = some user := by
  have hinfo : (userinfo (frontResult (user ++ ['@'])).netloc) = some user := userinfo_user user
  rw [SplitResult.username, hinfo, Option.map_some, before_eq_self h]

theorem userNetloc_result (url : ParseResult) :
    (frontResult (userNetloc url)).hostname env = none ∧ (frontResult (userNetloc url)).port = some none ∧
      (frontResult (userNetloc url)).username = url.username.filter (· ≠ []) := by
  cases huser : url.username with
  | none =>
    have hnetloc : userNetloc url = [] := by rw [userNetloc, huser]
    rw [hnetloc]
    exact ⟨rfl, rfl, rfl⟩
  | some user =>
    cases user with
    | nil =>
      have hnetloc : userNetloc url = [] := by rw [userNetloc, huser]
      rw [hnetloc]
      exact ⟨rfl, rfl, rfl⟩
    | cons c user =>
      have hnetloc : userNetloc url = c :: user ++ ['@'] := by rw [userNetloc, huser]
      have hcolon : ':' ∉ c :: user := by
        obtain ⟨info, -, hinfo⟩ := Option.map_eq_some_iff.mp huser
        rw [← hinfo]
        exact not_mem_before ':' info
      rw [hnetloc]
      exact ⟨hostname_user _, port_user _, username_user hcolon⟩

theorem sameFront_secure_iff (url : ParseResult) :
    SameFront env (frontNetloc false url) url ↔ url.hostname env = none ∧ url.port = some none ∧
      url.username ≠ some [] ∧ allowedNetloc env (userNetloc url) = true := by
  have hfront : frontNetloc false url = userNetloc url := rfl
  obtain ⟨hhost, hport, huser⟩ := @userNetloc_result env url
  have hfilter : url.username.filter (· ≠ []) = url.username ↔ url.username ≠ some [] := by
    cases url.username with
    | none => simp
    | some user => cases user <;> simp
  rw [hfront]
  constructor
  · rintro ⟨hallowed, hsame, hsame', hsame''⟩
    exact ⟨hsame ▸ hhost, hsame' ▸ hport, hfilter.mp (huser.symm.trans hsame''), hallowed⟩
  · rintro ⟨hnone, hnone', hne, hallowed⟩
    exact ⟨hallowed, hhost.trans hnone.symm, hport.trans hnone'.symm, huser.trans (hfilter.mpr hne)⟩

end front

section accepted

variable {env : Tables} {insecure : Bool} {url : ParseResult}

structure Executed (env : Tables) (insecure : Bool) (url : ParseResult) (l : MetadataQuery) : Prop where
  host : l.connexion.host = url.hostname env
  port : url.port = some l.connexion.port
  user : l.connexion.user = url.username
  urlstr : l.urlstr = postgresUrl (frontNetloc insecure url) (writtenParams insecure url)
  params : ∀ name, l.param name = written insecure url name
  named : projectName url ≠ []

theorem metadataQuery_executed {l : MetadataQuery} (h : metadataQuery env insecure url = .ok l) : Executed env insecure url l := by
  unfold metadataQuery at h
  split at h
  · cases h
  · rename_i hnamed
    cases hport : url.port with
    | none =>
      rw [hport] at h
      cases h
    | some port =>
      rw [hport] at h
      simp only at h
      split at h
      · cases h
      · obtain rfl := Except.ok.inj h
        refine ⟨rfl, hport, rfl, rfl, fun name => ?_, hnamed⟩
        rw [MetadataQuery.param, written]
        split
        · rfl
        · rename_i hproject
          split
          · rfl
          · rename_i hschema
            split
            · rename_i hdbname
              have hallowed : (insecure || name ∈ allowedSecureParams) = true := by
                rw [Bool.or_eq_true, decide_eq_true_eq, hdbname]
                exact .inr (by decide)
              rw [if_pos hallowed, hdbname]
            · rename_i hdbname
              rw [queryOptions_get?, if_neg fun hor => hor.elim hdbname fun hor => hor.elim hschema hproject]

theorem readsChecked_iff {db : Database} {text s : Str} {t : ℤ} (hurl : urlparse env text [] = some url)
    (h : checkUnsafeUrl env db insecure url = .ok (s, t)) :
    ReadsChecked env insecure url s ↔ WrittenPlain env insecure url := by
  obtain ⟨l, hl, hs⟩ := accepted env insecure url h
  have hexecuted := metadataQuery_executed hl
  have hread := urlparse_written hurl insecure
  rw [← hexecuted.urlstr, hs] at hread
  have hcarried := reads_back_iff (writtenParams_ne_nil insecure url hexecuted.named)
  have hfront : SameFront env (frontNetloc insecure url) url ↔ (insecure = false →
      url.hostname env = none ∧ url.port = some none ∧ url.username ≠ some [] ∧
        allowedNetloc env (userNetloc url) = true) := by
    cases insecure with
    | false => simpa using sameFront_secure_iff url
    | true => exact iff_of_true (sameFront_insecure hurl) (by simp)
  have hparams : (∀ name, firstValue (keptQuery (joinPairs (writtenParams insecure url).items)) name = l.param name) ↔
      ∀ x ∈ (writtenParams insecure url).items, Carried x := by
    rw [← hcarried]
    refine forall_congr' fun name => ?_
    rw [hexecuted.params, writtenParams_get?]
  constructor
  · rintro ⟨l', hl', r, hr, hsame⟩
    obtain rfl := Except.ok.inj (hl.symm.trans hl')
    rw [hread] at hr
    split at hr
    · rename_i hallowed
      obtain rfl := Option.some.inj hr
      obtain ⟨hproject, hschema, hrest⟩ := (carried_iff insecure url).mp (hparams.mp hsame.params)
      refine ⟨hfront.mp ⟨hallowed, ?_, ?_, ?_⟩, hproject, hschema, hrest⟩
      · exact hsame.host.trans hexecuted.host
      · exact hsame.port.trans hexecuted.port.symm
      · exact hsame.user.trans hexecuted.user
    · cases hr
  · rintro ⟨hplain, hproject, hschema, hrest⟩
    have hsame := hfront.mpr hplain
    rw [if_pos hsame.allowed] at hread
    refine ⟨l, hl, _, hread, ⟨?_, ?_, ?_, ?_⟩⟩
    · exact hsame.host.trans hexecuted.host.symm
    · exact hsame.port.trans hexecuted.port
    · exact hsame.user.trans hexecuted.user.symm
    · exact hparams.mpr ((carried_iff insecure url).mpr ⟨hproject, hschema, hrest⟩)

end accepted

theorem user_and_database_read :
    ∃ url s t, urlparse asciiTables "postgres://alice@/?service=my&project=x&dbname=qgis".toList [] = some url ∧
      checkUnsafeUrl asciiTables anyDatabase false url = .ok (s, t) ∧ ReadsChecked asciiTables false url s := by
  have hurl : urlparse asciiTables "postgres://alice@/?service=my&project=x&dbname=qgis".toList [] =
      some ⟨⟨"postgres".toList, "alice@".toList, "/".toList, "service=my&project=x&dbname=qgis".toList, []⟩, []⟩ := by
    decide
  have hplain : ∀ name ∈ allowedSecureParams, ∀ value ∈ ["my", "x", "public", "qgis"].map String.toList,
      '&' ∉ name ∧ '&' ∉ value ∧ '=' ∉ name ∧ unquotePlus name = name ∧ unquotePlus value = value ∧
        (pair (name, value)).all (fun c => !isUnsafe c && c != '#') = true := by
    decide
  have hcarried : ∀ name ∈ allowedSecureParams, ∀ value ∈ ["my", "x", "public", "qgis"].map String.toList,
      Carried (name, value) := by
    intro name hname value hvalue
    obtain ⟨hamp, hamp', heq, hreads, hreads', hsafe⟩ := hplain name hname value hvalue
    exact ⟨⟨⟨hamp, hamp'⟩, heq, hreads, hreads'⟩, fun c hc => by simpa using List.all_eq_true.mp hsafe c hc⟩
  have hok : checkUnsafeUrl asciiTables anyDatabase false
      ⟨⟨"postgres".toList, "alice@".toList, "/".toList, "service=my&project=x&dbname=qgis".toList, []⟩, []⟩ =
      .ok ("postgresql://alice@/?service=my&project=x&schema=public&dbname=qgis".toList, 0) := by
    decide
  refine ⟨_, _, _, hurl, hok, (readsChecked_iff hurl hok).mpr ⟨fun _ => ?_, ?_, ?_, ?_⟩⟩
  · decide
  · exact hcarried _ (by decide) _ (by decide)
  · exact hcarried _ (by decide) _ (by decide)
  · intro name value _ _ hallowed hvalue
    have hallowed := hallowed.resolve_left (by decide)
    have hknown : ∀ name ∈ allowedSecureParams,
        ∀ value ∈ (firstValue "service=my&project=x&dbname=qgis".toList name).toList,
          value ∈ ["my", "x", "public", "qgis"].map String.toList := by
      decide
    exact hcarried name hallowed value (hknown name hallowed value (Option.mem_toList.mpr hvalue))

theorem host_not_read :
    ¬ ∀ (env : Tables) (db : Database) (insecure : Bool) (text : Str) (url : ParseResult) (s : Str) (t : ℤ),
      urlparse env text [] = some url → checkUnsafeUrl env db insecure url = .ok (s, t) →
      ReadsChecked env insecure url s := by
  intro h
  have hurl : urlparse asciiTables "postgres://db1:6543/?project=x".toList [] =
      some ⟨⟨"postgres".toList, "db1:6543".toList, "/".toList, "project=x".toList, []⟩, []⟩ := by
    decide
  have hok : checkUnsafeUrl asciiTables anyDatabase false
      ⟨⟨"postgres".toList, "db1:6543".toList, "/".toList, "project=x".toList, []⟩, []⟩ =
      .ok ("postgresql:///?project=x&schema=public".toList, 0) := by
    decide
  have hplain := (readsChecked_iff hurl hok).mp (h _ _ _ _ _ _ _ hurl hok)
  exact absurd (hplain.front rfl).2.1 (by decide)

end QgsCache
