import PyQgisServer.Cache.PostgresHandler
import PyQgisServer.Library.Urllib.WithQuery

namespace QgsCache

open Urllib

section params

theorem queryParams_get? (insecure : Bool) (query key : Str) :
    (queryParams insecure query).get? key =
      if insecure || key ∈ allowedSecureParams then firstValue query key else none := by
  have hnodup : ((((parseQs query).items.filter fun x => insecure || x.1 ∈ allowedSecureParams).map
      fun x => (x.1, x.2.headD [])).map Prod.fst).Nodup := by
    rw [List.map_map]
    exact (parseQs query).nodup.sublist (List.filter_sublist.map _)
  have hupdate : queryParams insecure query = (PyDict.empty).update ⟨_, hnodup⟩ := by
    rw [queryParams, PyDict.update, List.foldl_map]
  rw [hupdate, PyDict.get?_update]
  have hempty : (PyDict.empty : PyDict Str Str).get? key = none := rfl
  rw [hempty, Option.or_none]
  apply Option.ext
  intro value
  rw [PyDict.get?_eq_some]
  simp only [List.mem_map, List.mem_filter, Prod.mk.injEq, Prod.exists]
  constructor
  · rintro ⟨name, values, ⟨hmem, hallowed⟩, rfl, rfl⟩
    rw [if_pos hallowed, firstValue, PyDict.get?_eq_some.mpr hmem]
    obtain ⟨v, vs, rfl⟩ := List.exists_cons_of_ne_nil (parseQs_ne_nil (PyDict.get?_eq_some.mpr hmem))
    rfl
  · intro h
    split at h
    · rename_i hallowed
      obtain ⟨values, hget, hhead⟩ := Option.bind_eq_some_iff.mp h
      refine ⟨key, values, ⟨PyDict.get?_eq_some.mp hget, hallowed⟩, rfl, ?_⟩
      rw [List.headD_eq_head?_getD, hhead, Option.getD_some]
    · cases h

end params

variable (url : ParseResult)

def projectName : Str := (firstValue url.query "project".toList).getD (stripSlashes url.path)

def schemaName : Str := (firstValue url.query "schema".toList).getD "public".toList

def serviceOption : PyDict Str Str :=
  match firstValue url.query "service".toList with
  | none => .empty
  | some service => PyDict.empty.set "service".toList service

def userNetloc : Str :=
  match url.username with
  | some (c :: user) => c :: user ++ ['@']
  | _ => []

def secureParams : List (Str × Str) :=
  ((firstValue url.query "service".toList).toList.map fun v => ("service".toList, v)) ++
    [("project".toList, projectName url), ("schema".toList, schemaName url)] ++
    ((firstValue url.query "dbname".toList).toList.map fun v => ("dbname".toList, v))

def secureScheme : Str := "postgresql://".toList

def secureBase : Str := secureScheme ++ userNetloc url ++ ['/']

def secureUrl : Str := secureBase url ++ '?' :: ['&'].intercalate ((secureParams url).map pair)

def secureConnexion (env : Tables) : Except CacheError ConnexionParams :=
  if projectName url = [] then .error .fileNotFound
  else match url.port with
    | none => .error .valueError
    | some port => .ok ⟨url.hostname env, port, url.username, url.password,
        firstValue url.query "dbname".toList, serviceOption url⟩

theorem secure_options :
    ((((queryParams false url.query).erase "project".toList).erase "schema".toList).erase "dbname".toList) =
      serviceOption url := by
  have hkeys : ∀ k ∈ ((((queryParams false url.query).erase "project".toList).erase
      "schema".toList).erase "dbname".toList).keys, k = "service".toList := by
    intro k hk
    obtain ⟨v, hv⟩ := PyDict.mem_keys.mp hk
    simp only [PyDict.get?_erase, queryParams_get?, Bool.false_or, decide_eq_true_eq] at hv
    split at hv
    · cases hv
    split at hv
    · cases hv
    split at hv
    · cases hv
    split at hv
    · rename_i hdbname hschema hproject hallowed
      simp only [allowedSecureParams, List.map_cons, List.map_nil, List.mem_cons, List.not_mem_nil,
        or_false] at hallowed
      rcases hallowed with h | h | h | h
      · exact h
      · exact absurd h hproject
      · exact absurd h hdbname
      · exact absurd h hschema
    · cases hv
  have hget : ((((queryParams false url.query).erase "project".toList).erase "schema".toList).erase
      "dbname".toList).get? "service".toList = firstValue url.query "service".toList := by
    rw [PyDict.get?_erase, if_neg (by decide), PyDict.get?_erase, if_neg (by decide), PyDict.get?_erase,
      if_neg (by decide), queryParams_get?, if_pos (by decide)]
  apply PyDict.ext
  rw [PyDict.items_of_keys hkeys, hget, serviceOption]
  cases firstValue url.query "service".toList with
  | none => rfl
  | some service => rfl

theorem secure_get? {name : Str} (h : name ∈ allowedSecureParams) :
    (queryParams false url.query).get? name = firstValue url.query name := by
  rw [queryParams_get?, if_pos (by simpa using h)]

theorem serviceOption_items : (serviceOption url).items =
    (firstValue url.query "service".toList).toList.map fun v => ("service".toList, v) := by
  rw [serviceOption]
  cases firstValue url.query "service".toList with
  | none => rfl
  | some service => rfl

theorem serviceOption_notMem {key : Str} (h : key ≠ "service".toList) : key ∉ (serviceOption url).keys := by
  rw [PyDict.keys, serviceOption_items]
  cases firstValue url.query "service".toList with
  | none => simp
  | some service => simpa using h

theorem secure_items :
    (match firstValue url.query "dbname".toList with
      | some (c :: name) => (((serviceOption url).set "project".toList (projectName url)).set
          "schema".toList (schemaName url)).set "dbname".toList (c :: name)
      | _ => ((serviceOption url).set "project".toList (projectName url)).set "schema".toList
          (schemaName url)).items = secureParams url := by
  have hproject := serviceOption_notMem url (by decide : "project".toList ≠ "service".toList)
  have hschema : "schema".toList ∉ ((serviceOption url).set "project".toList (projectName url)).keys := by
    rw [PyDict.mem_keys_set, not_or]
    exact ⟨by decide, serviceOption_notMem url (by decide)⟩
  have hitems : (((serviceOption url).set "project".toList (projectName url)).set "schema".toList
      (schemaName url)).items = (serviceOption url).items ++
        [("project".toList, projectName url), ("schema".toList, schemaName url)] := by
    rw [PyDict.items_set_of_notMem _ hschema, PyDict.items_set_of_notMem _ hproject, List.append_assoc]
    rfl
  have hdbname : "dbname".toList ∉ (((serviceOption url).set "project".toList (projectName url)).set
      "schema".toList (schemaName url)).keys := by
    rw [PyDict.mem_keys_set, PyDict.mem_keys_set, not_or, not_or]
    exact ⟨by decide, by decide, serviceOption_notMem url (by decide)⟩
  rw [secureParams, ← serviceOption_items, ← hitems]
  cases hname : firstValue url.query "dbname".toList with
  | none => simp only [Option.toList_none, List.map_nil, List.append_nil]
  | some value =>
    obtain ⟨c, name, rfl⟩ := List.exists_cons_of_ne_nil (firstValue_ne_nil hname)
    simp only [PyDict.items_set_of_notMem _ hdbname, Option.toList_some, List.map_cons, List.map_nil]

theorem postgresUrl_of_items {netloc : Str} {params : PyDict Str Str} {l : List (Str × Str)}
    (h : params.items = l) : postgresUrl netloc params =
      "postgresql://".toList ++ netloc ++ ['/'] ++ '?' :: ['&'].intercalate (l.map pair) := by
  have happend : ∀ a n q : Str, a ++ n ++ "/?".toList ++ q = a ++ n ++ ['/'] ++ '?' :: q := by
    intro a n q
    simp
  subst h
  exact happend _ _ _

theorem postgresUrl_secure :
    postgresUrl (userNetloc url) (match firstValue url.query "dbname".toList with
      | some (c :: name) => (((serviceOption url).set "project".toList (projectName url)).set
          "schema".toList (schemaName url)).set "dbname".toList (c :: name)
      | _ => ((serviceOption url).set "project".toList (projectName url)).set "schema".toList
          (schemaName url)) = secureUrl url := by
  exact postgresUrl_of_items (secure_items url)

theorem secureParams_names : ∀ x ∈ secureParams url, x.1 ∈ allowedSecureParams := by
  intro x hx
  simp only [secureParams, List.mem_append, List.mem_map, List.mem_cons, List.not_mem_nil, or_false] at hx
  have hall : ∀ name ∈ ["service", "project", "schema", "dbname"], name.toList ∈ allowedSecureParams := by
    decide
  rcases hx with (⟨v, -, rfl⟩ | rfl | rfl) | ⟨v, -, rfl⟩
  · exact hall "service" (by simp)
  · exact hall "project" (by simp)
  · exact hall "schema" (by simp)
  · exact hall "dbname" (by simp)

theorem serviceOption_keys : (serviceOption url).keys.any (· ∈ connexionKeywords) = false := by
  rw [serviceOption]
  cases firstValue url.query "service".toList with
  | none => rfl
  | some service => rfl

theorem checkUnsafeUrl_secure (env : Tables) (db : Database) :
    checkUnsafeUrl env db false url = (secureConnexion url env).bind fun connexion =>
      (readMetadata db (db.execute connexion (selectMetadata (schemaName url) (projectName url)))).map
        fun t => (secureUrl url, t) := by
  have hproject : ((queryParams false url.query).get? "project".toList).getD (stripSlashes url.path) =
      projectName url := by
    rw [secure_get? url (by decide), projectName]
  have hschema : (((queryParams false url.query).erase "project".toList).get? "schema".toList).getD
      "public".toList = schemaName url := by
    rw [PyDict.get?_erase, if_neg (by decide), secure_get? url (by decide), schemaName]
  have hdbname : ((((queryParams false url.query).erase "project".toList).erase "schema".toList).get?
      "dbname".toList) = firstValue url.query "dbname".toList := by
    rw [PyDict.get?_erase, if_neg (by decide), PyDict.get?_erase, if_neg (by decide),
      secure_get? url (by decide)]
  unfold checkUnsafeUrl secureConnexion
  simp only [hproject, hschema, hdbname, secure_options, serviceOption_keys, Bool.false_eq_true, if_false]
  split
  · rfl
  · cases url.port with
    | none => rfl
    | some port =>
      simp only [Except.bind]
      exact congrArg (fun s => (readMetadata db (db.execute _ _)).map fun t => (s, t)) (postgresUrl_secure url)

theorem allowed_plain : ∀ name ∈ allowedSecureParams,
    '&' ∉ name ∧ '=' ∉ name ∧ '#' ∉ name ∧ dropUnsafe name = name ∧ unquotePlus name = name := by
  decide

def visible : List (Str × Str) → List (Str × Str)
  | [] => []
  | x :: xs => if '#' ∈ x.2 then [(x.1, before '#' x.2)] else x :: visible xs

theorem visible_names {l : List (Str × Str)} : ∀ x ∈ visible l, ∃ y ∈ l, y.1 = x.1 := by
  induction l with
  | nil => simp [visible]
  | cons x xs ih =>
    intro y hy
    rw [visible] at hy
    split at hy
    · obtain rfl := List.mem_singleton.mp hy
      exact ⟨x, List.mem_cons_self, rfl⟩
    · rcases List.mem_cons.mp hy with rfl | hy
      · exact ⟨y, List.mem_cons_self, rfl⟩
      · obtain ⟨z, hz, hzy⟩ := ih y hy
        exact ⟨z, List.mem_cons_of_mem _ hz, hzy⟩

theorem before_pairs {l : List (Str × Str)} (h : ∀ x ∈ l, '#' ∉ x.1) :
    before '#' (['&'].intercalate (l.map pair)) = ['&'].intercalate ((visible l).map pair) := by
  induction l with
  | nil => rfl
  | cons x xs ih =>
    have hx := h x List.mem_cons_self
    have hxs := ih fun y hy => h y (List.mem_cons_of_mem _ hy)
    have hname : '#' ∉ x.1 ++ ['='] := by simp [hx]
    have hpair : pair x = x.1 ++ ['='] ++ x.2 := by simp [pair]
    have hcut : ∀ rest : Str, before '#' (pair x ++ rest) = x.1 ++ ['='] ++ before '#' (x.2 ++ rest) := by
      intro rest
      rw [hpair, List.append_assoc, before_append_of_notMem _ hname]
    rw [visible]
    split
    · rename_i hmem
      have hbefore : ∀ rest : Str, before '#' (pair x ++ rest) = pair (x.1, before '#' x.2) := by
        intro rest
        rw [hcut, (before_append_of_mem rest hmem).1, pair]
        simp
      cases xs with
      | nil => simpa using hbefore []
      | cons y ys =>
        rw [List.map_cons, List.map_cons, List.intercalate_cons_cons, List.append_assoc, hbefore]
        simp
    · rename_i hmem
      have hfree : '#' ∉ pair x := by simp [pair, hx, hmem]
      cases xs with
      | nil => simpa [visible] using before_eq_self hfree
      | cons y ys =>
        have hne : visible (y :: ys) ≠ [] := by
          rw [visible]
          split <;> simp
        obtain ⟨z, zs, hz⟩ := List.exists_cons_of_ne_nil hne
        have hamp : '#' ∉ pair x ++ ['&'] := by simp [hfree]
        rw [List.map_cons, List.map_cons, List.intercalate_cons_cons, before_append_of_notMem _ hamp,
          ← List.map_cons, hxs, hz, List.map_cons, List.map_cons, List.map_cons, List.intercalate_cons_cons]

theorem dropUnsafe_pairs {l : List (Str × Str)} (h : ∀ x ∈ l, dropUnsafe x.1 = x.1) :
    dropUnsafe (['&'].intercalate (l.map pair)) =
      ['&'].intercalate ((l.map fun x => (x.1, dropUnsafe x.2)).map pair) := by
  induction l with
  | nil => rfl
  | cons x xs ih =>
    have hxs := ih fun y hy => h y (List.mem_cons_of_mem _ hy)
    have hpair : dropUnsafe (pair x) = pair (x.1, dropUnsafe x.2) := by
      rw [pair, dropUnsafe_append, dropUnsafe_cons (by decide), h x List.mem_cons_self, pair]
    cases xs with
    | nil => simpa using hpair
    | cons y ys =>
      rw [List.map_cons, List.map_cons, List.intercalate_cons_cons, dropUnsafe_append, dropUnsafe_append,
        hpair, ← List.map_cons, hxs]
      simp only [List.map_cons, List.intercalate_cons_cons]
      rfl

def readable : List (Str × Str) := visible ((secureParams url).map fun x => (x.1, dropUnsafe x.2))

def NothingCarried : Prop :=
  ∀ x ∈ readable url, ∀ y ∈ parseQsl (after '&' x.2), y.1 ∈ allowedSecureParams

theorem readable_names : ∀ x ∈ readable url, x.1 ∈ allowedSecureParams := by
  intro x hx
  obtain ⟨y, hy, hyx⟩ := visible_names x hx
  obtain ⟨z, hz, rfl⟩ := List.mem_map.mp hy
  exact hyx ▸ secureParams_names url z hz

theorem parseQsl_secureUrl :
    parseQsl (before '#' (dropUnsafe (['&'].intercalate ((secureParams url).map pair)))) =
      (readable url).flatMap fun x => parseQsl (pair x) := by
  have hplain := fun x hx => allowed_plain x.1 (secureParams_names url x hx)
  rw [dropUnsafe_pairs fun x hx => (hplain x hx).2.2.2.1, before_pairs, parseQsl_intercalate, List.flatMap_map]
  · rfl
  · intro x hx
    obtain ⟨y, hy, rfl⟩ := List.mem_map.mp hx
    exact (hplain y hy).2.2.1

theorem nothingCarried_iff (r : ParseResult) :
    (∀ name ∈ (parseQs (r.withQuery (dropUnsafe (['&'].intercalate ((secureParams url).map pair)))).query).keys,
      name ∈ allowedSecureParams) ↔ NothingCarried url := by
  have hread : ∀ x ∈ readable url, parseQsl (pair x) =
      (if before '&' x.2 = [] then [] else [(x.1, unquotePlus (before '&' x.2))]) ++
        parseQsl (after '&' x.2) := by
    intro x hx
    have hplain := allowed_plain x.1 (readable_names url x hx)
    rw [pair, parseQsl_named _ hplain.1 hplain.2.1, hplain.2.2.2.2]
  constructor
  · intro h x hx y hy
    refine h y.1 (mem_keys_iff.mpr ⟨y.2, ?_⟩)
    rw [ParseResult.withQuery, parseQsl_secureUrl]
    refine List.mem_flatMap.mpr ⟨x, hx, ?_⟩
    rw [hread x hx]
    exact List.mem_append_right _ hy
  · intro h name hname
    obtain ⟨value, hmem⟩ := mem_keys_iff.mp hname
    rw [ParseResult.withQuery, parseQsl_secureUrl] at hmem
    obtain ⟨x, hx, hmem⟩ := List.mem_flatMap.mp hmem
    rw [hread x hx] at hmem
    rcases List.mem_append.mp hmem with hmem | hmem
    · split at hmem
      · cases hmem
      · obtain ⟨rfl, -⟩ := Prod.mk.inj (List.mem_singleton.mp hmem)
        exact readable_names url x hx
    · exact h x hx _ hmem

theorem mem_userNetloc {url : ParseResult} {c : Char} (h : c ∈ userNetloc url) : c = '@' ∨ c ∈ url.netloc := by
  rw [userNetloc] at h
  split at h
  · rename_i d user hd
    rcases List.mem_append.mp h with hc | hc
    · obtain ⟨info, hinfo, hbefore⟩ := Option.map_eq_some_iff.mp hd
      rw [← hbefore] at hc
      have hmem := before_subset _ _ hc
      rw [userinfo] at hinfo
      split at hinfo
      · obtain rfl := Option.some.inj hinfo
        exact .inr ((List.rdropWhile_prefix _ _).subset (List.mem_of_mem_dropLast hmem))
      · cases hinfo
    · exact .inl (List.mem_singleton.mp hc)
  · cases h

theorem schemeBase_plain {netloc : Str} (h : ∀ c ∈ netloc, isNetlocEnd c = false) :
    '?' ∉ secureScheme ++ netloc ++ ['/'] ∧ '#' ∉ secureScheme ++ netloc ++ ['/'] := by
  have hnot : ∀ c, isNetlocEnd c = true → c ∉ secureScheme → c ∉ ['/'] → c ∉ secureScheme ++ netloc ++ ['/'] := by
    intro c hend hscheme hslash hmem
    rw [List.mem_append, List.mem_append] at hmem
    rcases hmem with (hmem | hmem) | hmem
    · exact hscheme hmem
    · rw [h c hmem] at hend
      cases hend
    · exact hslash hmem
  exact ⟨hnot '?' rfl (by decide) (by decide), hnot '#' rfl (by decide) (by decide)⟩

theorem secureBase_plain {env : Tables} {text : Str} {url : ParseResult}
    (hurl : urlparse env text [] = some url) : '?' ∉ secureBase url ∧ '#' ∉ secureBase url := by
  refine schemeBase_plain fun c hc => ?_
  rcases mem_userNetloc hc with rfl | hc
  · decide
  · exact (urlparse_clean (.inl rfl) hurl).split.netloc c hc

structure SecureAgree (url url' : ParseResult) : Prop where
  username : url.username = url'.username
  path : url.path = url'.path
  params : ∀ name ∈ allowedSecureParams, firstValue url.query name = firstValue url'.query name

namespace SecureAgree

variable {url url' : ParseResult} (h : SecureAgree url url')
include h

theorem projectName_eq : projectName url = projectName url' := by
  rw [projectName, projectName, h.params _ (by decide), h.path]

theorem schemaName_eq : schemaName url = schemaName url' := by
  rw [schemaName, schemaName, h.params _ (by decide)]

theorem serviceOption_eq : serviceOption url = serviceOption url' := by
  rw [serviceOption, serviceOption, h.params _ (by decide)]

theorem secureUrl_eq : secureUrl url = secureUrl url' := by
  have hparams : secureParams url = secureParams url' := by
    rw [secureParams, secureParams, h.projectName_eq, h.schemaName_eq, h.params "service".toList (by decide),
      h.params "dbname".toList (by decide)]
  rw [secureUrl, secureUrl, secureBase, secureBase, userNetloc, userNetloc, h.username, hparams]

end SecureAgree

-- a database is told the connection parameters, so that all databases can give the same for two
-- URLs only when these parameters are the same
structure IgnoresRest (env : Tables) (url url' : ParseResult) : Prop where
  same : ∀ db, checkUnsafeUrl env db false url = checkUnsafeUrl env db false url'
  allowed : ∀ db s t, checkUnsafeUrl env db false url = .ok (s, t) → ∀ r, urlparse env s [] = some r →
    ∀ name ∈ (parseQs r.query).keys, name ∈ allowedSecureParams

def anyDatabase : Database := ⟨fun _ _ => .row (some []), fun _ => some 0⟩

theorem checkUnsafeUrl_any (env : Tables) (url : ParseResult) :
    checkUnsafeUrl env anyDatabase false url = (secureConnexion url env).map fun _ => (secureUrl url, 0) := by
  rw [checkUnsafeUrl_secure]
  cases secureConnexion url env with
  | error e => rfl
  | ok connexion => rfl

theorem same_iff {env : Tables} {url url' : ParseResult} (h : SecureAgree url url') :
    (∀ db, checkUnsafeUrl env db false url = checkUnsafeUrl env db false url') ↔
      secureConnexion url env = secureConnexion url' env := by
  constructor
  · intro hsame
    have hany := hsame anyDatabase
    rw [checkUnsafeUrl_any, checkUnsafeUrl_any] at hany
    cases hc : secureConnexion url env with
    | error e =>
      cases hc' : secureConnexion url' env with
      | error e' =>
        rw [hc, hc'] at hany
        exact congrArg Except.error (Except.error.inj hany)
      | ok connexion' =>
        rw [hc, hc'] at hany
        cases hany
    | ok connexion =>
      cases hc' : secureConnexion url' env with
      | error e' =>
        rw [hc, hc'] at hany
        cases hany
      | ok connexion' =>
        by_contra hne
        classical
        have honly := hsame
          ⟨fun c _ => if c = connexion then .row (some []) else .operationalError, fun _ => some 0⟩
        rw [checkUnsafeUrl_secure, checkUnsafeUrl_secure, hc, hc'] at honly
        simp only [Except.bind, if_pos] at honly
        rw [if_neg fun heq => hne (congrArg Except.ok heq.symm)] at honly
        cases honly
  · intro hconnexion db
    rw [checkUnsafeUrl_secure, checkUnsafeUrl_secure, hconnexion, h.schemaName_eq, h.projectName_eq,
      h.secureUrl_eq]

theorem allowed_iff {env : Tables} {text : Str} {url : ParseResult} {connexion : ConnexionParams}
    (hurl : urlparse env text [] = some url) (hconnexion : secureConnexion url env = .ok connexion) :
    (∀ db s t, checkUnsafeUrl env db false url = .ok (s, t) → ∀ r, urlparse env s [] = some r →
      ∀ name ∈ (parseQs r.query).keys, name ∈ allowedSecureParams) ↔
      (urlparse env (secureBase url) [] ≠ none → NothingCarried url) := by
  obtain ⟨hquery, hfragment⟩ := secureBase_plain hurl
  have hread : urlparse env (secureUrl url) [] = (urlparse env (secureBase url) []).map
      (ParseResult.withQuery · (dropUnsafe (['&'].intercalate ((secureParams url).map pair)))) :=
    urlparse_query hquery hfragment
  constructor
  · intro h hbase
    obtain ⟨r, hr⟩ := Option.ne_none_iff_exists'.mp hbase
    have hany : checkUnsafeUrl env anyDatabase false url = .ok (secureUrl url, 0) := by
      rw [checkUnsafeUrl_any, hconnexion]
      rfl
    rw [hr, Option.map_some] at hread
    exact (nothingCarried_iff url r).mp (h _ _ _ hany _ hread)
  · intro h db s t hok r hr
    rw [checkUnsafeUrl_secure, hconnexion] at hok
    obtain rfl : secureUrl url = s := by
      simp only [Except.bind] at hok
      cases hrow : readMetadata db (db.execute connexion (selectMetadata (schemaName url) (projectName url))) with
      | error e =>
        rw [hrow] at hok
        cases hok
      | ok t' =>
        rw [hrow] at hok
        exact (Prod.mk.inj (Except.ok.inj hok)).1
    rw [hread] at hr
    obtain ⟨b, hb, rfl⟩ := Option.map_eq_some_iff.mp hr
    exact (nothingCarried_iff url b).mpr (h (hb ▸ Option.some_ne_none b))

structure SameHost (env : Tables) (url url' : ParseResult) : Prop where
  port : url.port = url'.port
  host : url.port ≠ none → url.hostname env = url'.hostname env
  password : url.port ≠ none → url.password = url'.password

theorem secureConnexion_eq_iff {env : Tables} {url url' : ParseResult} (h : SecureAgree url url')
    (hproject : projectName url ≠ []) :
    secureConnexion url env = secureConnexion url' env ↔ SameHost env url url' := by
  rw [secureConnexion, secureConnexion, ← h.projectName_eq, if_neg hproject, if_neg hproject]
  cases hp : url.port with
  | none =>
    cases hp' : url'.port with
    | none => exact iff_of_true rfl ⟨hp.trans hp'.symm, fun hne => absurd hp hne, fun hne => absurd hp hne⟩
    | some p' =>
      refine iff_of_false (by simp) fun hsame => ?_
      rw [hsame.port, hp'] at hp
      cases hp
  | some p =>
    have hne : url.port ≠ none := hp ▸ Option.some_ne_none p
    cases hp' : url'.port with
    | none =>
      refine iff_of_false (by simp) fun hsame => ?_
      rw [hsame.port, hp'] at hp
      cases hp
    | some p' =>
      simp only [Except.ok.injEq, ConnexionParams.mk.injEq]
      constructor
      · rintro ⟨hhost, hport, -, hpassword, -⟩
        exact ⟨by rw [hp, hp', hport], fun _ => hhost, fun _ => hpassword⟩
      · rintro ⟨hport, hhost, hpassword⟩
        rw [hp, hp'] at hport
        exact ⟨hhost hne, Option.some.inj hport, h.username, hpassword hne,
          h.params _ (by decide), h.serviceOption_eq⟩

theorem secure_ignores_rest_iff {env : Tables} {text : Str} {url url' : ParseResult}
    (hurl : urlparse env text [] = some url) (h : SecureAgree url url') :
    IgnoresRest env url url' ↔ projectName url = [] ∨ SameHost env url url' ∧
      (url.port = none ∨ urlparse env (secureBase url) [] = none ∨ NothingCarried url) := by
  by_cases hproject : projectName url = []
  · refine iff_of_true ⟨?_, ?_⟩ (.inl hproject)
    · rw [same_iff h, secureConnexion, secureConnexion, ← h.projectName_eq, if_pos hproject, if_pos hproject]
    · intro db s t hok
      rw [checkUnsafeUrl_secure, secureConnexion, if_pos hproject] at hok
      cases hok
  · have hallowed : (∀ db s t, checkUnsafeUrl env db false url = .ok (s, t) → ∀ r, urlparse env s [] = some r →
        ∀ name ∈ (parseQs r.query).keys, name ∈ allowedSecureParams) ↔
        (url.port = none ∨ urlparse env (secureBase url) [] = none ∨ NothingCarried url) := by
      cases hp : url.port with
      | none =>
        refine iff_of_true ?_ (.inl rfl)
        intro db s t hok
        rw [checkUnsafeUrl_secure, secureConnexion, if_neg hproject, hp] at hok
        cases hok
      | some p =>
        rw [allowed_iff hurl (by rw [secureConnexion, if_neg hproject, hp])]
        simp only [reduceCtorEq, false_or, ne_eq]
        tauto
    rw [← hallowed, ← secureConnexion_eq_iff h hproject, ← same_iff h]
    simp only [hproject, false_or]
    exact ⟨fun hi => ⟨hi.same, hi.allowed⟩, fun hi => ⟨hi.1, hi.2⟩⟩

theorem secure_ignores_extra_parameter :
    ∃ url url', urlparse asciiTables "postgres://alice@db1/x?service=my".toList [] = some url ∧
      urlparse asciiTables "postgres://alice@db1/x?service=my&sslmode=disable".toList [] = some url' ∧
      IgnoresRest asciiTables url url' := by
  have hurl : urlparse asciiTables "postgres://alice@db1/x?service=my".toList [] =
      some ⟨⟨"postgres".toList, "alice@db1".toList, "/x".toList, "service=my".toList, []⟩, []⟩ := by
    decide
  have hurl' : urlparse asciiTables "postgres://alice@db1/x?service=my&sslmode=disable".toList [] =
      some ⟨⟨"postgres".toList, "alice@db1".toList, "/x".toList, "service=my&sslmode=disable".toList, []⟩,
        []⟩ := by
    decide
  refine ⟨_, _, hurl, hurl', ?_⟩
  refine (secure_ignores_rest_iff hurl ?_).mpr ?_
  · exact ⟨rfl, rfl, by decide⟩
  · exact .inr ⟨⟨by decide, fun _ => by decide, fun _ => by decide⟩, .inr (.inr (by unfold NothingCarried; decide))⟩

theorem host_reaches_database :
    ∃ url url', urlparse asciiTables "postgres://alice@db1/x".toList [] = some url ∧
      urlparse asciiTables "postgres://alice@evil:6543/x".toList [] = some url' ∧
      SecureAgree url url' ∧ ¬ IgnoresRest asciiTables url url' := by
  have hurl : urlparse asciiTables "postgres://alice@db1/x".toList [] =
      some ⟨⟨"postgres".toList, "alice@db1".toList, "/x".toList, [], []⟩, []⟩ := by decide
  have hurl' : urlparse asciiTables "postgres://alice@evil:6543/x".toList [] =
      some ⟨⟨"postgres".toList, "alice@evil:6543".toList, "/x".toList, [], []⟩, []⟩ := by decide
  refine ⟨_, _, hurl, hurl', ⟨rfl, rfl, fun _ _ => rfl⟩, fun h => ?_⟩
  have hany := h.same ⟨fun c _ => if c.port = none then .row (some []) else .noRow, fun _ => some 0⟩
  exact absurd hany (by decide)

end QgsCache
