import PyQgisServer.Cache.SecureUrl

namespace QgsCache

open Urllib

-- a project that is looked up: the connexion and the text are those of the query, urlstr is the URL
-- that read_project is given
structure MetadataQuery where
  connexion : ConnexionParams
  schema : Str
  project : Str
  urlstr : Str

def MetadataQuery.text (l : MetadataQuery) : Str := selectMetadata l.schema l.project

def MetadataQuery.param (l : MetadataQuery) (name : Str) : Option Str :=
  if name = "project".toList then some l.project
  else if name = "schema".toList then some l.schema
  else if name = "dbname".toList then l.connexion.database
  else l.connexion.options.get? name

section query

variable (env : Tables) (insecure : Bool) (url : ParseResult)

def queryOptions : PyDict Str Str :=
  (((queryParams insecure url.query).erase "project".toList).erase "schema".toList).erase "dbname".toList

def frontNetloc : Str := if insecure then url.netloc else userNetloc url

def writtenParams : PyDict Str Str :=
  let params := ((queryOptions insecure url).set "project".toList (projectName url)).set "schema".toList (schemaName url)
  match firstValue url.query "dbname".toList with
  | some (c :: name) => params.set "dbname".toList (c :: name)
  | _ => params

-- what the function does before it asks the database
def metadataQuery : Except CacheError MetadataQuery :=
  if projectName url = [] then .error .fileNotFound
  else
    match url.port with
    | none => .error .valueError
    | some port =>
      if (queryOptions insecure url).keys.any (· ∈ connexionKeywords) then .error .typeError
      else .ok ⟨⟨url.hostname env, port, url.username, url.password, firstValue url.query "dbname".toList,
        queryOptions insecure url⟩, schemaName url, projectName url,
        postgresUrl (frontNetloc insecure url) (writtenParams insecure url)⟩

theorem queryParams_allowed {name : Str} (h : name ∈ allowedSecureParams) :
    (queryParams insecure url.query).get? name = firstValue url.query name := by
  rw [queryParams_get?, if_pos (by simp [h])]

theorem checkUnsafeUrl_query (db : Database) :
    checkUnsafeUrl env db insecure url = (metadataQuery env insecure url).bind fun l =>
      (readMetadata db (db.execute l.connexion l.text)).map fun t => (l.urlstr, t) := by
  have hproject : ((queryParams insecure url.query).get? "project".toList).getD (stripSlashes url.path) =
      projectName url := by
    rw [queryParams_allowed insecure url (by decide), projectName]
  have hschema : (((queryParams insecure url.query).erase "project".toList).get? "schema".toList).getD
      "public".toList = schemaName url := by
    rw [PyDict.get?_erase, if_neg (by decide), queryParams_allowed insecure url (by decide), schemaName]
  have hdbname : ((((queryParams insecure url.query).erase "project".toList).erase "schema".toList).get?
      "dbname".toList) = firstValue url.query "dbname".toList := by
    rw [PyDict.get?_erase, if_neg (by decide), PyDict.get?_erase, if_neg (by decide),
      queryParams_allowed insecure url (by decide)]
  unfold checkUnsafeUrl metadataQuery
  simp only [hproject, hschema, hdbname]
  split
  · rfl
  · cases url.port with
    | none => rfl
    | some port =>
      simp only [queryOptions, List.any_eq_true, decide_eq_true_eq]
      split
      · rfl
      · cases insecure <;> rfl

theorem accepted {db : Database} {s : Str} {t : ℤ} (h : checkUnsafeUrl env db insecure url = .ok (s, t)) :
    ∃ l, metadataQuery env insecure url = .ok l ∧ l.urlstr = s := by
  rw [checkUnsafeUrl_query] at h
  cases hl : metadataQuery env insecure url with
  | error e =>
    rw [hl] at h
    cases h
  | ok l =>
    rw [hl] at h
    simp only [Except.bind] at h
    cases hrow : readMetadata db (db.execute l.connexion l.text) with
    | error e =>
      rw [hrow] at h
      cases h
    | ok t' =>
      rw [hrow] at h
      exact ⟨l, rfl, (Prod.mk.inj (Except.ok.inj h)).1⟩

theorem metadataQuery_text {l : MetadataQuery} (h : metadataQuery env insecure url = .ok l) :
    l.text = selectMetadata (schemaName url) (projectName url) := by
  unfold metadataQuery at h
  split at h
  · cases h
  · split at h
    · cases h
    · split at h
      · cases h
      · obtain rfl := Except.ok.inj h
        rfl

end query

end QgsCache
