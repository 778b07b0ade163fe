import SocialApi.Keys

/-!
# The entries of the cache and their keys

The content types are read from the environment: `build_content_api_urls` (`config.rs`) registers
the lower-case form of whatever stands between `CONTENT_API_` and `_URL` in the name of a
variable. The services build the keys of the string cache from them without escaping.

* `keysApart_iff`: distinct entries over the registered types have distinct keys exactly when
  `_` is not registered. `_` stands for "no filter" in the key of a user's first page, and no
  other character that a type may hold, the separator among them, makes two keys agree.
* `underscore_shared`: with `CONTENT_API___URL` set, the first page of a user's likes of type `_`
  and that of all their likes share a key.
-/

namespace SocialApi.Entries

/-! ## The registered types -/

/-- `str::strip_prefix`. -/
def stripStart (start : List Char) (s : List Char) : Option (List Char) :=
  if start.isPrefixOf s then some (s.drop start.length) else none

/-- `str::strip_suffix`. -/
def stripEnd (ending : List Char) (s : List Char) : Option (List Char) :=
  if ending.isSuffixOf s then some (s.take (s.length - ending.length)) else none

/-- `HashMap::insert`. -/
def insertUrl (type url : String) (urls : List (String × String)) : List (String × String) :=
  (type, url) :: urls.filter fun entry => entry.1 ≠ type

/-- `build_content_api_urls` (config.rs:34–48) on the variables of the environment. -/
def buildContentApiUrls (toLowercase : String → String) (vars : List (String × String)) :
    List (String × String) :=
  vars.foldl (fun urls var =>
    match (stripStart "CONTENT_API_".toList var.1.toList).bind (stripEnd "_URL".toList) with
    | some typeName =>
      if var.2 ≠ "" then insertUrl (toLowercase (String.ofList typeName)) var.2 urls else urls
    | none => urls) []

/-- The registered types. -/
def registeredTypes (toLowercase : String → String) (vars : List (String × String)) : List String :=
  (buildContentApiUrls toLowercase vars).map Prod.fst

/-! ## The entries -/

/-- What is kept in the cache. -/
inductive Entry where
  | count (contentType : String) (contentId : Uuid)
  | status (userId : Uuid) (contentType : String) (contentId : Uuid)
  | firstPage (userId : Uuid) (contentTypeFilter : Option String)
  | filteredLeaderboard (window : TimeWindow) (contentType : String) (limit : ℕ)
  | contentValidation (contentType : String) (contentId : Uuid)
  deriving DecidableEq, Repr

namespace Entry

/-- The types an entry names. -/
def contentTypes : Entry → List String
  | count ct _ => [ct]
  | status _ ct _ => [ct]
  | firstPage _ filter => filter.toList
  | filteredLeaderboard _ ct _ => [ct]
  | contentValidation ct _ => [ct]

/-- The key the services build: `count_cache_key`, `status_cache_key`, `get_user_likes`,
    `get_leaderboard` and the validators' `cache_key` (content_client.rs:63–65,
    grpc_content_client.rs:42–44). -/
def key : Entry → String
  | count ct cid => (CacheKey.lc ct cid).render
  | status uid ct cid => (CacheKey.ls uid ct cid).render
  | firstPage uid filter => (CacheKey.ul uid (filter.getD "_")).render
  | filteredLeaderboard window ct limit => (CacheKey.lbf window ct limit).render
  | contentValidation ct cid => "cv:" ++ ct ++ ":" ++ cid.toString

/-- The first three characters of the key. -/
def family : Entry → List Char
  | count _ _ => ['l', 'c', ':']
  | status _ _ _ => ['l', 's', ':']
  | firstPage _ _ => ['u', 'l', ':']
  | filteredLeaderboard _ _ _ => ['l', 'b', 'f']
  | contentValidation _ _ => ['c', 'v', ':']

theorem key_family (e : Entry) : e.key.toList.take 3 = e.family := by
  cases e with
  | count ct cid => exact CacheKey.render_family _
  | status uid ct cid => exact CacheKey.render_family _
  | firstPage uid filter => exact CacheKey.render_family _
  | filteredLeaderboard window ct limit => exact CacheKey.render_family _
  | contentValidation ct cid => simp [key, family]

theorem contentValidation_injective {ct ct' : String} {cid cid' : Uuid}
    (h : (contentValidation ct cid).key = (contentValidation ct' cid').key) :
    ct = ct' ∧ cid = cid' := by
  -- The keys differ from those of the counts in their first two characters only.
  refine CacheKey.render_lc_injective ?_
  have h := congrArg String.toList h
  simp only [key, String.toList_append, List.append_assoc] at h
  rw [← String.toList_inj]
  simp only [CacheKey.render, String.toList_append, List.append_assoc]
  rw [List.append_cancel_left h]

/-- The filter is read back from its text, unless it is `_`. -/
theorem filter_injective {filter filter' : Option String} (hfilter : "_" ∉ filter.toList)
    (hfilter' : "_" ∉ filter'.toList) (h : filter.getD "_" = filter'.getD "_") :
    filter = filter' := by
  cases filter with
  | none =>
    cases filter' with
    | none => rfl
    | some ct => exact absurd (Option.mem_toList.mpr (congrArg some h.symm)) hfilter'
  | some ct =>
    cases filter' with
    | none => exact absurd (Option.mem_toList.mpr (congrArg some h)) hfilter
    | some ct' => exact congrArg some h

/-- The key determines the entry when neither names the type `_`. -/
theorem key_injective {e e' : Entry} (he : "_" ∉ e.contentTypes) (he' : "_" ∉ e'.contentTypes)
    (h : e.key = e'.key) : e = e' := by
  have hfamily : e.family = e'.family := by
    rw [← key_family, ← key_family, h]
  cases e with
  | count ct cid =>
    cases e' with
    | count ct' cid' =>
      obtain ⟨rfl, rfl⟩ := CacheKey.render_lc_injective h
      rfl
    | _ => exact absurd hfamily (by simp [family])
  | status uid ct cid =>
    cases e' with
    | status uid' ct' cid' =>
      obtain ⟨rfl, rfl, rfl⟩ := CacheKey.render_ls_injective h
      rfl
    | _ => exact absurd hfamily (by simp [family])
  | firstPage uid filter =>
    cases e' with
    | firstPage uid' filter' =>
      obtain ⟨rfl, hfilter⟩ := CacheKey.render_ul_injective h
      rw [filter_injective he he' hfilter]
    | _ => exact absurd hfamily (by simp [family])
  | filteredLeaderboard window ct limit =>
    cases e' with
    | filteredLeaderboard window' ct' limit' =>
      obtain ⟨rfl, rfl, rfl⟩ := CacheKey.render_lbf_injective h
      rfl
    | _ => exact absurd hfamily (by simp [family])
  | contentValidation ct cid =>
    cases e' with
    | contentValidation ct' cid' =>
      obtain ⟨rfl, rfl⟩ := contentValidation_injective h
      rfl
    | _ => exact absurd hfamily (by simp [family])

end Entry

/-! ## Specification -/

/-- Distinct entries over the given types have distinct keys. -/
def KeysApart (types : List String) : Prop :=
  ∀ e e' : Entry, e.contentTypes ⊆ types → e'.contentTypes ⊆ types → e.key = e'.key → e = e'

/-- Distinct entries over the registered types have distinct keys exactly when `_` is not
    registered. -/
theorem keysApart_iff (toLowercase : String → String) (vars : List (String × String)) :
    KeysApart (registeredTypes toLowercase vars) ↔ "_" ∉ registeredTypes toLowercase vars := by
  constructor
  · intro h hmem
    have hsame := h (.firstPage 0 none) (.firstPage 0 (some "_")) (List.nil_subset _)
      (List.cons_subset.mpr ⟨hmem, List.nil_subset _⟩) rfl
    cases hsame
  · intro h e e' he he' hkey
    exact Entry.key_injective (fun hmem => h (he hmem)) (fun hmem => h (he' hmem)) hkey

/-- A variable that registers `_`. -/
def underscoreVars : List (String × String) := [("CONTENT_API___URL", "http://content")]

/-- With it two entries share a key. -/
theorem underscore_shared :
    registeredTypes String.toLower underscoreVars = ["_"] ∧
      (Entry.firstPage 0 none).key = (Entry.firstPage 0 (some "_")).key ∧
      ¬ KeysApart (registeredTypes String.toLower underscoreVars) := by
  have htypes : registeredTypes String.toLower underscoreVars = ["_"] := by decide +kernel
  refine ⟨htypes, rfl, fun h => ?_⟩
  rw [htypes] at h
  have hsame := h (.firstPage 0 none) (.firstPage 0 (some "_")) (List.nil_subset _)
    (List.Subset.refl _) rfl
  cases hsame

end SocialApi.Entries
