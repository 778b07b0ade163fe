import SocialApi.Keys

/-!
# Path labels

`track_metrics` (`middleware/metrics.rs`) labels its metrics with `normalize_path` of the
request's path, computed before anything is known about the request: parts of the shape of a
UUID and parts that are decimal numbers become `:id`, and every other part stays as it is.

* `normalizePath_accepted`: requests the handlers accept for hyphenated content ids are labelled
  with one of finitely many labels, given by the routes and the registered types.
* `label_outside`: no finite bound that is computed from the registered types holds the labels of
  all requests to the routes of the API.
-/

namespace SocialApi.Metrics

/-! ## `normalize_path` -/

/-- The bytes of a part. -/
def utf8 (part : List Char) : List UInt8 := part.flatMap String.utf8EncodeChar

/-- `looks_like_uuid` (metrics.rs:76–81). -/
def looksLikeUuid (part : List Char) : Bool :=
  let b := utf8 part
  b.length = 36 && (b[8]? = some 45 && b[13]? = some 45 && b[18]? = some 45 && b[23]? = some 45)

/-- `looks_like_number` (metrics.rs:84–86). -/
def looksLikeNumber (part : List Char) : Bool :=
  !part.isEmpty && (utf8 part).all fun b => 48 ≤ b && b ≤ 57

/-- What becomes of one part. -/
def normalizePart (part : List Char) : List Char :=
  if looksLikeUuid part || looksLikeNumber part then [':', 'i', 'd'] else part

/-- Parts with slashes between them. -/
def joined (parts : List (List Char)) : String := String.ofList (['/'].intercalate parts)

/-- `normalize_path` (metrics.rs:57–71). -/
def normalizePath (path : String) : String :=
  joined ((path.toList.splitOn '/').map normalizePart)

/-! ## The routes of the API -/

/-- A part of a route. -/
inductive RoutePart where
  | fixed (text : String)
  | contentType
  | contentId

/-- The routes that `build_router` puts behind `track_metrics` (server.rs:131–180). -/
def apiRoutes : List (List RoutePart) :=
  let likes (rest : List RoutePart) := .fixed "v1" :: .fixed "likes" :: rest
  [likes [],
    likes [.contentType, .contentId],
    likes [.contentType, .contentId, .fixed "count"],
    likes [.fixed "batch", .fixed "counts"],
    likes [.fixed "top"],
    likes [.fixed "stream"],
    likes [.contentType, .contentId, .fixed "status"],
    likes [.fixed "user"],
    likes [.fixed "batch", .fixed "statuses"]]

/-- What a part of a route matches: its own text, or any text that is not empty. -/
def RoutePart.Accepts : RoutePart → List Char → Prop
  | fixed text, part => part = text.toList
  | _, part => part ≠ []

/-- The path of a request to the API. -/
def ApiPath (path : String) : Prop :=
  ∃ route ∈ apiRoutes, ∃ parts, path.toList.splitOn '/' = [] :: parts ∧
    List.Forall₂ RoutePart.Accepts route parts

/-! ## Parts -/

/-- The parts of a path that has been joined. -/
theorem splitOn_joined {parts : List (List Char)} (hparts : ∀ part ∈ parts, '/' ∉ part)
    (hne : parts ≠ []) : (joined parts).toList.splitOn '/' = parts := by
  unfold joined
  rw [String.toList_ofList]
  exact List.splitOn_intercalate '/' hparts hne

theorem normalizePath_joined {parts : List (List Char)} (hparts : ∀ part ∈ parts, '/' ∉ part)
    (hne : parts ≠ []) : normalizePath (joined parts) = joined (parts.map normalizePart) := by
  unfold normalizePath
  rw [splitOn_joined hparts hne]

/-- A part with a letter, and no hyphen where a UUID has its first one, stays as it is. -/
theorem normalizePart_of_letter {part : List Char} (hhyphen : (utf8 part)[8]? ≠ some 45)
    {b : UInt8} (hb : b ∈ utf8 part) (hletter : ¬ b ≤ 57) : normalizePart part = part := by
  have huuid : looksLikeUuid part = false := by
    simp [looksLikeUuid, hhyphen]
  have hnumber : looksLikeNumber part = false := by
    unfold looksLikeNumber
    rw [Bool.and_eq_false_iff]
    refine Or.inr (List.all_eq_false.mpr ⟨b, hb, ?_⟩)
    simp [hletter]
  unfold normalizePart
  rw [huuid, hnumber]
  rfl

/-! ## Accepted requests -/

theorem mem_uuid {u : Uuid} {c : Char} (h : c ∈ Uuid.toList u) :
    c = '-' ∨ ∃ d < 16, c = Nat.digitChar d := by
  obtain ⟨place, -, rfl⟩ := List.mem_map.mp h
  cases place with
  | none => exact Or.inl rfl
  | some i => exact Or.inr ⟨_, Nat.mod_lt _ (by norm_num), rfl⟩

/-- The characters of a UUID take one byte each. -/
theorem utf8_uuid (u : Uuid) : utf8 (Uuid.toList u) = (Uuid.toList u).map fun c => c.toNat.toUInt8 := by
  have hdigit : ∀ d < 16, String.utf8EncodeChar (Nat.digitChar d) =
      [(Nat.digitChar d).toNat.toUInt8] := by decide
  have hone : ∀ c ∈ Uuid.toList u, String.utf8EncodeChar c = [c.toNat.toUInt8] := by
    intro c hc
    rcases mem_uuid hc with rfl | ⟨d, hd, rfl⟩
    · rfl
    · exact hdigit d hd
  unfold utf8
  rw [List.flatMap_congr hone, List.map_eq_flatMap]

/-- Every hyphenated UUID is recognised. -/
theorem looksLikeUuid_uuid (u : Uuid) : looksLikeUuid (Uuid.toList u) = true := by
  have hhyphen : ∀ i : ℕ, Uuid.layout[i]? = some none → (utf8 (Uuid.toList u))[i]? = some 45 := by
    intro i hi
    rw [utf8_uuid, Uuid.toList, List.getElem?_map, List.getElem?_map, hi]
    rfl
  have hlength : (utf8 (Uuid.toList u)).length = 36 := by
    rw [utf8_uuid, List.length_map, Uuid.length_toList]
  unfold looksLikeUuid
  dsimp only
  rw [hlength, hhyphen 8 (by decide), hhyphen 13 (by decide), hhyphen 18 (by decide),
    hhyphen 23 (by decide)]
  rfl

/-- The parts of a path about an item. -/
def itemParts (contentType contentId : List Char) (rest : List (List Char)) : List (List Char) :=
  [] :: ['v', '1'] :: ['l', 'i', 'k', 'e', 's'] :: contentType :: contentId :: rest

/-- The labels of the requests about items of the registered types. -/
def itemLabels (registered : Finset String) (rest : List (List Char)) : Finset String :=
  registered.image fun ct => joined (itemParts (normalizePart ct.toList) [':', 'i', 'd'] rest)

section ItemParts

variable {contentType contentId : List Char} {rest : List (List Char)}

theorem no_slash_itemParts (htype : '/' ∉ contentType) (hid : '/' ∉ contentId)
    (hrest : ∀ part ∈ rest, '/' ∉ part) : ∀ part ∈ itemParts contentType contentId rest, '/' ∉ part := by
  intro part hpart
  simp only [itemParts, List.mem_cons] at hpart
  rcases hpart with rfl | rfl | rfl | rfl | rfl | hpart
  · decide
  · decide
  · decide
  · exact htype
  · exact hid
  · exact hrest part hpart

/-- The label of a path about an item. -/
theorem normalizePath_itemParts (htype : '/' ∉ contentType) (hid : '/' ∉ contentId)
    (hrest : ∀ part ∈ rest, '/' ∉ part) :
    normalizePath (joined (itemParts contentType contentId rest)) =
      joined (itemParts (normalizePart contentType) (normalizePart contentId)
        (rest.map normalizePart)) := by
  rw [normalizePath_joined (no_slash_itemParts htype hid hrest) (List.cons_ne_nil _ _)]
  rfl

end ItemParts

/-- A request that the handlers accept is labelled with its route and its content type. -/
theorem normalizePath_accepted {registered : Finset String} {ct : String} (hct : ct ∈ registered)
    (hslash : '/' ∉ ct.toList) (u : Uuid) {rest : List (List Char)}
    (hrest : ∀ part ∈ rest, '/' ∉ part) :
    normalizePath (joined (itemParts ct.toList (Uuid.toList u) rest)) ∈
      itemLabels registered (rest.map normalizePart) := by
  have huuid : normalizePart (Uuid.toList u) = [':', 'i', 'd'] := by
    unfold normalizePart
    rw [looksLikeUuid_uuid]
    rfl
  have hnoslash : '/' ∉ Uuid.toList u := by
    intro hmem
    have hdigit : ∀ d < 16, '/' ≠ Nat.digitChar d := by decide
    rcases mem_uuid hmem with h | ⟨d, hd, h⟩
    · exact absurd h (by decide)
    · exact hdigit d hd h
  rw [normalizePath_itemParts hslash hnoslash hrest, huuid]
  exact Finset.mem_image_of_mem _ hct

/-! ## Labels without a bound -/

/-- The parts of the path to the count of an item whose content type is `n + 1` letters. -/
def countParts (n : ℕ) : List (List Char) :=
  itemParts (List.replicate (n + 1) 'a') ['b'] [['c', 'o', 'u', 'n', 't']]

theorem utf8_replicate (n : ℕ) : utf8 (List.replicate n 'a') = List.replicate n 97 := by
  induction n with
  | zero => rfl
  | succ n ih =>
    rw [List.replicate_succ, List.replicate_succ, ← ih]
    rfl

theorem normalizePart_replicate (n : ℕ) :
    normalizePart (List.replicate (n + 1) 'a') = List.replicate (n + 1) 'a' := by
  refine normalizePart_of_letter (b := 97) ?_ ?_ (by decide)
  · rw [utf8_replicate]
    intro h
    have hmem := List.mem_of_getElem? h
    exact absurd (List.eq_of_mem_replicate hmem) (by decide)
  · rw [utf8_replicate]
    exact List.mem_replicate.mpr ⟨by omega, rfl⟩

theorem no_slash_countParts (n : ℕ) : ∀ part ∈ countParts n, '/' ∉ part := by
  refine no_slash_itemParts (fun h => ?_) (by decide) (by decide)
  exact absurd (List.eq_of_mem_replicate h) (by decide)

/-- These paths are their own labels. -/
theorem normalizePath_countParts (n : ℕ) :
    normalizePath (joined (countParts n)) = joined (countParts n) := by
  rw [normalizePath_joined (no_slash_countParts n) (List.cons_ne_nil _ _)]
  have hmap : (countParts n).map normalizePart = countParts n := by
    unfold countParts itemParts
    rw [List.map_cons, List.map_cons, List.map_cons, List.map_cons, normalizePart_replicate]
    rfl
  rw [hmap]

theorem apiPath_countParts (n : ℕ) : ApiPath (joined (countParts n)) := by
  refine ⟨[.fixed "v1", .fixed "likes", .contentType, .contentId, .fixed "count"],
    by simp [apiRoutes], (countParts n).tail, ?_, ?_⟩
  · exact splitOn_joined (no_slash_countParts n) (List.cons_ne_nil _ _)
  · exact .cons rfl (.cons rfl (.cons (List.cons_ne_nil _ _)
      (.cons (List.cons_ne_nil _ _) (.cons rfl .nil))))

theorem countParts_injective : Function.Injective fun n => joined (countParts n) := by
  intro n m h
  have hparts := congrArg (fun path : String => path.toList.splitOn '/') h
  dsimp only at hparts
  rw [splitOn_joined (no_slash_countParts n) (List.cons_ne_nil _ _),
    splitOn_joined (no_slash_countParts m) (List.cons_ne_nil _ _)] at hparts
  have hlength := congrArg (fun parts => (parts.getD 3 []).length) hparts
  simpa [countParts, itemParts] using hlength

/-- The labels of all requests to the routes of the API are infinitely many. -/
theorem labels_infinite : {label | ∃ path, ApiPath path ∧ label = normalizePath path}.Infinite := by
  refine (Set.infinite_range_of_injective countParts_injective).mono ?_
  rintro _ ⟨n, rfl⟩
  exact ⟨_, apiPath_countParts n, (normalizePath_countParts n).symm⟩

/-- Whatever finite set of labels is computed from the registered types, some request to a route
    of the API has a label outside of it. -/
theorem label_outside (bound : Finset String → Finset String) (registered : Finset String) :
    ∃ path, ApiPath path ∧ normalizePath path ∉ bound registered := by
  obtain ⟨label, ⟨path, hpath, rfl⟩, hout⟩ := labels_infinite.exists_notMem_finset (bound registered)
  exact ⟨path, hpath, hout⟩

/-- With the type `post` alone, a path that names no registered type and no UUID is a label of its
    own, and no finite set holds all such labels. -/
theorem postOnly_unbounded :
    normalizePath "/v1/likes/aaa/b/count" = "/v1/likes/aaa/b/count" ∧
      ¬ ∃ bound : Finset String → Finset String, ∀ path, ApiPath path →
        normalizePath path ∈ bound {"post"} := by
  refine ⟨by decide +kernel, ?_⟩
  rintro ⟨bound, hbound⟩
  refine labels_infinite (Set.Finite.subset (bound {"post"}).finite_toSet ?_)
  rintro _ ⟨path, hpath, rfl⟩
  exact hbound path hpath

end SocialApi.Metrics
