import SocialApi.Keys

/-!
# The channels of the like streams

The two streaming endpoints, `like_stream` of `handlers/stream.rs` (SSE) and
`stream_likes` of `grpc/likes_service.rs`, up to the channel they subscribe to, and
`LikeEventPublisher::publish` of `services/like_events.rs`.

`Uuid::parse_str` belongs to the uuid crate and is a parameter here; the crate
documents that it reads back what `Display` prints. `Uuid.parseStr` is one such
function, with the spellings the crate lists.

* `exists_toString_iff`: the texts `Display` prints are the hyphenated spellings in
  lower case (`Canonical`).
* `streamChannels_iff`: an accepted request subscribes to the channel its events
  are published on exactly when it spells the UUID so; `upperCase_otherChannel`
  is a request that does not.
* `delivered_publishChannel`, `delivered_of_not_canonical`: the events a
  stream carries.
-/

namespace SocialApi

/-! ## The spellings of a `Uuid` -/

namespace Uuid

/-- The digits `Display` prints. -/
def LowerHex (c : Char) : Prop := ∃ d < 16, Nat.digitChar d = c

instance : DecidablePred LowerHex := fun c =>
  inferInstanceAs (Decidable (∃ d < 16, Nat.digitChar d = c))

/-- A character that may stand at a place of the hyphenated form. -/
def Fits : Option ℕ → Char → Prop
  | none, c => c = '-'
  | some _, c => LowerHex c

instance : DecidableRel Fits
  | none, c => inferInstanceAs (Decidable (c = '-'))
  | some _, c => inferInstanceAs (Decidable (LowerHex c))

/-- The hyphenated spelling in lower case: `8-4-4-4-12` digits, none of them upper-case. -/
def Canonical (s : String) : Prop := List.Forall₂ Fits layout s.toList

instance : DecidablePred Canonical := fun s =>
  inferInstanceAs (Decidable (List.Forall₂ Fits layout s.toList))

theorem canonical_toString (id : Uuid) : Canonical id.toString := by
  unfold Canonical toString
  rw [String.toList_ofList, toList, List.forall₂_map_right_iff, List.forall₂_same]
  intro place _
  cases place with
  | none => rfl
  | some i => exact ⟨nibble id i, Nat.mod_lt _ (by omega), rfl⟩

/-- The character at a place of the hyphenated form of the number `n`. -/
def placeChar (n : ℕ) : Option ℕ → Char
  | none => '-'
  | some i => (n / 16 ^ i % 16).digitChar

theorem toList_eq (id : Uuid) : toList id = layout.map (placeChar id.toNat) := by
  unfold toList
  apply List.map_congr_left
  intro place _
  cases place <;> rfl

theorem colon_notMem (u : Uuid) : ':' ∉ toList u := by
  have hdigit : ∀ d < 16, Nat.digitChar d ≠ ':' := by decide
  rw [toList_eq, List.mem_map]
  rintro ⟨place, -, h⟩
  cases place with
  | none => simp [placeChar] at h
  | some i => exact hdigit _ (Nat.mod_lt _ (by omega)) h

theorem digit_unique {p a b x y : ℕ} (ha : a < p) (hb : b < p) (h : a + p * x = b + p * y) :
    a = b ∧ x = y := by
  have hmod := congrArg (· % p) h
  have hdiv := congrArg (· / p) h
  simp only [Nat.add_mul_mod_self_left, Nat.mod_eq_of_lt ha, Nat.mod_eq_of_lt hb] at hmod
  simp only [Nat.add_mul_div_left _ _ (show 0 < p by omega), Nat.div_eq_of_lt ha,
    Nat.div_eq_of_lt hb, Nat.zero_add] at hdiv
  exact ⟨hmod, hdiv⟩

/-- The characters at the places of a form whose digits are numbered `k - 1`, …, `0`
    determine `k` digits of a number. -/
theorem exists_digits {places : List (Option ℕ)} {cs : List Char}
    (hfits : List.Forall₂ Fits places cs) :
    ∀ k, places.filterMap id = (List.range k).reverse →
      ∃ m < 16 ^ k, ∀ n : ℕ, n % 16 ^ k = m → places.map (placeChar n) = cs := by
  induction hfits with
  | nil =>
    intro k _
    exact ⟨0, by positivity, fun n _ => rfl⟩
  | @cons place c places cs hplace hfits ih =>
    intro k hk
    cases place with
    | none =>
      obtain ⟨m, hm, hn⟩ := ih k (by simpa using hk)
      refine ⟨m, hm, fun n hnm => ?_⟩
      rw [List.map_cons, hn n hnm]
      exact congrArg (· :: cs) hplace.symm
    | some i =>
      obtain ⟨d, hd, rfl⟩ := hplace
      -- the digit read now is the most significant of the `k` that are left
      have hk' : k = i + 1 ∧ places.filterMap id = (List.range i).reverse := by
        cases k with
        | zero => simp at hk
        | succ k =>
          simp only [List.range_succ, List.reverse_append, List.filterMap_cons, id_eq,
            List.reverse_cons, List.reverse_nil, List.nil_append, List.cons_append,
            List.cons.injEq] at hk
          obtain ⟨rfl, hk⟩ := hk
          exact ⟨rfl, hk⟩
      obtain ⟨rfl, hplaces⟩ := hk'
      obtain ⟨m, hm, hn⟩ := ih i hplaces
      refine ⟨m + 16 ^ i * d, ?_, fun n hnm => ?_⟩
      · calc m + 16 ^ i * d < 16 ^ i * (d + 1) := by rw [Nat.mul_add, Nat.mul_one]; omega
          _ ≤ 16 ^ i * 16 := Nat.mul_le_mul_left _ hd
          _ = 16 ^ (i + 1) := (pow_succ 16 i).symm
      · rw [pow_succ, Nat.mod_mul] at hnm
        obtain ⟨hrest, hdigit⟩ := digit_unique (Nat.mod_lt n (by positivity)) hm hnm
        rw [List.map_cons, hn n hrest, placeChar, hdigit]

/-- Exactly the hyphenated spellings in lower case are printed by `Display`. -/
theorem exists_toString_iff (s : String) : (∃ id : Uuid, id.toString = s) ↔ Canonical s := by
  constructor
  · rintro ⟨id, rfl⟩
    exact canonical_toString id
  · intro h
    obtain ⟨m, hm, hn⟩ := exists_digits h 32 (by decide)
    refine ⟨BitVec.ofNat 128 m, ?_⟩
    have hval : (BitVec.ofNat 128 m).toNat % 16 ^ 32 = m := by
      rw [BitVec.toNat_ofNat, Nat.mod_mod_of_dvd _ (by norm_num), Nat.mod_eq_of_lt hm]
    rw [← String.toList_inj, toString, String.toList_ofList, toList_eq]
    exact hn _ hval

/-- The value of a hexadecimal digit, upper or lower case. -/
def hexValue (c : Char) : Option ℕ :=
  if '0' ≤ c ∧ c ≤ '9' then some (c.toNat - '0'.toNat)
  else if 'a' ≤ c ∧ c ≤ 'f' then some (c.toNat - 'a'.toNat + 10)
  else if 'A' ≤ c ∧ c ≤ 'F' then some (c.toNat - 'A'.toNat + 10)
  else none

/-- The digits of a text that has hyphens exactly at the places that call for one. -/
def readDigits : List (Option ℕ) → List Char → Option (List ℕ)
  | [], [] => some []
  | none :: places, c :: cs => if c = '-' then readDigits places cs else none
  | some _ :: places, c :: cs =>
    (hexValue c).bind fun d => (readDigits places cs).map fun ds => d :: ds
  | _, _ => none

/-- The UUID with the given digits, the most significant first. -/
def ofDigits (ds : List ℕ) : Uuid := BitVec.ofNat 128 (Nat.ofDigits 16 ds.reverse)

/-- `Uuid::parse_str`: simple (32 digits), hyphenated, braced or `urn:uuid:`. -/
def parseStr (s : String) : Option Uuid :=
  let hyphenated (cs : List Char) : Option Uuid := (readDigits layout cs).map ofDigits
  let cs := s.toList
  if cs.length = 32 then (readDigits (digitRun 31 32) cs).map ofDigits
  else if cs.length = 36 then hyphenated cs
  else if cs.length = 38 ∧ cs.head? = some '\x7b' ∧ cs.getLast? = some '\x7d' then
    hyphenated (cs.drop 1).dropLast
  else if cs.length = 45 ∧ cs.take 9 = "urn:uuid:".toList then hyphenated (cs.drop 9)
  else none

theorem hexValue_digitChar : ∀ d < 16, hexValue (Nat.digitChar d) = some d := by decide

theorem readDigits_places (n : ℕ) (places : List (Option ℕ)) :
    readDigits places (places.map (placeChar n)) =
      some ((places.filterMap id).map fun i => n / 16 ^ i % 16) := by
  induction places with
  | nil => rfl
  | cons place places ih =>
    cases place with
    | none => simp [readDigits, placeChar, ih]
    | some i => simp [readDigits, placeChar, ih, hexValue_digitChar _ (Nat.mod_lt _ (by omega))]

theorem ofDigits_range (n k : ℕ) :
    Nat.ofDigits 16 ((List.range k).map fun i => n / 16 ^ i % 16) = n % 16 ^ k := by
  induction k with
  | zero => simp [Nat.mod_one]
  | succ k ih =>
    rw [List.range_succ, List.map_append, Nat.ofDigits_append, ih, pow_succ, Nat.mod_mul]
    simp

/-- What `Display` prints is read back. -/
theorem parseStr_toString (u : Uuid) : parseStr u.toString = some u := by
  have hplaces : layout.filterMap id = (List.range 32).reverse := by decide
  have hread := readDigits_places u.toNat layout
  have hval := ofDigits_range u.toNat 32
  rw [Nat.mod_eq_of_lt (lt_of_lt_of_eq u.isLt (by norm_num))] at hval
  rw [hplaces, ← toList_eq] at hread
  unfold parseStr toString
  simp only [String.toList_ofList, length_toList, Nat.reduceEqDiff, ↓reduceIte]
  rw [hread, Option.map_some, ofDigits, ← List.map_reverse, List.reverse_reverse, hval]
  simp

end Uuid

/-! ## The endpoints -/

namespace Streams

/-- `tonic::Code`; only those an `AppError` maps to. -/
inductive Code where
  | unauthenticated
  | notFound
  | invalidArgument
  | resourceExhausted
  | unavailable
  | internal
  deriving DecidableEq, Repr

/-- `tonic::Status`. -/
structure Status where
  code : Code
  message : String
  deriving DecidableEq, Repr

/-- `app_error_to_status` (grpc/error.rs:10–50). -/
def appErrorToStatus : AppError → Status
  | .unauthorized message => ⟨.unauthenticated, message⟩
  | .contentNotFound contentType contentId =>
    ⟨.notFound, "Content not found: " ++ contentType ++ ":" ++ contentId⟩
  | .contentTypeUnknown contentType => ⟨.invalidArgument, "Unknown content type: " ++ contentType⟩
  | .invalidContentId message => ⟨.invalidArgument, "Invalid content ID: " ++ message⟩
  | .invalidCursor message => ⟨.invalidArgument, "Invalid cursor: " ++ message⟩
  | .invalidWindow window =>
    ⟨.invalidArgument, "Invalid time window: " ++ window ++ ". Valid values: 24h, 7d, 30d, all"⟩
  | .batchTooLarge size max =>
    ⟨.invalidArgument, "Batch size " ++ toString size ++ " exceeds maximum of " ++ toString max⟩
  | .rateLimited retryAfterSecs =>
    ⟨.resourceExhausted, "Rate limit exceeded. Retry after " ++ toString retryAfterSecs ++ "s"⟩
  | .dependencyUnavailable service => ⟨.unavailable, "External service unavailable: " ++ service⟩
  | .internal message => ⟨.internal, message⟩
  | .database message => ⟨.internal, "Database error: " ++ message⟩
  | .cache message => ⟨.internal, "Cache error: " ++ message⟩

/-- `StreamParams` (stream.rs:23–27) and the `StreamRequest` of the gRPC service. -/
structure StreamParams where
  contentType : String
  contentId : String
  deriving DecidableEq, Repr

/-- `ensure_registered_content_type` (content.rs:8–14), over `content_api_urls`. -/
def ensureRegisteredContentType (contentApiUrls : String → Option String) (contentType : String) :
    Except AppError Unit :=
  if (contentApiUrls contentType).isSome then .ok () else .error (.contentTypeUnknown contentType)

/-- `parse_uuid` (grpc/convert.rs:71–73). -/
def parseUuid (parseStr : String → Option Uuid) (s : String) : Except Status Uuid :=
  match parseStr s with
  | some contentId => .ok contentId
  | none => .error ⟨.invalidArgument, "invalid UUID: " ++ s⟩

/-- The channel `like_stream` subscribes to (stream.rs:56–67). -/
def likeStream (parseStr : String → Option Uuid) (contentApiUrls : String → Option String)
    (params : StreamParams) : Except AppError String := do
  ensureRegisteredContentType contentApiUrls params.contentType
  match parseStr params.contentId with
  | none => throw (.invalidContentId params.contentId)
  | some _ => return "sse:" ++ params.contentType ++ ":" ++ params.contentId

/-- The channel `stream_likes` subscribes to (likes_service.rs:467–491); `limit` is the
    answer of `check_public_read_limit`. -/
def streamLikes (parseStr : String → Option Uuid) (contentApiUrls : String → Option String)
    (limit : Except Status Unit) (params : StreamParams) : Except Status String := do
  limit
  (ensureRegisteredContentType contentApiUrls params.contentType).mapError appErrorToStatus
  let _ ← parseUuid parseStr params.contentId
  return "sse:" ++ params.contentType ++ ":" ++ params.contentId

/-- The channel `publish` sends the events of an item on (like_events.rs:19–20). -/
def publishChannel (contentType : String) (contentId : Uuid) : String :=
  "sse:" ++ contentType ++ ":" ++ contentId.toString

section Endpoints

variable {parseStr : String → Option Uuid} {contentApiUrls : String → Option String}

theorem likeStream_ok {params : StreamParams} {contentId : Uuid}
    (htype : (contentApiUrls params.contentType).isSome)
    (hid : parseStr params.contentId = some contentId) :
    likeStream parseStr contentApiUrls params =
      .ok ("sse:" ++ params.contentType ++ ":" ++ params.contentId) := by
  unfold likeStream ensureRegisteredContentType
  rw [if_pos htype, hid]
  rfl

theorem streamLikes_ok {params : StreamParams} {contentId : Uuid}
    (htype : (contentApiUrls params.contentType).isSome)
    (hid : parseStr params.contentId = some contentId) :
    streamLikes parseStr contentApiUrls (.ok ()) params =
      .ok ("sse:" ++ params.contentType ++ ":" ++ params.contentId) := by
  unfold streamLikes ensureRegisteredContentType parseUuid
  rw [if_pos htype, hid]
  rfl

end Endpoints

theorem channel_inj {contentType s s' : String} :
    "sse:" ++ contentType ++ ":" ++ s = "sse:" ++ contentType ++ ":" ++ s' ↔ s = s' := by
  constructor
  · intro h
    have h := congrArg String.toList h
    simp only [String.toList_append] at h
    exact String.toList_inj.mp (List.append_cancel_left h)
  · intro h
    rw [h]

/-- A request that both endpoints accept subscribes to the channel of its item exactly when
    it spells the UUID as `Display` does. -/
theorem streamChannels_iff (parseStr : String → Option Uuid)
    (hdisplay : ∀ contentId : Uuid, parseStr contentId.toString = some contentId)
    (contentApiUrls : String → Option String) (params : StreamParams) (contentId : Uuid)
    (htype : (contentApiUrls params.contentType).isSome)
    (hid : parseStr params.contentId = some contentId) :
    (likeStream parseStr contentApiUrls params =
        .ok (publishChannel params.contentType contentId) ↔ Uuid.Canonical params.contentId) ∧
      (streamLikes parseStr contentApiUrls (.ok ()) params =
        .ok (publishChannel params.contentType contentId) ↔ Uuid.Canonical params.contentId) := by
  have hspelling : params.contentId = contentId.toString ↔ Uuid.Canonical params.contentId := by
    constructor
    · intro h
      rw [h]
      exact Uuid.canonical_toString contentId
    · intro h
      obtain ⟨u, hu⟩ := (Uuid.exists_toString_iff _).mpr h
      have hsame : contentId = u := by
        rw [← hu, hdisplay u] at hid
        exact (Option.some.inj hid).symm
      rw [hsame, hu]
  constructor
  · rw [likeStream_ok htype hid, Except.ok.injEq, publishChannel, channel_inj, hspelling]
  · rw [streamLikes_ok htype hid, Except.ok.injEq, publishChannel, channel_inj, hspelling]

theorem streamChannels_iff_canonical :
    (likeStream Uuid.parseStr (fun contentType => if contentType = "post" then some "" else none)
        ⟨"post", "731b0395-4888-4822-b516-05b4b7bf2089"⟩ =
        .ok (publishChannel "post" 0x731b039548884822b51605b4b7bf2089#128) ↔
      Uuid.Canonical "731b0395-4888-4822-b516-05b4b7bf2089") ∧
    (streamLikes Uuid.parseStr (fun contentType => if contentType = "post" then some "" else none)
        (.ok ()) ⟨"post", "731b0395-4888-4822-b516-05b4b7bf2089"⟩ =
        .ok (publishChannel "post" 0x731b039548884822b51605b4b7bf2089#128) ↔
      Uuid.Canonical "731b0395-4888-4822-b516-05b4b7bf2089") :=
  streamChannels_iff Uuid.parseStr Uuid.parseStr_toString _
    ⟨"post", "731b0395-4888-4822-b516-05b4b7bf2089"⟩ _ (by decide) (by decide +kernel)

/-- The UUID of the documentation's example, in upper case: both endpoints accept it, and
    neither subscribes to the channel its events are published on. -/
theorem upperCase_otherChannel :
    Uuid.parseStr "731B0395-4888-4822-B516-05B4B7BF2089" =
        some 0x731b039548884822b51605b4b7bf2089#128 ∧
      likeStream Uuid.parseStr (fun contentType => if contentType = "post" then some "" else none)
          ⟨"post", "731B0395-4888-4822-B516-05B4B7BF2089"⟩ =
        .ok "sse:post:731B0395-4888-4822-B516-05B4B7BF2089" ∧
      streamLikes Uuid.parseStr (fun contentType => if contentType = "post" then some "" else none)
          (.ok ()) ⟨"post", "731B0395-4888-4822-B516-05B4B7BF2089"⟩ =
        .ok "sse:post:731B0395-4888-4822-B516-05B4B7BF2089" ∧
      publishChannel "post" 0x731b039548884822b51605b4b7bf2089#128 =
        "sse:post:731b0395-4888-4822-b516-05b4b7bf2089" ∧
      publishChannel "post" 0x731b039548884822b51605b4b7bf2089#128 ≠
        "sse:post:731B0395-4888-4822-B516-05B4B7BF2089" := by
  decide +kernel

/-! ## The events a stream carries -/

/-- The events sent on a channel, of those published so far. -/
def delivered (channel : String) (published : List (Item × LikeEvent)) : List LikeEvent :=
  (published.filter fun e => publishChannel e.1.1 e.1.2 = channel).map Prod.snd

theorem publishChannel_injective {ct ct' : String} {contentId contentId' : Uuid}
    (h : publishChannel ct contentId = publishChannel ct' contentId') :
    ct = ct' ∧ contentId = contentId' := by
  have h := congrArg String.toList h
  simp only [publishChannel, String.toList_append, Uuid.toString, String.toList_ofList] at h
  obtain ⟨hl, hr⟩ := List.append_inj' h (by simp [Uuid.length_toList])
  obtain ⟨hl, -⟩ := List.append_inj' hl rfl
  exact ⟨String.toList_inj.mp (List.append_cancel_left hl), Uuid.toList_injective hr⟩

/-- On the channel of an item, the events of that item and no others. -/
theorem delivered_publishChannel (item : Item) (published : List (Item × LikeEvent)) :
    delivered (publishChannel item.1 item.2) published =
      (published.filter fun e => e.1 = item).map Prod.snd := by
  unfold delivered
  congr 1
  apply List.filter_congr
  intro e _
  rw [decide_eq_decide]
  constructor
  · intro h
    obtain ⟨hct, hcid⟩ := publishChannel_injective h
    exact Prod.ext hct hcid
  · intro h
    rw [h]

/-- A stream opened with any other spelling carries nothing, as long as no content type has
    a colon in it. -/
theorem delivered_of_not_canonical {contentType s : String} {published : List (Item × LikeEvent)}
    (htypes : ∀ e ∈ published, ':' ∉ e.1.1.toList)
    (hs : ¬Uuid.Canonical s) : delivered ("sse:" ++ contentType ++ ":" ++ s) published = [] := by
  unfold delivered
  rw [List.map_eq_nil_iff, List.filter_eq_nil_iff]
  intro e he h
  have h := congrArg String.toList (of_decide_eq_true h)
  simp only [publishChannel, String.toList_append, List.append_assoc] at h
  have h := List.append_cancel_left h
  have huuid : ':' ∉ e.1.2.toString.toList := by
    rw [Uuid.toString, String.toList_ofList]
    exact Uuid.colon_notMem e.1.2
  obtain ⟨-, -, hs'⟩ := (List.append_cons_inj_of_notMem (htypes e he) huuid).mp h
  exact hs ((Uuid.exists_toString_iff s).mp ⟨e.1.2, String.toList_inj.mp hs'⟩)

end Streams

end SocialApi
