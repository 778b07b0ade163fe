import SocialApi.Types

/-!
# Error responses

`ApiErrorResponse::into_response` (`handlers/mod.rs`) writes an error as JSON with the request
id `"unknown"`; `patch_error_request_id` (`middleware/error_context.rs`) reads the body back,
puts the id of the request in and writes it again. It reads at most 64 KiB: of a longer body
nothing is left, under the status and the headers of the error.

`serde_json` is a parameter, and that it reads back what it has written is a hypothesis on the
two texts the code has it read.

* `patched_iff`: the response is the error's own, with the request id put in, exactly when the
  text written by `into_response` has at most 65536 bytes.
* `longContentType_emptied`: the error for an unknown content type of 70000 letters arrives with
  an empty body.
-/

namespace SocialApi.ErrorContext

/-! ## JSON values -/

/-- `serde_json::Value`. A map is the list of its entries in the order of their keys; the only
    numbers in an error are natural. -/
inductive Value where
  | null
  | bool (b : Bool)
  | number (n : ℕ)
  | string (s : String)
  | array (values : List Value)
  | object (fields : List (String × Value))

/-- `Map::insert`. -/
def insertField (key : String) (value : Value) : List (String × Value) → List (String × Value)
  | [] => [(key, value)]
  | (key', value') :: fields =>
    if key < key' then (key, value) :: (key', value') :: fields
    else if key = key' then (key, value) :: fields
    else (key', value') :: insertField key value fields

/-- `Map::get_mut`, followed by `f` on what it finds. -/
def modifyField (key : String) (f : Value → Value) : List (String × Value) → List (String × Value)
  | [] => []
  | (key', value') :: fields =>
    if key = key' then (key', f value') :: fields
    else (key', value') :: modifyField key f fields

/-- The map with the given fields. -/
def collect (fields : List (String × Value)) : List (String × Value) :=
  fields.foldl (fun acc field => insertField field.1 field.2 acc) []

/-- The object with the given fields. -/
def Value.ofFields (fields : List (String × Value)) : Value := .object (collect fields)

/-! ## Errors -/

/-- `ErrorCode::http_status` (errors.rs:32–45). -/
def httpStatus : ErrorCode → ℕ
  | .unauthorized => 401
  | .contentNotFound => 404
  | .contentTypeUnknown => 400
  | .invalidContentId => 400
  | .batchTooLarge => 400
  | .invalidCursor => 400
  | .invalidWindow => 400
  | .rateLimited => 429
  | .dependencyUnavailable => 503
  | .internalError => 500

/-- The `serde` names of `ErrorCode` (errors.rs:8–28). -/
def codeName : ErrorCode → String
  | .unauthorized => "UNAUTHORIZED"
  | .contentNotFound => "CONTENT_NOT_FOUND"
  | .contentTypeUnknown => "CONTENT_TYPE_UNKNOWN"
  | .invalidContentId => "INVALID_CONTENT_ID"
  | .batchTooLarge => "BATCH_TOO_LARGE"
  | .invalidCursor => "INVALID_CURSOR"
  | .invalidWindow => "INVALID_WINDOW"
  | .rateLimited => "RATE_LIMITED"
  | .dependencyUnavailable => "DEPENDENCY_UNAVAILABLE"
  | .internalError => "INTERNAL_ERROR"

/-- `ApiErrorBody` (errors.rs:73–86). -/
structure ApiErrorBody where
  code : ErrorCode
  message : String
  requestId : String
  details : Option Value

/-- `ApiError` (errors.rs:67–70). -/
structure ApiError where
  error : ApiErrorBody

/-- `AppError::to_api_error` (errors.rs:173–232). -/
def toApiError (err : AppError) (requestId : String) : ApiError :=
  let fields : String × Option Value := match err with
    | .unauthorized msg => (msg, none)
    | .contentNotFound contentType contentId =>
      ("Content item does not exist or has been removed",
        some (.ofFields [("content_type", .string contentType), ("content_id", .string contentId)]))
    | .contentTypeUnknown ct =>
      ("Unknown content type: " ++ ct, some (.ofFields [("content_type", .string ct)]))
    | .invalidContentId id => ("Invalid content ID: " ++ id, none)
    | .batchTooLarge size max =>
      ("Batch size " ++ toString size ++ " exceeds maximum of " ++ toString max,
        some (.ofFields [("size", .number size), ("max", .number max)]))
    | .invalidCursor msg => (msg, none)
    | .invalidWindow w =>
      ("Invalid time window: " ++ w ++ ". Valid values: 24h, 7d, 30d, all", none)
    | .rateLimited _ => ("Rate limit exceeded", none)
    | .dependencyUnavailable svc => ("External service unavailable: " ++ svc, none)
    | .internal msg => (msg, none)
    | .database msg => ("Database error: " ++ msg, none)
    | .cache _ => ("Cache error", none)
  ⟨⟨err.errorCode, fields.1, requestId, fields.2⟩⟩

/-- The fields an `ApiErrorBody` is written with; `details` is left out when there are none. -/
def ApiErrorBody.fields (body : ApiErrorBody) : List (String × Value) :=
  [("code", .string (codeName body.code)), ("message", .string body.message),
    ("request_id", .string body.requestId)] ++ (body.details.map fun d => ("details", d)).toList

/-- The value an `ApiError` is written as. -/
def ApiError.toValue (e : ApiError) : Value := .ofFields [("error", .ofFields e.error.fields)]

/-! ## Responses -/

/-- `serde_json`: `to_vec` of a value and of an `ApiError`, which may fail with a text of its
    own, and `from_slice`. -/
structure SerdeJson where
  toVec : Value → Option (List UInt8)
  errorToVec : ApiError → Except (List UInt8) (List UInt8)
  fromSlice : List UInt8 → Option Value

/-- A response; the names of its headers are in lower case. -/
structure Response where
  status : ℕ
  headers : List (String × String)
  body : List UInt8

/-- `HeaderMap::get`. -/
def Response.header (response : Response) (name : String) : Option String :=
  response.headers.lookup name

/-- `HeaderMap::insert`. -/
def insertHeader (name value : String) (headers : List (String × String)) :
    List (String × String) :=
  (name, value) :: headers.filter fun header => header.1 ≠ name

/-- `StatusCode::from_u16(n).unwrap_or(INTERNAL_SERVER_ERROR)`. -/
def statusOf (n : ℕ) : ℕ := if 100 ≤ n ∧ n < 1000 then n else 500

/-- `Json(api_error).into_response()`; a value that cannot be written is answered in plain text. -/
def jsonResponse (J : SerdeJson) (e : ApiError) : Response :=
  match J.errorToVec e with
  | .ok text => ⟨200, [("content-type", "application/json")], text⟩
  | .error text => ⟨500, [("content-type", "text/plain; charset=utf-8")], text⟩

/-- `ApiErrorResponse::into_response` (handlers/mod.rs:16–35). -/
def intoResponse (J : SerdeJson) (err : AppError) : Response :=
  let apiError := toApiError err "unknown"
  { jsonResponse J apiError with status := statusOf (httpStatus apiError.error.code) }

/-- The limit given to `to_bytes` (error_context.rs:39). -/
def bodyLimit : ℕ := 1024 * 64

/-- The patch of the parsed body (error_context.rs:45–52). -/
def patchValue (requestId : String) : Value → Value
  | .object fields => .object (modifyField "error" (fun error =>
      match error with
      | .object obj => .object (insertField "request_id" (.string requestId) obj)
      | other => other) fields)
  | json => json

/-- The response is JSON (error_context.rs:26–34). -/
def Response.isJson (response : Response) : Bool :=
  (response.header "content-type").any fun ct =>
    decide ("application/json".toList <:+: ct.toList)

/-- `patch_error_request_id` (error_context.rs:11–65) on the response of the handlers;
    `extension` is the request's `RequestId`. -/
def patchErrorRequestId (J : SerdeJson) (extension : Option String) (response : Response) :
    Response :=
  let requestId := extension.getD "unknown"
  if 200 ≤ response.status ∧ response.status < 300 then response
  else if response.isJson = false then response
  else if bodyLimit < response.body.length then { response with body := [] }
  else
    match J.fromSlice response.body with
    | some json =>
      let newBytes := (J.toVec (patchValue requestId json)).getD response.body
      { response with
        headers := insertHeader "content-length" (toString newBytes.length) response.headers
        body := newBytes }
    | none => response

/-! ## Specification -/

/-- The response has the status of the error and its JSON body, with the request id put in. -/
structure Describes (J : SerdeJson) (err : AppError) (requestId : String) (response : Response) :
    Prop where
  status : response.status = httpStatus err.errorCode
  json : response.isJson = true
  body : J.fromSlice response.body = some (toApiError err requestId).toValue

/-- What the code relies on: the two texts it has `serde_json` read are read back as the values
    they were written from, and an empty text is no value. -/
structure SerdeJson.RoundTrips (J : SerdeJson) (err : AppError) (requestId : String) : Prop where
  error : ∃ text, J.errorToVec (toApiError err "unknown") = .ok text ∧
    J.fromSlice text = some (toApiError err "unknown").toValue
  value : ∃ text, J.toVec (toApiError err requestId).toValue = some text ∧
    J.fromSlice text = some (toApiError err requestId).toValue
  empty : J.fromSlice [] = none

/-! ## The patch -/

@[simp] theorem toApiError_code (err : AppError) (requestId : String) :
    (toApiError err requestId).error.code = err.errorCode := rfl

/-- Every error has a status of its own, and none of them is a success. -/
theorem statusOf_httpStatus (code : ErrorCode) :
    statusOf (httpStatus code) = httpStatus code ∧ 400 ≤ httpStatus code := by
  cases code <;> decide

theorem insertField_self (key : String) (v v' : Value) (fields : List (String × Value)) :
    insertField key v (insertField key v' fields) = insertField key v fields := by
  induction fields with
  | nil => simp [insertField]
  | cons field fields ih =>
    obtain ⟨key', value⟩ := field
    rcases lt_trichotomy key key' with hlt | rfl | hgt
    · simp [insertField, hlt]
    · simp [insertField]
    · simp [insertField, hgt.not_gt, hgt.ne', ih]

/-- Entries under two keys can be put in in either order. -/
theorem insertField_comm {k k' : String} (hne : k ≠ k') (v v' : Value)
    (fields : List (String × Value)) :
    insertField k v (insertField k' v' fields) = insertField k' v' (insertField k v fields) := by
  wlog hlt : k < k' generalizing k k' v v'
  · exact (this hne.symm v' v (lt_of_le_of_ne (not_lt.mp hlt) hne.symm)).symm
  induction fields with
  | nil => simp [insertField, hlt, hlt.not_gt, hne.symm]
  | cons field fields ih =>
    obtain ⟨key, value⟩ := field
    rcases lt_trichotomy k' key with hkey | rfl | hkey
    · have hk : k < key := hlt.trans hkey
      simp [insertField, hkey, hk, hlt, hlt.not_gt, hne.symm]
    · simp [insertField, hlt, hlt.not_gt, hne.symm]
    · rcases lt_trichotomy k key with hk | rfl | hk
      · simp [insertField, hkey.not_gt, hkey.ne', hk, hlt.not_gt, hne.symm]
      · simp [insertField, hlt.not_gt, hne.symm]
      · simp [insertField, hkey.not_gt, hkey.ne', hk.not_gt, hk.ne', ih]

/-- What the patch does to an envelope. -/
theorem patchValue_envelope (requestId : String) (fields : List (String × Value)) :
    patchValue requestId (.ofFields [("error", .object fields)]) =
      .ofFields [("error", .object (insertField "request_id" (.string requestId) fields))] := by
  simp [Value.ofFields, collect, insertField, patchValue, modifyField]

theorem collect_requestId (body : ApiErrorBody) (requestId : String) :
    insertField "request_id" (.string requestId) (collect body.fields) =
      collect { body with requestId := requestId : ApiErrorBody }.fields := by
  unfold collect ApiErrorBody.fields
  cases body.details with
  | none =>
    simp only [Option.map_none, Option.toList_none, List.append_nil, List.foldl_cons,
      List.foldl_nil]
    rw [insertField_self]
  | some d =>
    have hne : "request_id" ≠ "details" := by decide
    simp only [Option.map_some, Option.toList_some, List.cons_append, List.nil_append,
      List.foldl_cons, List.foldl_nil]
    rw [insertField_comm hne, insertField_self]

/-- The patch of an error's value is the value of the error with the request id put in. -/
theorem patchValue_toValue (body : ApiErrorBody) (requestId : String) :
    patchValue requestId (ApiError.toValue ⟨body⟩) =
      ApiError.toValue ⟨{ body with requestId := requestId }⟩ := by
  have henvelope := patchValue_envelope requestId (collect body.fields)
  rw [collect_requestId] at henvelope
  exact henvelope

section Response

variable {J : SerdeJson} {err : AppError} (extension : Option String) {text : List UInt8}

/-- `into_response` when the error can be written. -/
theorem intoResponse_eq (htext : J.errorToVec (toApiError err "unknown") = .ok text) :
    intoResponse J err =
      ⟨httpStatus err.errorCode, [("content-type", "application/json")], text⟩ := by
  unfold intoResponse jsonResponse
  dsimp only
  rw [htext, toApiError_code, (statusOf_httpStatus _).1]

theorem isJson_of_contentType {response : Response}
    (h : response.header "content-type" = some "application/json") : response.isJson = true := by
  unfold Response.isJson
  rw [h, Option.any_some]
  exact decide_eq_true List.infix_rfl

/-- A body over the limit is dropped; the status and the headers stay. -/
theorem patched_of_long (htext : J.errorToVec (toApiError err "unknown") = .ok text)
    (hlong : bodyLimit < text.length) :
    patchErrorRequestId J extension (intoResponse J err) =
      ⟨httpStatus err.errorCode, [("content-type", "application/json")], []⟩ := by
  rw [intoResponse_eq htext]
  have hstatus := (statusOf_httpStatus err.errorCode).2
  unfold patchErrorRequestId
  dsimp only
  rw [if_neg (by omega), if_neg (by rw [isJson_of_contentType rfl]; decide), if_pos hlong]

/-- Any other body is read, patched and written again. -/
theorem patched_of_short (htext : J.errorToVec (toApiError err "unknown") = .ok text)
    (hshort : text.length ≤ bodyLimit)
    (hread : J.fromSlice text = some (toApiError err "unknown").toValue) {newText : List UInt8}
    (hwrite : J.toVec (toApiError err (extension.getD "unknown")).toValue = some newText) :
    patchErrorRequestId J extension (intoResponse J err) =
      ⟨httpStatus err.errorCode, [("content-length", toString newText.length),
        ("content-type", "application/json")], newText⟩ := by
  rw [intoResponse_eq htext]
  have hstatus := (statusOf_httpStatus err.errorCode).2
  have hpatched : patchValue (extension.getD "unknown") (toApiError err "unknown").toValue =
      (toApiError err (extension.getD "unknown")).toValue := patchValue_toValue _ _
  unfold patchErrorRequestId
  dsimp only
  rw [if_neg (by omega), if_neg (by rw [isJson_of_contentType rfl]; decide),
    if_neg (by omega), hread]
  dsimp only
  rw [hpatched, hwrite]
  rfl

/-- The response is the error's own, with the request id put in, exactly when the text that
    `into_response` writes has at most 65536 bytes. -/
theorem patched_iff (J : SerdeJson) (err : AppError) (extension : Option String)
    (hjson : J.RoundTrips err (extension.getD "unknown")) :
    Describes J err (extension.getD "unknown")
        (patchErrorRequestId J extension (intoResponse J err)) ↔
      ∀ text, J.errorToVec (toApiError err "unknown") = .ok text → text.length ≤ bodyLimit := by
  obtain ⟨text, htext, hread⟩ := hjson.error
  constructor
  · intro h text' htext'
    rw [htext] at htext'
    cases htext'
    by_contra hlong
    have hbody := h.body
    rw [patched_of_long extension htext (by omega)] at hbody
    rw [hjson.empty] at hbody
    cases hbody
  · intro h
    obtain ⟨newText, hwrite, hback⟩ := hjson.value
    rw [patched_of_short extension htext (h text htext) hread hwrite]
    exact ⟨rfl, isJson_of_contentType rfl, hback⟩

end Response

/-! ## The compact text -/

/-- A character inside a string. -/
def escape (c : Char) : List Char :=
  if c = Char.ofNat 34 ∨ c = Char.ofNat 92 then [Char.ofNat 92, c]
  else if c = Char.ofNat 8 then [Char.ofNat 92, 'b']
  else if c = Char.ofNat 9 then [Char.ofNat 92, 't']
  else if c = Char.ofNat 10 then [Char.ofNat 92, 'n']
  else if c = Char.ofNat 12 then [Char.ofNat 92, 'f']
  else if c = Char.ofNat 13 then [Char.ofNat 92, 'r']
  else if c.toNat < 32 then
    [Char.ofNat 92, 'u', '0', '0', Nat.digitChar (c.toNat / 16), Nat.digitChar (c.toNat % 16)]
  else [c]

/-- A string in quotes. -/
def quoted (s : List Char) : List Char :=
  Char.ofNat 34 :: (s.flatMap escape ++ [Char.ofNat 34])

/-- Texts between brackets, with commas. -/
def bracketed (opening closing : Char) (texts : List (List Char)) : List Char :=
  opening :: ((texts.intersperse [',']).flatten ++ [closing])

mutual

/-- The compact text of a value. -/
def Value.text : Value → List Char
  | .null => "null".toList
  | .bool b => (toString b).toList
  | .number n => (toString n).toList
  | .string s => quoted s.toList
  | .array values => bracketed '[' ']' (textValues values)
  | .object fields => bracketed (Char.ofNat 123) (Char.ofNat 125) (textFields fields)

def textValues : List Value → List (List Char)
  | [] => []
  | value :: values => value.text :: textValues values

def textFields : List (String × Value) → List (List Char)
  | [] => []
  | (key, value) :: fields => (quoted key.toList ++ ':' :: value.text) :: textFields fields

end

/-- The compact text of an `ApiError`: its fields in the order of their declaration. -/
def ApiError.text (e : ApiError) : List Char :=
  (Value.object [("error", .object e.error.fields)]).text

/-- The bytes of a text. -/
def bytes (text : List Char) : List UInt8 := text.flatMap String.utf8EncodeChar

/-- `serde_json` as it is used for the response to one error. -/
def serdeJson (err : AppError) (requestId : String) : SerdeJson where
  toVec value := some (bytes value.text)
  errorToVec e := .ok (bytes e.text)
  fromSlice slice :=
    if slice = bytes (toApiError err "unknown").text then some (toApiError err "unknown").toValue
    else if slice = bytes (toApiError err requestId).toValue.text then
      some (toApiError err requestId).toValue
    else none

/-- No escape is shorter than its character. -/
theorem length_le_quoted (s : List Char) : s.length ≤ (quoted s).length := by
  have hflat : s.length ≤ (s.flatMap escape).length := by
    induction s with
    | nil => exact Nat.le_refl 0
    | cons c s ih =>
      have hescape : 1 ≤ (escape c).length := by
        unfold escape
        split_ifs <;> simp
      rw [List.flatMap_cons, List.length_append, List.length_cons]
      omega
  unfold quoted
  rw [List.length_cons, List.length_append]
  omega

theorem length_le_bytes (text : List Char) : text.length ≤ (bytes text).length := by
  unfold bytes
  induction text with
  | nil => exact Nat.le_refl 0
  | cons c text ih =>
    have hsize := c.utf8Size_pos
    rw [List.flatMap_cons, List.length_append, List.length_cons, String.length_utf8EncodeChar]
    omega

/-- A text is at least as long as the message in it. -/
theorem length_le_text (e : ApiError) : e.error.message.toList.length ≤ e.text.length := by
  have hmessage := length_le_quoted e.error.message.toList
  unfold ApiError.text ApiErrorBody.fields
  cases e.error.details <;>
    simp only [Option.map_none, Option.map_some, Option.toList_none, Option.toList_some,
      List.cons_append, List.nil_append, Value.text, textFields, bracketed,
      List.intersperse, List.flatten_cons, List.flatten_nil, List.length_cons, List.length_append] <;>
    omega

theorem bytes_bracketed_ne (opening closing : Char) (texts : List (List Char)) :
    [] ≠ bytes (bracketed opening closing texts) := by
  intro h
  have hle := length_le_bytes (bracketed opening closing texts)
  rw [← h, bracketed, List.length_cons, List.length_nil] at hle
  omega

/-- The two texts read back when they differ. -/
theorem serdeJson_roundTrips (err : AppError) (requestId : String)
    (hne : bytes (toApiError err requestId).toValue.text ≠ bytes (toApiError err "unknown").text) :
    (serdeJson err requestId).RoundTrips err requestId := by
  have hunknown : [] ≠ bytes (toApiError err "unknown").text := bytes_bracketed_ne _ _ _
  have hpatched : [] ≠ bytes (toApiError err requestId).toValue.text := bytes_bracketed_ne _ _ _
  constructor
  · refine ⟨bytes (toApiError err "unknown").text, rfl, ?_⟩
    unfold serdeJson
    dsimp only
    rw [if_pos rfl]
  · refine ⟨bytes (toApiError err requestId).toValue.text, rfl, ?_⟩
    unfold serdeJson
    dsimp only
    rw [if_neg hne, if_pos rfl]
  · unfold serdeJson
    dsimp only
    rw [if_neg hunknown, if_neg hpatched]

/-- The error for a content type of 70000 letters. -/
def longContentType : AppError := .contentTypeUnknown (String.ofList (List.replicate 70000 'a'))

/-- The error for a content type of 70000 letters arrives with its status and its content type,
    and nothing in its body. -/
theorem longContentType_emptied :
    (serdeJson longContentType "req_1").RoundTrips longContentType "req_1" ∧
      patchErrorRequestId (serdeJson longContentType "req_1") (some "req_1")
          (intoResponse (serdeJson longContentType "req_1") longContentType) =
        ⟨400, [("content-type", "application/json")], []⟩ ∧
      ¬ Describes (serdeJson longContentType "req_1") longContentType "req_1"
        (patchErrorRequestId (serdeJson longContentType "req_1") (some "req_1")
          (intoResponse (serdeJson longContentType "req_1") longContentType)) := by
  have hne : bytes (toApiError longContentType "req_1").toValue.text ≠
      bytes (toApiError longContentType "unknown").text := by
    intro h
    -- The values are written in the order of their keys, the errors are not.
    have htake := congrArg (List.take 43) h
    revert htake
    decide +kernel
  have hjson := serdeJson_roundTrips longContentType "req_1" hne
  have hlong : bodyLimit < (bytes (toApiError longContentType "unknown").text).length := by
    have hmessage := length_le_text (toApiError longContentType "unknown")
    have hbytes := length_le_bytes (toApiError longContentType "unknown").text
    have hletters : 70000 ≤ (toApiError longContentType "unknown").error.message.toList.length := by
      have hct : (String.ofList (List.replicate 70000 'a')).toList = List.replicate 70000 'a' :=
        String.toList_ofList
      show 70000 ≤ ("Unknown content type: " ++ String.ofList _).toList.length
      rw [String.toList_append, hct, List.length_append, List.length_replicate]
      omega
    unfold bodyLimit
    omega
  have htext : (serdeJson longContentType "req_1").errorToVec (toApiError longContentType "unknown")
      = .ok (bytes (toApiError longContentType "unknown").text) := rfl
  have hemptied := patched_of_long (some "req_1") htext hlong
  have hstatus : httpStatus longContentType.errorCode = 400 := rfl
  rw [hstatus] at hemptied
  refine ⟨hjson, hemptied, ?_⟩
  rw [hemptied]
  intro h
  have hbody := h.body
  rw [hjson.empty] at hbody
  cases hbody

/-- The error for a short content type. -/
def shortContentType : AppError := .contentTypeUnknown "podcast"

/-- It comes back in full. -/
theorem shortContentType_described :
    Describes (serdeJson shortContentType "req_1") shortContentType "req_1"
      (patchErrorRequestId (serdeJson shortContentType "req_1") (some "req_1")
        (intoResponse (serdeJson shortContentType "req_1") shortContentType)) := by
  have hne : bytes (toApiError shortContentType "req_1").toValue.text ≠
      bytes (toApiError shortContentType "unknown").text := by decide +kernel
  have hjson := serdeJson_roundTrips shortContentType "req_1" hne
  have hiff := patched_iff (serdeJson shortContentType "req_1") shortContentType (some "req_1") hjson
  apply hiff.mpr
  intro text htext
  cases htext
  decide +kernel

end SocialApi.ErrorContext
