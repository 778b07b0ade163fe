import Mathlib

/-!
# Shared types

The types of `crates/shared/src/types.rs` and `crates/shared/src/errors.rs` that
the services pass around.

* A `Uuid` is its 128 bits, a `DateTime<Utc>` the number of microseconds since
  the epoch (the resolution of a PostgreSQL `TIMESTAMPTZ`), within the years 0000
  to 9999 that RFC 3339 can write.
* An `i64` (PostgreSQL `BIGINT`) is an integer that carries its bounds, `I64`.
* An `Instant` is a number of nanoseconds on the monotonic clock; a `Duration`
  a difference of two of them.
-/

namespace SocialApi

/-- `uuid::Uuid`. -/
abbrev Uuid := BitVec 128

/-- `chrono::DateTime<Utc>`, in microseconds since the epoch, from the year 0000 to the
    year 9999. -/
@[ext] structure DateTime where
  micros : ℤ
  lower : -62167219200000000 ≤ micros
  upper : micros < 253402300800000000
  deriving DecidableEq, Repr

/-- The epoch. -/
def DateTime.epoch : DateTime := ⟨0, by decide, by decide⟩

/-- `std::time::Instant`. -/
abbrev Instant := ℕ

/-- `std::time::Duration`. -/
abbrev Duration := ℕ

/-- A content item, the `(content_type, content_id)` that keys `like_counts`. -/
abbrev Item := String × Uuid

/-! ## `i64` -/

/-- `i64`, the Rust type of a `BIGINT` column. -/
@[ext] structure I64 where
  val : ℤ
  lower : -(2 ^ 63) ≤ val
  upper : val < 2 ^ 63
  deriving DecidableEq, Repr

namespace I64

/-- The `i64` with the given value, if it is in range. -/
def ofInt? (n : ℤ) : Option I64 :=
  if h : -(2 ^ 63) ≤ n ∧ n < 2 ^ 63 then some ⟨n, h.1, h.2⟩ else none

instance : Zero I64 := ⟨⟨0, by norm_num, by norm_num⟩⟩
instance : One I64 := ⟨⟨1, by norm_num, by norm_num⟩⟩

@[simp] theorem val_zero : (0 : I64).val = 0 := rfl
@[simp] theorem val_one : (1 : I64).val = 1 := rfl

theorem ofInt?_eq_some {n : ℤ} {c : I64} : ofInt? n = some c ↔ c.val = n := by
  unfold ofInt?
  constructor
  · intro h
    split_ifs at h
    cases h; rfl
  · rintro rfl
    rw [dif_pos ⟨c.lower, c.upper⟩]

@[simp] theorem ofInt?_val (c : I64) : ofInt? c.val = some c := ofInt?_eq_some.mpr rfl

end I64

/-! ## Errors -/

/-- `AppError` (errors.rs:108–146). -/
inductive AppError where
  | unauthorized (message : String)
  | contentNotFound (contentType contentId : String)
  | contentTypeUnknown (contentType : String)
  | invalidContentId (message : String)
  | batchTooLarge (size max : ℕ)
  | invalidCursor (message : String)
  | invalidWindow (window : String)
  | rateLimited (retryAfterSecs : ℕ)
  | dependencyUnavailable (service : String)
  | internal (message : String)
  | database (message : String)
  | cache (message : String)
  deriving DecidableEq, Repr

/-- `ErrorCode` (errors.rs:7–28). -/
inductive ErrorCode where
  | unauthorized
  | contentNotFound
  | contentTypeUnknown
  | invalidContentId
  | batchTooLarge
  | invalidCursor
  | invalidWindow
  | rateLimited
  | dependencyUnavailable
  | internalError
  deriving DecidableEq, Repr

/-- `AppError::error_code` (errors.rs:235–248). -/
def AppError.errorCode : AppError → ErrorCode
  | unauthorized _ => .unauthorized
  | contentNotFound _ _ => .contentNotFound
  | contentTypeUnknown _ => .contentTypeUnknown
  | invalidContentId _ => .invalidContentId
  | batchTooLarge _ _ => .batchTooLarge
  | invalidCursor _ => .invalidCursor
  | invalidWindow _ => .invalidWindow
  | rateLimited _ => .rateLimited
  | dependencyUnavailable _ => .dependencyUnavailable
  | internal _ => .internalError
  | database _ => .internalError
  | cache _ => .internalError

/-! ## Requests and responses -/

/-- `AuthenticatedUser` (types.rs:7–11). -/
structure AuthenticatedUser where
  userId : Uuid
  displayName : String
  deriving DecidableEq, Repr

/-- `LikeEvent` (types.rs:84–104); only the two variants that are published. -/
inductive LikeEvent where
  | liked (userId : Uuid) (count : I64) (timestamp : DateTime)
  | unliked (userId : Uuid) (count : I64) (timestamp : DateTime)
  deriving DecidableEq, Repr

/-- `LikeActionResponse` (types.rs:176–193). -/
structure LikeActionResponse where
  liked : Bool
  alreadyExisted : Option Bool
  wasLiked : Option Bool
  count : I64
  likedAt : Option DateTime
  deriving DecidableEq, Repr

/-- `LikeStatusResponse` (types.rs:166–173). -/
structure LikeStatusResponse where
  liked : Bool
  likedAt : Option DateTime
  deriving DecidableEq, Repr

/-- `BatchCountResult`. -/
structure BatchCountResult where
  contentType : String
  contentId : Uuid
  count : I64
  deriving DecidableEq, Repr

/-- `BatchStatusResult`. -/
structure BatchStatusResult where
  contentType : String
  contentId : Uuid
  liked : Bool
  likedAt : Option DateTime
  deriving DecidableEq, Repr

/-- `UserLikeItem` (types.rs:143–150). -/
structure UserLikeItem where
  contentType : String
  contentId : Uuid
  likedAt : DateTime
  deriving DecidableEq, Repr

/-- `PaginatedResponse<UserLikeItem>` (types.rs:115–120). -/
structure PaginatedResponse where
  items : List UserLikeItem
  nextCursor : Option String
  hasMore : Bool
  deriving DecidableEq, Repr

/-- `TimeWindow` (types.rs:29–38). -/
inductive TimeWindow where
  | day
  | week
  | month
  | all
  deriving DecidableEq, Repr

namespace TimeWindow

/-- `TimeWindow::duration_secs` (types.rs:53–60). -/
def durationSecs : TimeWindow → Option ℤ
  | day => some 86400
  | week => some 604800
  | month => some 2592000
  | all => none

/-- `TimeWindow::as_str` (types.rs:63–70). -/
def asStr : TimeWindow → String
  | day => "24h"
  | week => "7d"
  | month => "30d"
  | all => "all"

end TimeWindow

/-- `TopLikedItem` (types.rs:226–233). -/
structure TopLikedItem where
  contentType : String
  contentId : Uuid
  count : I64
  deriving DecidableEq, Repr

/-- `TopLikedResponse` (types.rs:237–242). -/
structure TopLikedResponse where
  window : String
  contentType : Option String
  items : List TopLikedItem
  deriving DecidableEq, Repr

end SocialApi
