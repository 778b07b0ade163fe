import SocialApi.Postgres
import SocialApi.Concurrent.Pool

/-!
# The repository functions

`repositories.rs` as programs over the statements of `SocialApi.Postgres`. Between
any two statements other calls may run. `?` on a failed statement returns the
error; where a transaction is open, `tx` is dropped and the transaction rolled
back (`inTx`).
-/

namespace SocialApi.Repositories

open SocialApi.Concurrent SocialApi.Postgres

/-- A repository function: statements, then a `Result<_, sqlx::Error>`. -/
abbrev Repo (α : Type) := Prog DbOp DbOp.Ans (Except SqlxError α)

/-- `InsertLikeResult` (repositories.rs:18–26). -/
inductive InsertLikeResult where
  | inserted (row : LikeRow) (count : I64)
  | alreadyExisted (row : LikeRow) (count : I64)
  | concurrentlyRemoved (count : I64)
  deriving DecidableEq, Repr

/-- `DeleteLikeResult` (repositories.rs:133–137). -/
structure DeleteLikeResult where
  wasLiked : Bool
  count : I64
  deriving DecidableEq, Repr

variable {β : Type}

/-- `?` with no transaction open. -/
def attempt (q : DbOp) (f : q.Rows → Repo β) : Repo β :=
  (Prog.perform q).bind fun
    | .ok a => f a
    | .error e => .ret (.error e)

/-- `?` inside a transaction: the error path drops `tx`. -/
def inTx (q : DbOp) (f : q.Rows → Repo β) : Repo β :=
  (Prog.perform q).bind fun
    | .ok a => f a
    | .error e => (Prog.perform .rollback).bind fun _ => .ret (.error e)

/-- `insert_like` (repositories.rs:30–130). -/
def insertLike (userId : Uuid) (item : Item) : Repo InsertLikeResult :=
  attempt .begin fun _ =>
  inTx (.insertLike userId item) fun
    | some likeRow =>
      inTx (.incrementCount item) fun count =>
      attempt .commit fun _ =>
      .ret (.ok (.inserted likeRow count))
    | none =>
      inTx (.selectExisting userId item) fun existing =>
      attempt .commit fun _ =>
      match existing with
      | some (row, count) => .ret (.ok (.alreadyExisted row count))
      | none =>
        -- the transaction is over; the count is read on the pool
        attempt (.countRow item) fun count =>
        .ret (.ok (.concurrentlyRemoved (count.getD 0)))

/-- `delete_like` (repositories.rs:141–206). -/
def deleteLike (userId : Uuid) (item : Item) : Repo DeleteLikeResult :=
  attempt .begin fun _ =>
  inTx (.deleteLike userId item) fun rowsAffected =>
  if rowsAffected > 0 then
    inTx (.decrementCount item) fun count =>
    attempt .commit fun _ =>
    .ret (.ok ⟨true, count.getD 0⟩)
  else
    inTx (.selectCount item) fun count =>
    attempt .commit fun _ =>
    .ret (.ok ⟨false, count.getD 0⟩)

/-- `batch_get_counts` (repositories.rs:210–243). -/
def batchGetCounts (items : List Item) : Repo (List (Item × I64)) :=
  if items = [] then .ret (.ok []) else .perform (DbOp.batchGetCounts items)

/-- `get_count` (repositories.rs:246–262). -/
def getCount (item : Item) : Repo I64 :=
  attempt (.countRow item) fun row => .ret (.ok (row.getD 0))

/-- `get_like_status` (repositories.rs:265–284). -/
def getLikeStatus (userId : Uuid) (item : Item) : Repo (Option DateTime) :=
  .perform (DbOp.getLikeStatus userId item)

/-- `get_user_likes` (repositories.rs:288–320): one row more than `limit`. The keyset
    condition is there only when both parts of the cursor are. -/
def getUserLikes (userId : Uuid) (contentTypeFilter : Option String)
    (cursorTs : Option DateTime) (cursorId : Option I64) (limit : ℤ) : Repo (List LikeRow) :=
  let fetchLimit := limit + 1
  let cursor := match cursorTs, cursorId with
    | some ts, some id => some (ts, id)
    | _, _ => none
  .perform (DbOp.getUserLikes userId contentTypeFilter cursor fetchLimit)

/-- `batch_get_statuses` (repositories.rs:323–355). -/
def batchGetStatuses (userId : Uuid) (items : List Item) : Repo (List (Item × Option DateTime)) :=
  if items = [] then .ret (.ok []) else .perform (DbOp.batchGetStatuses userId items)

end SocialApi.Repositories
