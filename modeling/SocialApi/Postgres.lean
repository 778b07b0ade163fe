import SocialApi.Types
import SocialApi.Concurrent.Prog
import SocialApi.Concurrent.ReadCommitted

/-!
# The database

The two tables of `migrations/001_create_likes.sql` and
`migrations/002_create_like_counts.sql` under transactions at READ COMMITTED, and
the statements of `repositories.rs` as atomic operations on them.

A statement sees the committed rows and its own transaction's writes. A statement
that writes a row or a unique key which another open transaction has written is
not enabled until that transaction has ended (`Store.Free`); every statement may
fail instead of running. The rows of a query without `ORDER BY` may come in any
order (`shuffle`).

The constraint `chk_total_count_non_negative` is checked by the statements that
write `total_count`; the unique key `uq_likes_user_content` is what
`ON CONFLICT … DO NOTHING` looks at. `likes` is a list of rows, so that at most
one row per key is a property to be proved; `like_counts` is a map, since its key
is the primary key.
-/

namespace SocialApi.Postgres

open SocialApi.Concurrent

/-! ## Tables -/

/-- A row of `likes` (001_create_likes.sql:2–9). -/
structure LikesRow where
  id : I64
  userId : Uuid
  contentType : String
  contentId : Uuid
  createdAt : DateTime
  deriving DecidableEq, Repr

/-- `LikeRow` (repositories.rs:9–14), what the queries select of a row. -/
structure LikeRow where
  id : I64
  contentType : String
  contentId : Uuid
  createdAt : DateTime
  deriving DecidableEq, Repr

/-- The columns of the unique key `uq_likes_user_content`. -/
abbrev LikeKey := Uuid × Item

namespace LikesRow

def item (r : LikesRow) : Item := (r.contentType, r.contentId)

def key (r : LikesRow) : LikeKey := (r.userId, r.item)

def toLikeRow (r : LikesRow) : LikeRow := ⟨r.id, r.contentType, r.contentId, r.createdAt⟩

end LikesRow

/-- The committed contents of the two tables. -/
structure Tables where
  likes : List LikesRow
  likeCounts : Item → Option I64

namespace Tables

/-- `total_count` of the item, 0 without a row. -/
def totalCount (t : Tables) (item : Item) : I64 := (t.likeCounts item).getD 0

/-- The rows of `likes` for the item. -/
def likesOf (t : Tables) (item : Item) : List LikesRow := t.likes.filter fun r => r.item = item

/-- The row of the user and the item. -/
def find (t : Tables) (key : LikeKey) : Option LikesRow := t.likes.find? fun r => r.key = key

end Tables

/-- What an open transaction has written. -/
inductive Write where
  | insertLike (row : LikesRow)
  | deleteLike (key : LikeKey)
  | setCount (item : Item) (count : I64)
  deriving DecidableEq

/-- What a write locks: a key of `likes` or a row of `like_counts`. -/
inductive Lock where
  | like (key : LikeKey)
  | count (item : Item)
  deriving DecidableEq

namespace Write

def apply : Write → Tables → Tables
  | insertLike row, t => { t with likes := t.likes ++ [row] }
  | deleteLike key, t => { t with likes := t.likes.filter fun r => r.key ≠ key }
  | setCount item count, t => { t with likeCounts := Function.update t.likeCounts item (some count) }

def lock : Write → Lock
  | insertLike row => .like row.key
  | deleteLike key => .like key
  | setCount item _ => .count item

end Write

/-- The rows with the key, or the count of the item. -/
def part : Lock → Tables → List LikesRow ⊕ Option I64
  | .like key, t => .inl (t.likes.filter fun r => r.key = key)
  | .count item, t => .inr (t.likeCounts item)

theorem part_frame (w : Write) (t : Tables) (ℓ : Lock) (h : w.lock ≠ ℓ) :
    part ℓ (w.apply t) = part ℓ t := by
  cases w with
  | insertLike row =>
    cases ℓ with
    | like key =>
      have hne : row.key ≠ key := fun he => h (by rw [Write.lock, he])
      simp [part, Write.apply, hne]
    | count item => rfl
  | deleteLike key' =>
    cases ℓ with
    | like key =>
      have hne : key' ≠ key := fun he => h (by rw [Write.lock, he])
      simp only [part, Write.apply, List.filter_filter, Sum.inl.injEq]
      refine List.filter_congr fun r _ => ?_
      by_cases hk : r.key = key
      · simp [hk, hne.symm]
      · simp [hk]
    | count item => rfl
  | setCount item' count =>
    cases ℓ with
    | like key => rfl
    | count item =>
      have hne : item ≠ item' := fun he => h (by rw [Write.lock, he])
      simp [part, Write.apply, Function.update_of_ne hne]

/-- The two tables as a layout for transactions. -/
def layout : Layout Tables Write Lock (List LikesRow ⊕ Option I64) where
  apply := Write.apply
  lock := Write.lock
  part := part
  frame := part_frame

/-! ## State -/

/-- The database: the store, the start time of each transaction (`NOW()`), and the next
    value of the sequence behind `likes.id`. -/
structure DbState (ι : Type) where
  store : Store ι Tables Write Lock
  startedAt : ι → DateTime
  nextId : ℤ

/-- `sqlx::Error`, as far as the statements tell errors apart. -/
inductive SqlxError where
  | checkViolation (constraint : String)
  | outOfRange
  | other (message : String)
  deriving DecidableEq, Repr

namespace SqlxError

/-- `sqlx::Error::to_string`. -/
def toString : SqlxError → String
  | checkViolation constraint =>
    "error returned from database: new row for relation \"like_counts\" violates check constraint \""
      ++ constraint ++ "\""
  | outOfRange => "error returned from database: bigint out of range"
  | other message => message

end SqlxError

/-! ## Statements -/

/-- The statements of `repositories.rs`. Those before `countRow` run inside a transaction,
    the others on the pool. -/
inductive DbOp where
  /-- `pool.begin()`. -/
  | begin
  /-- `INSERT INTO likes … ON CONFLICT … DO NOTHING RETURNING …` (lines 39–51). -/
  | insertLike (userId : Uuid) (item : Item)
  /-- `INSERT INTO like_counts … DO UPDATE SET total_count = like_counts.total_count + 1 …
      RETURNING total_count` (lines 56–68). -/
  | incrementCount (item : Item)
  /-- The `LEFT JOIN` of the existing row and its count (lines 80–95). -/
  | selectExisting (userId : Uuid) (item : Item)
  /-- `DELETE FROM likes WHERE …`, with `rows_affected()` (lines 149–159). -/
  | deleteLike (userId : Uuid) (item : Item)
  /-- `UPDATE like_counts SET total_count = GREATEST(total_count - 1, 0) … RETURNING
      total_count` (lines 167–178). -/
  | decrementCount (item : Item)
  /-- `SELECT COALESCE(total_count, 0) FROM like_counts …` in the transaction (lines 187–197). -/
  | selectCount (item : Item)
  /-- `tx.commit()`. -/
  | commit
  /-- `tx` dropped without a commit. -/
  | rollback
  /-- `SELECT total_count FROM like_counts …` on the pool (lines 115–125 and 251–259). -/
  | countRow (item : Item)
  /-- The `unnest … LEFT JOIN like_counts` of `batch_get_counts` (lines 225–239). -/
  | batchGetCounts (items : List Item)
  /-- `SELECT created_at FROM likes …` (lines 271–281). -/
  | getLikeStatus (userId : Uuid) (item : Item)
  /-- The `unnest … LEFT JOIN likes` of `batch_get_statuses` (lines 339–350). -/
  | batchGetStatuses (userId : Uuid) (items : List Item)
  /-- The keyset query of `get_user_likes` (lines 298–319). -/
  | getUserLikes (userId : Uuid) (contentTypeFilter : Option String)
      (cursor : Option (DateTime × I64)) (fetchLimit : ℤ)

/-- What a statement that succeeds returns. -/
@[reducible] def DbOp.Rows : DbOp → Type
  | begin => Unit
  | insertLike _ _ => Option LikeRow
  | incrementCount _ => I64
  | selectExisting _ _ => Option (LikeRow × I64)
  | deleteLike _ _ => ℕ
  | decrementCount _ => Option I64
  | selectCount _ => Option I64
  | commit => Unit
  | rollback => Unit
  | countRow _ => Option I64
  | batchGetCounts _ => List (Item × I64)
  | getLikeStatus _ _ => Option DateTime
  | batchGetStatuses _ _ => List (Item × Option DateTime)
  | getUserLikes _ _ _ _ => List LikeRow

/-- The answer to a statement. -/
abbrev DbOp.Ans (q : DbOp) : Type := Except SqlxError q.Rows

/-- How a statement goes: it runs, `now` being the time at which a transaction starts and
    `order` the order of an unordered result, or it fails. -/
inductive DbChoice where
  | run (now : DateTime) (order : List ℕ)
  | fail (message : String)

/-- `as` in the order given by `ks`: element by element, each inserted at its position. -/
def shuffle {α : Type} : List ℕ → List α → List α
  | _, [] => []
  | [], as => as
  | k :: ks, a :: as => (shuffle ks as).insertIdx (min k (shuffle ks as).length) a

/-- The order `ORDER BY created_at DESC, id DESC`: newer rows first, ties by larger id. -/
def Newer (r r' : LikesRow) : Prop :=
  r'.createdAt.micros < r.createdAt.micros ∨
    r'.createdAt = r.createdAt ∧ r'.id.val ≤ r.id.val

instance : DecidableRel Newer := fun r r' => by unfold Newer; infer_instance

/-- `(created_at, id) < cursor` as a row comparison. -/
def Before (r : LikesRow) (cursor : DateTime × I64) : Prop :=
  r.createdAt.micros < cursor.1.micros ∨ r.createdAt = cursor.1 ∧ r.id.val < cursor.2.val

instance (r : LikesRow) (cursor : DateTime × I64) : Decidable (Before r cursor) := by
  unfold Before; infer_instance

/-- The `WHERE` clause of `get_user_likes`. -/
def Matches (userId : Uuid) (contentTypeFilter : Option String)
    (cursor : Option (DateTime × I64)) (r : LikesRow) : Prop :=
  r.userId = userId ∧ (∀ ct ∈ contentTypeFilter, r.contentType = ct) ∧
    ∀ c ∈ cursor, Before r c

instance (userId : Uuid) (contentTypeFilter : Option String) (cursor : Option (DateTime × I64)) :
    DecidablePred (Matches userId contentTypeFilter cursor) := fun r => by
  unfold Matches; infer_instance

/-- The rows `get_user_likes` selects, in order; a negative `LIMIT` never occurs. -/
def Tables.userLikes (t : Tables) (userId : Uuid) (contentTypeFilter : Option String)
    (cursor : Option (DateTime × I64)) (fetchLimit : ℤ) : List LikesRow :=
  ((t.likes.filter (Matches userId contentTypeFilter cursor)).insertionSort Newer).take
    fetchLimit.toNat

variable {ι : Type} [DecidableEq ι]

/-- `total_count = v` with the column's check constraint, then the write. -/
def setTotalCount (s : DbState ι) (i : ι) (item : Item) (v : Option I64) :
    DbState ι × Except SqlxError I64 :=
  match v with
  | none => (s, .error .outOfRange)
  | some c =>
    if c.val < 0 then (s, .error (.checkViolation "chk_total_count_non_negative"))
    else ({ s with store := s.store.write layout i (.setCount item c) }, .ok c)

/-- `total_count - 1`, then `GREATEST(…, 0)`. -/
def greatestPred (c : I64) : Option I64 :=
  (I64.ofInt? (c.val - 1)).map fun d => if d.val < 0 then 0 else d

/-- The text of the error when the sequence behind `likes.id` has run out. -/
def sequenceExhausted : String :=
  "error returned from database: nextval: reached maximum value of sequence \"likes_id_seq\""

/-- The tables transaction `i` sees. -/
def DbState.view (s : DbState ι) (i : ι) : Tables := s.store.view layout i

/-- A statement of call `i` that runs; `none` while it has to wait. -/
def runStatement (s : DbState ι) (i : ι) (now : DateTime) (order : List ℕ) :
    (q : DbOp) → Option (DbState ι × q.Ans)
  | .begin =>
    some ({ s with store := s.store.beginTx i, startedAt := Function.update s.startedAt i now },
      .ok ())
  | .insertLike userId item =>
    if s.store.Free i (.like (userId, item)) then
      match I64.ofInt? s.nextId with
      | none => some (s, .error (.other sequenceExhausted))
      | some id =>
        -- the default of `id` takes a sequence value whether or not there is a conflict
        let s' := { s with nextId := s.nextId + 1 }
        match (s.view i).find (userId, item) with
        | some _ => some (s', .ok none)
        | none =>
          let row : LikesRow := ⟨id, userId, item.1, item.2, s.startedAt i⟩
          some ({ s' with store := s.store.write layout i (.insertLike row) },
            .ok (some row.toLikeRow))
    else none
  | .incrementCount item =>
    if s.store.Free i (.count item) then
      match (s.view i).likeCounts item with
      | none => some (setTotalCount s i item (some 1))
      | some c => some (setTotalCount s i item (I64.ofInt? (c.val + 1)))
    else none
  | .selectExisting userId item =>
    some (s, .ok (((s.view i).find (userId, item)).map fun r =>
      (r.toLikeRow, (s.view i).totalCount item)))
  | .deleteLike userId item =>
    match (s.view i).likes.filter fun r => r.key = (userId, item) with
    | [] => some (s, .ok 0)
    | rows =>
      if s.store.Free i (.like (userId, item)) then
        some ({ s with store := s.store.write layout i (.deleteLike (userId, item)) },
          .ok rows.length)
      else none
  | .decrementCount item =>
    match (s.view i).likeCounts item with
    | none => some (s, .ok none)
    | some c =>
      if s.store.Free i (.count item) then
        let r := setTotalCount s i item (greatestPred c)
        some (r.1, r.2.map some)
      else none
  | .selectCount item => some (s, .ok ((s.view i).likeCounts item))
  | .commit => some ({ s with store := s.store.commit layout i }, .ok ())
  | .rollback => some ({ s with store := s.store.abort i }, .ok ())
  | .countRow item => some (s, .ok (s.store.committed.likeCounts item))
  | .batchGetCounts items =>
    some (s, .ok (shuffle order (items.map fun item => (item, s.store.committed.totalCount item))))
  | .getLikeStatus userId item =>
    some (s, .ok ((s.store.committed.find (userId, item)).map LikesRow.createdAt))
  | .batchGetStatuses userId items =>
    some (s, .ok (shuffle order (items.flatMap fun item =>
      match s.store.committed.likes.filter fun r => r.key = (userId, item) with
      | [] => [(item, none)]
      | rows => rows.map fun r => (item, some r.createdAt))))
  | .getUserLikes userId contentTypeFilter cursor fetchLimit =>
    some (s, .ok ((s.store.committed.userLikes userId contentTypeFilter cursor fetchLimit).map
      LikesRow.toLikeRow))

/-- What a statement that fails leaves behind: a transaction whose `COMMIT` or `ROLLBACK`
    fails is over, without its writes. -/
def failStatement (s : DbState ι) (i : ι) : DbOp → DbState ι
  | .commit => { s with store := s.store.abort i }
  | .rollback => { s with store := s.store.abort i }
  | _ => s

/-- What one statement of call `i` does. -/
def handle (s : DbState ι) (i : ι) (q : DbOp) : DbChoice → Option (DbState ι × q.Ans)
  | .run now order => runStatement s i now order q
  | .fail message => some (failStatement s i q, .error (.other message))

end SocialApi.Postgres
