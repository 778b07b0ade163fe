import SocialApi.Cache
import SocialApi.PendingFetches
import SocialApi.Codec
import SocialApi.Repositories
import SocialApi.Clients.CircuitBreaker
import SocialApi.Concurrent.Pool

/-!
# The state of the service and its atomic operations

Everything the calls of `LikeService` share: the database, the cache, the pending
fetches, the content breaker and the events published so far. The calls are
programs over the operations of these components (`SvcOp`), so that any number of
them can be interleaved operation by operation.

The content validator is a trait object; a call of `validate` is one operation
whose result is left open.
-/

namespace SocialApi.Services

open SocialApi.Concurrent SocialApi.Postgres SocialApi.Clients

/-- The settings the services read (`config.rs`). -/
structure Config where
  cacheTtlLikeCountsSecs : ℕ
  cacheTtlLikeStatusSecs : ℕ
  cacheTtlUserLikesSecs : ℕ
  breaker : CircuitBreakerConfig

/-- `ValidationOutcome` (content_client.rs:13–19). -/
inductive ValidationOutcome where
  | cached (valid : Bool)
  | remote (valid : Bool)
  deriving DecidableEq, Repr

/-- The shared state. -/
structure World (ι : Type) where
  db : DbState ι
  cache : Cache.CacheState
  flights : PendingFetches.Flights ι
  breaker : Inner
  published : List (Item × LikeEvent)
  /-- The calls that have been told of a database error; no outcome depends on it. -/
  dbErrors : List ι

/-- A service that has just started: empty tables and caches, a closed breaker. -/
def World.new {ι : Type} : World ι where
  db := ⟨.ofTables ⟨[], fun _ => none⟩, fun _ => .epoch, 1⟩
  cache := .empty
  flights := .empty
  breaker := CircuitBreaker.new
  published := []
  dbErrors := []

/-- The default settings (config.rs:198–225 and state.rs:226–236). -/
def Config.default : Config where
  cacheTtlLikeCountsSecs := 300
  cacheTtlLikeStatusSecs := 300
  cacheTtlUserLikesSecs := 60
  breaker :=
    { failureThreshold := 5
      recoveryTimeout := 30000000000
      successThreshold := 3
      rateWindow := 30000000000
      failureRateThreshold := 1 / 2
      minCallsForRate := 10 }

/-- The operations of the calls. -/
inductive SvcOp where
  | db (q : DbOp)
  | cache (o : Cache.Op)
  | flight (o : PendingFetches.Op)
  /-- `content_breaker.allow_request()`. -/
  | allowRequest
  /-- `content_breaker.record_success()`. -/
  | recordSuccess
  /-- `content_breaker.record_failure()`. -/
  | recordFailure
  /-- `content_validator.validate(…)`. -/
  | validate (item : Item)
  /-- `PUBLISH sse:{content_type}:{content_id}`. -/
  | publish (event : LikeEvent) (item : Item)
  /-- `Utc::now()`. -/
  | now
  /-- The order in which a `HashMap` yields its keys. -/
  | hashOrder

@[reducible] def SvcOp.Ans : SvcOp → Type
  | db q => q.Ans
  | cache o => o.Ans
  | flight o => o.Ans
  | allowRequest => Bool
  | recordSuccess => Unit
  | recordFailure => Unit
  | validate _ => Except AppError ValidationOutcome
  | publish _ _ => Unit
  | now => DateTime
  | hashOrder => List ℕ

/-- What an operation leaves open. -/
inductive SvcChoice where
  | db (x : DbChoice)
  | cache (x : Cache.Choice)
  | flight (x : PendingFetches.Choice)
  | clock (now now' : Instant)
  | validated (outcome : Except AppError ValidationOutcome)
  | published (delivered : Bool)
  | wall (now : DateTime)
  | order (ks : List ℕ)
  | evict (layer : Cache.Layer) (key : CacheKey)

variable {ι : Type} [DecidableEq ι]

/-- The calls with a database error after an answer to call `i`. -/
def noteError {α : Type} (errors : List ι) (i : ι) : Except SqlxError α → List ι
  | .error _ => i :: errors
  | .ok _ => errors

/-- What one operation of call `i` does. -/
def handle (cfg : Config) (s : World ι) (i : ι) :
    (o : SvcOp) → SvcChoice → Option (World ι × o.Ans)
  | .db q, .db x => (Postgres.handle s.db i q x).map fun r =>
    ({ s with db := r.1, dbErrors := noteError s.dbErrors i r.2 }, r.2)
  | .cache o, .cache x => (Cache.handle s.cache o x).map fun r => ({ s with cache := r.1 }, r.2)
  | .flight o, .flight x =>
    (PendingFetches.handle s.flights i o x).map fun r => ({ s with flights := r.1 }, r.2)
  | .allowRequest, .clock now _ =>
    let r := CircuitBreaker.allowRequest cfg.breaker now s.breaker
    some ({ s with breaker := r.1 }, r.2)
  | .recordSuccess, .clock now _ =>
    some ({ s with breaker := CircuitBreaker.recordSuccess cfg.breaker now s.breaker }, ())
  | .recordFailure, .clock now now' =>
    some ({ s with breaker := CircuitBreaker.recordFailure cfg.breaker now now' s.breaker }, ())
  | .validate _, .validated outcome => some (s, outcome)
  | .publish event item, .published delivered =>
    some (if delivered then { s with published := s.published ++ [(item, event)] } else s, ())
  | .now, .wall t => some (s, t)
  | .hashOrder, .order ks => some (s, ks)
  | _, _ => none

theorem handle_db {cfg : Config} {s s' : World ι} {i : ι} {q : DbOp} {x : SvcChoice} {r : q.Ans}
    (h : handle cfg s i (.db q) x = some (s', r)) :
    ∃ y db', x = .db y ∧ Postgres.handle s.db i q y = some (db', r) ∧
      s' = { s with db := db', dbErrors := noteError s.dbErrors i r } := by
  cases x with
  | db y =>
    obtain ⟨⟨db', r'⟩, hs, he⟩ := Option.map_eq_some_iff.mp h
    cases he
    exact ⟨y, db', rfl, hs, rfl⟩
  | _ => cases h

theorem handle_cache {cfg : Config} {s s' : World ι} {i : ι} {o : Cache.Op} {x : SvcChoice}
    {r : o.Ans} (h : handle cfg s i (.cache o) x = some (s', r)) :
    ∃ y c', x = .cache y ∧ Cache.handle s.cache o y = some (c', r) ∧ s' = { s with cache := c' } := by
  cases x with
  | cache y =>
    obtain ⟨⟨c', r'⟩, hs, he⟩ := Option.map_eq_some_iff.mp h
    cases he
    exact ⟨y, c', rfl, hs, rfl⟩
  | _ => cases h

theorem handle_flight {cfg : Config} {s s' : World ι} {i : ι} {o : PendingFetches.Op}
    {x : SvcChoice} {r : o.Ans} (h : handle cfg s i (.flight o) x = some (s', r)) :
    ∃ y f', x = .flight y ∧ PendingFetches.handle s.flights i o y = some (f', r) ∧
      s' = { s with flights := f' } := by
  cases x with
  | flight y =>
    obtain ⟨⟨f', r'⟩, hs, he⟩ := Option.map_eq_some_iff.mp h
    cases he
    exact ⟨y, f', rfl, hs, rfl⟩
  | _ => cases h

/-- Only the operations on `pending_fetches` and its channels change them. -/
theorem handle_flights {cfg : Config} {s s' : World ι} {i : ι} {o : SvcOp} {x : SvcChoice}
    {r : o.Ans} (h : handle cfg s i o x = some (s', r)) (ho : ∀ o', o ≠ .flight o') :
    s'.flights = s.flights := by
  cases o with
  | db q => obtain ⟨y, db', -, -, rfl⟩ := handle_db h; rfl
  | cache o => obtain ⟨y, c', -, -, rfl⟩ := handle_cache h; rfl
  | flight o => exact absurd rfl (ho o)
  | publish event item =>
    cases x with
    | published delivered => cases h; cases delivered <;> rfl
    | _ => cases h
  | _ => cases x <;> cases h; rfl

/-- An operation on anything but the database. -/
def SvcOp.OffDb : SvcOp → Prop
  | db _ => False
  | _ => True

/-- Only statements change the database. -/
theorem handle_offDb {s s' : World ι} {i : ι} {o : SvcOp} {x : SvcChoice} {r : o.Ans}
    (h : handle cfg s i o x = some (s', r)) (ho : o.OffDb) : s'.db = s.db := by
  cases o with
  | db q => exact ho.elim
  | cache o => obtain ⟨y, c', -, -, rfl⟩ := handle_cache h; rfl
  | flight o => obtain ⟨y, f', -, -, rfl⟩ := handle_flight h; rfl
  | publish event item =>
    cases x with
    | published delivered => cases h; cases delivered <;> rfl
    | _ => cases h
  | _ => cases x <;> cases h; rfl

/-- A statement that succeeds has run. -/
theorem handle_ok {s s' : World ι} {i : ι} {q : DbOp} {x : SvcChoice} {a : q.Rows}
    (h : handle cfg s i (.db q) x = some (s', .ok a)) :
    ∃ now order, x = .db (.run now order) ∧
      runStatement s.db i now order q = some (s'.db, .ok a) := by
  obtain ⟨y, db', rfl, hdb, rfl⟩ := handle_db h
  cases y with
  | fail message => cases hdb
  | run now order => exact ⟨now, order, rfl, hdb⟩

/-- Call `i` is dropped: its transaction is rolled back, its senders and receivers are gone. -/
def dropCall (s : World ι) (i : ι) : World ι :=
  { s with db := { s.db with store := s.db.store.abort i },
           flights := PendingFetches.abandon s.flights i }

/-- An entry of the cache expires or is evicted. -/
def evict (s : World ι) : SvcChoice → Option (World ι)
  | .evict layer key => some { s with cache := Cache.evict s.cache layer key }
  | _ => none

/-- Any number of calls of the service, with the programs `prog`. -/
def servicePool {κ α : Type} (cfg : Config) (prog : κ → Prog SvcOp SvcOp.Ans α)
    (init : World ι → Prop) : Pool ι (World ι) κ SvcOp SvcOp.Ans α SvcChoice where
  init := init
  prog := prog
  start s _ _ := some s
  handle := handle cfg
  drop s i := some (dropCall s i)
  env := evict

/-! ## Programs -/

/-- A method of the services. -/
abbrev Svc (α : Type) := Prog SvcOp SvcOp.Ans α

/-- One operation as a method. -/
def perform (o : SvcOp) : Svc o.Ans := Prog.perform o

/-- A method of `CacheManager`. -/
def cache {α : Type} (p : Cache.CacheM α) : Svc α := p.lift .cache fun _ r => r

/-- An access to `pending_fetches` or one of its channels. -/
def flight (o : PendingFetches.Op) : Svc o.Ans := perform (.flight o)

/-- `map_db_error` (like_count_cache.rs:269–271). -/
def mapDbError (error : SqlxError) : AppError := .database error.toString

/-- A repository function, with its error mapped by `map_db_error`. -/
def db {α : Type} (p : Repositories.Repo α) : Svc (Except AppError α) := do
  let result ← p.lift .db fun _ r => r
  return result.mapError mapDbError

/-- `?`. -/
def attempt {α β : Type} (p : Svc (Except AppError α)) (f : α → Svc (Except AppError β)) :
    Svc (Except AppError β) := do
  match ← p with
  | .ok a => f a
  | .error e => return .error e

end SocialApi.Services
