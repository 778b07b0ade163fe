import SocialApi.Service

/-!
# Replicas of the service

Any number of replicas of the service on one database and one Redis. Each has its own
L1, pending fetches and breaker; a call runs on one of them. There is a global clock, in
nanoseconds: an operation takes place at the time the clock shows, and time passes
between operations.

An entry of L1 is not served later than `local_cache_ttl_ms` after its insertion, one of
Redis not later than the TTL of its `SETEX`; both may be evicted earlier.

* `Cluster.view`: what a replica finds, and `Cluster.put` what it leaves behind; an
  operation is `Services.handle` between the two.
-/

namespace SocialApi.Services

open SocialApi.Concurrent SocialApi.Postgres SocialApi.Clients

/-- Seconds, in nanoseconds. -/
def seconds (n : ℕ) : ℕ := n * 1000000000

/-- `Duration::from_millis`, in nanoseconds. -/
def millis (n : ℕ) : ℕ := n * 1000000

/-- The settings, and the replica each call runs on. -/
structure Deployment (ι ρ : Type) where
  cfg : Config
  /-- `local_cache_ttl_ms` (config.rs:128), the `time_to_live` of L1 (cache.rs:51–57). -/
  localCacheTtlMs : ℕ
  replica : ι → ρ

/-- The database, Redis and the replicas. -/
structure Cluster (ι ρ : Type) where
  db : DbState ι
  redis : CacheKey → Option String
  /-- The time until which an entry of Redis may be served. -/
  redisUntil : CacheKey → ℕ
  l1 : ρ → CacheKey → Option String
  /-- The time until which an entry of L1 may be served. -/
  l1Until : ρ → CacheKey → ℕ
  flights : ρ → PendingFetches.Flights ι
  breaker : ρ → Inner
  published : List (Item × LikeEvent)
  dbErrors : List ι
  clock : ℕ
  /-- When a call started; no outcome depends on it. -/
  started : ι → ℕ
  /-- When a call last did something; no outcome depends on it. -/
  stepped : ι → ℕ

variable {ι ρ : Type}

namespace Cluster

/-- Replicas that have just started, with the given tables. -/
def new (t : Tables) : Cluster ι ρ where
  db := ⟨.ofTables t, fun _ => .epoch, 1⟩
  redis _ := none
  redisUntil _ := 0
  l1 _ _ := none
  l1Until _ _ := 0
  flights _ := .empty
  breaker _ := CircuitBreaker.new
  published := []
  dbErrors := []
  clock := 0
  started _ := 0
  stepped _ := 0

/-- What a replica finds at the time of the clock. -/
def view (s : Cluster ι ρ) (r : ρ) : World ι where
  db := s.db
  cache :=
    { l1 := fun key => if s.clock ≤ s.l1Until r key then s.l1 r key else none
      redis := fun key => if s.clock ≤ s.redisUntil key then s.redis key else none }
  flights := s.flights r
  breaker := s.breaker r
  published := s.published
  dbErrors := s.dbErrors

variable [DecidableEq ι] [DecidableEq ρ]

/-- The deadlines of a replica's L1 after an operation. -/
def l1UntilAfter (d : Deployment ι ρ) (s : Cluster ι ρ) (r : ρ) : SvcOp → CacheKey → ℕ
  | .cache (.l1Insert key _) =>
    Function.update (s.l1Until r) key (s.clock + millis d.localCacheTtlMs)
  | _ => s.l1Until r

/-- The deadlines of Redis after an operation. -/
def redisUntilAfter (s : Cluster ι ρ) : SvcOp → SvcChoice → CacheKey → ℕ
  | .cache (.redisSetEx key _ ttlSecs), .cache .ok =>
    Function.update s.redisUntil key (s.clock + seconds ttlSecs)
  | _, _ => s.redisUntil

/-- The cluster after an operation of call `i` on replica `r` that leaves `w` behind. -/
def put (d : Deployment ι ρ) (s : Cluster ι ρ) (r : ρ) (i : ι) (o : SvcOp) (x : SvcChoice)
    (w : World ι) : Cluster ι ρ where
  db := w.db
  redis := w.cache.redis
  redisUntil := s.redisUntilAfter o x
  l1 := Function.update s.l1 r w.cache.l1
  l1Until := Function.update s.l1Until r (s.l1UntilAfter d r o)
  flights := Function.update s.flights r w.flights
  breaker := Function.update s.breaker r w.breaker
  published := w.published
  dbErrors := w.dbErrors
  clock := s.clock
  started := s.started
  stepped := Function.update s.stepped i s.clock

end Cluster

/-- What a step leaves open: what an operation does, how late it gets, what is evicted. -/
inductive ClusterChoice (ρ : Type) where
  | svc (x : SvcChoice)
  | tick (now : ℕ)
  | evictL1 (r : ρ) (key : CacheKey)
  | evictRedis (key : CacheKey)

variable [DecidableEq ι] [DecidableEq ρ]

/-- What one operation of call `i` does. -/
def Cluster.handle (d : Deployment ι ρ) (s : Cluster ι ρ) (i : ι) (o : SvcOp) :
    ClusterChoice ρ → Option (Cluster ι ρ × o.Ans)
  | .svc x => (Services.handle d.cfg (s.view (d.replica i)) i o x).map fun res =>
    (s.put d (d.replica i) i o x res.1, res.2)
  | _ => none

/-- Time passes, or an entry is evicted. -/
def Cluster.env (s : Cluster ι ρ) : ClusterChoice ρ → Option (Cluster ι ρ)
  | .svc _ => none
  | .tick now => if s.clock ≤ now then some { s with clock := now } else none
  | .evictL1 r key =>
    some { s with l1 := Function.update s.l1 r (Function.update (s.l1 r) key none) }
  | .evictRedis key => some { s with redis := Function.update s.redis key none }

/-- Call `i` is dropped. -/
def Cluster.dropCall (d : Deployment ι ρ) (s : Cluster ι ρ) (i : ι) : Cluster ι ρ :=
  { s with
    db := { s.db with store := s.db.store.abort i }
    flights := Function.update s.flights (d.replica i)
      (PendingFetches.abandon (s.flights (d.replica i)) i) }

/-- Any number of calls on any number of replicas, with the programs `prog`. -/
def clusterPool {κ α : Type} (d : Deployment ι ρ) (prog : κ → Prog SvcOp SvcOp.Ans α)
    (init : Cluster ι ρ → Prop) : Pool ι (Cluster ι ρ) κ SvcOp SvcOp.Ans α (ClusterChoice ρ) where
  init := init
  prog := prog
  start s i _ := some { s with
    started := Function.update s.started i s.clock
    stepped := Function.update s.stepped i s.clock }
  handle := Cluster.handle d
  drop s i := some (s.dropCall d i)
  env := Cluster.env

end SocialApi.Services
