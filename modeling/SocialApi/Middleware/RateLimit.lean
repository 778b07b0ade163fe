import SocialApi.Concurrent.Pool
import SocialApi.Concurrent.SlidingWindow

/-!
# The rate limiter

`RATE_LIMIT_SCRIPT` and `check_rate_limit_inner` of `middleware/rate_limit.rs`: a
sorted set in Redis holds one member for each allowed call of the last `window`
milliseconds. The script is one atomic operation; between reading the clock, drawing
a number from `RATE_LIMIT_COUNTER` and running the script, other calls of the same or
of another replica may run.

Members are kept as the pairs the code formats; `Member.render_injective` shows that
different pairs are different texts. The numbers of the script are integers here: a
Lua number holds every integer up to `2 ^ 53`.
-/

namespace SocialApi.RateLimit

open SocialApi.Concurrent

/-! ## Sorted sets -/

/-- The text `format!("{}:{}", now, seq)`, by its two numbers. -/
@[ext] structure Member where
  now : ℕ
  seq : ℕ
  deriving DecidableEq, Repr

/-- The text the code builds. -/
def Member.render (m : Member) : String :=
  String.ofList (Nat.toDigits 10 m.now ++ ':' :: Nat.toDigits 10 m.seq)

theorem Member.render_injective : Function.Injective Member.render := by
  intro m m' h
  have hcolon : ∀ n, ':' ∉ Nat.toDigits 10 n := by
    intro n hmem
    exact absurd (Nat.isDigit_of_mem_toDigits (by norm_num) (by norm_num) hmem) (by decide)
  have hdigits : ∀ n n', Nat.toDigits 10 n = Nat.toDigits 10 n' → n = n' := by
    intro n n' hn
    have h := congrArg (fun ds => Nat.ofDigitChars 10 ds 0) hn
    simpa using h
  have h := String.ofList_injective h
  obtain ⟨hnow, -, hseq⟩ := (List.append_cons_inj_of_notMem (hcolon _) (hcolon _)).mp h
  exact Member.ext (hdigits _ _ hnow) (hdigits _ _ hseq)

/-- A member and its score. -/
abbrev Entry := Member × ℤ

/-- `ZREMRANGEBYSCORE key min max`. -/
def zremrangebyscore (entries : List Entry) (min max : ℤ) : List Entry :=
  entries.filter fun e => ¬(min ≤ e.2 ∧ e.2 ≤ max)

/-- `ZADD key score member`: a member that is there already gets the new score. -/
def zadd (entries : List Entry) (score : ℤ) (member : Member) : List Entry :=
  if member ∈ entries.map Prod.fst then
    entries.map fun e => if e.1 = member then (member, score) else e
  else entries ++ [(member, score)]

/-- The score that `ZRANGE key 0 0 WITHSCORES` returns. -/
def oldest (entries : List Entry) : Option ℤ := (entries.map Prod.snd).min?

/-- The value of a key: its entries and the seconds `EXPIRE` gave it last. -/
structure ZKey where
  entries : List Entry
  ttlSecs : ℤ
  deriving DecidableEq, Repr

/-- A key that does not exist. -/
def ZKey.absent : ZKey := ⟨[], 0⟩

/-! ## The script -/

/-- The reset time of the replies: until the oldest entry leaves the window. -/
def resetMs (entries : List Entry) (now window default : ℤ) : ℤ :=
  match oldest entries with
  | some score => if score + window - now < 0 then 0 else score + window - now
  | none => default

/-- `RATE_LIMIT_SCRIPT` (rate_limit.rs:24–65): the key afterwards and the reply. -/
def script (key : ZKey) (now window limit : ℤ) (member : Member) : ZKey × List ℤ :=
  let entries := zremrangebyscore key.entries 0 (now - window)
  let count : ℤ := entries.length
  if count ≥ limit then
    (⟨entries, key.ttlSecs⟩, [0, count, limit, resetMs entries now window 0])
  else
    let entries := zadd entries now member
    (⟨entries, (window + 999) / 1000 + 10⟩,
      [1, count + 1, limit, resetMs entries now window window])

/-! ## Calls -/

/-- The limit and the window of a call; every caller passes a window of 60 seconds. The window in
    milliseconds has 64 bits. -/
structure Quota where
  limit : ℕ
  windowSecs : ℕ
  positive : 0 < windowSecs
  fits : windowSecs * 1000 < 2 ^ 64
  deriving DecidableEq, Repr

/-- `window_secs * 1000`. -/
def Quota.windowMs (q : Quota) : ℕ := q.windowSecs * 1000

theorem sixty_pos : 0 < 60 := by norm_num

theorem sixty_fits : 60 * 1000 < 2 ^ 64 := by norm_num

/-- `RateLimitResult` (rate_limit.rs:68–73). -/
structure RateLimitResult where
  allowed : Bool
  current : ℤ
  limit : ℤ
  resetSecs : ℕ
  deriving DecidableEq, Repr

/-- `limit as i64`. -/
def toI64 (n : ℕ) : ℤ := Int.bmod n (2 ^ 64)

/-- The reset time in seconds (rate_limit.rs:110–113). -/
def resetSecs (windowSecs : ℕ) (resetMs : ℤ) : ℕ :=
  max 1 (min (min ((resetMs % 2 ^ 64).toNat + 999) (2 ^ 64 - 1) / 1000) windowSecs)

/-- What `check_rate_limit_inner` makes of the script's reply (rate_limit.rs:103–138). -/
def resultOf (q : Quota) : Option (List ℤ) → RateLimitResult
  | some (allowed :: current :: max :: rest) =>
    { allowed := decide (allowed = 1)
      current := current
      limit := max
      resetSecs := match rest with
        | resetMs :: _ => resetSecs q.windowSecs resetMs
        | [] => q.windowSecs }
  | _ =>
    -- Redis is unavailable: fail open
    { allowed := true, current := 0, limit := toI64 q.limit, resetSecs := q.windowSecs }

/-- The operations of a call. -/
inductive Op where
  /-- `SystemTime::now()`, in milliseconds. -/
  | clock
  /-- `RATE_LIMIT_COUNTER.fetch_add(1)`. -/
  | fetchAdd
  | invokeScript (key : String) (now window limit : ℕ) (member : Member)
  deriving DecidableEq, Repr

@[reducible] def Op.Ans : Op → Type
  | clock => ℕ
  | fetchAdd => ℕ
  | invokeScript _ _ _ _ _ => Option (List ℤ)

/-- What the clock, Redis and the environment leave open. -/
inductive Choice where
  | any
  | clock (now : ℕ)
  | redisDown
  /-- Redis expires a key, at a time in milliseconds. -/
  | expire (key : String) (time : ℤ)
  deriving DecidableEq, Repr

/-- One operation. -/
def perform (o : Op) : Prog Op Op.Ans o.Ans := Prog.perform o

/-- A call's key and quota. -/
structure Request where
  key : String
  quota : Quota
  deriving DecidableEq, Repr

/-- `check_rate_limit_inner` (rate_limit.rs:76–139). -/
def checkRateLimitInner (r : Request) : Prog Op Op.Ans RateLimitResult := do
  let now ← perform .clock
  let seq ← perform .fetchAdd
  let reply ← perform (.invokeScript r.key now r.quota.windowMs r.quota.limit ⟨now, seq⟩)
  return resultOf r.quota reply

/-! ## Replicas and Redis -/

/-- An execution of the script. -/
structure Execution (ι : Type) where
  caller : ι
  now : ℤ
  member : Member
  allowed : Bool
  current : ℤ
  deriving DecidableEq, Repr

/-- The replicas' counters and the keys of their Redis. `log` and `time` are history that no
    outcome depends on: the executions on each key, in order, and the time of the key's last
    execution or expiry. -/
structure Shared (ι ρ : Type) where
  /-- How many numbers each replica has drawn. -/
  drawn : ρ → ℕ
  keys : String → ZKey
  log : String → List (Execution ι)
  time : String → ℤ

/-- Replicas that have just started, and an empty Redis. -/
def Shared.new {ι ρ : Type} : Shared ι ρ where
  drawn _ := 0
  keys _ := .absent
  log _ := []
  time _ := 0

variable {ι ρ : Type}

/-- The execution as the script's reply tells it. -/
def executionOf (i : ι) (now : ℕ) (member : Member) (reply : List ℤ) : Execution ι :=
  ⟨i, now, member, decide (reply.getD 0 1 = 1), reply.getD 1 0⟩

/-- Call `i` runs the script. -/
def Shared.execute (s : Shared ι ρ) (i : ι) (key : String) (now window limit : ℕ)
    (member : Member) : Shared ι ρ × List ℤ :=
  let r := script (s.keys key) now window limit member
  ({ s with
    keys := Function.update s.keys key r.1
    log := Function.update s.log key (s.log key ++ [executionOf i now member r.2])
    time := Function.update s.time key now }, r.2)

/-- Redis expires the key at the given time. -/
def Shared.expire (s : Shared ι ρ) (key : String) (time : ℤ) : Shared ι ρ :=
  { s with
    keys := Function.update s.keys key .absent
    time := Function.update s.time key time }

/-- What one operation of call `i` of replica `home i` does. The counter has 64 bits. -/
def handle [DecidableEq ρ] (home : ι → ρ) (s : Shared ι ρ) (i : ι) :
    (o : Op) → Choice → Option (Shared ι ρ × o.Ans)
  | .clock, .clock now => some (s, now)
  | .fetchAdd, .any =>
    some ({ s with drawn := Function.update s.drawn (home i) (s.drawn (home i) + 1) },
      s.drawn (home i) % 2 ^ 64)
  | .invokeScript key now window limit member, .any =>
    let r := s.execute i key now window limit member
    some (r.1, some r.2)
  | .invokeScript _ _ _ _ _, .redisDown => some (s, none)
  | _, _ => none

section Handle

variable {home : ι → ρ} {s s' : Shared ι ρ} {i : ι} {x : Choice}

variable [DecidableEq ρ]

theorem handle_clock {now : ℕ} (h : handle home s i .clock x = some (s', now)) : s' = s := by
  cases x with
  | clock t => cases h; rfl
  | any => cases h
  | redisDown => cases h
  | expire key time => cases h

theorem handle_fetchAdd {seq : ℕ} (h : handle home s i .fetchAdd x = some (s', seq)) :
    seq = s.drawn (home i) % 2 ^ 64 ∧
      s' = { s with drawn := Function.update s.drawn (home i) (s.drawn (home i) + 1) } := by
  cases x with
  | clock t => cases h
  | any => cases h; exact ⟨rfl, rfl⟩
  | redisDown => cases h
  | expire key time => cases h

theorem handle_script {key : String} {now window limit : ℕ} {member : Member}
    {reply : Option (List ℤ)}
    (h : handle home s i (.invokeScript key now window limit member) x = some (s', reply)) :
    (x = .any ∧ s' = (s.execute i key now window limit member).1 ∧
        reply = some (s.execute i key now window limit member).2) ∨
      (x = .redisDown ∧ s' = s ∧ reply = none) := by
  cases x with
  | clock t => cases h
  | any => cases h; exact Or.inl ⟨rfl, rfl, rfl⟩
  | redisDown => cases h; exact Or.inr ⟨rfl, rfl, rfl⟩
  | expire key time => cases h

end Handle

/-- Redis may expire a key. -/
def env (s : Shared ι ρ) : Choice → Option (Shared ι ρ)
  | .expire key time => some (s.expire key time)
  | _ => none

theorem env_expire {s s' : Shared ι ρ} {x : Choice} (h : env s x = some s') :
    ∃ key time, x = .expire key time ∧ s' = s.expire key time := by
  cases x with
  | expire key time => cases h; exact ⟨key, time, rfl, rfl⟩
  | any => cases h
  | clock now => cases h
  | redisDown => cases h

variable [DecidableEq ρ]

/-- Any number of calls on any number of replicas; a call may be given up at any time. -/
def limiter (home : ι → ρ) : Pool ι (Shared ι ρ) Request Op Op.Ans RateLimitResult Choice where
  init s := s = .new
  prog := checkRateLimitInner
  start s _ _ := some s
  handle := handle home
  drop s _ := some s
  env := env

/-- A configuration of calls. -/
abbrev LimiterConfig (ι ρ : Type) := Configuration ι (Shared ι ρ) Request Op Op.Ans RateLimitResult

end SocialApi.RateLimit
