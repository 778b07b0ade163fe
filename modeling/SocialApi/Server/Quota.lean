import SocialApi.Middleware.OneProcess
import SocialApi.Server.Charges

/-!
# How often a user may write

A write is charged to the user in the token before the handler makes its call: over HTTP and over
gRPC to one key, so that the limit is one for both. Between the charge and the write, and between
the clock reading of a charge and its script, other requests of the process run.

* `writeQuota_of_meets`: as long as Redis answers and its clock does not run backwards, every
  request that writes for a user has been charged and allowed, and those that have been charged
  in one minute are no more than the limit.
-/

namespace SocialApi.Server

open SocialApi.Concurrent SocialApi.Clients SocialApi.Services SocialApi.Handlers
open SocialApi.RateLimit (Execution Summary Numbered inInterval)

/-! ## What all requests keep -/

section Requests

variable {ι : Type} {S : Setup} {userId : Uuid}

/-- The request has been charged for a write of the user, and allowed, by the execution `e`. -/
def AllowedBy (S : Setup) (userId : Uuid) (limiter : RateLimit.Shared ι Unit) (i : ι)
    (e : Execution ι) : Prop :=
  e ∈ limiter.log (userWrite S userId).key ∧ e.caller = i ∧ e.allowed = true

/-- The charges as the stages of the limiter's calls; the numbers of all calls differ, whatever
    their keys. -/
def Charge.stage (r : RateLimit.Request) : Charge → RateLimit.Stage
  | .fresh => .clock r
  | .clocked now => .fetch r now
  | .drawn now seq => .script r now seq
  | .charged _ reply => .done r reply

/-- What holds of the shared state and of all requests. -/
structure Accounts (S : Setup) (userId : Uuid) (s : State ι × Log ι) (γ : ι → Option Charge) :
    Prop where
  summary : Summary (userWrite S userId).key (userWrite S userId).quota s.1.limiter
  numbered : Numbered (userWrite S userId).key s.1.limiter
    fun i => (γ i).map (Charge.stage (userWrite S userId))
  paid : ∀ i g, γ i = some g → g.Paid S userId → ∃ e, AllowedBy S userId s.1.limiter i e
  wrote : ∀ p ∈ s.2, ∀ o, p.op = .svc o → Writes userId o →
    ∃ e, AllowedBy S userId p.before.limiter p.call e ∧ AllowedBy S userId s.1.limiter p.call e

theorem AllowedBy.mono {limiter limiter' : RateLimit.Shared ι Unit} {i : ι} {e : Execution ι}
    (h : AllowedBy S userId limiter i e)
    (hlog : limiter.log (userWrite S userId).key ⊆ limiter'.log (userWrite S userId).key) :
    AllowedBy S userId limiter' i e :=
  ⟨hlog h.1, h.2⟩

variable {s t : State ι} {log : Log ι} {γ : ι → Option Charge} {i : ι} {g : Charge}

theorem stages_update [DecidableEq ι] (r : RateLimit.Request) (γ : ι → Option Charge) (i : ι)
    (g : Charge) :
    (fun j => (Function.update γ i (some g) j).map (Charge.stage r)) =
      Function.update (fun j => (γ j).map (Charge.stage r)) i (some (g.stage r)) := by
  funext j
  by_cases hji : j = i
  · subst hji
    simp
  · simp [Function.update_of_ne hji]

/-- An operation of the limiter. -/
theorem handle_limit [DecidableEq ι] {o : RateLimit.Op} {x : Choice} {r : o.Ans}
    (h : handle S s i (.limit o) x = some (t, r)) :
    ∃ y limiter, x = .limit y ∧
      RateLimit.handle (fun _ => ()) s.limiter i o y = some (limiter, r) ∧
      t = { s with limiter := limiter } := by
  cases x with
  | limit y =>
    obtain ⟨⟨limiter, r'⟩, hl, heq⟩ := Option.map_eq_some_iff.mp h
    cases heq
    exact ⟨y, limiter, rfl, hl, rfl⟩
  | _ => cases h

/-- An operation that leaves the limiter and the charge alone. -/
theorem Accounts.elsewhere (hJ : Accounts S userId (s, log) γ) (hγ : γ i = some g) {o : Op}
    {r : o.Ans} (hlimiter : t.limiter = s.limiter)
    (hpaid : ∀ o', o = .svc o' → Writes userId o' → g.Paid S userId) :
    Accounts S userId (t, log ++ [⟨i, o, r, s, t⟩]) γ := by
  refine ⟨?_, ?_, ?_, fun p hp o' ho' hwrites => ?_⟩
  · rw [hlimiter]
    exact hJ.summary
  · rw [hlimiter]
    exact hJ.numbered
  · rw [hlimiter]
    exact hJ.paid
  · rw [hlimiter]
    rcases List.mem_append.mp hp with hp | hp
    · exact hJ.wrote p hp o' ho' hwrites
    · rw [List.mem_singleton.mp hp] at ho' ⊢
      obtain ⟨e, he⟩ := hJ.paid i g hγ (hpaid o' ho' hwrites)
      exact ⟨e, he, he⟩

/-- An operation of the limiter, and the charge that comes of it. -/
theorem Accounts.limit [DecidableEq ι] (hJ : Accounts S userId (s, log) γ)
    {limiter : RateLimit.Shared ι Unit}
    {o : RateLimit.Op} {r : o.Ans} {g' : Charge}
    (hsummary : Summary (userWrite S userId).key (userWrite S userId).quota limiter)
    (hnumbered : Numbered (userWrite S userId).key limiter
      (Function.update (fun j => (γ j).map (Charge.stage (userWrite S userId))) i
        (some (g'.stage (userWrite S userId)))))
    (hlog : s.limiter.log (userWrite S userId).key ⊆ limiter.log (userWrite S userId).key)
    (hpaid : g'.Paid S userId → ∃ e, AllowedBy S userId limiter i e) :
    Accounts S userId ({ s with limiter := limiter },
      log ++ [⟨i, .limit o, r, s, { s with limiter := limiter }⟩])
      (Function.update γ i (some g')) := by
  refine ⟨hsummary, ?_, fun j g hj hg => ?_, fun p hp o' ho' hwrites => ?_⟩
  · rw [stages_update]
    exact hnumbered
  · by_cases hji : j = i
    · subst hji
      rw [Function.update_self] at hj
      rw [Option.some.inj hj] at hpaid
      exact hpaid hg
    · rw [Function.update_of_ne hji] at hj
      obtain ⟨e, he⟩ := hJ.paid j g hj hg
      exact ⟨e, he.mono hlog⟩
  · rcases List.mem_append.mp hp with hp | hp
    · obtain ⟨e, hbefore, he⟩ := hJ.wrote p hp o' ho' hwrites
      exact ⟨e, hbefore, he.mono hlog⟩
    · rw [List.mem_singleton.mp hp] at ho'
      exact absurd ho' nofun

/-- The script runs for the request. -/
theorem Accounts.script [DecidableEq ι] (hJ : Accounts S userId (s, log) γ) {now seq : ℕ}
    (hγ : γ i = some (.drawn now seq)) {key : String} {window limit : ℕ} {x : RateLimit.Choice}
    {limiter : RateLimit.Shared ι Unit} {reply : Option (List ℤ)}
    (hquota : key = (userWrite S userId).key → window = (userWrite S userId).quota.windowMs ∧
      limit = (userWrite S userId).quota.limit)
    (hontime : key = (userWrite S userId).key → x = .any ∧
      s.limiter.time (userWrite S userId).key ≤ now)
    (h : RateLimit.handle (fun _ => ()) s.limiter i
      (.invokeScript key now window limit ⟨now, seq⟩) x = some (limiter, reply)) :
    Accounts S userId ({ s with limiter := limiter },
      log ++ [⟨i, .limit (.invokeScript key now window limit ⟨now, seq⟩), reply, s,
        { s with limiter := limiter }⟩])
      (Function.update γ i (some (.charged key reply))) := by
  have hstage : (fun j => (γ j).map (Charge.stage (userWrite S userId))) i =
      some (.script (userWrite S userId) now seq) := by
    show (γ i).map _ = _
    rw [hγ]
    rfl
  have hdone : ∀ r now' seq', some ((Charge.charged key reply).stage (userWrite S userId)) ≠
      some (.script r now' seq') := by
    intro r now' seq'
    simp [Charge.stage]
  have hlog : s.limiter.log (userWrite S userId).key ⊆ limiter.log (userWrite S userId).key :=
    RateLimit.handle_log h
  by_cases hkey : key = (userWrite S userId).key
  · -- on the key of the user Redis answers, in time
    obtain ⟨rfl, hnow⟩ := hontime hkey
    obtain ⟨rfl, rfl⟩ := hquota hkey
    subst hkey
    obtain ⟨-, rfl, rfl⟩ | ⟨hdown, -⟩ := RateLimit.handle_script h
    · refine hJ.limit ?_ (hJ.numbered.execute hstage hdone rfl fun e he => ?_) hlog ?_
      · exact hJ.summary.execute i hnow
          (RateLimit.freshMember_of_numbered hJ.numbered hJ.summary hstage hnow)
      · have he : e ∈ Function.update s.limiter.log _ _ (userWrite S userId).key := he
        rw [Function.update_self, List.mem_append, List.mem_singleton] at he
        rcases he with he | rfl
        · exact Or.inl he
        · exact Or.inr rfl
      · rintro ⟨reply, hreply, hallowed⟩
        obtain ⟨-, rfl⟩ := Charge.charged.inj hreply
        refine ⟨RateLimit.executionOf i now ⟨now, seq⟩ (RateLimit.script (s.limiter.keys
          (userWrite S userId).key) now (userWrite S userId).quota.windowMs
          (userWrite S userId).quota.limit ⟨now, seq⟩).2, ?_, rfl, ?_⟩
        · show _ ∈ Function.update s.limiter.log _ _ (userWrite S userId).key
          rw [Function.update_self]
          exact List.mem_append_right _ (List.mem_singleton_self _)
        · exact (RateLimit.resultOf_reply _ _ _ _ _ _ _).1.symm.trans hallowed
    · exact absurd hdown nofun
  · have hunpaid : (Charge.charged key reply).Paid S userId →
        ∃ e, AllowedBy S userId limiter i e := by
      rintro ⟨reply', hreply, -⟩
      exact absurd (Charge.charged.inj hreply).1 hkey
    obtain ⟨-, rfl, -⟩ | ⟨-, rfl, -⟩ := RateLimit.handle_script h
    · have hother : ∀ (α : Type) (f : String → α) a,
          Function.update f key a (userWrite S userId).key = f (userWrite S userId).key :=
        fun α f a => Function.update_of_ne (Ne.symm hkey) _ _
      refine hJ.limit (hJ.summary.frame (hother _ _ _) (hother _ _ _) (hother _ _ _))
        (hJ.numbered.execute hstage hdone rfl fun e he => Or.inl ?_) hlog hunpaid
      have he : e ∈ Function.update s.limiter.log key _ (userWrite S userId).key := he
      rw [hother] at he
      exact he
    · exact hJ.limit hJ.summary (hJ.numbered.other hdone) hlog hunpaid

/-- One operation of a request. -/
theorem Accounts.handle [DecidableEq ι] (hJ : Accounts S userId (s, log) γ) (hγ : γ i = some g)
    {o : Op}
    {x : Choice} {r : o.Ans} (hasks : g.asks S o)
    (hontime : ∀ now window limit member,
      o = .limit (.invokeScript (userWrite S userId).key now window limit member) →
        x = .limit .any ∧ s.limiter.time (userWrite S userId).key ≤ now)
    (hcounter : o = .limit .fetchAdd → s.limiter.drawn () < 2 ^ 64)
    (h : Server.handle S s i o x = some (t, r)) :
    Accounts S userId (t, log ++ [⟨i, o, r, s, t⟩]) (Function.update γ i (some (g.next o r))) := by
  -- the operations of other components
  have helsewhere : (∀ o', o ≠ .limit o') → g.next o r = g →
      (∀ o', o = .svc o' → Writes userId o' → g.Paid S userId) →
      Accounts S userId (t, log ++ [⟨i, o, r, s, t⟩])
        (Function.update γ i (some (g.next o r))) := by
    intro ho hnext hpaid
    rw [hnext, ← hγ, Function.update_eq_self]
    exact hJ.elsewhere hγ (handle_limiter h ho) hpaid
  have hunpaid : ∀ g' : Charge, (∀ key reply, g' ≠ .charged key reply) →
      ∀ limiter, g'.Paid S userId → ∃ e, AllowedBy S userId limiter i e := by
    rintro g' hg' limiter ⟨reply, hreply, -⟩
    exact absurd hreply (hg' _ _)
  cases o with
  | auth o => exact helsewhere (fun o' => nofun) (by cases g <;> rfl) fun o' => nofun
  | board o => exact helsewhere (fun o' => nofun) (by cases g <;> rfl) fun o' => nofun
  | svc o =>
    refine helsewhere (fun o' => nofun) (by cases g <;> rfl) fun o' ho' hwrites => ?_
    rw [← Op.svc.inj ho'] at hwrites
    exact hasks userId hwrites
  | limit o =>
    obtain ⟨y, limiter, rfl, hs, rfl⟩ := handle_limit h
    cases o with
    | clock =>
      obtain rfl := RateLimit.handle_clock hs
      have hnext : g.next (.limit .clock) r = .clocked r := by cases g <;> rfl
      rw [hnext]
      refine hJ.limit hJ.summary (hJ.numbered.other ?_) (List.Subset.refl _) (hunpaid _ ?_ _)
      · simp [Charge.stage]
      · exact fun key reply => nofun
    | fetchAdd =>
      obtain ⟨hseq, rfl⟩ := RateLimit.handle_fetchAdd hs
      obtain ⟨now, rfl⟩ := hasks
      rw [Nat.mod_eq_of_lt (hcounter rfl)] at hseq
      subst hseq
      refine hJ.limit (hJ.summary.frame rfl rfl rfl) ?_ (List.Subset.refl _) (hunpaid _ ?_ _)
      · exact hJ.numbered.draw i _ now (Function.update_self () _ s.limiter.drawn) rfl
      · exact fun key reply => nofun
    | invokeScript key now window limit member =>
      obtain ⟨seq, rfl, rfl, hquota⟩ := hasks
      refine hJ.script hγ (hquota userId) (fun hkey => ?_) hs
      obtain ⟨hany, hnow⟩ := hontime now window limit _ (by rw [hkey])
      exact ⟨Choice.limit.inj hany, hnow⟩

/-- On the key of the user's writes Redis answers, and the timestamps do not decrease: none is
    older than an execution or an expiry of the key before it. The counter of the process has not
    gone round. -/
structure Orderly (S : Setup) (userId : Uuid) (c : ServerConfig ι) (a : Act ι Request Choice) :
    Prop where
  script : ∀ i x k now window limit member f, a = .step i x → c.calls i = .running k
      (.op (.limit (.invokeScript (userWrite S userId).key now window limit member)) f) →
    x = .limit .any ∧ c.shared.1.limiter.time (userWrite S userId).key ≤ now
  counter : ∀ i x k f, a = .step i x → c.calls i = .running k (.op (.limit .fetchAdd) f) →
    c.shared.1.limiter.drawn () < 2 ^ 64

/-- `Orderly`, and the key does not expire within a window of its last allowed execution. -/
structure InTime (S : Setup) (userId : Uuid) (c : ServerConfig ι) (a : Act ι Request Choice) :
    Prop extends Orderly S userId c a where
  expiry : ∀ time, a = .env (.limit (.expire (userWrite S userId).key time)) →
    c.shared.1.limiter.time (userWrite S userId).key ≤ time ∧
      ∀ e ∈ c.shared.1.limiter.log (userWrite S userId).key, e.allowed → e.now + 60000 ≤ time

/-- `Orderly`, and Redis keeps the key for its time to live, which is ten seconds more than the
    window. An expiry is entered ten seconds early: no script after it has a timestamp more than
    ten seconds older than the expiry. -/
structure Kept (S : Setup) (userId : Uuid) (c : ServerConfig ι) (a : Act ι Request Choice) :
    Prop extends Orderly S userId c a where
  expiry : ∀ time, a = .env (.limit (.expire (userWrite S userId).key time)) →
    c.shared.1.limiter.time (userWrite S userId).key ≤ time ∧
      c.shared.1.limiter.KeptUntil (userWrite S userId).key (time + 10000)

theorem Kept.inTime {c : ServerConfig ι} {a : Act ι Request Choice} (h : Kept S userId c a)
    (hJ : Accounts S userId c.shared γ) : InTime S userId c a where
  toOrderly := h.toOrderly
  expiry time ha := by
    obtain ⟨htime, hkept⟩ := h.expiry time ha
    have hleft := hJ.summary.left_of_kept htime hkept
    rw [userWrite_windowMs] at hleft
    exact ⟨htime, hleft⟩

/-- Every request that has written for the user had been allowed by an execution of its own before
    it wrote, and no minute has more allowed requests than the limit. -/
structure WriteQuota (S : Setup) (userId : Uuid) (c : ServerConfig ι) : Prop where
  charged : ∀ p ∈ c.shared.2, ∀ o, p.op = .svc o → Writes userId o →
    ∃ e, AllowedBy S userId p.before.limiter p.call e ∧
      AllowedBy S userId c.shared.1.limiter p.call e
  bounded : ∀ t : ℤ, {i | ∃ e, AllowedBy S userId c.shared.1.limiter i e ∧
    t < e.now ∧ e.now ≤ t + 60000}.encard ≤ S.rateLimitWritePerMinute

/-- The callers of a list of executions are no more than the executions. -/
theorem encard_callers_le (executions : List (Execution ι)) :
    {i | ∃ e ∈ executions, e.caller = i}.encard ≤ executions.length := by
  classical
  have hsubset : {i | ∃ e ∈ executions, e.caller = i} ⊆
      ((executions.map Execution.caller).toFinset : Set ι) := by
    rintro i ⟨e, he, rfl⟩
    simpa using ⟨e, he, rfl⟩
  refine (Set.encard_le_encard hsubset).trans ?_
  rw [Set.encard_coe_eq_coe_finsetCard]
  have hlength := List.toFinset_card_le (executions.map Execution.caller)
  rw [List.length_map] at hlength
  exact_mod_cast hlength

theorem Accounts.writeQuota {c : ServerConfig ι} (hJ : Accounts S userId c.shared γ) :
    WriteQuota S userId c := by
  refine ⟨hJ.wrote, fun t => ?_⟩
  have hwindows := hJ.summary.windows t
  refine le_trans (Set.encard_le_encard ?_) ((encard_callers_le (inInterval
    (userWrite S userId).quota (c.shared.1.limiter.log (userWrite S userId).key) t)).trans ?_)
  · rintro i ⟨e, ⟨hmem, hcaller, hallowed⟩, hafter, hbefore⟩
    refine ⟨e, List.mem_filter.mpr ⟨hmem, ?_⟩, hcaller⟩
    rw [userWrite_windowMs]
    exact decide_eq_true ⟨hallowed, hafter, hbefore⟩
  · exact_mod_cast hwindows

variable [DecidableEq ι]

theorem accounts_records (S : Setup) (userId : Uuid) :
    Pool.Records (server (ι := ι) S).recorded (charging S) (fun _ _ => True) (fun _ _ => True)
      (fun _ => True) (fun _ => .fresh) (Accounts S userId) (InTime S userId) where
  prog := request_charging
  typed _ := trivial
  start c i k s γ _ hJ hγ hs := by
    cases hs
    refine ⟨hJ.summary, ?_, fun j g hj hg => ?_, hJ.wrote⟩
    · rw [stages_update]
      exact hJ.numbered.other (by simp [Charge.stage])
    · by_cases hji : j = i
      · subst hji
        rw [Function.update_self] at hj
        rw [← Option.some.inj hj] at hg
        obtain ⟨reply, hreply, -⟩ := hg
        exact absurd hreply nofun
      · rw [Function.update_of_ne hji] at hj
        exact hJ.paid j g hj hg
  handle c i x k o f s r γ g hguard hJ _ hi hγ _ hasks hs := by
    obtain ⟨t, ht, rfl⟩ := Pool.recorded_handle hs
    refine ⟨_, rfl, trivial, hJ.handle hγ hasks (fun now window limit member ho => ?_)
      (fun ho => ?_) ht⟩
    · subst ho
      exact hguard.script i x k now window limit member f rfl hi
    · subst ho
      exact hguard.counter i x k f rfl hi
  drop c i s γ g _ hJ _ hs := by
    cases hs
    exact ⟨⟨hJ.summary, hJ.numbered, hJ.paid, hJ.wrote⟩, trivial⟩
  env c x s γ hguard hJ hs := by
    obtain ⟨t, ht, rfl⟩ := Option.map_eq_some_iff.mp hs
    cases x with
    | limit x =>
      obtain ⟨limiter, hl, rfl⟩ := Option.map_eq_some_iff.mp ht
      obtain ⟨key, time, rfl, rfl⟩ := RateLimit.env_expire hl
      refine ⟨?_, ⟨hJ.numbered.logged, hJ.numbered.waiting, hJ.numbered.apart,
        hJ.numbered.fresh⟩, hJ.paid, hJ.wrote⟩
      by_cases hkey : key = (userWrite S userId).key
      · subst hkey
        obtain ⟨htime, hold⟩ := hguard.expiry time rfl
        refine hJ.summary.expire htime fun e he hallowed => ?_
        rw [userWrite_windowMs]
        exact hold e he hallowed
      · exact hJ.summary.frame (Function.update_of_ne (Ne.symm hkey) _ _) rfl
          (Function.update_of_ne (Ne.symm hkey) _ _)
    | svc x =>
      obtain ⟨w, -, rfl⟩ := Option.map_eq_some_iff.mp ht
      exact ⟨hJ.summary, hJ.numbered, hJ.paid, hJ.wrote⟩
    | board x =>
      cases x with
      | expireRange window start stop =>
        cases ht
        exact ⟨hJ.summary, hJ.numbered, hJ.paid, hJ.wrote⟩
      | _ => cases ht
    | auth x => cases ht

theorem accounts_init {c : ServerConfig ι} (hinit : (server S).recorded.machine.init c) :
    Pool.Record (charging S) (fun _ _ => True) (fun _ _ => True) (fun _ => True)
      (Accounts S userId) c := by
  obtain ⟨⟨⟨-, -, hlimiter⟩, hempty⟩, hidle⟩ := hinit
  refine Pool.record_init ⟨?_, ?_, fun i g => nofun, fun p hp => ?_⟩ hidle
  · rw [hlimiter]
    exact RateLimit.summary_new _ _
  · rw [hlimiter]
    exact RateLimit.numbered_new
  · rw [hempty] at hp
    exact absurd hp List.not_mem_nil

/-- The expiries are late enough when Redis keeps the key for its time to live. -/
theorem inTime_of_kept {init c : ServerConfig ι} {acts : List (Act ι Request Choice)}
    (hinit : (server S).recorded.machine.init init)
    (hrun : (server S).recorded.machine.run init acts = some c)
    (hkept : (server S).recorded.machine.Meets (Kept S userId) init acts) :
    (server S).recorded.machine.Meets (InTime S userId) init acts := by
  have hstart : Pool.Record (charging S) (fun _ _ => True) (fun _ _ => True) (fun _ => True)
      (Accounts S userId) init := accounts_init hinit
  refine Machine.Meets.of_keeps (fun c a c' hc ha hs => ?_) hstart hrun hkept
  obtain ⟨γ, hJ, -⟩ := id hc
  have hintime := ha.inTime hJ
  exact ⟨(accounts_records S userId).record_step hc hintime hs, hintime⟩

end Requests

/-- In every run of the server in which Redis answers in time on the key of the user's writes:
    whoever writes for the user, over HTTP or over gRPC, has been charged and allowed before, and
    in no minute have more requests been allowed than `rate_limit_write_per_minute`. -/
theorem writeQuota_of_meets {ι : Type} [DecidableEq ι] (S : Setup) (userId : Uuid)
    {init c : ServerConfig ι} {acts : List (Act ι Request Choice)}
    (hinit : (server S).recorded.machine.init init)
    (hrun : (server S).recorded.machine.run init acts = some c)
    (hintime : (server S).recorded.machine.Meets (InTime S userId) init acts) :
    WriteQuota S userId c := by
  obtain ⟨γ, hJ, -⟩ := (accounts_records S userId).record_of_meets (accounts_init hinit) hintime hrun
  exact hJ.writeQuota

/-! ### One write a minute -/

/-- One write a minute. -/
def oneWrite : Setup := { postsSetup with rateLimitWritePerMinute := 1 }

/-- User 1. -/
def user1 : Uuid := 0x550e8400e29b41d4a716446655440001#128

/-- An unlike by user 1, over gRPC, that is charged at the given time. -/
def unlikePost (i now : ℕ) : List (Act ℕ Request Choice) :=
  [.start i (.grpc (withToken "tok_user_1")
      (.unlike ⟨"post", "731b0395-4888-4822-b516-05b4b7bf2089"⟩)),
    .step i (.auth (.clock 0 0)), .step i (.auth (.cache .ok)), .step i (.auth (.clock 0 0)),
    .step i (.limit (.clock now)), .step i (.limit .any), .step i (.limit .any)]

/-- The like of `likedPost`, ten seconds later an unlike by the same user, and another one when
    Redis has expired the key, seventy seconds after the like. -/
def likedAndUnliked : List (Act ℕ Request Choice) :=
  likedPost ++ unlikePost 1 11000 ++
    [.env (.limit (.expire (userWrite oneWrite user1).key 61000))] ++ unlikePost 2 70999

/-- `Kept`, computed. -/
def isKept (S : Setup) (userId : Uuid) (c : ServerConfig ℕ) : Act ℕ Request Choice → Bool
  | .step i (.limit x) =>
    match c.calls i with
    | .running _ (.op (.limit (.invokeScript key now _ _ _)) _) =>
      decide (key = (userWrite S userId).key →
        x = .any ∧ c.shared.1.limiter.time (userWrite S userId).key ≤ now)
    | .running _ (.op (.limit .fetchAdd) _) => decide (c.shared.1.limiter.drawn () < 2 ^ 64)
    | _ => true
  | .step i _ =>
    match c.calls i with
    | .running _ (.op (.limit _) _) => false
    | _ => true
  | .env (.limit (.expire key time)) => decide (key = (userWrite S userId).key →
      c.shared.1.limiter.time (userWrite S userId).key ≤ time ∧
      ∀ e ∈ (c.shared.1.limiter.keys (userWrite S userId).key).entries,
        e.2 + 1000 * (c.shared.1.limiter.keys (userWrite S userId).key).ttlSecs ≤ time + 10000)
  | _ => true

theorem kept_of_isKept {S : Setup} {userId : Uuid} (c : ServerConfig ℕ)
    (a : Act ℕ Request Choice) (h : isKept S userId c a = true) : Kept S userId c a := by
  refine ⟨⟨?_, ?_⟩, ?_⟩
  · rintro i x k now window limit member f rfl hi
    cases x with
    | limit x =>
      simp only [isKept, hi, decide_eq_true_eq] at h
      obtain ⟨rfl, hnow⟩ := h trivial
      exact ⟨rfl, hnow⟩
    | _ => simp [isKept, hi] at h
  · rintro i x k f rfl hi
    cases x with
    | limit x =>
      simp only [isKept, hi, decide_eq_true_eq] at h
      exact h
    | _ => simp [isKept, hi] at h
  · rintro time rfl
    exact of_decide_eq_true h rfl

/-- The second request is told to wait; the third is allowed. -/
theorem writeQuota_of_meets_oneWrite : ∃ c : ServerConfig ℕ,
    (server oneWrite).recorded.machine.run ⟨(starting, []), fun _ => .idle⟩ likedAndUnliked =
      some c ∧
    (c.shared.1.limiter.log (userWrite oneWrite user1).key).map (fun e => (e.caller, e.allowed)) =
      [(0, true), (1, false), (2, true)] ∧
    (c.calls 1).result.isSome = true ∧ WriteQuota oneWrite user1 c := by
  have hview : ((server oneWrite).recorded.machine.run
      (⟨(starting, []), fun _ => .idle⟩ : ServerConfig ℕ) likedAndUnliked).map (fun c =>
        ((c.shared.1.limiter.log (userWrite oneWrite user1).key).map
          (fun e => (e.caller, e.allowed)), (c.calls 1).result.isSome)) =
      some ([(0, true), (1, false), (2, true)], true) := by
    decide +kernel
  have hkept : (server oneWrite).recorded.machine.meetsAll (isKept oneWrite user1)
      (⟨(starting, []), fun _ => .idle⟩ : ServerConfig ℕ) likedAndUnliked = true := by
    decide +kernel
  obtain ⟨c, hrun, hc⟩ := Option.map_eq_some_iff.mp hview
  simp only [Prod.mk.injEq] at hc
  have hinit : (server oneWrite).recorded.machine.init
      (⟨(starting, []), fun _ => .idle⟩ : ServerConfig ℕ) :=
    ⟨⟨⟨⟨⟨_, Repositories.consistent_empty, rfl⟩, rfl, rfl⟩, rfl, rfl⟩, rfl⟩, fun _ => rfl⟩
  exact ⟨c, hrun, hc.1, hc.2, writeQuota_of_meets oneWrite user1 hinit hrun
    (inTime_of_kept hinit hrun (Machine.meets_of_meetsAll kept_of_isKept hkept))⟩

end SocialApi.Server
