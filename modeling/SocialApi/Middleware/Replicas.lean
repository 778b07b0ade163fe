import SocialApi.Middleware.WindowQuota

/-!
# Replicas that share one Redis

Every replica counts for itself, so two replicas that draw the same number in the same
millisecond write the same member: `ZADD` then only sets the score of the entry that is
there, the set has one entry for two allowed calls, and a later call is allowed beyond
the limit.

* `windowsBounded_of_meets`: as long as no allowed call finds its member in the set, no
  window has more allowed calls than the limit.
* `replicas_onTime_of_kept`: the expiries of the key are late enough for that when Redis keeps it
  for its time to live.
* `equalMembers_exceed`: a run of two replicas with three allowed calls in one
  millisecond and a limit of two.
-/

namespace SocialApi.RateLimit

open SocialApi.Concurrent SocialApi.SlidingWindow

variable {ι ρ : Type} {home : ι → ρ}

/-- A call that finds room does not find its member in the set. -/
def NoCollision (key : String) (q : Quota) (c : LimiterConfig ι ρ) (a : Act ι Request Choice) :
    Prop :=
  ∀ i x r now window limit member f, a = .step i x →
    c.calls i = .running r (.op (.invokeScript key now window limit member) f) →
      c.shared.FreshMember key q now member

variable [DecidableEq ι] [DecidableEq ρ]

/-- The calls of all replicas, in time and without collisions. -/
theorem replicas_keep (home : ι → ρ) (key : String) (q : Quota) :
    Pool.Keeps (limiter home) stages Ended Stage.clock (QuotaInv key q)
      (fun c a => OnTime key q c a ∧ NoCollision key q c a) where
  prog := checkRateLimitInner_obeys
  start c i r s γ hguard hJ hγ hs := by
    cases hs
    refine hJ.stage hJ.summary fun g hg => ?_
    obtain rfl := Option.some.inj hg
    exact hguard.1.quota i r rfl
  handle c i x r e f s reply γ g hguard hJ _ hi hg hasks hs := by
    refine hJ.handle hg hasks (fun now window limit member he => ?_) hs
    subst he
    exact ⟨(hguard.1.script i x r now window limit member f rfl hi).2,
      hguard.2 i x r now window limit member f rfl hi⟩
  ret s i r γ g a hJ _ _ := hJ.stage hJ.summary (by simp)
  drop c i r p s γ g _ hJ _ _ _ hs := by
    cases hs
    exact hJ.stage hJ.summary (by simp)
  env c x s γ hguard hJ hs := hJ.expire rfl hguard.1 hs

theorem quotaInv_init {key : String} {q : Quota} {c : LimiterConfig ι ρ}
    (hinit : (limiter home).machine.init c) : Pool.Inv stages Ended (QuotaInv key q) c := by
  obtain ⟨hnew, hidle⟩ := hinit
  refine ⟨fun _ => none, ?_, fun i => by rw [hidle i]; rfl⟩
  have hnew : c.shared = .new := hnew
  rw [hnew]
  exact ⟨summary_new key q, fun i g hg => by cases hg⟩

/-- Without collisions the expiries of a key are late enough when Redis keeps it for its time to
    live. -/
theorem replicas_onTime_of_kept {key : String} {q : Quota} {init c : LimiterConfig ι ρ}
    {acts : List (Act ι Request Choice)} (hinit : (limiter home).machine.init init)
    (hrun : (limiter home).machine.run init acts = some c)
    (hmeets : (limiter home).machine.Meets
      (fun c a => Kept key q c a ∧ NoCollision key q c a) init acts) :
    (limiter home).machine.Meets
      (fun c a => OnTime key q c a ∧ NoCollision key q c a) init acts := by
  have hstart : Pool.Inv stages Ended (QuotaInv key q) init := quotaInv_init hinit
  refine Machine.Meets.of_keeps (fun c a c' hc ha hs => ?_) hstart hrun hmeets
  obtain ⟨γ, hJ, -⟩ := id hc
  have hontime := ha.1.onTime hJ.summary
  exact ⟨(replicas_keep home key q).inv_step c a c' hc ⟨hontime, ha.2⟩ hs, hontime, ha.2⟩

/-- Calls of any replicas on a key with a fixed quota: without collisions no window has more
    allowed calls than the limit. -/
theorem windowsBounded_of_meets (home : ι → ρ) (key : String) (q : Quota)
    (init : LimiterConfig ι ρ) (acts : List (Act ι Request Choice))
    (hinit : (limiter home).machine.init init)
    (hmeets : (limiter home).machine.Meets
      (fun c a => OnTime key q c a ∧ NoCollision key q c a) init acts) :
    (limiter home).machine.Along (WindowsBounded key q) init acts := by
  have hkeeps := replicas_keep home key q
  apply (Machine.along_of_meets hkeeps.inv_step (quotaInv_init hinit) hmeets).mono
  intro c hc
  obtain ⟨γ, hJ, -⟩ := hc
  exact hJ.summary.windows

/-! ## Two replicas -/

/-- `NoCollision`, computed. -/
def noCollision (key : String) (q : Quota) (c : LimiterConfig ι ρ) : Act ι Request Choice → Bool
  | .step i _ =>
    match c.calls i with
    | .running _ (.op (.invokeScript key' now _ _ member) _) =>
      let entries := zremrangebyscore (c.shared.keys key).entries 0 (now - q.windowMs)
      decide (key' = key → entries.length < q.limit → member ∉ entries.map Prod.fst)
    | _ => true
  | _ => true

omit [DecidableEq ι] [DecidableEq ρ] in
theorem noCollision_sound {key : String} {q : Quota} (c : LimiterConfig ι ρ)
    (a : Act ι Request Choice) (h : noCollision key q c a = true) : NoCollision key q c a := by
  rintro i x r now window limit member f rfl hi
  simp only [noCollision, hi] at h
  exact of_decide_eq_true h trivial

/-- Call `i` of replica `i % 2`. -/
def twoReplicas (i : ℕ) : ℕ := i % 2

/-- Two calls a minute. -/
def twoPerMinute : Quota := ⟨2, 60, sixty_pos, sixty_fits⟩

/-- One call, its operations performed one after the other. -/
def replicaCall (i now : ℕ) : List (Act ℕ Request Choice) :=
  [.start i ⟨"rl:user:write:1", twoPerMinute⟩, .step i (.clock now), .step i .any, .step i .any]

/-- Two calls of one replica, one of the other, and one when Redis has expired the key, seventy
    seconds after its last entry. -/
def thirdDenied : List (Act ℕ Request Choice) :=
  replicaCall 0 1000 ++ replicaCall 2 1000 ++ replicaCall 1 1000 ++
    [.env (.expire "rl:user:write:1" 61000)] ++ replicaCall 3 70999

theorem windowsBounded_of_meets_thirdDenied :
    ∃ c : LimiterConfig ℕ ℕ,
      (limiter twoReplicas).machine.run ⟨.new, fun _ => .idle⟩ thirdDenied = some c ∧
      (c.shared.log "rl:user:write:1").map (fun e => e.allowed) = [true, true, false, true] ∧
      (limiter twoReplicas).machine.Along (WindowsBounded "rl:user:write:1" twoPerMinute)
        (⟨.new, fun _ => .idle⟩ : LimiterConfig ℕ ℕ) thirdDenied := by
  have hview : ((limiter twoReplicas).machine.run (⟨.new, fun _ => .idle⟩ : LimiterConfig ℕ ℕ)
      thirdDenied).map (fun c => (c.shared.log "rl:user:write:1").map fun e => e.allowed) =
        some [true, true, false, true] := by
    decide +kernel
  obtain ⟨c, hrun, hlog⟩ := Option.map_eq_some_iff.mp hview
  refine ⟨c, hrun, hlog, ?_⟩
  have hchecks : (limiter twoReplicas).machine.meetsAll
      (fun c a => kept "rl:user:write:1" twoPerMinute c a &&
        noCollision "rl:user:write:1" twoPerMinute c a)
      (⟨.new, fun _ => .idle⟩ : LimiterConfig ℕ ℕ) thirdDenied = true := by
    decide +kernel
  have hinit : (limiter twoReplicas).machine.init (⟨.new, fun _ => .idle⟩ : LimiterConfig ℕ ℕ) :=
    ⟨rfl, fun _ => rfl⟩
  apply windowsBounded_of_meets twoReplicas "rl:user:write:1" twoPerMinute
    (⟨.new, fun _ => .idle⟩ : LimiterConfig ℕ ℕ) thirdDenied hinit
  apply replicas_onTime_of_kept hinit hrun
  apply Machine.meets_of_meetsAll _ hchecks
  intro c a h
  obtain ⟨hkept, hfresh⟩ := Bool.and_eq_true_iff.mp h
  exact ⟨kept_sound c a hkept, noCollision_sound c a hfresh⟩

/-- The first calls of both replicas draw number 0 in the same millisecond; with a limit of
    two, a third call is allowed in it. -/
theorem equalMembers_exceed :
    ∃ c : LimiterConfig ℕ ℕ,
      (limiter twoReplicas).machine.run (⟨.new, fun _ => .idle⟩ : LimiterConfig ℕ ℕ)
        (replicaCall 0 1000 ++ replicaCall 1 1000 ++ replicaCall 2 1000) = some c ∧
      (limiter twoReplicas).machine.Meets (OnTime "rl:user:write:1" twoPerMinute)
        (⟨.new, fun _ => .idle⟩ : LimiterConfig ℕ ℕ)
        (replicaCall 0 1000 ++ replicaCall 1 1000 ++ replicaCall 2 1000) ∧
      ¬WindowsBounded "rl:user:write:1" twoPerMinute c := by
  have hview : ((limiter twoReplicas).machine.run (⟨.new, fun _ => .idle⟩ : LimiterConfig ℕ ℕ)
      (replicaCall 0 1000 ++ replicaCall 1 1000 ++ replicaCall 2 1000)).map (fun c =>
        (inInterval twoPerMinute (c.shared.log "rl:user:write:1") 0).length) = some 3 := by
    decide +kernel
  obtain ⟨c, hrun, hthree⟩ := Option.map_eq_some_iff.mp hview
  refine ⟨c, hrun, ?_, fun h => ?_⟩
  · have hchecks : (limiter twoReplicas).machine.meetsAll
        (onTime "rl:user:write:1" twoPerMinute)
        (⟨.new, fun _ => .idle⟩ : LimiterConfig ℕ ℕ)
        (replicaCall 0 1000 ++ replicaCall 1 1000 ++ replicaCall 2 1000) = true := by
      decide +kernel
    exact Machine.meets_of_meetsAll onTime_sound hchecks
  · have hle := h 0
    rw [hthree] at hle
    exact absurd hle (by decide)

end SocialApi.RateLimit
