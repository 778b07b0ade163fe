import SocialApi.Middleware.WindowQuota

/-!
# Calls of one process

One process draws its numbers from one counter, so the members its calls write are all
different, and the rate limiter is an exact sliding window (`windowExact_of_meets`). Its keys
expire late enough for that when Redis keeps them for their time to live (`onTime_of_kept`).
-/

namespace SocialApi.RateLimit

open SocialApi.Concurrent SocialApi.SlidingWindow

variable {ι : Type} {key : String} {q : Quota}

/-! ## The numbers of the calls -/

section OneProcess

variable {γ : ι → Option Stage} {s : Shared ι Unit}

/-- The counter has not gone round: fewer than `2 ^ 64` numbers have been drawn. -/
def CounterFresh (c : LimiterConfig ι Unit) (a : Act ι Request Choice) : Prop :=
  ∀ i x r f, a = .step i x → c.calls i = .running r (.op .fetchAdd f) →
    c.shared.drawn () < 2 ^ 64

/-- `CounterFresh`, computed. -/
def counterFresh (c : LimiterConfig ι Unit) : Act ι Request Choice → Bool
  | .step i _ =>
    match c.calls i with
    | .running _ (.op .fetchAdd _) => decide (c.shared.drawn () < 2 ^ 64)
    | _ => true
  | _ => true

theorem counterFresh_sound (c : LimiterConfig ι Unit) (a : Act ι Request Choice)
    (h : counterFresh c a = true) : CounterFresh c a := by
  rintro i x r f rfl hi
  simp only [counterFresh, hi] at h
  exact of_decide_eq_true h

/-- The numbers of the calls of one process are all different. -/
structure Numbered (key : String) (s : Shared ι Unit) (γ : ι → Option Stage) : Prop where
  logged : ∀ e ∈ s.log key, e.member.seq < s.drawn ()
  waiting : ∀ i r now seq, γ i = some (.script r now seq) → seq < s.drawn ()
  apart : ∀ i j r r' now now' seq, γ i = some (.script r now seq) →
    γ j = some (.script r' now' seq) → i = j
  fresh : ∀ i r now seq, γ i = some (.script r now seq) → ∀ e ∈ s.log key, e.member.seq ≠ seq

theorem numbered_new : Numbered key (Shared.new : Shared ι Unit) fun _ => none where
  logged e he := by simp [Shared.new] at he
  waiting i r now seq h := by cases h
  apart i j r r' now now' seq h := by cases h
  fresh i r now seq h := by cases h

/-- No member of the set has the number of a call that is about to run the script. -/
theorem freshMember_of_numbered (h : Numbered key s γ) (hsummary : Summary key q s) {i : ι}
    {r : Request} {now seq : ℕ} (hi : γ i = some (.script r now seq)) (hnow : s.time key ≤ now) :
    s.FreshMember key q now ⟨now, seq⟩ := by
  intro _ hmem
  rw [hsummary.pruned hnow, List.map_map, List.mem_map] at hmem
  obtain ⟨e, he, hmember⟩ := hmem
  have hmember : e.member = ⟨now, seq⟩ := hmember
  exact h.fresh i r now seq hi e (List.mem_of_mem_filter he) (by rw [hmember])

variable [DecidableEq ι]

/-- A call in another stage than `script`. -/
theorem Numbered.other (h : Numbered key s γ) {i : ι} {γ' : Option Stage}
    (hγ' : ∀ r now seq, γ' ≠ some (.script r now seq)) :
    Numbered key s (Function.update γ i γ') := by
  have hold : ∀ j r now seq, Function.update γ i γ' j = some (.script r now seq) →
      γ j = some (.script r now seq) := by
    intro j r now seq hj
    by_cases hji : j = i
    · subst hji
      rw [Function.update_self] at hj
      exact absurd hj (hγ' r now seq)
    · rwa [Function.update_of_ne hji] at hj
  refine ⟨h.logged, fun j r now seq hj => ?_, fun j k r r' now now' seq hj hk => ?_,
    fun j r now seq hj => ?_⟩
  · exact h.waiting j r now seq (hold j r now seq hj)
  · exact h.apart j k r r' now now' seq (hold j r now seq hj) (hold k r' now' seq hk)
  · exact h.fresh j r now seq (hold j r now seq hj)

/-- Drawing a number. -/
theorem Numbered.draw (h : Numbered key s γ) (i : ι) (r : Request) (now : ℕ)
    {s' : Shared ι Unit} (hdrawn : s'.drawn () = s.drawn () + 1) (hlog : s'.log key = s.log key) :
    Numbered key s' (Function.update γ i (some (.script r now (s.drawn ())))) := by
  -- a number that waits is the one just drawn, or is smaller
  have hcases : ∀ j r' now' seq,
      Function.update γ i (some (Stage.script r now (s.drawn ()))) j =
        some (.script r' now' seq) →
      (j = i ∧ seq = s.drawn ()) ∨ γ j = some (.script r' now' seq) := by
    intro j r' now' seq hj
    by_cases hji : j = i
    · subst hji
      rw [Function.update_self] at hj
      obtain ⟨-, -, rfl⟩ := Stage.script.inj (Option.some.inj hj)
      exact Or.inl ⟨rfl, rfl⟩
    · rw [Function.update_of_ne hji] at hj
      exact Or.inr hj
  refine ⟨fun e he => ?_, fun j r' now' seq hj => ?_, fun j k r₁ r₂ n₁ n₂ seq hj hk => ?_,
    fun j r' now' seq hj e he => ?_⟩
  · have hlt := h.logged e (hlog ▸ he)
    omega
  · rcases hcases j r' now' seq hj with ⟨-, rfl⟩ | hj
    · omega
    · have hlt := h.waiting j r' now' seq hj
      omega
  · rcases hcases j r₁ n₁ seq hj with ⟨hji, hjseq⟩ | hj' <;>
      rcases hcases k r₂ n₂ seq hk with ⟨hki, hkseq⟩ | hk'
    · rw [hji, hki]
    · have hlt := h.waiting k r₂ n₂ seq hk'
      omega
    · have hlt := h.waiting j r₁ n₁ seq hj'
      omega
    · exact h.apart j k r₁ r₂ n₁ n₂ seq hj' hk'
  · have hlt := h.logged e (hlog ▸ he)
    rcases hcases j r' now' seq hj with ⟨-, rfl⟩ | hj'
    · omega
    · exact h.fresh j r' now' seq hj' e (hlog ▸ he)

/-- An execution takes its number into the history. -/
theorem Numbered.execute (h : Numbered key s γ) {i : ι} {r : Request} {now seq : ℕ}
    (hi : γ i = some (.script r now seq)) {s' : Shared ι Unit} {γ' : Option Stage}
    (hγ' : ∀ r now seq, γ' ≠ some (.script r now seq)) (hdrawn : s'.drawn = s.drawn)
    (hlog : ∀ e ∈ s'.log key, e ∈ s.log key ∨ e.member.seq = seq) :
    Numbered key s' (Function.update γ i γ') := by
  have hold : ∀ j r' now' seq', Function.update γ i γ' j = some (.script r' now' seq') →
      j ≠ i ∧ γ j = some (.script r' now' seq') := by
    intro j r' now' seq' hj
    by_cases hji : j = i
    · subst hji
      rw [Function.update_self] at hj
      exact absurd hj (hγ' r' now' seq')
    · rw [Function.update_of_ne hji] at hj
      exact ⟨hji, hj⟩
  refine ⟨fun e he => ?_, fun j r' now' seq' hj => ?_, fun j k r₁ r₂ n₁ n₂ seq' hj hk => ?_,
    fun j r' now' seq' hj e he => ?_⟩
  · rw [hdrawn]
    rcases hlog e he with he | he
    · exact h.logged e he
    · rw [he]
      exact h.waiting i r now seq hi
  · rw [hdrawn]
    exact h.waiting j r' now' seq' (hold j r' now' seq' hj).2
  · exact h.apart j k r₁ r₂ n₁ n₂ seq' (hold j r₁ n₁ seq' hj).2 (hold k r₂ n₂ seq' hk).2
  · obtain ⟨hji, hj⟩ := hold j r' now' seq' hj
    rcases hlog e he with he | he
    · exact h.fresh j r' now' seq' hj e he
    · intro hseq
      rw [he] at hseq
      subst hseq
      exact hji (h.apart j i r' r now' now seq hj hi)

/-! ## The invariant -/

/-- The invariant of one process. -/
def ProcessInv (key : String) (q : Quota) (s : Shared ι Unit) (γ : ι → Option Stage) : Prop :=
  QuotaInv key q s γ ∧ Numbered key s γ

theorem ProcessInv.handle (h : ProcessInv key q s γ) {c : LimiterConfig ι Unit} (hc : c.shared = s)
    {i : ι} {x : Choice} {r : Request} {e : Op} {f : e.Ans → Prog Op Op.Ans RateLimitResult}
    {s' : Shared ι Unit} {reply : e.Ans} {g : Stage} (hontime : OnTime key q c (.step i x))
    (hcounter : CounterFresh c (.step i x)) (hi : c.calls i = .running r (.op e f))
    (hg : γ i = some g) (hasks : stages.asks g e)
    (hs : RateLimit.handle (fun _ => ()) s i e x = some (s', reply)) :
    ∃ g', stages.answers g e reply g' ∧ ProcessInv key q s' (Function.update γ i (some g')) := by
  obtain ⟨hquota, hnumbered⟩ := h
  obtain ⟨g', hanswers, hquota'⟩ := hquota.handle hg hasks (fun now window limit member he => by
    subst he hc
    have hnow := (hontime.script i x r now window limit member f rfl hi).2
    cases g with
    | script r' now' seq =>
      obtain ⟨-, rfl, -, -, rfl⟩ := Op.invokeScript.inj hasks
      exact ⟨hnow, freshMember_of_numbered hnumbered hquota.summary hg hnow⟩
    | clock r' => cases hasks
    | fetch r' now' => cases hasks
    | done r' answer => exact hasks.elim) hs
  refine ⟨g', hanswers, hquota', ?_⟩
  cases g with
  | clock r' =>
    obtain rfl : e = .clock := hasks
    obtain rfl := handle_clock hs
    obtain rfl : g' = .fetch r' reply := hanswers
    exact hnumbered.other (by simp)
  | fetch r' now' =>
    obtain rfl : e = .fetchAdd := hasks
    obtain ⟨hseq, rfl⟩ := handle_fetchAdd hs
    obtain rfl : g' = .script r' now' reply := hanswers
    have hlt : s.drawn () < 2 ^ 64 := by
      have hlt := hcounter i x r f rfl hi
      rwa [hc] at hlt
    rw [Nat.mod_eq_of_lt hlt] at hseq
    rw [hseq]
    have hdrawn : Function.update s.drawn () (s.drawn () + 1) () = s.drawn () + 1 :=
      Function.update_self () _ s.drawn
    exact hnumbered.draw i r' now' hdrawn rfl
  | script r' now' seq =>
    obtain rfl : e = .invokeScript r'.key now' r'.quota.windowMs r'.quota.limit ⟨now', seq⟩ := hasks
    obtain rfl : g' = .done r' reply := hanswers
    rcases handle_script hs with ⟨-, rfl, -⟩ | ⟨-, rfl, -⟩
    · refine hnumbered.execute hg (by simp) rfl fun d hd => ?_
      have hd : d ∈ Function.update s.log r'.key _ key := hd
      by_cases hkey : key = r'.key
      · rw [← hkey, Function.update_self, List.mem_append, List.mem_singleton] at hd
        rcases hd with hd | rfl
        · exact Or.inl hd
        · exact Or.inr rfl
      · rw [Function.update_of_ne hkey] at hd
        exact Or.inl hd
    · exact hnumbered.other (by simp)
  | done r' answer => exact hasks.elim

/-- The calls of one process, in time. -/
theorem process_keeps (key : String) (q : Quota) :
    Pool.Keeps (limiter fun _ : ι => ()) stages Ended Stage.clock (ProcessInv key q)
      (fun c a => OnTime key q c a ∧ CounterFresh c a) where
  prog := checkRateLimitInner_obeys
  start c i r s γ hguard hJ hγ hs := by
    cases hs
    refine ⟨hJ.1.stage hJ.1.summary ?_, hJ.2.other (by simp)⟩
    intro g hg
    obtain rfl := Option.some.inj hg
    exact hguard.1.quota i r rfl
  handle c i x r e f s reply γ g hguard hJ _ hi hg hasks hs :=
    hJ.handle rfl hguard.1 hguard.2 hi hg hasks hs
  ret s i r γ g a hJ _ _ := ⟨hJ.1.stage hJ.1.summary (by simp), hJ.2.other (by simp)⟩
  drop c i r p s γ g _ hJ _ _ _ hs := by
    cases hs
    exact ⟨hJ.1.stage hJ.1.summary (by simp), hJ.2.other (by simp)⟩
  env c x s γ hguard hJ hs := by
    refine ⟨hJ.1.expire rfl hguard.1 hs, ?_⟩
    obtain ⟨key', time, rfl, rfl⟩ := env_expire hs
    exact ⟨hJ.2.logged, hJ.2.waiting, hJ.2.apart, hJ.2.fresh⟩

theorem processInv_init {c : LimiterConfig ι Unit}
    (hinit : (limiter fun _ : ι => ()).machine.init c) :
    Pool.Inv stages Ended (ProcessInv key q) c := by
  obtain ⟨hnew, hidle⟩ := hinit
  refine ⟨fun _ => none, ?_, fun i => by rw [hidle i]; rfl⟩
  have hnew : c.shared = .new := hnew
  rw [hnew]
  exact ⟨⟨summary_new key q, fun i g hg => by cases hg⟩, numbered_new⟩

/-- In one process the expiries of a key are late enough when Redis keeps it for its time to
    live. -/
theorem onTime_of_kept {init c : LimiterConfig ι Unit} {acts : List (Act ι Request Choice)}
    (hinit : (limiter fun _ : ι => ()).machine.init init)
    (hrun : (limiter fun _ : ι => ()).machine.run init acts = some c)
    (hmeets : (limiter fun _ : ι => ()).machine.Meets
      (fun c a => Kept key q c a ∧ CounterFresh c a) init acts) :
    (limiter fun _ : ι => ()).machine.Meets
      (fun c a => OnTime key q c a ∧ CounterFresh c a) init acts := by
  have hstart : Pool.Inv stages Ended (ProcessInv key q) init := processInv_init hinit
  refine Machine.Meets.of_keeps (fun c a c' hc ha hs => ?_) hstart hrun hmeets
  obtain ⟨γ, hJ, -⟩ := id hc
  have hontime := ha.1.onTime hJ.1.summary
  exact ⟨(process_keeps key q).inv_step c a c' hc ⟨hontime, ha.2⟩ hs, hontime, ha.2⟩

/-- Calls of one process on a key with a fixed quota: each is judged exactly by the allowed
    calls of the window that ends with it. -/
theorem windowExact_of_meets (key : String) (q : Quota) (init c : LimiterConfig ι Unit)
    (acts : List (Act ι Request Choice)) (hinit : (limiter fun _ : ι => ()).machine.init init)
    (hrun : (limiter fun _ : ι => ()).machine.run init acts = some c)
    (hmeets : (limiter fun _ : ι => ()).machine.Meets
      (fun c a => OnTime key q c a ∧ CounterFresh c a) init acts) : WindowExact key q c := by
  have hkeeps := process_keeps (ι := ι) key q
  have hstart : Pool.Inv stages Ended (ProcessInv key q) init ∧ Returned key init := by
    refine ⟨processInv_init hinit, fun i r result hi => ?_⟩
    rw [hinit.2 i] at hi
    cases hi
  have hstep : ∀ c a c', Pool.Inv stages Ended (ProcessInv key q) c ∧ Returned key c →
      OnTime key q c a ∧ CounterFresh c a →
      (limiter fun _ : ι => ()).machine.step c a = some c' →
      Pool.Inv stages Ended (ProcessInv key q) c' ∧ Returned key c' := by
    intro c a c' hc hguard hs
    refine ⟨hkeeps.inv_step c a c' hc.1 hguard hs, ?_⟩
    obtain ⟨⟨γ, -, hF⟩, hreturned⟩ := hc
    exact hreturned.step hF hguard.1 hs
  have hend := (Machine.along_of_meets hstep hstart hmeets).last hrun
  obtain ⟨⟨γ, hJ, -⟩, hreturned⟩ := hend
  exact ⟨hJ.1.summary.judged, hreturned, hJ.1.summary.windows⟩

end OneProcess

/-- One call, its operations performed one after the other. -/
def callAt (i : ℕ) (r : Request) (now : ℕ) : List (Act ℕ Request Choice) :=
  [.start i r, .step i (.clock now), .step i .any, .step i .any]

/-- Two calls a second. -/
def twoPerSecond : Request := ⟨"rl:user:write:1", ⟨2, 1, by omega, by norm_num⟩⟩

/-- Three calls at once, of which the last is denied, one at the end of their window, and one
    when Redis has expired the key, eleven seconds after the last entry. -/
def threeAtOnce : List (Act ℕ Request Choice) :=
  callAt 0 twoPerSecond 1000 ++ callAt 1 twoPerSecond 1000 ++ callAt 2 twoPerSecond 1000 ++
    callAt 3 twoPerSecond 2000 ++ [.env (.expire twoPerSecond.key 3000)] ++
    callAt 4 twoPerSecond 12999

theorem windowExact_of_meets_threeAtOnce :
    ∃ c : LimiterConfig ℕ Unit,
      (limiter fun _ : ℕ => ()).machine.run ⟨.new, fun _ => .idle⟩ threeAtOnce = some c ∧
      (c.shared.log twoPerSecond.key).map (fun e => (e.allowed, e.current)) =
        [(true, 1), (true, 2), (false, 2), (true, 1), (true, 1)] ∧
      WindowExact twoPerSecond.key twoPerSecond.quota c := by
  have hview : ((limiter fun _ : ℕ => ()).machine.run ⟨.new, fun _ => .idle⟩ threeAtOnce).map
      (fun c : LimiterConfig ℕ Unit =>
        (c.shared.log twoPerSecond.key).map fun e => (e.allowed, e.current)) =
      some [(true, 1), (true, 2), (false, 2), (true, 1), (true, 1)] := by
    decide +kernel
  obtain ⟨c, hrun, hlog⟩ := Option.map_eq_some_iff.mp hview
  refine ⟨c, hrun, hlog, ?_⟩
  have hchecks : (limiter fun _ : ℕ => ()).machine.meetsAll
      (fun c a => kept twoPerSecond.key twoPerSecond.quota c a && counterFresh c a)
      ⟨.new, fun _ => .idle⟩ threeAtOnce = true := by
    decide +kernel
  have hinit : (limiter fun _ : ℕ => ()).machine.init (⟨.new, fun _ => .idle⟩ : LimiterConfig ℕ Unit) :=
    ⟨rfl, fun _ => rfl⟩
  apply windowExact_of_meets twoPerSecond.key twoPerSecond.quota
    (⟨.new, fun _ => .idle⟩ : LimiterConfig ℕ Unit) c threeAtOnce hinit hrun
  apply onTime_of_kept hinit hrun
  apply Machine.meets_of_meetsAll _ hchecks
  intro c a h
  obtain ⟨hkept, hcounter⟩ := Bool.and_eq_true_iff.mp h
  exact ⟨kept_sound c a hkept, counterFresh_sound c a hcounter⟩

end SocialApi.RateLimit
