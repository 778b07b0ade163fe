import SocialApi.Services.LikeCommands
import SocialApi.Clients.ProbeSlot

/-!
# The probe slot of the content breaker

`allow_request` gives the probe slot of a recovering breaker to one request, and
`record_success` or `record_failure` gives it back. `validate_content` records
nothing when the validator answers from its cache, so a probe that is answered from
the cache keeps the slot, and a half-open breaker whose slot is taken rejects every
request.

Results:
* `probeFree_iff`: along a run of `like` and `unlike` calls the slot is free
  whenever no call is between `allow_request` and the return of `validate_content`,
  exactly when no cache answer goes to the last such call while the slot is taken.
* `probe_leaks`: a run in which it is, and in which the slot stays taken.
-/

namespace SocialApi.Services

open SocialApi.Concurrent SocialApi.Postgres SocialApi.Clients

/-! ## How far a call is in `validate_content` -/

/-- Before `allow_request`, admitted, with the validator's answer to be recorded, or past
    `validate_content`. -/
inductive Validation where
  | fresh
  | admitted
  | answered
  | past
  deriving DecidableEq

namespace Validation

/-- The call is between `allow_request` returning true and the return of
    `validate_content`. -/
def Inside : Validation → Prop
  | admitted => True
  | answered => True
  | _ => False

end Validation

/-- An operation on the breaker or the validator. -/
def SvcOp.OfBreaker : SvcOp → Prop
  | allowRequest => True
  | recordSuccess => True
  | recordFailure => True
  | validate _ => True
  | _ => False

/-- An operation between `allow_request` and the return of `validate_content`. -/
def SvcOp.inside : SvcOp → Bool
  | recordSuccess => true
  | recordFailure => true
  | validate _ => true
  | _ => false

/-- `allow_request`, then the validator, then the record of a remote answer; nothing else
    touches the breaker. -/
def validation : Protocol SvcOp SvcOp.Ans Validation where
  asks
    | .fresh, .allowRequest => True
    | .admitted, .validate _ => True
    | .answered, .recordSuccess => True
    | .answered, .recordFailure => True
    | .past, o => ¬ o.OfBreaker
    | _, _ => False
  answers g o r g' :=
    match o, r with
    | .allowRequest, r => g' = if r then .admitted else .past
    | .validate _, .ok (.cached _) => g' = .past
    | .validate _, _ => g' = .answered
    | .recordSuccess, _ => g' = .past
    | .recordFailure, _ => g' = .past
    | _, _ => g' = g

/-- The call is past `validate_content`. -/
def IsPast {α : Type} (g : Validation) (_ : α) : Prop := g = .past

/-- A program that leaves the breaker alone stays past `validate_content`. -/
theorem obeys_past {α : Type} {p : Svc α} (hp : p.All fun o => ¬ o.OfBreaker) :
    validation.Obeys IsPast .past p := by
  refine Protocol.obeys_of_all (fun o ho => ⟨ho, ?_⟩) hp fun _ => rfl
  intro r g' hr
  cases o <;> first | exact hr | exact absurd trivial ho

theorem all_cache {α : Type} (p : Cache.CacheM α) : (cache p).All fun o => ¬ o.OfBreaker :=
  .lift (Prog.all_of_forall (fun _ => id) p)

theorem all_db {α : Type} (p : Repositories.Repo α) : (db p).All fun o => ¬ o.OfBreaker :=
  .bind (.lift (Prog.all_of_forall (fun _ => id) p)) fun _ => trivial

theorem validateContent_obeys (item : Item) :
    validation.Obeys IsPast .fresh (validateContent item) := by
  unfold validateContent
  refine ⟨trivial, ?_⟩
  rintro (_ | _) g rfl
  · exact rfl
  · refine ⟨trivial, ?_⟩
    rintro (error | valid | valid) g rfl
    · refine ⟨trivial, ?_⟩
      rintro r g rfl
      exact rfl
    · cases valid <;> exact rfl
    · refine ⟨trivial, ?_⟩
      rintro r g rfl
      cases valid <;> exact rfl

/-- Past `validate_content`, `attempt` goes on with a program that leaves the breaker alone. -/
theorem obeys_validated {α : Type} (item : Item) {f : Unit → Svc (Except AppError α)}
    (hf : ∀ u, (f u).All fun o => ¬ o.OfBreaker) :
    validation.Obeys IsPast .fresh (attempt (validateContent item) f) := by
  refine (validateContent_obeys item).bind ?_
  rintro g (error | u) rfl
  · exact rfl
  · exact obeys_past (hf u)

theorem all_attempt {S : SvcOp → Prop} {α β : Type} {p : Svc (Except AppError α)}
    {f : α → Svc (Except AppError β)} (hp : p.All S) (hf : ∀ a, (f a).All S) :
    (attempt p f).All S :=
  hp.bind fun
    | .ok a => hf a
    | .error _ => trivial

theorem invalidateUserLikes_all (userId : Uuid) (contentType : String) :
    (invalidateUserLikes userId contentType).All fun o => ¬ o.OfBreaker :=
  (all_cache _).bind fun _ => all_cache _

theorem like_obeys (cfg : Config) (C : Codec) (userId : Uuid) (item : Item) :
    validation.Obeys IsPast .fresh (like cfg C userId item) := by
  refine obeys_validated item fun _ => all_attempt (all_db _) fun result => ?_
  cases result with
  | inserted row count =>
    refine (all_cache _).bind fun _ => (all_cache _).bind fun _ => ?_
    refine (invalidateUserLikes_all _ _).bind fun _ => ?_
    exact ⟨id, fun _ => trivial⟩
  | alreadyExisted row count => exact (all_cache _).bind fun _ => (all_cache _).bind fun _ => trivial
  | concurrentlyRemoved count => trivial

theorem unlike_obeys (cfg : Config) (C : Codec) (userId : Uuid) (item : Item) :
    validation.Obeys IsPast .fresh (unlike cfg C userId item) := by
  refine obeys_validated item fun _ => all_attempt (all_db _) fun result => ?_
  refine (all_cache _).bind fun _ => (all_cache _).bind fun _ => ?_
  refine (invalidateUserLikes_all _ _).bind fun _ => ?_
  split_ifs
  · exact ⟨id, fun _ => ⟨id, fun _ => trivial⟩⟩
  · trivial

/-! ## The pool of mutations -/

/-- The calls that go through the content breaker. -/
inductive Mutation where
  | like (userId : Uuid) (item : Item)
  | unlike (userId : Uuid) (item : Item)
  deriving DecidableEq, Repr

/-- The program of a call. -/
def Mutation.prog (cfg : Config) (C : Codec) : Mutation → Svc (Except AppError LikeActionResponse)
  | like userId item => Services.like cfg C userId item
  | unlike userId item => Services.unlike cfg C userId item

theorem Mutation.obeys (cfg : Config) (C : Codec) (k : Mutation) :
    validation.Obeys IsPast .fresh (k.prog cfg C) := by
  cases k with
  | like userId item => exact like_obeys cfg C userId item
  | unlike userId item => exact unlike_obeys cfg C userId item

section Pool

variable {ι : Type} (cfg : Config) (C : Codec)

/-- A configuration of `like` and `unlike` calls. -/
abbrev MutationConfig (ι : Type) :=
  Configuration ι (World ι) Mutation SvcOp SvcOp.Ans (Except AppError LikeActionResponse)

/-- `like` and `unlike` calls over any database and caches, with a new content breaker. -/
def mutations [DecidableEq ι] : Pool ι (World ι) Mutation SvcOp SvcOp.Ans
    (Except AppError LikeActionResponse)
    SvcChoice :=
  { servicePool cfg (Mutation.prog cfg C) (fun s => s.breaker = CircuitBreaker.new) with
    drop := fun _ _ => none }

variable {cfg C}

/-- The next operation of the call is the validation or the record of its result. -/
def inside : CallState Mutation SvcOp SvcOp.Ans (Except AppError LikeActionResponse) → Bool
  | .running _ (.op o _) => o.inside
  | _ => false

/-- Call `i` is between `allow_request` returning true and the return of
    `validate_content`. -/
def Between (c : MutationConfig ι) (i : ι) : Prop := inside (c.calls i) = true

/-- With no call in between, the slot is free, and a breaker that is not open or whose
    recovery time has passed admits the next request. -/
def ProbeFree (cfg : Config) (c : MutationConfig ι) : Prop :=
  (∀ i, ¬ Between c i) → c.shared.breaker.probeInFlight = false ∧
    ∀ now, (c.shared.breaker.state = .opened →
        CircuitBreaker.recoveryElapsed cfg.breaker now c.shared.breaker = true) →
      (CircuitBreaker.allowRequest cfg.breaker now c.shared.breaker).2 = true

/-- A step that answers a validation from the validator's cache while the slot is taken
    leaves another call in between. -/
def CachedNotLast (c : MutationConfig ι) (a : Act ι Mutation SvcChoice) : Prop :=
  ∀ i k item f valid, a = .step i (.validated (.ok (.cached valid))) →
    c.calls i = .running k (.op (.validate item) f) → c.shared.breaker.probeInFlight = true →
    ∃ j, j ≠ i ∧ Between c j

/-- A running call is in between exactly when its ghost state says so. -/
theorem between_iff {c : MutationConfig ι} {γ : ι → Option Validation} {i : ι}
    (h : Pool.Follows validation (fun _ => IsPast) (γ i) (c.calls i)) :
    Between c i ↔ ∃ g, γ i = some g ∧ g.Inside := by
  unfold Between
  cases hc : c.calls i with
  | idle => rw [hc] at h; rw [show γ i = none from h]; simp [inside]
  | returned k a => rw [hc] at h; rw [h.1]; simp [inside]
  | dropped k => rw [hc] at h; rw [show γ i = none from h]; simp [inside]
  | running k p =>
    rw [hc] at h
    obtain ⟨g, hg, hobeys⟩ := h
    rw [hg]
    cases p with
    | ret a =>
      have hpast : g = .past := hobeys
      simp [inside, hpast, Validation.Inside]
    | op o f =>
      have hask := hobeys.1
      cases g <;> cases o <;>
        first | exact hask.elim | exact absurd trivial hask | simp [inside, SvcOp.inside, Validation.Inside]

/-- Only the operations on the breaker change it. -/
theorem handle_breaker [DecidableEq ι] {s s' : World ι} {i : ι} {o : SvcOp} {x : SvcChoice}
    {r : o.Ans}
    (h : handle cfg s i o x = some (s', r)) (ho : ¬ o.OfBreaker) : s'.breaker = s.breaker := by
  cases o <;> first | exact absurd trivial ho | skip
  all_goals cases x <;> simp only [handle, Option.map_eq_some_iff, reduceCtorEq, Option.some.injEq,
    Prod.mk.injEq] at h
  · obtain ⟨_, _, rfl, _⟩ := h; rfl
  · obtain ⟨_, _, rfl, _⟩ := h; rfl
  · obtain ⟨_, _, rfl, _⟩ := h; rfl
  · obtain ⟨rfl, _⟩ := h; split_ifs <;> rfl
  · obtain ⟨rfl, _⟩ := h; rfl
  · obtain ⟨rfl, _⟩ := h; rfl

variable (cfg C)

theorem mutations_sound [DecidableEq ι] :
    Pool.Sound (mutations (ι := ι) cfg C) validation (fun _ => IsPast) (fun _ => .fresh)
      (fun s γ => SlotInv Validation.Inside s.breaker γ) CachedNotLast where
  init s hs := by
    rw [show s.breaker = CircuitBreaker.new from hs]
    exact slotInv_new
  prog := Mutation.obeys cfg C
  start c i k s γ _ h hγ hs := by
    cases hs
    exact h.of_not (fun g hg => by rw [hγ] at hg; cases hg) _
  handle c i x k o f s r γ g hguard h hF hi hγ hask hs := by
    have hs : handle cfg c.shared i o x = some (s, r) := hs
    cases g with
    | fresh =>
      cases o with
      | allowRequest =>
        cases x with
        | clock now now' => cases hs; exact ⟨_, rfl, h.allowRequest hγ id (show Validation.admitted.Inside from trivial) _ _⟩
        | _ => cases hs
      | _ => exact hask.elim
    | admitted =>
      cases o with
      | validate item =>
        cases x with
        | validated outcome =>
          cases hs
          rcases r with error | valid | valid
          · exact ⟨.answered, rfl, h.same hγ fun _ => trivial⟩
          · refine ⟨.past, rfl, h.leave (fun hp => ?_) _⟩
            -- the call that is answered from the cache is not the last one inside
            obtain ⟨j, hji, hj⟩ := hguard i k item f valid rfl hi hp
            obtain ⟨g, hg, hin⟩ := (between_iff (hF j)).mp hj
            exact ⟨j, g, hji, hg, hin⟩
          · exact ⟨.answered, rfl, h.same hγ fun _ => trivial⟩
        | _ => cases hs
      | _ => exact hask.elim
    | answered =>
      cases o with
      | recordSuccess =>
        cases x with
        | clock now now' => cases hs; exact ⟨.past, rfl, h.recordSuccess _ _ _⟩
        | _ => cases hs
      | recordFailure =>
        cases x with
        | clock now now' => cases hs; exact ⟨.past, rfl, slotInv_recordFailure _ _ _ _ _⟩
        | _ => cases hs
      | _ => exact hask.elim
    | past =>
      have hsame := handle_breaker hs hask
      refine ⟨.past, ?_, by rw [hsame]; exact h.same hγ id⟩
      cases o <;> first | rfl | exact absurd trivial hask
  ret s i k γ g a h hγ ha := by
    refine h.of_not (fun g' hg' hin => ?_) _
    rw [hγ] at hg'
    cases hg'
    rw [show g = .past from ha] at hin
    exact hin
  drop c i k p s γ g _ _ _ _ _ hs := by cases hs
  env c x s γ _ h hs := by
    cases x with
    | evict layer key => cases hs; exact h
    | _ => cases hs

/-! ## When the slot is free -/

variable {cfg C}

/-- The invariant gives the property. -/
theorem probeFree_of_inv {c : MutationConfig ι}
    (h : Pool.Inv validation (fun _ => IsPast)
      (fun s γ => SlotInv Validation.Inside s.breaker γ) c) : ProbeFree cfg c := by
  obtain ⟨γ, hslot, hF⟩ := h
  intro hnone
  exact hslot.free (fun i g hg hin => hnone i ((between_iff (hF i)).mpr ⟨g, hg, hin⟩)) _

variable [DecidableEq ι]

/-- Along a run from a new breaker the slot is free whenever no call is in between, exactly
    when every cache answer that comes while the slot is taken leaves a call in between. -/
theorem probeFree_iff {c c' : MutationConfig ι} {as : List (Act ι Mutation SvcChoice)}
    (hc : (mutations cfg C).machine.init c) (hrun : (mutations cfg C).machine.run c as = some c') :
    (mutations cfg C).machine.Along (ProbeFree cfg) c as ↔
      (mutations cfg C).machine.Meets CachedNotLast c as := by
  have S := mutations_sound (ι := ι) cfg C
  refine Machine.along_iff_meets (fun c a c' => S.inv_step c a c') (fun c => probeFree_of_inv) ?_
    (S.inv_init hc) hrun
  intro c a c' hinv hbad hstep hfree
  obtain ⟨γ, -, hF⟩ := hinv
  simp only [CachedNotLast, not_forall, not_exists, not_and] at hbad
  obtain ⟨i, k, item, f, valid, rfl, hi, hp, hothers⟩ := hbad
  obtain ⟨s, r, hs, rfl⟩ := Pool.act_step hstep hi
  cases hs
  have hpast : ∀ j, ¬ Between (⟨c.shared, Function.update c.calls i
      (.settle k (f (.ok (.cached valid))))⟩ : MutationConfig ι) j := by
    intro j
    show ¬ inside (Function.update c.calls i _ j) = true
    by_cases hji : j = i
    · -- the call has left `validate_content`: its ghost state is `past`
      subst hji
      have hFi := hF j
      rw [hi] at hFi
      obtain ⟨g, -, hask, hnext⟩ := hFi
      have hobeys : validation.Obeys IsPast .past (f (.ok (.cached valid))) := by
        cases g with
        | admitted => exact hnext _ _ rfl
        | past => exact absurd trivial hask
        | _ => exact hask.elim
      rw [Function.update_self]
      cases hf : f (.ok (.cached valid)) with
      | ret a => simp [CallState.settle, inside]
      | op o f' =>
        rw [hf] at hobeys
        have hask' := hobeys.1
        cases o <;> first | exact absurd trivial hask' | simp [CallState.settle, inside, SvcOp.inside]
    · rw [Function.update_of_ne hji]
      exact hothers j hji
  have hfalse := (hfree hpast).1
  rw [show c.shared.breaker.probeInFlight = true from hp] at hfalse
  cases hfalse

end Pool

/-! ## A leaked probe -/

/-- Five likes whose validation fails open the breaker; after the recovery time the probe is
    a like whose validation is answered from the cache. -/
def cachedProbe : List (Act (Option (Fin 5)) Mutation SvcChoice) :=
  (List.finRange 5).flatMap (fun i =>
    [.start (some i) (.like 1 ("post", 7)), .step (some i) (.clock 0 0),
      .step (some i) (.validated (.error (.dependencyUnavailable "content_api"))),
      .step (some i) (.clock 0 0)]) ++
  [.start none (.like 1 ("post", 7)), .step none (.clock 30000000000 0),
    .step none (.validated (.ok (.cached true)))]

/-- After `cachedProbe` no call is between `allow_request` and the return of
    `validate_content`, but the slot is taken, for good. -/
theorem probe_leaks : ∃ c, (mutations Config.default Codec.plain).machine.run
      ⟨World.new, fun _ => .idle⟩ cachedProbe = some c ∧
    (∀ i, ¬ Between c i) ∧ c.shared.breaker.probeInFlight = true ∧
    ∀ now, (CircuitBreaker.allowRequest Config.default.breaker now c.shared.breaker).2 = false := by
  have hview : ((mutations Config.default Codec.plain).machine.run
      ⟨World.new, fun _ => .idle⟩ cachedProbe).map (fun c =>
        (c.shared.breaker.state, c.shared.breaker.probeInFlight,
          inside (c.calls none), (List.finRange 5).map fun i => inside (c.calls (some i)))) =
      some (.halfOpen, true, false, List.replicate 5 false) := by decide +kernel
  obtain ⟨c, hrun, hc⟩ := Option.map_eq_some_iff.mp hview
  simp only [Prod.mk.injEq] at hc
  obtain ⟨hs, hp, hprobe, hin⟩ := hc
  refine ⟨c, hrun, fun i hi => ?_, hp, fun now => ?_⟩
  · cases i with
    | none =>
      rw [show inside (c.calls none) = true from hi] at hprobe
      cases hprobe
    | some i =>
      have hmem : inside (c.calls (some i)) ∈
          (List.finRange 5).map fun i => inside (c.calls (some i)) :=
        List.mem_map.mpr ⟨i, List.mem_finRange i, rfl⟩
      rw [hin, show inside (c.calls (some i)) = true from hi] at hmem
      cases List.eq_of_mem_replicate hmem
  · rw [CircuitBreaker.allowRequest_of_taken hs hp]

/-- Like 5 is answered from the cache; the five likes whose validation fails open the breaker; the
    probe, like 6, is answered by the Content API. -/
def remoteProbe : List (Act (Fin 8) Mutation SvcChoice) :=
  [.start 5 (.like 1 ("post", 7)), .step 5 (.clock 0 0),
    .step 5 (.validated (.ok (.cached true)))] ++
  ([0, 1, 2, 3, 4] : List (Fin 8)).flatMap (fun i =>
    [.start i (.like 1 ("post", 7)), .step i (.clock 0 0),
      .step i (.validated (.error (.dependencyUnavailable "content_api"))),
      .step i (.clock 0 0)]) ++
  [.start 6 (.like 1 ("post", 7)), .step 6 (.clock 30000000000 0),
    .step 6 (.validated (.ok (.remote true))), .step 6 (.clock 30000000000 0)]

/-- An answer from the cache finds the slot free. -/
def cachedFree {ι : Type} (c : MutationConfig ι) : Act ι Mutation SvcChoice → Bool
  | .step _ (.validated (.ok (.cached _))) => !c.shared.breaker.probeInFlight
  | _ => true

theorem cachedNotLast_of_free {ι : Type} (c : MutationConfig ι) (a : Act ι Mutation SvcChoice)
    (h : cachedFree c a = true) : CachedNotLast c a := by
  rintro i k item f valid rfl - hprobe
  rw [cachedFree, hprobe] at h
  cases h

/-- `probeFree_iff` for `remoteProbe`, after which the slot is free, and for `cachedProbe`. -/
theorem probeFree_iff_remoteProbe_cachedProbe :
    (∃ c, (mutations Config.default Codec.plain).machine.run
        ⟨World.new, fun _ => .idle⟩ remoteProbe = some c ∧
      c.shared.breaker.state = .halfOpen ∧ c.shared.breaker.probeInFlight = false ∧
      (mutations Config.default Codec.plain).machine.Along (ProbeFree Config.default)
        ⟨World.new, fun _ => .idle⟩ remoteProbe) ∧
    ((mutations Config.default Codec.plain).machine.Along (ProbeFree Config.default)
        ⟨World.new, fun _ => .idle⟩ cachedProbe ↔
      (mutations Config.default Codec.plain).machine.Meets CachedNotLast
        ⟨World.new, fun _ => .idle⟩ cachedProbe) := by
  constructor
  · have hview : ((mutations Config.default Codec.plain).machine.run
        ⟨World.new, fun _ => .idle⟩ remoteProbe).map (fun c =>
          (c.shared.breaker.state, c.shared.breaker.probeInFlight)) = some (.halfOpen, false) := by
      decide +kernel
    have hfree : (mutations Config.default Codec.plain).machine.meetsAll cachedFree
        ⟨World.new, fun _ => .idle⟩ remoteProbe = true := by
      decide +kernel
    have hinit : (mutations (ι := Fin 8) Config.default Codec.plain).machine.init
        ⟨World.new, fun _ => .idle⟩ := ⟨rfl, fun _ => rfl⟩
    obtain ⟨c, hrun, hc⟩ := Option.map_eq_some_iff.mp hview
    obtain ⟨hs, hp⟩ := Prod.mk.inj hc
    exact ⟨c, hrun, hs, hp, (probeFree_iff hinit hrun).mpr
      (Machine.meets_of_meetsAll cachedNotLast_of_free hfree)⟩
  · have hruns : ((mutations Config.default Codec.plain).machine.run
        ⟨World.new, fun _ => .idle⟩ cachedProbe).isSome = true := by decide +kernel
    obtain ⟨c, hrun⟩ := Option.isSome_iff_exists.mp hruns
    exact probeFree_iff ⟨rfl, fun _ => rfl⟩ hrun

end SocialApi.Services
