import SocialApi.Services.AgingCounts

/-!
# How old a returned count can be

* `recentCounts_of_meets`: every count returned at time `t` was the committed one at a
  time no earlier than `t - (ttl + l1_ttl + 3 D)`.
-/

namespace SocialApi.Services

open SocialApi.Concurrent SocialApi.Postgres SocialApi.PendingFetches SocialApi.Repositories

section Runs

variable {ι ρ : Type} [DecidableEq ι] [DecidableEq ρ] (d : Deployment ι ρ) (C : Codec)
  (init : CountConfig ι ρ) (acts : List (Act ι CountCall (ClusterChoice ρ)))

/-! ## All interleavings -/

section Moments

variable {d C init acts} {c c' : CountConfig ι ρ} {a : Act ι CountCall (ClusterChoice ρ)} {item : Item}
  {t : ℕ}

/-- What is committed before a step of the run is so at its time. -/
theorem recent_before (honrun : (countCalls d C).machine.OnRun init acts c a)
    (ht : t ≤ c.shared.clock) : Recent d C init acts c.shared.clock 0 t item
      (c.shared.db.store.committed.totalCount item) := by
  obtain ⟨bs, cs, hsplit, hrun⟩ := honrun
  exact ⟨bs, _, c, hsplit, hrun, rfl, le_refl _, ht⟩

/-- So is what is committed after it. -/
theorem recent_after (honrun : (countCalls d C).machine.OnRun init acts c a)
    (hstep : (countCalls d C).machine.step c a = some c') (ht : t ≤ c'.shared.clock) :
    Recent d C init acts c'.shared.clock 0 t item
      (c'.shared.db.store.committed.totalCount item) := by
  obtain ⟨bs, cs, hsplit, hrun⟩ := honrun
  refine ⟨bs ++ [a], cs, c', ?_, (Machine.run_snoc _).mpr ⟨c, hrun, hstep⟩, rfl, le_refl _, ht⟩
  rw [hsplit, List.append_assoc]
  rfl

end Moments

variable {d C init acts} in
/-- One operation of a running call. -/
theorem AgeInv.handle {D : ℕ} {c : CountConfig ι ρ} {γ : ι → Option CountLog} {i : ι}
    {x : ClusterChoice ρ} {k : CountCall} {o : SvcOp} {f : o.Ans → Svc (Except AppError CountReply)}
    {s : Cluster ι ρ} {a : o.Ans} {g : CountLog} (h : AgeInv d C init acts D c.shared γ)
    (honrun : (countCalls d C).machine.OnRun init acts c (.step i x))
    (htimely : Timely D c (.step i x)) (hi : c.calls i = .running k (.op o f)) (hγ : γ i = some g)
    (hasks : g.asks d.cfg o) (hs : Cluster.handle d c.shared i o x = some (s, a)) :
    CountLog.Fits o a ∧ AgeInv d C init acts D s (Function.update γ i (some (g.next o a))) := by
  have htime : c.shared.clock ≤ c.shared.started i + D := htimely i x rfl
  have hstep : (countCalls d C).machine.step c (.step i x) =
      some ⟨s, Function.update c.calls i (.settle k (f a))⟩ := by
    show (countCalls d C).act c (.step i x) = _
    simp only [Pool.act, hi]
    exact Option.map_eq_some_iff.mpr ⟨(s, a), hs, rfl⟩
  cases x with
  | svc x =>
    obtain ⟨⟨w, a'⟩, hw, he⟩ := Option.map_eq_some_iff.mp hs
    cases he
    cases o with
    | db q =>
      obtain ⟨y, db', rfl, hdb, rfl⟩ := handle_db hw
      exact h.statement hγ htime hasks.1 hdb (fun item t => recent_before honrun)
        fun item t => recent_after honrun hstep
    | cache o =>
      obtain ⟨y, cache', rfl, hcache, rfl⟩ := handle_cache hw
      exact ⟨trivial, h.cacheOp hγ htime hasks hcache⟩
    | flight o =>
      obtain ⟨y, flights', rfl, hflight, rfl⟩ := handle_flight hw
      exact h.flightOp hγ htime hasks hflight
    | publish event item =>
      cases x with
      | published delivered =>
        cases hw
        refine ⟨trivial, h.quiet hγ htime ?_ ?_ ?_ rfl rfl⟩ <;> cases delivered <;> rfl
      | _ => cases hw
    | _ =>
      cases x <;> cases hw
      exact ⟨trivial, h.quiet hγ htime rfl rfl rfl rfl rfl⟩
  | _ => cases hs

variable {d C init acts} in
/-- The log of a call that is over. -/
theorem AgeInv.over {D : ℕ} {s s' : Cluster ι ρ} {γ : ι → Option CountLog}
    (h : AgeInv d C init acts D s γ) {i : ι}
    (hdb : DbInv s'.db (Function.update (phaseOf fun i => (γ i).map CountLog.phase) i .outside))
    (hflights : ∀ r id ch', (s'.flights r).chans id = some ch' → ∃ ch,
      (s.flights r).chans id = some ch ∧ ch'.value = ch.value ∧ ch'.version = ch.version)
    (hkeyed : ∀ r, Keyed (s'.flights r))
    (hrest : s'.clock = s.clock ∧ s'.started = s.started ∧ s'.stepped = s.stepped ∧
      s'.l1 = s.l1 ∧ s'.l1Until = s.l1Until ∧ s'.redis = s.redis ∧ s'.redisUntil = s.redisUntil) :
    AgeInv d C init acts D s' (Function.update γ i none) := by
  obtain ⟨hclock, hstarted, hstepped, hl1, hl1Until, hredis, hredisUntil⟩ := hrest
  have hother : ∀ j g, Function.update γ i none j = some g → γ j = some g := by
    intro j g hj
    by_cases hji : j = i
    · subst hji
      rw [Function.update_self] at hj
      cases hj
    · rwa [Function.update_of_ne hji] at hj
  refine ⟨?_, hkeyed, fun j g hj => ?_, fun j g source item count hj hhas => ?_, ?_, ?_,
    fun j g hj => h.ready j g (hother j g hj),
    fun j g rx ch' item count hj hrx hch hitem hv hseen => ?_⟩
  · rw [phaseOf_map_update]
    exact hdb
  · rw [hclock, hstarted, hstepped]
    exact h.times j g (hother j g hj)
  · rw [hstarted, hstepped]
    exact h.logs j g source item count (hother j g hj) hhas
  · rw [hl1, hl1Until, hclock]
    exact h.l1
  · rw [hredis, hredisUntil, hclock]
    exact h.redis
  · rw [hclock, hstarted]
    obtain ⟨ch, hch, hval, hver⟩ := hflights _ _ ch' hch
    rw [hval] at hv
    rw [hver] at hseen
    exact h.chans j g rx ch item count (hother j g hj) hrx hch hitem hv hseen

section Events

variable {d C init acts} {D : ℕ} {s s' : Cluster ι ρ} {γ : ι → Option CountLog} {i : ι}

/-- A call starts, with nothing in its log. -/
theorem AgeInv.start (h : AgeInv d C init acts D s γ) (hγ : γ i = none) (reads : Bool) :
    AgeInv d C init acts D
      { s with
        started := Function.update s.started i s.clock
        stepped := Function.update s.stepped i s.clock }
      (Function.update γ i (some (.fresh reads))) := by
  refine ⟨?_, h.keyed, fun j g hj => ?_, fun j g source item count hj hhas => ?_, h.l1, h.redis,
    fun j g hj => ?_, fun j g rx ch item count hj hrx hch hitem hv hseen => ?_⟩
  · have hout : (phaseOf fun i => (γ i).map CountLog.phase) i = .outside := by simp [phaseOf, hγ]
    rw [phaseOf_map_update]
    show DbInv s.db (Function.update _ i Phase.outside)
    rw [← hout, Function.update_eq_self]
    exact h.db
  · show Function.update s.started i s.clock j ≤ Function.update s.stepped i s.clock j ∧
      Function.update s.stepped i s.clock j ≤ Function.update s.started i s.clock j + D ∧
        Function.update s.stepped i s.clock j ≤ s.clock
    rcases log_update hj with ⟨rfl, -⟩ | ⟨hji, hj⟩
    · rw [Function.update_self, Function.update_self]
      omega
    · rw [Function.update_of_ne hji, Function.update_of_ne hji]
      exact h.times j g hj
  · show Recent d C init acts (Function.update s.stepped i s.clock j) _
      (Function.update s.started i s.clock j) item count
    rcases log_update hj with ⟨-, rfl⟩ | ⟨hji, hj⟩
    · exact hhas.elim
    · rw [Function.update_of_ne hji, Function.update_of_ne hji]
      exact h.logs j g source item count hj hhas
  · rcases log_update hj with ⟨-, rfl⟩ | ⟨-, hj⟩
    · exact fun rx hrx => by cases hrx
    · exact h.ready j g hj
  · show Recent d C init acts s.clock D (Function.update s.started i s.clock j) item count
    rcases log_update hj with ⟨-, rfl⟩ | ⟨hji, hj⟩
    · cases hrx
    · rw [Function.update_of_ne hji]
      exact h.chans j g rx ch item count hj hrx hch hitem hv hseen

/-- A call is dropped. -/
theorem AgeInv.dropCall (h : AgeInv d C init acts D s γ) (i : ι) :
    AgeInv d C init acts D (s.dropCall d i) (Function.update γ i none) := by
  have hflights : ∀ r, (s.dropCall d i).flights r = s.flights r ∨
      (s.dropCall d i).flights r = abandon (s.flights r) i := by
    intro r
    by_cases hr : r = d.replica i
    · subst hr
      exact Or.inr (Function.update_self _ _ _)
    · exact Or.inl (Function.update_of_ne hr _ _)
  refine h.over (h.db.abort rfl) (fun r id ch' hch => ?_) (fun r => ?_)
    ⟨rfl, rfl, rfl, rfl, rfl, rfl, rfl⟩
  · rcases hflights r with hr | hr
    · rw [hr] at hch
      exact ⟨ch', hch, rfl, rfl⟩
    · rw [hr] at hch
      exact abandon_chan hch
  · rcases hflights r with hr | hr
    · rw [hr]
      exact h.keyed r
    · rw [hr]
      exact h.keyed r

omit [DecidableEq ι] [DecidableEq ρ] in
/-- What is left when an entry has been evicted. -/
theorem kept_of_evicted {entries : CacheKey → Option String} {key key' : CacheKey} {text : String}
    (h : Function.update entries key none key' = some text) : entries key' = some text := by
  by_cases hkey : key' = key
  · subst hkey
    rw [Function.update_self] at h
    cases h
  · rwa [Function.update_of_ne hkey] at h

/-- The clock goes on, and entries are evicted. -/
theorem AgeInv.env (h : AgeInv d C init acts D s γ) {x : ClusterChoice ρ}
    (hs : Cluster.env s x = some s') : AgeInv d C init acts D s' γ := by
  cases x with
  | svc x => cases hs
  | tick now =>
    have hs : (if s.clock ≤ now then some { s with clock := now } else none) = some s' := hs
    split_ifs at hs with hnow
    cases hs
    refine ⟨h.db, h.keyed, fun j g hj => ?_, h.logs, fun r key text item count hl ht => ?_,
      fun key text item count hl ht => ?_, h.ready,
      fun j g rx ch item count hj hrx hch hitem hv hseen => ?_⟩
    · obtain ⟨hstart, hwithin, hclock⟩ := h.times j g hj
      exact ⟨hstart, hwithin, hclock.trans hnow⟩
    · exact (h.l1 r key text item count hl ht).mono hnow (le_refl _)
    · exact (h.redis key text item count hl ht).mono hnow (le_refl _)
    · exact (h.chans j g rx ch item count hj hrx hch hitem hv hseen).mono hnow (le_refl _)
  | evictL1 r key =>
    cases hs
    refine ⟨h.db, h.keyed, h.times, h.logs, fun r' key' text item count hl ht => ?_, h.redis,
      h.ready, h.chans⟩
    refine h.l1 r' key' text item count ?_ ht
    have hl : Function.update s.l1 r (Function.update (s.l1 r) key none) r' key' = some text := hl
    by_cases hr : r' = r
    · subst hr
      rw [Function.update_self] at hl
      exact kept_of_evicted hl
    · rwa [Function.update_of_ne hr] at hl
  | evictRedis key =>
    cases hs
    exact ⟨h.db, h.keyed, h.times, h.logs, h.l1, fun key' text item count hl ht =>
      h.redis key' text item count (kept_of_evicted hl) ht, h.ready, h.chans⟩

end Events

variable (D : ℕ)

/-- The discipline of the calls keeps the ages within their bounds. -/
theorem countCalls_keep :
    Pool.Keeps (countCalls d C) (countSources d.cfg) CountCall.Answers (fun k => .fresh k.reads)
      (AgeInv d C init acts D)
      (fun c a => (countCalls d C).machine.OnRun init acts c a ∧ Timely D c a) where
  prog := CountCall.sources d.cfg C
  start c i k s γ _ h hγ hs := by
    cases hs
    exact h.start hγ k.reads
  handle c i x k o f s a γ g hguard h _ hi hγ hasks hs := by
    obtain ⟨hfits, hinv⟩ := h.handle hguard.1 hguard.2 hi hγ hasks hs
    exact ⟨_, ⟨rfl, hfits⟩, hinv⟩
  ret s i k γ g a h hγ ha := by
    have hphase : (phaseOf fun i => (γ i).map CountLog.phase) i = .outside := by
      simp [phaseOf, hγ, ha.1]
    refine h.over ?_ (fun r id ch' hch => ⟨ch', hch, rfl, rfl⟩) h.keyed
      ⟨rfl, rfl, rfl, rfl, rfl, rfl, rfl⟩
    rw [← hphase, Function.update_eq_self]
    exact h.db
  drop c i k p s γ g _ h _ _ _ hs := by
    cases hs
    exact h.dropCall i
  env c x s γ _ h hs := h.env hs

variable {d C} in
/-- A call that is over does nothing more. -/
theorem stepped_of_returned {c c' : CountConfig ι ρ} {a : Act ι CountCall (ClusterChoice ρ)}
    (hstep : (countCalls d C).machine.step c a = some c') {i : ι} {k : CountCall}
    {b : Except AppError CountReply} (hi : c.calls i = .returned k b) :
    c'.shared.stepped i = c.shared.stepped i := by
  have hother : ∀ j, (∀ k b, c.calls j ≠ .returned k b) →
      Function.update c.shared.stepped j c.shared.clock i = c.shared.stepped i := by
    intro j hj
    refine Function.update_of_ne (fun hij => ?_) _ _
    subst hij
    exact hj k b hi
  rcases Pool.act_cases hstep with ⟨j, k', s, rfl, hj, hs, rfl⟩ |
    ⟨j, x, k', o, f, s, r, rfl, hj, hs, rfl⟩ | ⟨j, k', p, s, rfl, hj, hs, rfl⟩ | ⟨x, s, rfl, hs, rfl⟩
  · cases hs
    exact hother j (by simp [hj])
  · cases x with
    | svc x =>
      obtain ⟨⟨w, a'⟩, hw, he⟩ := Option.map_eq_some_iff.mp hs
      cases he
      exact hother j (by simp [hj])
    | _ => cases hs
  · cases hs
    rfl
  · cases x with
    | svc x => cases hs
    | tick now =>
      have hs : (if c.shared.clock ≤ now then some { c.shared with clock := now } else none) =
        some s := hs
      split_ifs at hs
      cases hs
      rfl
    | evictL1 r key => cases hs; rfl
    | evictRedis key => cases hs; rfl

/-- Any number of calls on any number of replicas, each within `D` of its start, with Redis
    commands that fail and entries that are evicted: every count that a call has returned was the
    committed one no more than the two TTLs and three times `D` before the call's end. -/
theorem recentCounts_of_meets (c : CountConfig ι ρ) (hinit : (countCalls d C).machine.init init)
    (hrun : (countCalls d C).machine.run init acts = some c)
    (htimely : (countCalls d C).machine.Meets (Timely D) init acts) :
    ∀ i k reply item count, c.calls i = .returned k (.ok reply) → k.Reports reply item count →
      Recent d C init acts (c.shared.stepped i) (d.countTtl + d.l1Ttl + 3 * D) (c.shared.stepped i)
        item count := by
  obtain ⟨⟨t, ht, hstart⟩, hidle⟩ := hinit
  have hinv : AgeInv d C init acts D init.shared fun _ => none := by
    rw [hstart]
    refine ⟨dbInv_ofTables ht rfl, fun r key id h => (by cases h), fun i g h => (by cases h),
      fun i g source item count h => (by cases h), fun r key text item count h => (by cases h),
      fun key text item count h => (by cases h), fun j g h => (by cases h),
      fun j g rx ch item count h => (by cases h)⟩
  have hguard := (Machine.meets_onRun (countCalls d C).machine init acts).and htimely
  have hreturned : ∀ (s : Cluster ι ρ) (i : ι) (k : CountCall) γ g
      (a : Except AppError CountReply), AgeInv d C init acts D s γ → γ i = some g →
      k.Answers g a → ∀ reply item count, a = .ok reply → k.Reports reply item count →
        Recent d C init acts (s.stepped i) (d.countTtl + d.l1Ttl + 3 * D) (s.stepped i) item
          count := by
    intro s i k γ g a h hγ ha reply item count hreply hreports
    obtain ⟨source, hhas⟩ := ha.2 reply hreply item count hreports
    obtain ⟨-, hwithin, -⟩ := h.times i g hγ
    refine (h.logs i g source item count hγ hhas).mono (le_refl _) ?_
    cases source <;> simp only [Source.age] <;> omega
  intro i k reply item count hi hreports
  refine ((countCalls_keep d C init acts D).returns_of_meets hreturned ?_ hinv hidle hguard
    hrun).2 i k _ hi reply item count rfl hreports
  intro c a c' _ hstep i k b hi hrecent
  rwa [stepped_of_returned hstep hi]

end Runs

/-- Every call but the first runs on the second replica. -/
def twoReplicas : Deployment ℕ Bool where
  cfg := .default
  localCacheTtlMs := 60000
  replica i := decide (0 < i)

/-- `n` operations of call `i`. -/
def clusterOperations (i n : ℕ) (x : SvcChoice) : List (Act ℕ CountCall (ClusterChoice Bool)) :=
  List.replicate n (.step i (.svc x))

/-- A call on one replica reads the count, and one on the other finds it in Redis. -/
def readThroughRedis : List (Act ℕ CountCall (ClusterChoice Bool)) :=
  [.start 0 (.getCount ("post", 7))] ++ clusterOperations 0 2 (.cache .ok) ++
    clusterOperations 0 1 (.flight .inTime) ++ clusterOperations 0 1 (.db (.run .epoch [])) ++
    clusterOperations 0 3 (.flight .inTime) ++ [.env (.tick 3)] ++
    clusterOperations 0 2 (.cache .ok) ++ clusterOperations 0 1 (.flight .inTime) ++
    [.env (.tick 8), .start 1 (.getCount ("post", 7))] ++ clusterOperations 1 3 (.cache .ok)

/-- `Timely 5`, computed. -/
def withinFive (c : CountConfig ℕ Bool) : Act ℕ CountCall (ClusterChoice Bool) → Bool
  | .step i _ => decide (c.shared.clock ≤ c.shared.started i + 5)
  | _ => true

theorem timely_of_withinFive (c : CountConfig ℕ Bool) (a : Act ℕ CountCall (ClusterChoice Bool))
    (h : withinFive c a = true) : Timely 5 c a := by
  intro i x ha
  rw [ha] at h
  exact of_decide_eq_true h

/-- The count that a call has returned. -/
def countOf (cs : CallState CountCall SvcOp SvcOp.Ans (Except AppError CountReply)) : Option I64 :=
  match cs with
  | .returned _ (.ok (.counted result)) => some result.count
  | _ => none

theorem recentCounts_readThroughRedis : ∃ c : CountConfig ℕ Bool,
    (countCalls twoReplicas .plain).machine.run ⟨.new ⟨[], fun _ => none⟩, fun _ => .idle⟩
      readThroughRedis = some c ∧ countOf (c.calls 1) = some 0 ∧
      ∀ i k reply item count, c.calls i = .returned k (.ok reply) → k.Reports reply item count →
        Recent twoReplicas .plain ⟨.new ⟨[], fun _ => none⟩, fun _ => .idle⟩ readThroughRedis
          (c.shared.stepped i) (twoReplicas.countTtl + twoReplicas.l1Ttl + 3 * 5)
          (c.shared.stepped i) item count := by
  have hview : ((countCalls twoReplicas .plain).machine.run
      (⟨.new ⟨[], fun _ => none⟩, fun _ => .idle⟩ : CountConfig ℕ Bool) readThroughRedis).map
        (fun c => countOf (c.calls 1)) = some (some 0) := by
    decide +kernel
  have htimely : (countCalls twoReplicas .plain).machine.meetsAll withinFive
      (⟨.new ⟨[], fun _ => none⟩, fun _ => .idle⟩ : CountConfig ℕ Bool) readThroughRedis = true := by
    decide +kernel
  obtain ⟨c, hrun, hcount⟩ := Option.map_eq_some_iff.mp hview
  have hempty : Consistent ⟨[], fun _ => none⟩ := ⟨fun _ => rfl, fun _ => Nat.zero_le _⟩
  exact ⟨c, hrun, hcount, recentCounts_of_meets twoReplicas .plain _ _ 5 c
    ⟨⟨_, hempty, rfl⟩, fun _ => rfl⟩ hrun (Machine.meets_of_meetsAll timely_of_withinFive htimely)⟩

end SocialApi.Services
