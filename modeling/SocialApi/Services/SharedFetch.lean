import SocialApi.Services.PatientReaders

/-!
# One query serves every follower

A reader that finds an entry in `pending_fetches` subscribes to its channel and waits
for the leader's count. A batch takes its entry out of the map before it sends; a
single reader sends first, so that somebody may subscribe in between: the value is then
already seen, and when the leader's senders are gone the wait fails and the follower
queries the database itself. A batch whose own query fails gives up before it has
waited for the keys it follows.

* `leaderServes_of_meets`: in a run in which nobody subscribes after the leader has sent
  and no call with an open subscription has a database error, every follower of a
  leader whose query succeeds returns the count in the leader's row and queries nothing.
* `followers_missed`: a run in which a follower comes between the leader's send and the
  removal of the entry.
-/

namespace SocialApi.Services

open SocialApi.Concurrent SocialApi.Postgres SocialApi.PendingFetches

variable {ι : Type}

/-! ## Specification -/

/-- The call has found the count of the item in the cache. -/
def FoundInCache (log : List (Effect ι)) (j : ι) (item : Item) (count : I64) : Prop :=
  Learned log j .l1 item count ∨ Learned log j .redis item count

/-- What a call returns that has got the count `n` of the key from a leader: a single read
    returns it, and a batch has it for every item with the key, unless it has found that item in
    the cache. -/
def Passes (log : List (Effect ι)) (j : ι) (key : CacheKey) (n : I64) :
    CountRead → CountResult → Prop
  | .getCountValue _, result => result = .ok (.inl n)
  | .batchCounts items, result => ∀ answer, result = .ok answer → ∃ results,
      answer = .inr results ∧ List.Forall₂ (fun item r => countCacheKey item = key →
        r.count = n ∨ FoundInCache log j item r.count) items results

/-- Every follower gets the count of its leader, and queries nothing, unless the leader's query
    has failed. -/
structure LeaderServes (c : RecordedReaders ι) : Prop where
  /-- The count on a channel is in a row that the leader's own query was answered. -/
  sent : ∀ id ch n, c.shared.1.flights.chans id = some ch → ch.sent = some n →
    ∀ item, countCacheKey item = id.1 → Learned c.shared.2 ch.leader .database item n
  /-- When the leader has sent, the wait of a follower ends with its count. -/
  wakes : ∀ j k rx f ch n, c.calls j = .running k (.op (.flight (.changed rx)) f) →
    c.shared.1.flights.chans rx.chan = some ch → ch.sent = some n →
    ch.version ≠ rx.seen ∧ ch.value = some n
  /-- A follower whose call is over has been served. -/
  ended : ∀ id ch j, c.shared.1.flights.chans id = some ch → j ∈ ch.followers →
    ¬ (c.calls j).Active → j ∈ ch.served ∨ Failed ch
  /-- A follower that has been served returns the leader's count. -/
  returns : ∀ id ch j k result, c.shared.1.flights.chans id = some ch → j ∈ ch.served →
    c.calls j = .returned k result → ∃ n, ch.sent = some n ∧ Passes c.shared.2 j id.1 n k result
  /-- A follower has made no query for the key it follows. -/
  queries : ∀ id ch p, c.shared.1.flights.chans id = some ch → p ∈ c.shared.2 →
    p.call ∈ ch.followers → p.AsksFor id.1 → Failed ch
  /-- A leader that fails has been told of a database error. -/
  failed : ∀ id ch, c.shared.1.flights.chans id = some ch → Failed ch →
    ch.leader ∈ c.shared.1.dbErrors

/-! ## All runs -/

/-- Every result of a batch is a count that the call was given. -/
def Grounded (s : World ι × List (Effect ι)) (i : ι) (k : CountRead) (result : CountResult) : Prop :=
  ∀ items answer, k = .batchCounts items → result = .ok answer → ∃ results, answer = .inr results ∧
    Counted (fun item n => ∃ source, Learned s.2 i source item n) items results

/-- A call that was served returns the count that was sent. -/
def Served (s : World ι × List (Effect ι)) (i : ι) (k : CountRead) (result : CountResult) : Prop :=
  ∀ id ch, s.1.flights.chans id = some ch → i ∈ ch.served →
    ∃ n, ch.sent = some n ∧ ∀ item, k = .getCountValue item → result = .ok (.inl n)

/-- What holds of the readers and of the record. -/
structure ReadersInv (cfg : Config) (c : RecordedReaders ι) : Prop where
  started : Pool.Started c
  shared : Shared c
  counts : Pool.Inv (countSources cfg) CountRead.Answers CountsLogged c
  follow : Pool.Inv readRules Following.Ends FollowLogged c
  grounded : Pool.Returns Grounded c
  served : Pool.Returns Served c

section Step

variable {cfg : Config} {c c' : RecordedReaders ι} {a : Act ι CountRead SvcChoice}

variable [DecidableEq ι]

/-- What a call has returned stays grounded: the record only grows. -/
theorem grounded_kept (hstep : (patientReaders cfg).recorded.machine.step c a = some c') (i : ι)
    (k : CountRead) (result : CountResult) (h : Grounded c.shared i k result) :
    Grounded c'.shared i k result := by
  intro items answer hk hresult
  obtain ⟨results, hanswer, hcounted⟩ := h items answer hk hresult
  refine ⟨results, hanswer, hcounted.imp fun item r hr => ⟨hr.1, hr.2.1, ?_⟩⟩
  obtain ⟨source, hlearned⟩ := hr.2.2
  rcases Pool.record_step hstep with hsame | ⟨p, hsnoc, -⟩
  · rw [hsame]
    exact ⟨source, hlearned⟩
  · rw [hsnoc]
    exact ⟨source, hlearned.append p⟩

/-- A count that was sent stays, and nobody is served after the end. -/
theorem served_kept (hshared : Shared c)
    (hstep : (patientReaders cfg).recorded.machine.step c a = some c') (i : ι) (k : CountRead)
    (result : CountResult) (hi : c.calls i = .returned k result) (h : Served c.shared i k result) :
    Served c'.shared i k result := by
  rcases Pool.act_cases hstep with ⟨j, k', s, rfl, hj, hs, rfl⟩ |
    ⟨j, x, k', o, f, s, r, rfl, hj, hs, rfl⟩ | ⟨j, k', p, s, rfl, hj, hs, rfl⟩ | ⟨x, s, rfl, hs, rfl⟩
  · cases hs
    exact h
  · obtain ⟨w, hw, rfl⟩ := Pool.recorded_handle hs
    obtain ⟨hw, -⟩ := patientReaders_handle hw
    obtain ⟨hgo, hkept⟩ := hshared.goOn hj hw
    intro id ch' hch' hserved
    rcases hgo.back hch' with hfree | ⟨ch, hch, hc⟩
    · rw [hfree.served] at hserved
      cases hserved
    · have hold : i ∈ ch.served := (hc.mem_served.mp hserved).resolve_right fun hh => by
        rw [← hh.1, hi] at hj
        cases hj
      obtain ⟨n, hn, hresult⟩ := h id ch hch hold
      refine ⟨n, ?_, hresult⟩
      rcases (hkept id ch ch' hch hc).1 with hsame | ⟨hnone, -⟩
      · rw [hsame, hn]
      · rw [hnone] at hn
        cases hn
  · cases hs
  · cases x with
    | evict layer key => cases hs; exact h
    | _ => cases hs

/-- An undisturbed step keeps it all. -/
theorem ReadersInv.step (h : ReadersInv cfg c) (ha : Undisturbed (Pool.forget c) a)
    (hstep : (patientReaders cfg).recorded.machine.step c a = some c') : ReadersInv cfg c' := by
  have hfresh : ∀ i k, a = .start i k → ∀ p ∈ c.shared.2, p.call ≠ i := by
    rintro i k rfl
    exact Pool.unperformed_of_start h.started hstep
  have hrec : OnRecord c a := ⟨h.shared, hfresh⟩
  obtain ⟨γ, hfollow, -⟩ := h.follow
  refine ⟨Pool.started_step h.started hstep, ?_, ?_, ?_, ?_, ?_⟩
  · refine (patientReaders_sound cfg).inv_step _ a _ h.shared ⟨ha, fun i k hik id ch hch hi => ?_⟩
      (Pool.forget_step hstep)
    obtain ⟨p, hp, hcall⟩ := hfollow.followed id ch hch i hi
    exact hfresh i k hik p hp hcall
  · exact (patientReaders_counts cfg).inv_step c a c' h.counts hrec hstep
  · exact (patientReaders_follow cfg).inv_step c a c' h.follow hrec hstep
  · refine (patientReaders_counts cfg).returns_step (fun s i k γ g result hs hγ hanswers => ?_)
      (fun i k result _ => grounded_kept hstep i k result) h.counts h.grounded hrec hstep
    rintro items answer rfl hresult
    obtain ⟨results, hanswer, hcounted⟩ := hanswers answer hresult
    refine ⟨results, hanswer, hcounted.imp fun item r hr => ⟨hr.1, hr.2.1, ?_⟩⟩
    obtain ⟨source, hhas⟩ := hr.2.2
    exact ⟨source, hs.logged i g source item r.count hγ hhas⟩
  · refine (patientReaders_follow cfg).returns_step (fun s i k γ g result hs hγ hends => ?_)
      (served_kept h.shared hstep) h.follow h.served hrec hstep
    intro id ch hch hserved
    obtain ⟨n, hn⟩ := hends.1 id ((hs.heard i g hγ id).mpr ⟨ch, hch, hserved⟩)
    obtain ⟨ch', hch', hsent⟩ := hs.read i g hγ (id, n) hn
    cases hch.symm.trans hch'
    exact ⟨n, hsent, fun item hk => hends.2 item hk (id, n) hn⟩

end Step

theorem readersInv_init [DecidableEq ι] {cfg : Config} {c : RecordedReaders ι}
    (hc : (patientReaders cfg).recorded.machine.init c) : ReadersInv cfg c := by
  obtain ⟨⟨hflights, hrecord⟩, hidle⟩ := hc
  have hflights : c.shared.1.flights = .empty := hflights
  have hnochan : ∀ {id : ChanId} {ch : Channel ι}, c.shared.1.flights.chans id ≠ some ch := by
    intro id ch hch
    rw [hflights] at hch
    cases hch
  have hnorecord : ∀ {p : Effect ι}, p ∉ c.shared.2 := by
    intro p hp
    rw [hrecord] at hp
    cases hp
  have hreturned : ∀ {i k result}, c.calls i ≠ .returned k result := by
    intro i k result hi
    rw [hidle i] at hi
    cases hi
  have hnone : ∀ {G : Type} {Q : CountRead → G → CountResult → Prop}
      {P : Protocol SvcOp SvcOp.Ans G} (i : ι), Pool.Follows P Q none (c.calls i) := by
    intro G Q P i
    rw [hidle i]
    rfl
  have hghost : ∀ {G : Type} {g : G}, none ≠ some g := fun h => Option.some_ne_none _ h.symm
  have hcounts : CountsLogged c.shared fun _ => none :=
    { reads := fun i g hg => absurd hg hghost
      logged := fun i g source item count hg => absurd hg hghost
      sent := fun id ch count hch => absurd hch hnochan
      only := fun p hp => absurd hp hnorecord }
  have hfollow : FollowLogged c.shared fun _ => none :=
    { queried := fun i g hg => absurd hg hghost
      heard := fun i g hg => absurd hg hghost
      read := fun i g hg => absurd hg hghost
      followed := fun id ch hch => absurd hch hnochan
      served := fun id ch hch => absurd hch hnochan
      given := fun p hp => absurd hp hnorecord
      missed := fun id ch hch => absurd hch hnochan }
  exact
    { started := fun p hp => absurd hp hnorecord
      shared := (patientReaders_sound cfg).inv_init ⟨hflights, hidle⟩
      counts := ⟨fun _ => none, hcounts, hnone⟩
      follow := ⟨fun _ => none, hfollow, hnone⟩
      grounded := fun i k result hi => absurd hi hreturned
      served := fun i k result hi => absurd hi hreturned }

/-! ## What the followers get -/

section Serves

variable {cfg : Config} {c : RecordedReaders ι}

/-- A call that is over has waited for everything it has subscribed to. -/
theorem Shared.ended (h : Shared c) {id : ChanId} {ch : Channel ι} {j : ι}
    (hch : c.shared.1.flights.chans id = some ch) (hj : j ∈ ch.followers)
    (hover : ¬ (c.calls j).Active) : j ∈ ch.served ∨ Failed ch := by
  obtain ⟨γ, hshared, hF⟩ := h
  rcases (hshared.chan id ch hch).followers j hj with hs | hf | ⟨g, rx, hg, -⟩
  · exact Or.inl hs
  · exact Or.inr hf
  · refine absurd hover (not_not.mpr ?_)
    by_contra hn
    have hnone := (hF j).none_of_not_active hn
    rw [hnone] at hg
    cases hg

/-- A wait for a channel on which the count has been sent ends with it. -/
theorem Shared.wakes (h : Shared c) {j : ι} {k : CountRead} {rx : Receiver}
    {f : (SvcOp.flight (.changed rx)).Ans → Svc CountResult} {ch : Channel ι} {n : I64}
    (hj : c.calls j = .running k (.op (.flight (.changed rx)) f))
    (hch : c.shared.1.flights.chans rx.chan = some ch) (hsent : ch.sent = some n) :
    ch.version ≠ rx.seen ∧ ch.value = some n := by
  obtain ⟨γ, hshared, hF⟩ := h
  have hFj := hF j
  rw [show (Pool.forget c).calls j = _ from hj] at hFj
  obtain ⟨g, hg, hobeys⟩ := hFj
  obtain ⟨hseen, -, -, hver⟩ := (hshared.pair j g rx.chan ch hg hch).waiting rx hobeys.1.1 rfl
  have hversion := hver (by rw [hsent]; exact Option.some_ne_none _)
  refine ⟨by rwa [hseen], ?_⟩
  have hv : ch.value ≠ none := fun hv => hversion (hshared.leaders.valued _ ch hch hv)
  rw [(hshared.chan _ ch hch).value hv, hsent]

/-- A leader that cannot send any more, and has not sent, was told of a database error. -/
theorem Shared.failed (h : Shared c) {id : ChanId} {ch : Channel ι}
    (hch : c.shared.1.flights.chans id = some ch) (hf : Failed ch) :
    ch.leader ∈ c.shared.1.dbErrors := by
  obtain ⟨γ, hshared, hF⟩ := h
  refine ((hshared.chan id ch hch).leader hf.1).resolve_left ?_
  rintro ⟨g, hg, hid⟩
  obtain ⟨-, -, hsenders⟩ := (hshared.pair _ g id ch hg hch).unsent hid
  rw [hf.2] at hsenders
  rcases hsenders with hm | hm
  · cases hm
  · cases hm

/-- A query on the pool whose answer has a count of the item asks for it. -/
theorem queries_of_countIn {q : DbOp} (hq : ReadsOnly q) {r : q.Ans} {item : Item} {count : I64}
    (h : CountIn q r item count) : Queries q (countCacheKey item) := by
  cases q with
  | countRow it =>
    cases r with
    | error e => exact h.elim
    | ok row =>
      obtain ⟨rfl, -⟩ := h
      rfl
  | batchGetCounts items =>
    cases r with
    | error e => exact h.elim
    | ok rows => exact ⟨item, h.1, rfl⟩
  | _ => first | exact hq.elim | exact h.elim

/-- A count that the call was given for an item of the key it follows: the leader's, or one from
    the cache. -/
theorem ReadersInv.learned (h : ReadersInv cfg c) {id : ChanId} {ch : Channel ι} {j : ι} {n : I64}
    (hch : c.shared.1.flights.chans id = some ch) (hj : j ∈ ch.followers)
    (hsent : ch.sent = some n) {source : Source} {item : Item} {count : I64}
    (hkey : countCacheKey item = id.1) (hlearned : Learned c.shared.2 j source item count) :
    count = n ∨ FoundInCache c.shared.2 j item count := by
  obtain ⟨γ, hfollow, -⟩ := h.follow
  obtain ⟨γ', hcounts, -⟩ := h.counts
  obtain ⟨p, hp, rfl, hgave⟩ := hlearned
  cases source with
  | l1 => exact Or.inr (Or.inl ⟨p, hp, rfl, hgave⟩)
  | redis => exact Or.inr (Or.inr ⟨p, hp, rfl, hgave⟩)
  | database =>
    -- the call has not queried the key
    have hasked : p.AsksFor id.1 := by
      obtain ⟨i, o, r, before, after⟩ := p
      cases o with
      | db q => exact ⟨q, rfl, hkey ▸ queries_of_countIn (hcounts.only _ hp q rfl) hgave⟩
      | _ => exact hgave.elim
    have hfailed := hfollow.missed id ch hch p hp hasked hj
    rw [hfailed.1] at hsent
    cases hsent
  | leader =>
    -- the call follows one channel of the key
    left
    have hread : ∃ id', id'.1 = id.1 ∧ ReadFrom p.op p.answer id' count := by
      obtain ⟨i, o, r, before, after⟩ := p
      cases o with
      | flight o =>
        cases o with
        | borrow rx => exact ⟨rx.chan, hgave.1.symm.trans hkey, rfl, hgave.2⟩
        | _ => exact hgave.elim
      | _ => exact hgave.elim
    obtain ⟨id', hid', hread⟩ := hread
    obtain ⟨ch', hch', hsent', hj'⟩ := hfollow.given p hp id' count hread
    obtain ⟨γ₁, hshared, -⟩ := h.shared
    obtain rfl := hshared.once p.call id' id ch' ch hch' hch hj' hj hid'
    cases hch.symm.trans hch'
    exact Option.some.inj (hsent'.symm.trans hsent)

theorem leaderServes_of_inv (h : ReadersInv cfg c) : LeaderServes c := by
  obtain ⟨γ, hfollow, -⟩ := h.follow
  obtain ⟨γ', hcounts, -⟩ := h.counts
  refine ⟨hcounts.sent, fun j k rx f ch n hj hch hsent => h.shared.wakes hj hch hsent,
    fun id ch j hch hj hover => h.shared.ended hch hj hover, fun id ch j k result hch hj hi => ?_,
    fun id ch p hch hp hj hasked => hfollow.missed id ch hch p hp hasked hj,
    fun id ch hch hf => h.shared.failed hch hf⟩
  obtain ⟨n, hn, hresult⟩ := h.served j k result hi id ch hch hj
  refine ⟨n, hn, ?_⟩
  cases k with
  | getCountValue item => exact hresult item rfl
  | batchCounts items =>
    intro answer hanswer
    obtain ⟨results, rfl, hcounted⟩ := h.grounded j _ result hi items answer rfl hanswer
    refine ⟨results, rfl, hcounted.imp fun item r hr hkey => ?_⟩
    obtain ⟨source, hlearned⟩ := hr.2.2
    exact h.learned hch (hfollow.served id ch hch j hj) hn hkey hlearned

end Serves

/-- In a run of undisturbed steps every follower of a leader whose query succeeds returns the
    count in the leader's row and queries nothing. -/
theorem leaderServes_of_meets [DecidableEq ι] (cfg : Config) {c : RecordedReaders ι}
    {as : List (Act ι CountRead SvcChoice)} (hc : (patientReaders cfg).recorded.machine.init c)
    (hmeets : (patientReaders cfg).recorded.machine.Meets
      (fun c a => Undisturbed (Pool.forget c) a) c as) :
    (patientReaders cfg).recorded.machine.Along LeaderServes c as := by
  refine (Machine.along_of_meets (fun c a c' hc ha hstep => ?_) (readersInv_init hc) hmeets).mono
    fun c => leaderServes_of_inv
  exact hc.step ha hstep

/-- A step at which no query fails and nobody subscribes after the count has been sent. -/
def quietStep (c : ReadersConfig ι) : Act ι CountRead SvcChoice → Bool
  | .step _ (.db (.fail _)) => false
  | .step i _ =>
    match c.calls i with
    | .running _ (.op (.flight (.entry key _)) _) =>
      ((c.shared.flights.pending key).bind c.shared.flights.chans).all fun ch => ch.sent.isNone
    | _ => true
  | _ => true

theorem undisturbed_of_quietStep (c : ReadersConfig ι) (a : Act ι CountRead SvcChoice)
    (h : quietStep c a = true) : Undisturbed c a := by
  refine ⟨fun i x k key keep f id ch ha hi hp hch => ?_, fun i k message q f ha => ?_⟩
  · subst ha
    have hentry : ((c.shared.flights.pending key).bind c.shared.flights.chans).all
        (fun ch => ch.sent.isNone) = true := by
      unfold quietStep at h
      split at h
      · cases h
      · rename_i heq
        cases heq
        rw [hi] at h
        exact h
      · rename_i hno
        exact (hno i x rfl).elim
    rw [hp, Option.bind_some, hch] at hentry
    exact Option.isNone_iff_eq_none.mp hentry
  · subst ha
    cases h

/-! ## Two runs -/

/-- An idle service whose tables have one like of one item. -/
def likedOnce : RecordedReaders ℕ :=
  ⟨({ World.new with
      db := ⟨.ofTables ⟨[], fun item => if item = ("post", 7) then some 1 else none⟩,
        fun _ => .epoch, 1⟩ }, []), fun _ => .idle⟩

/-- A reader leads, a second one follows, and so does a batch that leads another item. -/
def sharedFetch : List (Act ℕ CountRead SvcChoice) :=
  let read : CountRead := .getCountValue ("post", 7)
  let batch : CountRead := .batchCounts [("post", 7), ("post", 8)]
  let rows : SvcChoice := .db (.run .epoch [])
  [.start 0 read, .step 0 (.cache .ok), .step 0 (.cache .ok), .step 0 (.flight .inTime),
    .start 1 read, .step 1 (.cache .ok), .step 1 (.cache .ok), .step 1 (.flight .inTime),
    .start 2 batch, .step 2 (.cache .ok), .step 2 (.cache .ok), .step 2 (.cache .ok),
    .step 2 (.order []), .step 2 (.flight .inTime), .step 2 (.flight .inTime),
    .step 0 rows, .step 0 (.flight .inTime), .step 1 (.flight .inTime), .step 1 (.flight .inTime),
    .step 1 (.flight .inTime), .step 2 rows, .step 2 (.flight .inTime), .step 2 (.flight .inTime),
    .step 2 (.flight .inTime), .step 2 (.cache .ok), .step 2 (.cache .ok),
    .step 2 (.flight .inTime), .step 2 (.flight .inTime), .step 2 (.flight .inTime),
    .step 0 (.flight .inTime), .step 0 (.flight .inTime), .step 0 (.cache .ok),
    .step 0 (.cache .ok), .step 0 (.flight .inTime)]

/-- The counts that a call has returned. -/
def countsReturned (cs : CallState CountRead SvcOp SvcOp.Ans CountResult) : Option (List I64) :=
  match cs with
  | .returned _ (.ok (.inl count)) => some [count]
  | .returned _ (.ok (.inr results)) => some (results.map BatchCountResult.count)
  | _ => none

/-- `leaderServes_of_meets` for the run `sharedFetch`, at whose end both followers have returned
    the leader's count. -/
theorem leaderServes_of_meets_sharedFetch :
    (patientReaders .default).recorded.machine.Along LeaderServes likedOnce sharedFetch ∧
    ∃ c, (patientReaders .default).recorded.machine.run likedOnce sharedFetch = some c ∧
      (c.shared.1.flights.chans (.lc "post" 7, 0)).map Channel.served = some [2, 1] ∧
      countsReturned (c.calls 1) = some [1] ∧ countsReturned (c.calls 2) = some [1, 0] := by
  have hview : ((patientReaders .default).recorded.machine.run likedOnce sharedFetch).map
      (fun c => ((c.shared.1.flights.chans (.lc "post" 7, 0)).map Channel.served,
        countsReturned (c.calls 1), countsReturned (c.calls 2))) =
      some (some [2, 1], some [1], some [1, 0]) := by decide +kernel
  have hquiet : (patientReaders .default).recorded.machine.meetsAll
      (fun c => quietStep (Pool.forget c)) likedOnce sharedFetch = true := by decide +kernel
  obtain ⟨c, hrun, hc⟩ := Option.map_eq_some_iff.mp hview
  obtain ⟨hserved, hcounts⟩ := Prod.mk.inj hc
  obtain ⟨hread, hbatch⟩ := Prod.mk.inj hcounts
  refine ⟨leaderServes_of_meets .default ⟨⟨rfl, rfl⟩, fun _ => rfl⟩ ?_, c, hrun, hserved, hread,
    hbatch⟩
  exact Machine.meets_of_meetsAll (fun c => undisturbed_of_quietStep (Pool.forget c)) hquiet

/-- The second reader subscribes after the leader has sent and before it has taken its entry
    out. -/
def lateFollower : List (Act ℕ CountRead SvcChoice) :=
  let read : CountRead := .getCountValue ("post", 7)
  let rows : SvcChoice := .db (.run .epoch [])
  [.start 0 read, .step 0 (.cache .ok), .step 0 (.cache .ok), .step 0 (.flight .inTime),
    .step 0 rows, .step 0 (.flight .inTime),
    .start 1 read, .step 1 (.cache .ok), .step 1 (.cache .ok), .step 1 (.flight .inTime),
    .step 0 (.flight .inTime), .step 0 (.flight .inTime), .step 0 (.cache .ok),
    .step 0 (.cache .ok), .step 0 (.flight .inTime),
    .step 1 (.flight .inTime), .step 1 rows, .step 1 (.flight .inTime)]

/-- In the run `lateFollower` the leader sends its count, but the follower is not served: it
    queries the database itself. -/
theorem followers_missed : ∃ c ch,
    (patientReaders .default).recorded.machine.run likedOnce lateFollower = some c ∧
    c.shared.1.flights.chans (.lc "post" 7, 0) = some ch ∧ ch.sent = some 1 ∧
    1 ∈ ch.followers ∧ 1 ∉ ch.served ∧ ¬ (c.calls 1).Active ∧ ¬ LeaderServes c := by
  have hview : ((patientReaders .default).recorded.machine.run likedOnce lateFollower).map
      (fun c => ((c.shared.1.flights.chans (.lc "post" 7, 0)).map fun ch =>
        (ch.sent, ch.followers, ch.served), decide (c.calls 1).Active)) =
      some (some (some 1, [1], []), false) := by decide +kernel
  obtain ⟨c, hrun, hc⟩ := Option.map_eq_some_iff.mp hview
  simp only [Prod.mk.injEq, Option.map_eq_some_iff, decide_eq_false_iff_not] at hc
  obtain ⟨⟨ch, hch, hsent, hfollowers, hserved⟩, hover⟩ := hc
  have hmem : 1 ∈ ch.followers := by rw [hfollowers]; exact List.mem_cons_self
  have hmissed : 1 ∉ ch.served := by rw [hserved]; exact List.not_mem_nil
  refine ⟨c, ch, hrun, hch, hsent, hmem, hmissed, hover, fun hall => ?_⟩
  rcases hall.ended _ ch 1 hch hmem hover with hs | hf
  · exact hmissed hs
  · rw [hf.1] at hsent
    cases hsent

end SocialApi.Services
