import SocialApi.Services.FollowSteps
import SocialApi.Services.FollowerReads
import SocialApi.Services.SteadyCounts
import SocialApi.Services.Effects

/-!
# Readers that wait for their leaders

Readers of counts whose waits do not time out and whose futures are not dropped, with a
record of what they do. A step is undisturbed (`Undisturbed`) if nobody subscribes to a
channel on which the count has been sent, and no database error is answered to a call with
an open subscription.

* `patientReaders_sound`: undisturbed steps keep `SharedInv`.
* `patientReaders_counts`: every count that a call has, it has from an operation in the record,
  and every count sent is in a row that the leader's own query was answered.
* `patientReaders_follow`: a count that was read from a channel is the one that was sent, and
  a follower has queried the key only if its leader has failed.
-/

namespace SocialApi.Services

open SocialApi.Concurrent SocialApi.Postgres SocialApi.PendingFetches

variable {ι : Type}

variable [DecidableEq ι]

/-- Readers whose futures are not dropped and whose waits do not time out. -/
def patientReaders (cfg : Config) : Pool ι (World ι) CountRead SvcOp SvcOp.Ans CountResult SvcChoice :=
  { countReaders cfg with
    handle := fun w i o x =>
      match x with
      | .flight .elapsed => none
      | x => handle cfg w i o x
    drop := fun _ _ => none }

/-- Nobody subscribes to a channel on which the count has been sent, and a call that is told of
    a database error has no open subscription with a leader that may still send. -/
structure Undisturbed (c : ReadersConfig ι) (a : Act ι CountRead SvcChoice) : Prop where
  subscribes : ∀ i x k key keep f id ch, a = .step i x →
    c.calls i = .running k (.op (.flight (.entry key keep)) f) →
    c.shared.flights.pending key = some id → c.shared.flights.chans id = some ch → ch.sent = none
  errors : ∀ i k message q f, a = .step i (.db (.fail message)) →
    c.calls i = .running k (.op (.db q) f) → ∀ id ch, c.shared.flights.chans id = some ch →
    i ∈ ch.followers → i ∈ ch.served ∨ Failed ch

theorem patientReaders_handle {cfg : Config} {w : World ι} {i : ι} {o : SvcOp} {x : SvcChoice}
    {r : World ι × o.Ans} (h : (patientReaders cfg).handle w i o x = some r) :
    handle cfg w i o x = some r ∧ x ≠ .flight .elapsed := by
  cases x with
  | flight y =>
    cases y with
    | inTime => exact ⟨h, nofun⟩
    | elapsed => cases h
  | _ => exact ⟨h, nofun⟩

/-- The queries of the two calls fail only if the database does. -/
theorem readQuery_ok {g : Stand} {q : DbOp} (hask : g.asks (.db q)) {s s' : DbState ι} {i : ι}
    {now : DateTime} {order : List ℕ} {e : SqlxError} :
    runStatement s i now order q ≠ some (s', .error e) := by
  intro h
  cases q with
  | countRow item => cases h
  | batchGetCounts items => cases h
  | _ => exact hask.elim

/-- Undisturbed steps keep the invariant; a call that starts must be new. -/
theorem patientReaders_sound (cfg : Config) :
    Pool.Sound (patientReaders (ι := ι) cfg) flightRules (fun _ => Stand.Done) (fun _ => .fresh)
      (fun w γ => SharedInv w.flights w.dbErrors γ)
      (fun c a => Undisturbed c a ∧ ∀ i k, a = .start i k → ∀ id ch,
        c.shared.flights.chans id = some ch → i ∉ ch.followers) where
  init w hw := by
    rw [show w.flights = .empty from hw]
    exact sharedInv_empty
  prog := CountRead.obeys cfg
  start c i k w γ ha h hγ hs := by
    cases hs
    exact h.start hγ (ha.2 i k rfl)
  handle c i x k o f w r γ g ha h _ hi hγ hask hs := by
    obtain ⟨hs, htime⟩ := patientReaders_handle hs
    obtain ⟨hfit, hleaders⟩ := h.leaders.handle hγ hask hs
    refine ⟨_, ⟨rfl, hfit⟩, ?_⟩
    cases o with
    | db q =>
      obtain ⟨y, db', rfl, hq, rfl⟩ := handle_db hs
      cases r with
      | ok rows =>
        show SharedInv _ _ (Function.update γ i (some g))
        rw [← hγ, Function.update_eq_self]
        exact h
      | error e =>
        cases y with
        | run now order => exact absurd hq (readQuery_ok hask)
        | fail message =>
          exact h.dbError hγ (ha.1.errors i k message q f rfl hi) hleaders
    | cache o =>
      obtain ⟨y, c', rfl, -, rfl⟩ := handle_cache hs
      show SharedInv _ _ (Function.update γ i (some g))
      rw [← hγ, Function.update_eq_self]
      exact h
    | flight o =>
      obtain ⟨y, f', rfl, hf, rfl⟩ := handle_flight hs
      refine h.handleFlight hγ hask hf (fun he => htime (he ▸ rfl)) fun key keep id ch ho => ?_
      subst ho
      exact ha.1.subscribes i _ k key keep f id ch rfl hi
    | hashOrder =>
      cases x with
      | order ks =>
        cases hs
        show SharedInv _ _ (Function.update γ i (some g))
        rw [← hγ, Function.update_eq_self]
        exact h
      | _ => cases hs
    | _ => exact hask.elim
  ret w i k γ g a h hγ hdone := h.over hγ hdone.1 hdone.2.1 hdone.2.2.1
  drop c i k p w γ g _ _ _ _ _ hs := by cases hs
  env c x w γ _ h hs := by
    cases x with
    | evict layer key => cases hs; exact h
    | _ => cases hs

/-! ## The record -/

/-- A configuration of readers with the record of their operations. -/
abbrev RecordedReaders (ι : Type) :=
  Configuration ι (World ι × List (Effect ι)) CountRead SvcOp SvcOp.Ans CountResult

/-- What `SharedInv` says of the readers. -/
def Shared (c : RecordedReaders ι) : Prop :=
  Pool.Inv flightRules (fun _ => Stand.Done) (fun w γ => SharedInv w.flights w.dbErrors γ)
    (Pool.forget c)

/-- `Shared`, and a call that starts has done nothing yet. -/
structure OnRecord (c : RecordedReaders ι) (a : Act ι CountRead SvcChoice) : Prop where
  shared : Shared c
  fresh : ∀ i k, a = .start i k → ∀ p ∈ c.shared.2, p.call ≠ i

/-- The answer `r` to the operation contains the count of the item, from this source. -/
def Source.Gave : Source → (o : SvcOp) → o.Ans → Item → I64 → Prop
  | .database, .db q, r, item, count => CountIn q r item count
  | .leader, .flight (.borrow rx), r, item, count =>
    countCacheKey item = rx.chan.1 ∧ r = some count
  | .redis, .cache o, r, item, count => ∃ key text, o.Shows r .redis key text ∧
      Tells key text item count
  | .l1, .cache o, r, item, count => ∃ key text, o.Shows r .l1 key text ∧
      Tells key text item count
  | _, _, _, _, _ => False

/-- The call has been given the count in an answer. -/
def Learned (log : List (Effect ι)) (i : ι) (source : Source) (item : Item) (count : I64) : Prop :=
  ∃ p ∈ log, p.call = i ∧ source.Gave p.op p.answer item count

omit [DecidableEq ι] in
theorem Learned.append {log : List (Effect ι)} {i : ι} {source : Source} {item : Item}
    {count : I64} (h : Learned log i source item count) (p : Effect ι) :
    Learned (log ++ [p]) i source item count := by
  obtain ⟨q, hq, hcall, hgave⟩ := h
  exact ⟨q, List.mem_append_left _ hq, hcall, hgave⟩

/-- A count in the log of a reader was there before, or is in the answer. -/
theorem has_next {cfg : Config} {g : CountLog} (hg : g.reads = true) {o : SvcOp}
    (hasks : g.asks cfg o) {r : o.Ans} {source : Source} {item : Item} {count : I64}
    (h : (g.next o r).has source item count) :
    g.has source item count ∨ source.Gave o r item count := by
  cases o with
  | db q =>
    have hafter : (g.afterDb q r).has source item count := h
    rw [afterDb_of_readsOnly (hasks.2 hg)] at hafter
    rcases hafter with hold | ⟨rfl, hgave⟩
    · exact Or.inl hold
    · exact Or.inr hgave
  | cache o =>
    cases o with
    | l1Get key =>
      rcases h with h | ⟨rfl, text, hr, htells⟩
      · exact Or.inl h
      · exact Or.inr ⟨key, text, ⟨rfl, rfl, hr⟩, htells⟩
    | redisGet key =>
      rcases h with h | ⟨rfl, text, hr, htells⟩
      · exact Or.inl h
      · exact Or.inr ⟨key, text, ⟨rfl, rfl, hr⟩, htells⟩
    | redisMget keys =>
      rcases h with h | ⟨rfl, texts, hr, key, text, hmem, htells⟩
      · exact Or.inl h
      · exact Or.inr ⟨key, text, ⟨rfl, texts, hr, hmem⟩, htells⟩
    | _ => exact Or.inl h
  | flight o =>
    cases o with
    | entry key keep =>
      cases r with
      | leader id => exact Or.inl h
      | follower rx => exact Or.inl h
    | changed rx =>
      cases r with
      | value => exact Or.inl h
      | closed => exact Or.inl h
      | timedOut => exact Or.inl h
    | borrow rx =>
      rcases h with h | ⟨rfl, hitem, hr⟩
      · exact Or.inl h
      · exact Or.inr ⟨hitem, hr⟩
    | _ => exact Or.inl h
  | _ => exact Or.inl h

/-- Whatever a reader has it was given, and what is sent on a channel its leader has been given
    by the database. -/
structure CountsLogged (s : World ι × List (Effect ι)) (γ : ι → Option CountLog) : Prop where
  reads : ∀ i g, γ i = some g → g.reads = true
  logged : ∀ i g source item count, γ i = some g → g.has source item count →
    Learned s.2 i source item count
  sent : ∀ id ch count, s.1.flights.chans id = some ch → ch.sent = some count →
    ∀ item, countCacheKey item = id.1 → Learned s.2 ch.leader .database item count
  only : ∀ p ∈ s.2, ∀ q, p.op = .db q → ReadsOnly q

/-- A call of which nothing is left. -/
theorem CountsLogged.over {s : World ι × List (Effect ι)} {γ : ι → Option CountLog}
    (h : CountsLogged s γ) (i : ι) : CountsLogged s (Function.update γ i none) := by
  have hold : ∀ j g, Function.update γ i none j = some g → γ j = some g := by
    intro j g hj
    by_cases hji : j = i
    · subst hji
      rw [Function.update_self] at hj
      cases hj
    · rwa [Function.update_of_ne hji] at hj
  exact ⟨fun j g hj => h.reads j g (hold j g hj),
    fun j g source item count hj => h.logged j g source item count (hold j g hj), h.sent,
    h.only⟩

/-- The channels after an operation: only the leader has sent, and nobody sends on a channel that
    has failed. -/
theorem Shared.goOn {c : RecordedReaders ι} (h : Shared c) {cfg : Config} {i : ι}
    {k : CountRead} {o : SvcOp} {f : o.Ans → Svc CountResult} {x : SvcChoice} {w : World ι}
    {r : o.Ans} (hi : c.calls i = .running k (.op o f))
    (hs : handle cfg c.shared.1 i o x = some (w, r)) :
    GoOn c.shared.1.flights w.flights i o r ∧ ∀ id ch ch',
      c.shared.1.flights.chans id = some ch → Continues c.shared.1.flights i o r id ch ch' →
      (ch'.sent = ch.sent ∨ ch.sent = none ∧ ch.leader = i ∧
        ∃ count, o = .flight (.send id count) ∧ ch'.sent = some count) ∧ (Failed ch → Failed ch') := by
  obtain ⟨γ, hshared, hF⟩ := h
  have hsender : ∀ id ch count, c.shared.1.flights.chans id = some ch →
      o = .flight (.send id count) → ch.leader = i ∧ ch.sent = none ∧ ch.senders ≠ [] := by
    rintro id ch count hch rfl
    have hFi := hF i
    rw [show (Pool.forget c).calls i = _ from hi] at hFi
    obtain ⟨g, hγ, hobeys⟩ := hFi
    obtain ⟨hleader, hnone, hsenders⟩ := (hshared.pair i g id ch hγ hch).unsent hobeys.1
    refine ⟨hleader, hnone, fun hnil => ?_⟩
    rw [hnil] at hsenders
    rcases hsenders with hm | hm
    · cases hm
    · cases hm
  refine ⟨goOn_of_handle hshared.leaders.keyed hshared.leaders.fresh hs,
    fun id ch ch' hch hc => ⟨hc.sent.imp_right ?_, fun hfailed => ⟨?_, ?_⟩⟩⟩
  · rintro ⟨count, ho, hsent⟩
    obtain ⟨hleader, hnone, -⟩ := hsender id ch count hch ho
    exact ⟨hnone, hleader, count, ho, hsent⟩
  · rcases hc.sent with hsame | ⟨count, ho, -⟩
    · rw [hsame, hfailed.1]
    · exact absurd hfailed.2 (hsender id ch count hch ho).2.2
  · refine (hc.closed hfailed.2).resolve_right fun hp => ?_
    have hmap := (hshared.chan id ch hch).inMap hp
    rw [hfailed.2] at hmap
    cases hmap

/-- The counts of the readers, whose answers are all in the record. -/
theorem patientReaders_counts (cfg : Config) :
    Pool.Keeps (patientReaders (ι := ι) cfg).recorded (countSources cfg) CountRead.Answers
      (fun _ => .fresh true) CountsLogged OnRecord where
  prog := CountRead.sources cfg
  start c i k s γ _ h _ hs := by
    cases hs
    refine ⟨fun j g hj => ?_, fun j g source item count hj hhas => ?_, h.sent, h.only⟩
    · rcases Pool.ghost_of_update hj with ⟨rfl, ⟨⟩⟩ | ⟨-, hj⟩
      · rfl
      · exact h.reads j g hj
    · rcases Pool.ghost_of_update hj with ⟨rfl, ⟨⟩⟩ | ⟨-, hj⟩
      · exact hhas.elim
      · exact h.logged j g source item count hj hhas
  handle c i x k o f s r γ g hrec h _ hi hγ hasks hs := by
    obtain ⟨w, hw, rfl⟩ := Pool.recorded_handle hs
    obtain ⟨hw, -⟩ := patientReaders_handle hw
    have hg := h.reads i g hγ
    have hgrows := logGrows_next hg hasks r
    refine ⟨_, ⟨rfl, ?_⟩, fun j g' hj => ?_, fun j g' source item count hj hhas => ?_,
      fun id ch' count hch' hsent item hitem => ?_, fun p hp q hq => ?_⟩
    · cases o with
      | db q =>
        cases q with
        | decrementCount item => exact (hasks.2 hg).elim
        | _ => trivial
      | flight o =>
        obtain ⟨γ₁, hshared, -⟩ := hrec.shared
        obtain ⟨y, flights', -, hflight, -⟩ := handle_flight hw
        cases o with
        | entry key keep =>
          obtain ⟨hleader, hfollower⟩ := Keyed.entry hshared.leaders.keyed hflight
          cases r with
          | leader id => exact hleader id rfl
          | follower rx => exact (hfollower rx rfl).1
        | remove key => exact Keyed.remove hshared.leaders.keyed hflight
        | _ => trivial
      | _ => trivial
    · rcases Pool.ghost_of_update hj with ⟨rfl, ⟨⟩⟩ | ⟨-, hj⟩
      · exact hgrows.reads
      · exact h.reads j g' hj
    · rcases Pool.ghost_of_update hj with ⟨rfl, ⟨⟩⟩ | ⟨-, hj⟩
      · rcases has_next hg hasks hhas with hold | hgave
        · exact (h.logged _ g source item count hγ hold).append _
        · exact ⟨_, List.mem_append_right _ (List.mem_singleton_self _), rfl, hgave⟩
      · exact (h.logged j g' source item count hj hhas).append _
    · obtain ⟨⟨hgo, hnew⟩, hsend⟩ := hrec.shared.goOn hi hw
      cases hch : c.shared.1.flights.chans id with
      | none =>
        rw [(hnew id ch' hch' hch).sent] at hsent
        cases hsent
      | some ch =>
        obtain ⟨ch₁, hch₁, hc⟩ := hgo id ch hch
        cases hch₁.symm.trans hch'
        rw [hc.leader]
        rcases (hsend id ch ch' hch hc).1 with hsame | ⟨-, hmine, count', rfl, hsent'⟩
        · exact (h.sent id ch count hch (hsame.symm.trans hsent) item hitem).append _
        · obtain rfl := Option.some.inj (hsent'.symm.trans hsent)
          rw [hmine]
          exact (h.logged i g .database item count' hγ (hasks item hitem)).append _
    · rcases List.mem_append.mp hp with hp | hp
      · exact h.only p hp q hq
      · rw [List.mem_singleton.mp hp] at hq
        subst hq
        exact hasks.2 hg
  ret s i k γ g a h _ _ := h.over i
  drop c i k p s γ g _ _ _ _ _ hs := by cases hs
  env c x s γ _ h hs := by
    cases x with
    | evict layer key => cases hs; exact ⟨h.reads, h.logged, h.sent, h.only⟩
    | _ => cases hs

/-! ## Followers -/

/-- The operation asks the database for the count of the key. -/
def Effect.AsksFor (p : Effect ι) (key : CacheKey) : Prop := ∃ q, p.op = .db q ∧ Queries q key

/-- The answer to the operation is this count from the channel. -/
def ReadFrom : (o : SvcOp) → o.Ans → ChanId → I64 → Prop
  | .flight (.borrow rx), r, id, count => rx.chan = id ∧ r = some count
  | _, _, _, _ => False

/-- What the calls have heard and read is what was sent to them, and a follower has asked for the
    key only if its leader has failed. -/
structure FollowLogged (s : World ι × List (Effect ι)) (γ : ι → Option Following) : Prop where
  queried : ∀ i g, γ i = some g → ∀ p ∈ s.2, p.call = i → ∀ key, p.AsksFor key → g.queried key
  heard : ∀ i g, γ i = some g → ∀ id,
    id ∈ g.heard ↔ ∃ ch, s.1.flights.chans id = some ch ∧ i ∈ ch.served
  read : ∀ i g, γ i = some g → ∀ e ∈ g.read,
    ∃ ch, s.1.flights.chans e.1 = some ch ∧ ch.sent = some e.2
  followed : ∀ id ch, s.1.flights.chans id = some ch → ∀ j ∈ ch.followers, ∃ p ∈ s.2, p.call = j
  served : ∀ id ch, s.1.flights.chans id = some ch → ∀ j ∈ ch.served, j ∈ ch.followers
  given : ∀ p ∈ s.2, ∀ id count, ReadFrom p.op p.answer id count →
    ∃ ch, s.1.flights.chans id = some ch ∧ ch.sent = some count ∧ p.call ∈ ch.followers
  missed : ∀ id ch, s.1.flights.chans id = some ch → ∀ p ∈ s.2, p.AsksFor id.1 →
    p.call ∈ ch.followers → Failed ch

/-- A call of which nothing is left. -/
theorem FollowLogged.over {s : World ι × List (Effect ι)} {γ : ι → Option Following}
    (h : FollowLogged s γ) (i : ι) : FollowLogged s (Function.update γ i none) := by
  have hold : ∀ j g, Function.update γ i none j = some g → γ j = some g := by
    intro j g hj
    rcases Pool.ghost_of_update hj with ⟨-, ⟨⟩⟩ | ⟨-, hj⟩
    exact hj
  exact ⟨fun j g hj => h.queried j g (hold j g hj), fun j g hj => h.heard j g (hold j g hj),
    fun j g hj => h.read j g (hold j g hj), h.followed, h.served, h.given, h.missed⟩

/-- A call that has done nothing follows nothing. -/
theorem FollowLogged.start {s : World ι × List (Effect ι)} {γ : ι → Option Following}
    (h : FollowLogged s γ) {i : ι} (hfresh : ∀ p ∈ s.2, p.call ≠ i) :
    FollowLogged s (Function.update γ i (some .fresh)) := by
  refine ⟨fun j g hj => ?_, fun j g hj => ?_, fun j g hj => ?_, h.followed, h.served, h.given,
    h.missed⟩
  · rcases Pool.ghost_of_update hj with ⟨rfl, ⟨⟩⟩ | ⟨-, hj⟩
    · exact fun p hp hcall => absurd hcall (hfresh p hp)
    · exact h.queried j g hj
  · rcases Pool.ghost_of_update hj with ⟨rfl, ⟨⟩⟩ | ⟨-, hj⟩
    · refine fun id => ⟨fun hid => absurd hid List.not_mem_nil, ?_⟩
      rintro ⟨ch, hch, hserved⟩
      obtain ⟨p, hp, hcall⟩ := h.followed id ch hch j (h.served id ch hch j hserved)
      exact absurd hcall (hfresh p hp)
    · exact h.heard j g hj
  · rcases Pool.ghost_of_update hj with ⟨rfl, ⟨⟩⟩ | ⟨-, hj⟩
    · exact fun e he => absurd he List.not_mem_nil
    · exact h.read j g hj

section Operation

variable {c : RecordedReaders ι} {cfg : Config} {i : ι} {k : CountRead} {o : SvcOp}
  {f : o.Ans → Svc CountResult} {x : SvcChoice} {w : World ι} {r : o.Ans}

/-- What a call reads from a channel is what was sent on it, to it among others. -/
theorem Shared.readFrom (h : Shared c) {γ : ι → Option Following} {g : Following}
    (hlogged : FollowLogged c.shared γ) (hγ : γ i = some g) (hasks : g.asks o)
    (hs : handle cfg c.shared.1 i o x = some (w, r)) {id : ChanId} {count : I64}
    (hread : ReadFrom o r id count) :
    ∃ ch, w.flights.chans id = some ch ∧ ch.sent = some count ∧ i ∈ ch.followers := by
  obtain ⟨γ₁, hshared, -⟩ := h
  cases o with
  | flight o =>
    cases o with
    | borrow rx =>
      obtain ⟨rfl, rfl⟩ := hread
      obtain ⟨y, flights', -, hflight, rfl⟩ := handle_flight hs
      obtain ⟨ch, hch, hserved⟩ := (hlogged.heard i g hγ rx.chan).mp hasks
      simp only [PendingFetches.handle, hch, Option.bind_some, Option.some.injEq,
        Prod.mk.injEq] at hflight
      obtain ⟨rfl, hvalue⟩ := hflight
      have hne : ch.value ≠ none := by
        rw [hvalue]
        exact Option.some_ne_none _
      refine ⟨ch, hch, ?_, hlogged.served rx.chan ch hch i hserved⟩
      rw [← (hshared.chan rx.chan ch hch).value hne, hvalue]
    | _ => exact hread.elim
  | _ => exact hread.elim

omit [DecidableEq ι] in
/-- A call that hears of a count follows the channel. -/
theorem Shared.hears (h : Shared c) (hi : c.calls i = .running k (.op o f)) {id : ChanId}
    {ch : Channel ι} (hch : c.shared.1.flights.chans id = some ch) (hears : Hears o r id) :
    i ∈ ch.followers := by
  obtain ⟨γ, hshared, hF⟩ := h
  cases o with
  | flight o =>
    cases o with
    | changed rx =>
      cases r with
      | value =>
        obtain rfl : rx.chan = id := hears
        have hFi := hF i
        rw [show (Pool.forget c).calls i = _ from hi] at hFi
        obtain ⟨g, hγ, hobeys⟩ := hFi
        exact ((hshared.pair i g rx.chan ch hγ hch).waiting rx hobeys.1.1 rfl).2.2.1
      | closed => exact hears.elim
      | timedOut => exact hears.elim
    | _ => exact hears.elim
  | _ => exact hears.elim

omit [DecidableEq ι] in
/-- A follower that queries the key has a leader that has failed. -/
theorem Shared.queries (h : Shared c) (hi : c.calls i = .running k (.op o f)) {q : DbOp}
    (ho : o = .db q) {id : ChanId} {ch : Channel ι} (hch : c.shared.1.flights.chans id = some ch)
    (hq : Queries q id.1) (hfollows : i ∈ ch.followers) : Failed ch := by
  subst ho
  obtain ⟨γ, hshared, hF⟩ := h
  have hFi := hF i
  rw [show (Pool.forget c).calls i = _ from hi] at hFi
  obtain ⟨g, hγ, hobeys⟩ := hFi
  have hask : g.asks (.db q) := hobeys.1
  refine ((hshared.pair i g id ch hγ hch).followed hfollows).resolve_left fun hm => ?_
  cases q with
  | countRow item => exact hask (hq ▸ hm)
  | batchGetCounts items =>
    obtain ⟨item, hitem, hkey⟩ := hq
    exact hask item hitem (hkey ▸ hm)
  | _ => exact hq.elim

/-- The keys a call has asked for after an operation. -/
theorem Following.queried_next {g : Following} {key : CacheKey}
    (h : g.queried key ∨ ∃ q, o = .db q ∧ Queries q key) : (g.next o r).queried key := by
  rcases h with hold | ⟨q, rfl, hq⟩
  · cases o with
    | db q => exact Or.inl hold
    | flight o =>
      cases o with
      | changed rx => cases r <;> exact hold
      | borrow rx => cases r <;> exact hold
      | _ => exact hold
    | _ => exact hold
  · exact Or.inr hq

/-- The counts a call has read after an operation. -/
theorem Following.mem_read_next {g : Following} {e : ChanId × I64} (h : e ∈ (g.next o r).read) :
    e ∈ g.read ∨ ReadFrom o r e.1 e.2 := by
  cases o with
  | flight o =>
    cases o with
    | changed rx => cases r <;> exact Or.inl h
    | borrow rx =>
      cases r with
      | none => exact Or.inl h
      | some count =>
        rcases List.mem_cons.mp h with rfl | h
        · exact Or.inr ⟨rfl, rfl⟩
        · exact Or.inl h
    | _ => exact Or.inl h
  | _ => exact Or.inl h

/-- What has been sent on a channel stays, and nobody stops following it. -/
theorem Shared.sent_next (h : Shared c) (hi : c.calls i = .running k (.op o f))
    (hs : handle cfg c.shared.1 i o x = some (w, r)) {id : ChanId} {ch : Channel ι} {count : I64}
    (hch : c.shared.1.flights.chans id = some ch) (hcount : ch.sent = some count) :
    ∃ ch', w.flights.chans id = some ch' ∧ ch'.sent = some count ∧
      ∀ j ∈ ch.followers, j ∈ ch'.followers := by
  obtain ⟨hgo, hkept⟩ := h.goOn hi hs
  obtain ⟨ch', hch', hc⟩ := hgo.1 id ch hch
  refine ⟨ch', hch', ?_, fun j hj => hc.mem_followers hj⟩
  rcases (hkept id ch ch' hch hc).1 with hsame | ⟨hnone, -⟩
  · rw [hsame, hcount]
  · rw [hnone] at hcount
    cases hcount

/-- Who has been served on a channel after an operation. -/
theorem GoOn.served_iff (hgo : GoOn c.shared.1.flights w.flights i o r)
    (hs : handle cfg c.shared.1 i o x = some (w, r)) {j : ι} {id : ChanId} :
    (∃ ch', w.flights.chans id = some ch' ∧ j ∈ ch'.served) ↔
      (∃ ch, c.shared.1.flights.chans id = some ch ∧ j ∈ ch.served) ∨ j = i ∧ Hears o r id := by
  constructor
  · rintro ⟨ch', hch', hj⟩
    rcases hgo.back hch' with hfree | ⟨ch, hch, hc⟩
    · rw [hfree.served] at hj
      cases hj
    · exact (hc.mem_served.mp hj).imp_left fun hj => ⟨ch, hch, hj⟩
  · intro hj
    have hch : ∃ ch, c.shared.1.flights.chans id = some ch := by
      rcases hj with ⟨ch, hch, -⟩ | ⟨-, hears⟩
      · exact ⟨ch, hch⟩
      · exact exists_of_hears hs hears
    obtain ⟨ch, hch⟩ := hch
    obtain ⟨ch', hch', hc⟩ := hgo.1 id ch hch
    refine ⟨ch', hch', hc.mem_served.mpr (hj.imp_left ?_)⟩
    rintro ⟨ch₁, hch₁, hj⟩
    cases hch.symm.trans hch₁
    exact hj

/-- A follower that has asked for the key, before or by this operation, has a leader that has
    failed. -/
theorem FollowLogged.missed_next {γ : ι → Option Following} {g : Following}
    (h : FollowLogged c.shared γ) (hshared : Shared c) (hi : c.calls i = .running k (.op o f))
    (hγ : γ i = some g) (hasks : g.asks o) (hs : handle cfg c.shared.1 i o x = some (w, r))
    {id : ChanId} {ch' : Channel ι} (hch' : w.flights.chans id = some ch') {p : Effect ι}
    (hp : p ∈ c.shared.2 ++ [⟨i, o, r, c.shared.1, w⟩]) (hasked : p.AsksFor id.1)
    (hj : p.call ∈ ch'.followers) : Failed ch' := by
  obtain ⟨hgo, hkept⟩ := hshared.goOn hi hs
  obtain ⟨ch, hch, hc, hfollows⟩ := hgo.follower hch' hj
  refine (hkept id ch ch' hch hc).2 ?_
  rcases List.mem_append.mp hp with hold | hnew
  · refine h.missed id ch hch p hold hasked (hfollows.resolve_right ?_)
    -- a call does not subscribe to a key that it has asked for
    rintro ⟨hcall, keep, rfl⟩
    exact hasks (h.queried i g hγ p hold hcall id.1 hasked)
  · rw [List.mem_singleton.mp hnew] at hfollows hasked
    obtain ⟨q, rfl, hq⟩ := hasked
    refine hshared.queries hi rfl hch hq (hfollows.resolve_right ?_)
    rintro ⟨-, keep, ho⟩
    cases ho

/-- What one operation adds to the record. -/
theorem FollowLogged.handle {γ : ι → Option Following} {g : Following}
    (h : FollowLogged c.shared γ) (hshared : Shared c) (hi : c.calls i = .running k (.op o f))
    (hγ : γ i = some g) (hasks : g.asks o) (hs : handle cfg c.shared.1 i o x = some (w, r)) :
    FollowLogged (w, c.shared.2 ++ [⟨i, o, r, c.shared.1, w⟩])
      (Function.update γ i (some (g.next o r))) := by
  have hgo := (hshared.goOn hi hs).1
  have hmine : ∀ p ∈ [(⟨i, o, r, c.shared.1, w⟩ : Effect ι)], p = ⟨i, o, r, c.shared.1, w⟩ :=
    fun p hp => List.mem_singleton.mp hp
  refine ⟨fun j g' hj p hp hcall key hasked => ?_, fun j g' hj id => ?_, fun j g' hj e he => ?_,
    fun id ch' hch' j hj => ?_, fun id ch' hch' j hj => ?_, fun p hp id count hread => ?_,
    fun id ch' hch' p hp hasked hj => h.missed_next hshared hi hγ hasks hs hch' hp hasked hj⟩
  · rcases Pool.ghost_of_update hj with ⟨rfl, ⟨⟩⟩ | ⟨hji, hj⟩
    · refine Following.queried_next ?_
      rcases List.mem_append.mp hp with hp | hp
      · exact Or.inl (h.queried _ g hγ p hp hcall key hasked)
      · rw [hmine p hp] at hasked
        exact Or.inr hasked
    · rcases List.mem_append.mp hp with hp | hp
      · exact h.queried j g' hj p hp hcall key hasked
      · rw [hmine p hp] at hcall
        exact absurd hcall.symm hji
  · rw [hgo.served_iff hs]
    rcases Pool.ghost_of_update hj with ⟨rfl, ⟨⟩⟩ | ⟨hji, hj⟩
    · rw [Following.mem_heard_next, h.heard _ g hγ id]
      exact or_congr_right (and_iff_right rfl).symm
    · rw [h.heard j g' hj id]
      exact (or_iff_left fun hh => hji hh.1).symm
  · have hread : (∃ ch, c.shared.1.flights.chans e.1 = some ch ∧ ch.sent = some e.2) →
        ∃ ch', w.flights.chans e.1 = some ch' ∧ ch'.sent = some e.2 := by
      rintro ⟨ch, hch, hcount⟩
      obtain ⟨ch', hch', hcount', -⟩ := hshared.sent_next hi hs hch hcount
      exact ⟨ch', hch', hcount'⟩
    rcases Pool.ghost_of_update hj with ⟨rfl, ⟨⟩⟩ | ⟨-, hj⟩
    · rcases Following.mem_read_next he with he | hfrom
      · exact hread (h.read _ g hγ e he)
      · obtain ⟨ch', hch', hcount, -⟩ := hshared.readFrom h hγ hasks hs hfrom
        exact ⟨ch', hch', hcount⟩
    · exact hread (h.read j g' hj e he)
  · obtain ⟨ch, hch, -, hj | ⟨rfl, -⟩⟩ := hgo.follower hch' hj
    · obtain ⟨p, hp, hcall⟩ := h.followed id ch hch j hj
      exact ⟨p, List.mem_append_left _ hp, hcall⟩
    · exact ⟨_, List.mem_append_right _ (List.mem_singleton_self _), rfl⟩
  · rcases hgo.back hch' with hfree | ⟨ch, hch, hc⟩
    · rw [hfree.served] at hj
      cases hj
    · refine hc.mem_followers ?_
      rcases hc.mem_served.mp hj with hj | ⟨rfl, hears⟩
      · exact h.served id ch hch j hj
      · exact hshared.hears hi hch hears
  · rcases List.mem_append.mp hp with hp | hp
    · obtain ⟨ch, hch, hcount, hfollows⟩ := h.given p hp id count hread
      obtain ⟨ch', hch', hcount', hkeep⟩ := hshared.sent_next hi hs hch hcount
      exact ⟨ch', hch', hcount', hkeep _ hfollows⟩
    · rw [hmine p hp] at hread ⊢
      exact hshared.readFrom h hγ hasks hs hread

end Operation

/-- What the readers have heard and read is in the record. -/
theorem patientReaders_follow (cfg : Config) :
    Pool.Keeps (patientReaders (ι := ι) cfg).recorded readRules Following.Ends
      (fun _ => .fresh) FollowLogged OnRecord where
  prog := CountRead.reads cfg
  start c i k s γ hrec h _ hs := by
    cases hs
    exact h.start (hrec.fresh i k rfl)
  handle c i x k o f s r γ g hrec h _ hi hγ hasks hs := by
    obtain ⟨w, hw, rfl⟩ := Pool.recorded_handle hs
    obtain ⟨hw, -⟩ := patientReaders_handle hw
    refine ⟨_, ⟨rfl, ?_⟩, h.handle hrec.shared hi hγ hasks hw⟩
    cases o with
    | flight o =>
      cases o with
      | borrow rx =>
        obtain ⟨γ₁, hshared, hF⟩ := hrec.shared
        have hFi := hF i
        rw [show (Pool.forget c).calls i = _ from hi] at hFi
        obtain ⟨g₁, hγ₁, hobeys⟩ := hFi
        have hask : g₁.asks (.flight (.borrow rx)) := hobeys.1
        exact (hshared.leaders.handle hγ₁ hask hw).1
      | _ => trivial
    | _ => trivial
  ret s i k γ g a h _ _ := h.over i
  drop c i k p s γ g _ _ _ _ _ hs := by cases hs
  env c x s γ _ h hs := by
    cases x with
    | evict layer key =>
      cases hs
      exact ⟨h.queried, h.heard, h.read, h.followed, h.served, h.given, h.missed⟩
    | _ => cases hs

end SocialApi.Services
