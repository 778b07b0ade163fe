import SocialApi.Services.PendingLeaders

/-!
# What a follower makes of the leader's count

A call remembers (`Following`) which keys it has asked the database for, on which
channels a wait of its has ended with a value, and which counts it has read there. As a
protocol (`readRules`): a key is looked up in `pending_fetches` before it is queried.

* `CountRead.reads`: when a call ends it has read a count from every channel on which it has
  seen a value, and a call of `get_count_value` returns that count.
* `goOn_of_handle`: what one operation does to the history of a channel.
-/

namespace SocialApi.Services

open SocialApi.Concurrent SocialApi.Postgres SocialApi.PendingFetches

/-- The query asks for the count of the key. -/
def Queries : DbOp → CacheKey → Prop
  | .countRow item, key => countCacheKey item = key
  | .batchGetCounts items, key => ∃ item ∈ items, countCacheKey item = key
  | _, _ => False

/-- What a call has asked and heard. -/
structure Following where
  /-- The keys it has asked the database for. -/
  queried : CacheKey → Prop
  /-- The channels on which its wait has ended with a value. -/
  heard : List ChanId
  /-- The counts it has read, each with its channel. -/
  read : List (ChanId × I64)

namespace Following

/-- A call that has asked nothing. -/
def fresh : Following := ⟨fun _ => False, [], []⟩

/-- The operations allowed. -/
def asks (g : Following) : SvcOp → Prop
  | .flight (.entry key _) => ¬ g.queried key
  | .flight (.borrow rx) => rx.chan ∈ g.heard
  | _ => True

/-- What there is after the answer to an operation. -/
def next (g : Following) : (o : SvcOp) → o.Ans → Following
  | .db q, _ => { g with queried := fun key => g.queried key ∨ Queries q key }
  | .flight (.changed rx), .value => { g with heard := rx.chan :: g.heard }
  | .flight (.borrow rx), some count => { g with read := (rx.chan, count) :: g.read }
  | _, _ => g

/-- A channel on which a value has been seen has one to be read. -/
def Fits : (o : SvcOp) → o.Ans → Prop
  | .flight (.borrow _), r => r ≠ none
  | _, _ => True

/-- Every count that was there to be read has been read. -/
def Settled (g : Following) : Prop := ∀ id ∈ g.heard, ∃ count, (id, count) ∈ g.read

theorem settled_fresh : Settled fresh := fun _ h => absurd h List.not_mem_nil

end Following

/-- Looking up before querying, and reading what has been seen, as a protocol. -/
def readRules : Protocol SvcOp SvcOp.Ans Following where
  asks := Following.asks
  answers g o r g' := g' = g.next o r ∧ Following.Fits o r

section Reads

variable {α : Type} {Q : Following → α → Prop} {g : Following}

/-- The cache has nothing to do with it. -/
theorem cache_reads {p : Cache.CacheM α} (hQ : ∀ a, Q g a) : readRules.Obeys Q g (cache p) := by
  have hp : (cache p).All fun o => ∃ o', o = .cache o' :=
    Prog.All.lift (Prog.all_of_forall (fun o => ⟨o, rfl⟩) p)
  refine Protocol.obeys_of_all ?_ hp hQ
  rintro o ⟨o', rfl⟩
  exact ⟨trivial, fun r g' hr => hr.1⟩

/-- Waiting for a subscription: what is there is read. -/
theorem awaitSharedCount_reads (rx : Receiver) (hg : g.Settled) :
    readRules.Obeys (fun g' result => g'.Settled ∧
      ∀ e ∈ g'.read, e ∈ g.read ∨ result = some e.2) g (awaitSharedCount rx) := by
  refine ⟨trivial, ?_⟩
  rintro (_ | _ | _) g' ⟨rfl, -⟩
  · refine ⟨List.mem_cons_self, ?_⟩
    rintro (_ | count) g' ⟨rfl, hsome⟩
    · exact absurd rfl hsome
    · refine ⟨fun id hid => ?_, fun e he => ?_⟩
      · rcases List.mem_cons.mp hid with rfl | hid
        · exact ⟨count, List.mem_cons_self⟩
        · obtain ⟨count', hread⟩ := hg id hid
          exact ⟨count', List.mem_cons_of_mem _ hread⟩
      · rcases List.mem_cons.mp he with rfl | he
        · exact Or.inr rfl
        · exact Or.inl he
  · exact ⟨hg, fun e he => Or.inl he⟩
  · exact ⟨hg, fun e he => Or.inl he⟩

theorem removePending_reads (key : CacheKey) {Q : Following → Unit → Prop} (hQ : Q g ()) :
    readRules.Obeys Q g (removePending key) := by
  refine ⟨trivial, ?_⟩
  rintro (_ | tx) g' ⟨rfl, -⟩
  · exact hQ
  · refine ⟨trivial, ?_⟩
    rintro r g' ⟨rfl, -⟩
    exact hQ

/-- One query: nothing else is heard or read. -/
theorem getCount_reads (item : Item) : readRules.Obeys (fun g' _ => g'.heard = g.heard ∧
    g'.read = g.read) g (db (Repositories.getCount item)) := by
  refine ⟨trivial, ?_⟩
  rintro (error | row) g' ⟨rfl, -⟩
  · exact ⟨rfl, rfl⟩
  · exact ⟨rfl, rfl⟩

/-! ## One item -/

/-- A call of `get_count_value` that has read a count returns it. -/
def Following.Returned (g : Following) (result : Except AppError I64) : Prop :=
  g.Settled ∧ ∀ e ∈ g.read, result = .ok e.2

theorem followCount_reads (item : Item) (rx : Receiver) (hg : g.Settled) (hread : g.read = []) :
    readRules.Obeys Following.Returned g (followCount item rx) := by
  refine (awaitSharedCount_reads rx hg).bind ?_
  rintro g (_ | count) ⟨hg, hold⟩
  · have hnone : g.read = [] := by
      refine List.eq_nil_iff_forall_not_mem.mpr fun e he => ?_
      rcases hold e he with he | he
      · rw [hread] at he
        cases he
      · cases he
    refine (getCount_reads item).bind ?_
    rintro g' result ⟨hheard, hread'⟩
    refine ⟨trivial, ?_⟩
    rintro r g' ⟨rfl, -⟩
    refine ⟨fun id hid => ?_, fun e he => ?_⟩
    · have hid : id ∈ g'.heard := hid
      rw [hheard] at hid
      obtain ⟨n, hn⟩ := hg id hid
      rw [hnone] at hn
      cases hn
    · have he : e ∈ g'.read := he
      rw [hread', hnone] at he
      cases he
  · refine ⟨trivial, ?_⟩
    rintro r g ⟨rfl, -⟩
    refine ⟨hg, fun e he => ?_⟩
    rcases hold e he with he | he
    · rw [hread] at he
      cases he
    · rw [Option.some.inj he]

theorem leadCount_reads (cfg : Config) (item : Item) (tx : ChanId) (hheard : g.heard = [])
    (hread : g.read = []) : readRules.Obeys Following.Returned g (leadCount cfg item tx) := by
  have hdone : ∀ g' : Following, g'.heard = [] → g'.read = [] → ∀ result, g'.Returned result := by
    intro g' hh hr result
    refine ⟨fun id hid => ?_, fun e he => ?_⟩
    · rw [hh] at hid
      cases hid
    · rw [hr] at he
      cases he
  refine (getCount_reads item).bind ?_
  rintro g' (error | count) ⟨hheard', hread'⟩
  · refine (removePending_reads _ (Q := fun g'' _ => g'' = g') rfl).bind ?_
    rintro g'' - rfl
    refine ⟨trivial, ?_⟩
    rintro r g ⟨rfl, -⟩
    exact hdone _ (hheard'.trans hheard) (hread'.trans hread) _
  · refine ⟨trivial, ?_⟩
    rintro r g' ⟨rfl, -⟩
    refine (removePending_reads _ (Q := fun g'' _ => g'' = g') rfl).bind ?_
    rintro g' - rfl
    refine (cache_reads (Q := fun g'' _ => g'' = g') fun _ => rfl).bind ?_
    rintro g' - rfl
    refine ⟨trivial, ?_⟩
    rintro r g' ⟨rfl, -⟩
    exact hdone _ (hheard'.trans hheard) (hread'.trans hread) _

theorem getCountValue_reads (cfg : Config) (item : Item) :
    readRules.Obeys Following.Returned .fresh (getCountValue cfg item) := by
  refine (cache_reads (Q := fun g _ => g = .fresh) fun _ => rfl).bind ?_
  rintro g cached rfl
  cases hhit : cached.bind I64.parse with
  | some count => exact ⟨Following.settled_fresh, fun e he => absurd he List.not_mem_nil⟩
  | none =>
    refine ⟨id, ?_⟩
    rintro (tx | rx) g ⟨rfl, -⟩
    · exact leadCount_reads cfg item tx rfl rfl
    · exact followCount_reads item rx Following.settled_fresh rfl

/-! ## Many items -/

/-- What the loops over keys that are led leave alone. -/
def SameReads {α : Type} (g₀ g : Following) (_ : α) : Prop := g = g₀

theorem electLoop_reads (items : List Item) (missing : MissingMap) (keys : List CacheKey)
    (e : Election) (hqueried : ∀ key, ¬ g.queried key) :
    readRules.Obeys (SameReads g) g (electLoop items missing keys e) := by
  induction keys generalizing e with
  | nil => rfl
  | cons key keys ih =>
    refine ⟨hqueried key, ?_⟩
    rintro (tx | rx) g' ⟨rfl, -⟩
    · exact ih _
    · exact ih _

theorem leaderLoop_reads (cfg : Config) (items : List Item) (missing : MissingMap)
    (countMap : Item → Option I64) (keys : List CacheKey) (results : List BatchCountResult)
    (entries : List (CacheKey × String × ℕ)) : readRules.Obeys (SameReads g) g
      (leaderLoop cfg items missing countMap keys results entries) := by
  induction keys generalizing results entries with
  | nil => rfl
  | cons key keys ih =>
    refine ⟨trivial, ?_⟩
    rintro (_ | tx) g' ⟨rfl, -⟩
    · exact ih _ _
    · refine ⟨trivial, ?_⟩
      rintro r g' ⟨rfl, -⟩
      refine ⟨trivial, ?_⟩
      rintro r g' ⟨rfl, -⟩
      exact ih _ _

theorem removeLoop_reads (keys : List CacheKey) :
    readRules.Obeys (SameReads g) g (removeLoop keys) := by
  induction keys with
  | nil => rfl
  | cons key keys ih =>
    refine (removePending_reads key (Q := SameReads g) rfl).bind ?_
    rintro g' - rfl
    exact ih

theorem dropReceivers_reads (rxs : List (CacheKey × Receiver)) :
    readRules.Obeys (SameReads g) g (dropReceivers rxs) := by
  induction rxs with
  | nil => rfl
  | cons x rxs ih =>
    refine ⟨trivial, ?_⟩
    rintro r g' ⟨rfl, -⟩
    exact ih

theorem followerLoop_reads (cfg : Config) (items : List Item) (missing : MissingMap)
    (rxs : List (CacheKey × Receiver)) (results : List BatchCountResult) (hg : g.Settled) :
    readRules.Obeys (fun g' _ => g'.Settled) g (followerLoop cfg items missing rxs results) := by
  induction rxs generalizing g results with
  | nil => exact hg
  | cons x rxs ih =>
    obtain ⟨key, rx⟩ := x
    -- the rest of the loop, once this subscription is done with
    have hrest : ∀ (g : Following) results, g.Settled → readRules.Obeys (fun g' _ => g'.Settled) g
        (flight (.dropReceiver rx) >>= fun _ => followerLoop cfg items missing rxs results) := by
      intro g results hg
      refine ⟨trivial, ?_⟩
      rintro r g' ⟨rfl, -⟩
      exact ih results hg
    refine (awaitSharedCount_reads rx hg).bind ?_
    rintro g (_ | count) ⟨hg, -⟩
    · cases firstItem items missing key with
      | none => exact hrest g _ hg
      | some item =>
        refine (getCount_reads item).bind ?_
        rintro g' (error | count) ⟨hheard, hread⟩
        · refine (dropReceivers_reads ((key, rx) :: rxs)).bind ?_
          rintro g'' - rfl
          intro id hid
          rw [hheard] at hid
          rw [hread]
          exact hg id hid
        · refine (cache_reads (Q := SameReads g') fun _ => rfl).bind ?_
          rintro g'' - rfl
          refine hrest g'' _ fun id hid => ?_
          rw [hheard] at hid
          rw [hread]
          exact hg id hid
    · exact hrest g _ hg

theorem batchCounts_reads (cfg : Config) (items : List Item) :
    readRules.Obeys (fun g _ => g.Settled) .fresh (batchCounts cfg items) := by
  unfold batchCounts
  split_ifs
  · exact Following.settled_fresh
  · refine (cache_reads (Q := SameReads .fresh) fun _ => rfl).bind ?_
    rintro g cached rfl
    show readRules.Obeys (fun g _ => g.Settled) .fresh (if _ then _ else _)
    split_ifs
    · exact Following.settled_fresh
    · refine ⟨trivial, ?_⟩
      rintro order g ⟨rfl, -⟩
      refine (electLoop_reads _ _ _ _ fun key => id).bind ?_
      rintro g e rfl
      unfold fetchMissing
      split_ifs with hfetch
      · exact followerLoop_reads cfg items _ _ _ Following.settled_fresh
      · unfold Repositories.batchGetCounts
        rw [if_neg hfetch]
        refine ⟨trivial, ?_⟩
        rintro (error | rows) g ⟨rfl, -⟩
        · refine (removeLoop_reads _).bind ?_
          rintro g - rfl
          refine (dropReceivers_reads _).bind ?_
          rintro g - rfl
          exact Following.settled_fresh
        · refine (leaderLoop_reads cfg items _ _ _ _ _).bind ?_
          rintro g filled rfl
          refine (cache_reads (Q := SameReads _) fun _ => rfl).bind ?_
          rintro g - rfl
          exact followerLoop_reads cfg items _ _ _ Following.settled_fresh

/-- When a call ends. -/
def Following.Ends (k : CountRead) (g : Following) (result : CountResult) : Prop :=
  g.Settled ∧ ∀ item, k = .getCountValue item → ∀ e ∈ g.read, result = .ok (.inl e.2)

theorem CountRead.reads (cfg : Config) (k : CountRead) :
    readRules.Obeys (Following.Ends k) .fresh (k.prog cfg) := by
  cases k with
  | getCountValue item =>
    refine (getCountValue_reads cfg item).bind ?_
    rintro g result ⟨hg, hread⟩
    refine ⟨hg, fun _ _ e he => ?_⟩
    rw [hread e he]
    rfl
  | batchCounts items =>
    refine (batchCounts_reads cfg items).bind ?_
    rintro g result hg
    exact ⟨hg, fun item h => by cases h⟩

end Reads

/-! ## The history of a channel -/

/-- The wait on the channel has ended with a value. -/
def Hears : (o : SvcOp) → o.Ans → ChanId → Prop
  | .flight (.changed rx), .value, id => rx.chan = id
  | _, _, _ => False

theorem Following.mem_heard_next {g : Following} {o : SvcOp} {r : o.Ans} {id : ChanId} :
    id ∈ (g.next o r).heard ↔ id ∈ g.heard ∨ Hears o r id := by
  have hsame : id ∈ g.heard ↔ id ∈ g.heard ∨ False := by rw [or_false]
  cases o with
  | flight o =>
    cases o with
    | changed rx =>
      cases r with
      | value =>
        show id ∈ rx.chan :: g.heard ↔ id ∈ g.heard ∨ rx.chan = id
        rw [List.mem_cons, or_comm, eq_comm]
      | closed => exact hsame
      | timedOut => exact hsame
    | borrow rx =>
      cases r with
      | none => exact hsame
      | some count => exact hsame
    | _ => exact hsame
  | _ => exact hsame

section History

variable {ι : Type} {s s' : Flights ι} {i : ι}

/-- What an operation `o` of call `i`, answered with `r`, leaves of the history of the channel
    `id`. -/
structure Continues (s : Flights ι) (i : ι) (o : SvcOp) (r : o.Ans) (id : ChanId)
    (ch ch' : Channel ι) : Prop where
  leader : ch'.leader = ch.leader
  sent : ch'.sent = ch.sent ∨ ∃ count, o = .flight (.send id count) ∧ ch'.sent = some count
  followers : ch'.followers = ch.followers ∨
    (∃ keep, o = .flight (.entry id.1 keep)) ∧ ch'.followers = i :: ch.followers
  served : ch'.served = ch.served ∧ ¬ Hears o r id ∨ ch'.served = i :: ch.served ∧ Hears o r id
  closed : ch.senders = [] → ch'.senders = [] ∨ s.pending id.1 = some id

/-- A channel on which nothing has happened. -/
structure Untouched (ch : Channel ι) : Prop where
  sent : ch.sent = none
  followers : ch.followers = []
  served : ch.served = []

/-- Every channel goes on, and a new one has no history. -/
def GoOn (s s' : Flights ι) (i : ι) (o : SvcOp) (r : o.Ans) : Prop :=
  (∀ id ch, s.chans id = some ch →
    ∃ ch', s'.chans id = some ch' ∧ Continues s i o r id ch ch') ∧
  ∀ id ch', s'.chans id = some ch' → s.chans id = none → Untouched ch'

theorem continues_refl {o : SvcOp} {r : o.Ans} {id : ChanId} (hno : ¬ Hears o r id)
    (ch : Channel ι) : Continues s i o r id ch ch :=
  ⟨rfl, Or.inl rfl, Or.inl rfl, Or.inl ⟨rfl, hno⟩, Or.inl⟩

theorem goOn_same {o : SvcOp} {r : o.Ans} (hchans : s'.chans = s.chans)
    (hno : ∀ id, ¬ Hears o r id) : GoOn s s' i o r := by
  refine ⟨fun id ch hch => ⟨ch, hchans ▸ hch, continues_refl (hno id) ch⟩,
    fun id ch' hch' hnone => ?_⟩
  rw [hchans, hnone] at hch'
  cases hch'

/-- One channel is modified. -/
theorem goOn_modify {o : SvcOp} {r : o.Ans} {id₁ : ChanId} {f : Channel ι → Channel ι}
    (hchans : s'.chans = (s.modify id₁ f).chans) (hf : ∀ ch, Continues s i o r id₁ ch (f ch))
    (hother : ∀ id, id ≠ id₁ → ¬ Hears o r id) : GoOn s s' i o r := by
  refine ⟨fun id ch hch => ?_, fun id ch' hch' hnone => ?_⟩
  · rw [hchans]
    by_cases hid : id = id₁
    · subst hid
      exact ⟨f ch, Flights.modify_of_some f hch, hf ch⟩
    · exact ⟨ch, (Flights.modify_ne s f hid).trans hch, continues_refl (hother id hid) ch⟩
  · rw [hchans] at hch'
    obtain ⟨ch, hch, -⟩ := PendingFetches.modify_chan hch'
    rw [hnone] at hch
    cases hch

/-- A channel afterwards has no history, or goes on. -/
theorem GoOn.back {o : SvcOp} {r : o.Ans} (h : GoOn s s' i o r) {id : ChanId} {ch' : Channel ι}
    (hch' : s'.chans id = some ch') : Untouched ch' ∨
      ∃ ch, s.chans id = some ch ∧ Continues s i o r id ch ch' := by
  cases hch : s.chans id with
  | none => exact Or.inl (h.2 id ch' hch' hch)
  | some ch =>
    obtain ⟨ch₁, hch₁, hc⟩ := h.1 id ch hch
    cases hch₁.symm.trans hch'
    exact Or.inr ⟨ch, rfl, hc⟩

/-- Who follows a channel after an operation. -/
theorem GoOn.follower {o : SvcOp} {r : o.Ans} (h : GoOn s s' i o r) {id : ChanId}
    {ch' : Channel ι} (hch' : s'.chans id = some ch') {j : ι} (hj : j ∈ ch'.followers) :
    ∃ ch, s.chans id = some ch ∧ Continues s i o r id ch ch' ∧
      (j ∈ ch.followers ∨ j = i ∧ ∃ keep, o = .flight (.entry id.1 keep)) := by
  rcases h.back hch' with hfree | ⟨ch, hch, hc⟩
  · rw [hfree.followers] at hj
    cases hj
  · refine ⟨ch, hch, hc, ?_⟩
    rcases hc.followers with hsame | ⟨hentry, hcons⟩
    · exact Or.inl (hsame ▸ hj)
    · rw [hcons] at hj
      exact (List.mem_cons.mp hj).symm.imp_right fun hji => ⟨hji, hentry⟩

theorem Continues.mem_followers {o : SvcOp} {r : o.Ans} {id : ChanId} {ch ch' : Channel ι}
    (h : Continues s i o r id ch ch') {j : ι} (hj : j ∈ ch.followers) : j ∈ ch'.followers := by
  rcases h.followers with hsame | ⟨-, hcons⟩
  · rwa [hsame]
  · rw [hcons]
    exact List.mem_cons_of_mem _ hj

theorem Continues.mem_served {o : SvcOp} {r : o.Ans} {id : ChanId} {ch ch' : Channel ι}
    (h : Continues s i o r id ch ch') {j : ι} :
    j ∈ ch'.served ↔ j ∈ ch.served ∨ j = i ∧ Hears o r id := by
  rcases h.served with ⟨hsame, hno⟩ | ⟨hcons, hears⟩
  · rw [hsame]
    exact ⟨Or.inl, fun hj => hj.resolve_right fun hh => hno hh.2⟩
  · rw [hcons, List.mem_cons, or_comm]
    exact or_congr_right (and_iff_left hears).symm

variable [DecidableEq ι]

/-- An operation on the map or a channel. -/
theorem goOn_flight (hkeyed : Keyed s) (hfresh : ∀ id, s.chans id ≠ none → id.2 < s.made id.1)
    {o : PendingFetches.Op} {x : PendingFetches.Choice} {r : o.Ans}
    (h : PendingFetches.handle s i o x = some (s', r)) : GoOn s s' i (.flight o) r := by
  cases o with
  | entry key keep =>
    simp only [PendingFetches.handle] at h
    cases hp : s.pending key with
    | none =>
      rw [hp] at h
      cases h
      have hnew : s.chans (key, s.made key) = none := by
        by_contra hne
        exact absurd (hfresh _ hne) (lt_irrefl _)
      refine ⟨fun id ch hch => ⟨ch, ?_, ?_⟩, fun id ch' hch' hnone => ?_⟩
      · have hne : id ≠ (key, s.made key) := by
          rintro rfl
          rw [hnew] at hch
          cases hch
        exact (Function.update_of_ne hne _ _).trans hch
      · exact ⟨rfl, Or.inl rfl, Or.inl rfl, Or.inl ⟨rfl, not_false⟩, Or.inl⟩
      · have hch' : Function.update s.chans (key, s.made key) (some (newChannel i keep)) id =
          some ch' := hch'
        by_cases hid : id = (key, s.made key)
        · rw [hid, Function.update_self] at hch'
          obtain rfl := Option.some.inj hch'
          exact ⟨rfl, rfl, rfl⟩
        · rw [Function.update_of_ne hid, hnone] at hch'
          cases hch'
    | some id₁ =>
      simp only [hp] at h
      cases hch₁ : s.chans id₁ with
      | none => rw [hch₁] at h; cases h
      | some ch₁ =>
        rw [hch₁] at h
        cases h
        refine goOn_modify rfl (fun ch => ?_) fun _ _ => not_false
        refine ⟨rfl, Or.inl rfl, Or.inr ⟨⟨keep, ?_⟩, rfl⟩, Or.inl ⟨rfl, not_false⟩, Or.inl⟩
        rw [hkeyed key id₁ hp]
  | send tx count =>
    cases h
    refine goOn_modify rfl (fun ch => ?_) fun _ _ => not_false
    split_ifs
    · exact ⟨rfl, Or.inr ⟨count, rfl, rfl⟩, Or.inl rfl, Or.inl ⟨rfl, not_false⟩, Or.inl⟩
    · exact ⟨rfl, Or.inr ⟨count, rfl, rfl⟩, Or.inl rfl, Or.inl ⟨rfl, not_false⟩, Or.inl⟩
  | remove key =>
    simp only [PendingFetches.handle] at h
    cases hp : s.pending key with
    | none =>
      rw [hp] at h
      cases h
      exact goOn_same rfl fun _ => not_false
    | some id₁ =>
      rw [hp] at h
      cases h
      refine goOn_modify rfl (fun ch => ?_) fun _ _ => not_false
      refine ⟨rfl, Or.inl rfl, Or.inl rfl, Or.inl ⟨rfl, not_false⟩, fun _ => Or.inr ?_⟩
      rw [hkeyed key id₁ hp]
      exact hp
  | dropSender tx =>
    cases h
    refine goOn_modify rfl (fun ch => ?_) fun _ _ => not_false
    refine ⟨rfl, Or.inl rfl, Or.inl rfl, Or.inl ⟨rfl, not_false⟩, fun hnil => Or.inl ?_⟩
    show ch.senders.erase (some i) = []
    rw [hnil, List.erase_nil]
  | changed rx =>
    simp only [PendingFetches.handle] at h
    cases hch : s.chans rx.chan with
    | none => rw [hch] at h; cases h
    | some ch =>
      simp only [hch] at h
      split_ifs at h
      · cases h
        refine goOn_modify rfl (fun ch => ?_) fun id hid hears => hid (Eq.symm hears)
        exact ⟨rfl, Or.inl rfl, Or.inl rfl, Or.inr ⟨rfl, rfl⟩, Or.inl⟩
      · cases h
        exact goOn_same rfl fun _ => not_false
      · cases x with
        | inTime => cases h
        | elapsed =>
          cases h
          exact goOn_same rfl fun _ => not_false
  | borrow rx =>
    cases h
    exact goOn_same rfl fun _ => not_false
  | dropReceiver rx =>
    cases h
    refine goOn_modify rfl (fun ch => ?_) fun _ _ => not_false
    exact ⟨rfl, Or.inl rfl, Or.inl rfl, Or.inl ⟨rfl, not_false⟩, Or.inl⟩

/-- Any operation. -/
theorem goOn_of_handle {cfg : Config} {w w' : World ι} (hkeyed : Keyed w.flights)
    (hfresh : ∀ id, w.flights.chans id ≠ none → id.2 < w.flights.made id.1) {o : SvcOp}
    {x : SvcChoice} {r : o.Ans} (h : handle cfg w i o x = some (w', r)) :
    GoOn w.flights w'.flights i o r := by
  cases o with
  | flight o =>
    obtain ⟨y, flights', -, hflight, rfl⟩ := handle_flight h
    exact goOn_flight hkeyed hfresh hflight
  | _ =>
    refine goOn_same ?_ fun _ => not_false
    rw [handle_flights h fun o ho => by cases ho]

/-- A wait ends with a value on a channel that is there. -/
theorem exists_of_hears {cfg : Config} {w w' : World ι} {o : SvcOp} {x : SvcChoice} {r : o.Ans}
    (h : handle cfg w i o x = some (w', r)) {id : ChanId} (hears : Hears o r id) :
    ∃ ch, w.flights.chans id = some ch := by
  cases o with
  | flight o =>
    obtain ⟨y, flights', -, hflight, -⟩ := handle_flight h
    cases o with
    | changed rx =>
      cases r with
      | value =>
        obtain rfl : rx.chan = id := hears
        obtain ⟨ch, hch, -⟩ := changed_value hflight
        exact ⟨ch, hch⟩
      | closed => exact hears.elim
      | timedOut => exact hears.elim
    | _ => exact hears.elim
  | _ => exact hears.elim

end History

end SocialApi.Services
