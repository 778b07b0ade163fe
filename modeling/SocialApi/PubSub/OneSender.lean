import SocialApi.PubSub.Receivers

/-!
# One sender for each channel name

All receivers that clients have for one name belong to the sender that is registered under
it, unless the stale-entry `remove` of a `subscribe` (pubsub_manager.rs:75–77) takes out a
sender that has receivers: between the look at the count and the `remove` another client may
have put a new sender there.

* `oneSender_iff`: they do along a run exactly when no `remove` of the run takes out a sender
  that has receivers.
* `staleTwice_two`: two clients that see the same stale entry end with a sender each.
-/

namespace SocialApi.PubSub

open SocialApi.Concurrent

variable {ι : Type}

/-- Receivers of a name are at the sender registered under it, at most one bridge of a name
    has receivers, and each sender is fed by one bridge at most. -/
structure OneSender (c : PubSubConfig ι) : Prop where
  registered : ∀ i name p id, c.calls i = .running (.client name) p → Holds id p →
    c.shared.channels name = some id
  oneBridge : ∀ i j name id id' m n, (c.calls i).request = some (.bridge name id m) →
    (c.calls j).request = some (.bridge name id' n) → c.shared.receivers id ≠ 0 →
    c.shared.receivers id' ≠ 0 → i = j
  fedOnce : ∀ i j name name' id m n, (c.calls i).request = some (.bridge name id m) →
    (c.calls j).request = some (.bridge name' id n) → i = j

/-- A `remove` finds nothing under the name, or a sender that has no receivers. -/
def RemovesStale (c : PubSubConfig ι) (a : Act ι (Call ι) Choice) : Prop :=
  ∀ i x k name f id, a = .step i x → c.calls i = .running k (.op (.remove name) f) →
    c.shared.channels name = some id → c.shared.receivers id = 0

/-! ## The invariant -/

/-- The places, and every receiver of a name at the sender registered under it. -/
def Registered (s : Manager ι) (γ : ι → Option (Seat ι)) : Prop :=
  Seats s γ ∧ ∀ i g name id, γ i = some g → g.Obtained name id → s.channels name = some id

section Steps

variable {s s' : Manager ι} {i : ι} {o : Op ι} {x : Choice} {g g' : Seat ι} {name : String}
  {id : ChanId ι}

variable [DecidableEq ι]

/-- An operation other than `remove` leaves what is in the map. -/
theorem Move.channels (hmove : Move i o x s g s' g') (hremove : o ≠ .remove name)
    (hc : s.channels name = some id) : s'.channels name = some id := by
  cases hmove with
  | @remove _ name' hguards =>
    have hne : name ≠ name' := by
      rintro rfl
      exact hremove rfl
    show Function.update s.channels name' none name = some id
    rw [Function.update_of_ne hne]
    exact hc
  | @insert _ name' id' hnone =>
    have hne : name ≠ name' := by
      rintro rfl
      rw [hnone] at hc
      cases hc
    show Function.update s.channels name' (some id') name = some id
    rw [Function.update_of_ne hne]
    exact hc
  | _ => exact hc

/-- A receiver is obtained of the sender that is in the map. -/
theorem Move.obtained (hmove : Move i o x s g s' g') (hok : SeatOk s i g)
    (hg : ∀ name id, g.Obtained name id → s.channels name = some id) (h : g'.Obtained name id) :
    s'.channels name = some id := by
  cases hmove with
  | subscribe =>
    obtain ⟨rfl, rfl⟩ := h
    exact hok.1
  | keep => exact hg name id h
  | join =>
    obtain ⟨rfl, rfl⟩ := h
    exact hok.2.1
  | leave => exact hg name id h
  | insert hnone =>
    obtain ⟨rfl, rfl⟩ := h
    show Function.update s.channels name (some id) name = some id
    rw [Function.update_self]
  | dropNew => exact hg name id h
  | spawn => exact hg name id h
  | _ => exact h.elim

end Steps

/-- The name that goes with a sender is one. -/
theorem Seats.name_eq {s : Manager ι} {γ : ι → Option (Seat ι)} (h : Seats s γ)
    {name name' : String} {id : ChanId ι} (hname : Together s γ name id)
    (hname' : Together s γ name' id) : name = name' := by
  obtain ⟨g, hg, hclient⟩ := h.named name id hname
  obtain ⟨g', hg', hclient'⟩ := h.named name' id hname'
  obtain rfl : g = g' := Option.some.inj (hg.symm.trans hg')
  exact (Seat.ofClient_iff hclient').mp hclient

/-- The receivers of a sender that goes with a name are of clients of that name. -/
theorem Seats.obtained_of_receivers {s : Manager ι} {γ : ι → Option (Seat ι)} (h : Registered s γ)
    {name : String} {id : ChanId ι} (hname : Together s γ name id)
    (hnew : ∀ i, ¬ Own s i id) (hr : s.receivers id ≠ 0) :
    ∃ j g, γ j = some g ∧ g.OfClient name ∧ g.Obtained name id := by
  obtain ⟨hseats, hregistered⟩ := h
  obtain ⟨j, g, hg, hown⟩ := hseats.count.owner hr
  rcases Seat.owns_cases hown with hn | ⟨name', hclient, hobtained⟩
  · exact absurd ((hseats.ok j g hg).new hn) (hnew j)
  · have hchannel := hregistered j g name' id hg hobtained
    obtain rfl := hseats.name_eq hname (Or.inl hchannel)
    exact ⟨j, g, hg, hclient, hobtained⟩

/-! ## All runs -/

theorem oneSender_records [DecidableEq ι] : Pool.Records (pubSub (ι := ι))
    (seats ι) Seat.Of Seat.Over
    (fun _ => False) Call.seat Registered fun c a => True ∧ RemovesStale c a where
  prog := Call.seats_obeys
  typed := Call.seat_of
  start c i k s γ _ h hγ hs := by
    obtain ⟨hseats, hregistered⟩ := h
    have hchannels : s.channels = c.shared.channels := by
      cases k with
      | client name =>
        cases hs
        rfl
      | bridge name id fuel =>
        have hs : (if (name, id) ∈ c.shared.spawned then some _ else none) = some s := hs
        split_ifs at hs
        cases hs
        rfl
    refine ⟨hseats.start hγ hs, fun j g name id hg hobtained => ?_⟩
    rw [hchannels]
    by_cases hj : j = i
    · subst hj
      rw [Function.update_self] at hg
      cases hg
      cases k <;> exact hobtained.elim
    · rw [Function.update_of_ne hj] at hg
      exact hregistered j g name id hg hobtained
  handle c i x k o f s r γ g ha h _ hi hγ hk hask hs := by
    obtain ⟨hseats, hregistered⟩ := h
    have hk' := Seat.next_of (r := r) hk hask
    have hmove := handle_move hk hask hs
    refine ⟨g.next o r, rfl, hk', hseats.move hγ hk hk' hmove, fun j g₁ name id hg₁ hobtained => ?_⟩
    by_cases hj : j = i
    · subst hj
      rw [Function.update_self] at hg₁
      cases hg₁
      exact hmove.obtained (hseats.ok j g hγ) (fun name id => hregistered j g name id hγ) hobtained
    · rw [Function.update_of_ne hj] at hg₁
      have hchannel := hregistered j g₁ name id hg₁ hobtained
      refine hmove.channels ?_ hchannel
      -- nobody removes a sender of which another has a receiver
      rintro rfl
      exact hseats.count.ne_zero hg₁ (Seat.obtained_owns hobtained)
        (ha.2 i x k name f id rfl hi hchannel)
  drop c i s γ g _ _ _ hs := by cases hs
  env c x s γ _ h hs := by
    obtain ⟨hseats, hregistered⟩ := h
    refine ⟨hseats.env hs, ?_⟩
    cases x with
    | shutdown =>
      cases hs
      exact hregistered
    | _ => cases hs

/-- What the invariant says of a configuration. -/
abbrev Recorded (c : PubSubConfig ι) : Prop :=
  Pool.Record (seats ι) Seat.Of Seat.Over (fun _ => False) Registered c

theorem Recorded.oneSender {c : PubSubConfig ι} (h : Recorded c) : OneSender c := by
  obtain ⟨γ, hJ, hT⟩ := h
  obtain ⟨hseats, hregistered⟩ := id hJ
  have hbridge : ∀ i name id n, (c.calls i).request = some (.bridge name id n) →
      ∃ g, γ i = some g ∧ g.OfBridge name id := by
    intro i name id n hi
    exact (hT i).of_request hi
  refine ⟨fun i name p id hi hholds => ?_, fun i j name id id' m n hi hj hr hr' => ?_,
    fun i j name name' id m n hi hj => ?_⟩
  · have hi' := hT i
    rw [hi] at hi'
    obtain ⟨g, hg, hclient, hobeys⟩ := hi'
    exact hregistered i g name id hg ((holds_iff hclient hobeys).mp hholds)
  · -- both senders are the one that is registered
    have hsender : ∀ i id n, (c.calls i).request = some (.bridge name id n) →
        c.shared.receivers id ≠ 0 → c.shared.channels name = some id := by
      intro i id n hi hr
      obtain ⟨g, hg, hb⟩ := hbridge i name id n hi
      obtain ⟨j, g', hg', -, hobtained⟩ := Seats.obtained_of_receivers hJ
        (Or.inr (Or.inr ⟨i, g, hg, hb⟩)) (fun _ hown => ((hseats.ok i g hg).bridge hb).1 hown.task) hr
      exact hregistered j g' name id hg' hobtained
    obtain rfl : id = id' :=
      Option.some.inj ((hsender i id m hi hr).symm.trans (hsender j id' n hj hr'))
    obtain ⟨g, hg, hb⟩ := hbridge i name id m hi
    obtain ⟨g', hg', hb'⟩ := hbridge j name id n hj
    exact hseats.unique i j g g' name name id hg hg' hb hb'
  · obtain ⟨g, hg, hb⟩ := hbridge i name id m hi
    obtain ⟨g', hg', hb'⟩ := hbridge j name' id n hj
    exact hseats.unique i j g g' name name' id hg hg' hb hb'

variable [DecidableEq ι]

/-- A `remove` that takes out a sender which has receivers leaves somebody with a receiver of a
    sender that is not registered. -/
theorem Recorded.not_oneSender {c c' : PubSubConfig ι} {a : Act ι (Call ι) Choice}
    (h : Recorded c) (hbad : ¬ RemovesStale c a) (hstep : pubSub.machine.step c a = some c') :
    ¬ OneSender c' := by
  obtain ⟨γ, hJ, hT⟩ := h
  obtain ⟨hseats, hregistered⟩ := id hJ
  simp only [RemovesStale, not_forall] at hbad
  obtain ⟨i, x, k, name, f, id, rfl, hi, hchannel, hr⟩ := hbad
  obtain ⟨s, r, hs, rfl⟩ := Pool.act_step hstep hi
  obtain rfl : x = .any := choice_any hs (by simp) (by simp) (by simp)
  obtain ⟨j, g, hg, hclient, hobtained⟩ := Seats.obtained_of_receivers hJ (Or.inl hchannel)
    (fun _ hown => hown.channels name hchannel) hr
  have hj : j ≠ i := by
    rintro rfl
    have hj' := hT j
    rw [hi] at hj'
    obtain ⟨g', hg', -, hobeys⟩ := hj'
    obtain rfl : g = g' := Option.some.inj (hg.symm.trans hg')
    have hasks : g.asks (.remove name) := hobeys.1
    cases g <;> first | exact hobtained.elim | exact hasks.elim
  have hs : PubSub.handle c.shared i (.remove name) .any = some (s, r) := hs
  simp only [handle] at hs
  split_ifs at hs
  cases hs
  intro hone
  have hnone : Function.update c.shared.channels name (none : Option (ChanId ι)) name = none :=
    Function.update_self ..
  have hj' := hT j
  -- the owner of the receiver has not got to its end
  cases hcall : c.calls j with
  | idle =>
    rw [hcall] at hj'
    exact absurd (hj'.symm.trans hg) (by simp)
  | running k' p =>
    rw [hcall] at hj'
    obtain ⟨g', hg', hof, hobeys⟩ := hj'
    obtain rfl : g = g' := Option.some.inj (hg.symm.trans hg')
    cases k' with
    | client name' =>
      obtain rfl : name' = name := (Seat.ofClient_iff hclient).mp hof
      have hc := hone.registered j name' p id
        ((Function.update_of_ne hj _ _).trans hcall) ((holds_iff hof hobeys).mpr hobtained)
      exact absurd (hnone.symm.trans hc) (by simp)
    | bridge name' id' n => exact Seat.not_ofBridge hclient hof
  | returned k' u =>
    rw [hcall] at hj'
    obtain ⟨g', hg', -, hover⟩ := hj'
    obtain rfl : g = g' := Option.some.inj (hg.symm.trans hg')
    exact Seat.obtained_not_over hobtained hover
  | dropped k' =>
    rw [hcall] at hj'
    obtain ⟨_, _, _, hfalse⟩ := hj'
    exact hfalse

theorem recorded_init {c : PubSubConfig ι} (hc : (pubSub (ι := ι)).machine.init c) :
    Recorded c := by
  obtain ⟨hs, hidle⟩ := hc
  refine Pool.record_init ?_ hidle
  have hs : c.shared = .new := hs
  rw [hs]
  exact ⟨Seats.new, fun _ _ _ _ hg => (by cases hg)⟩

/-- Along a run from a new manager the receivers of each name are at the sender registered
    under it exactly when every `remove` of the run finds nothing or a sender without
    receivers. -/
theorem oneSender_iff {c c' : PubSubConfig ι} {acts : List (Act ι (Call ι) Choice)}
    (hc : (pubSub (ι := ι)).machine.init c) (hrun : pubSub.machine.run c acts = some c') :
    pubSub.machine.Along OneSender c acts ↔ pubSub.machine.Meets RemovesStale c acts :=
  oneSender_records.along_iff (fun _ h => Recorded.oneSender h)
    (fun _ _ _ h _ hbad hstep => Recorded.not_oneSender h hbad hstep) (recorded_init hc)
    (Machine.meets_of_forall (fun _ _ => trivial) c acts) hrun

/-! ## Two clients at one stale entry -/

/-- A client leaves a stale entry behind. Client 1 sees it and goes; client 2 sees it too,
    removes it and registers its own sender; client 1 removes that one and registers another. -/
def staleTwice : List (Act ℕ (Call ℕ) Choice) :=
  [.start 0 (.client "likes"), .step 0 .any, .step 0 .any, .step 0 .any, .step 0 .any,
    .step 0 .any,
    .start 1 (.client "likes"), .step 1 .any, .step 1 .any, .step 1 .any,
    .start 2 (.client "likes"), .step 2 .any, .step 2 .any, .step 2 .any, .step 2 .any,
    .step 2 .any, .step 2 .any, .step 2 .any,
    .step 1 .any, .step 1 .any, .step 1 .any, .step 1 .any]

/-- After `staleTwice`, with Redis up and no shutdown, two clients of the name have receivers of
    two senders, only one of which is registered, and each sender has its bridge task. -/
theorem staleTwice_two : (∀ a ∈ staleTwice, Calm a) ∧
    ∃ c, pubSub.machine.run ⟨.new, fun _ => .idle⟩ staleTwice = some c ∧
      liveReceiver (c.calls 1) = some ("likes", (1, 2)) ∧
      liveReceiver (c.calls 2) = some ("likes", (2, 1)) ∧
      c.shared.channels "likes" = some (1, 2) ∧
      (c.shared.tasks (1, 2)).map Task.ended = some false ∧
      (c.shared.tasks (2, 1)).map Task.ended = some false ∧ ¬ OneSender c := by
  have hview : (pubSub.machine.run ⟨.new, fun _ => .idle⟩ staleTwice).any (fun c =>
      decide (liveReceiver (c.calls 1) = some ("likes", (1, 2)) ∧
        liveReceiver (c.calls 2) = some ("likes", (2, 1)) ∧
        c.shared.channels "likes" = some (1, 2) ∧
        (c.shared.tasks (1, 2)).map Task.ended = some false ∧
        (c.shared.tasks (2, 1)).map Task.ended = some false)) = true := by
    decide +kernel
  obtain ⟨c, hrun, hc⟩ := (Option.any_eq_true _ _).mp hview
  obtain ⟨h₁, h₂, hchannel, ht₁, ht₂⟩ := of_decide_eq_true hc
  refine ⟨?_, c, hrun, h₁, h₂, hchannel, ht₁, ht₂, fun hone => ?_⟩
  · intro a ha
    have hany : ∀ a ∈ staleTwice, (∃ i name, a = .start i (.client name)) ∨ ∃ i, a = .step i .any := by
      simp [staleTwice]
    rcases hany a ha with ⟨i, name, rfl⟩ | ⟨i, rfl⟩
    · trivial
    · trivial
  · -- the sender of client 2 is not the registered one
    obtain ⟨p, hcall, hholds⟩ := of_liveReceiver h₂
    have hregistered := hone.registered 2 "likes" p (2, 1) hcall hholds
    rw [hchannel] at hregistered
    exact absurd hregistered (by decide)

/-- A client leaves a stale entry behind; client 1 removes it and registers its own sender, which
    client 2 joins. -/
def staleOnce : List (Act ℕ (Call ℕ) Choice) :=
  .start 0 (.client "likes") :: List.replicate 5 (.step 0 .any) ++
    .start 1 (.client "likes") :: List.replicate 7 (.step 1 .any) ++
    .start 2 (.client "likes") :: List.replicate 4 (.step 2 .any)

/-- `RemovesStale`, computed. -/
def removesStale (c : PubSubConfig ι) : Act ι (Call ι) Choice → Bool
  | .step i _ =>
    match c.calls i with
    | .running _ (.op (.remove name) _) =>
      (c.shared.channels name).all fun id => c.shared.receivers id = 0
    | _ => true
  | _ => true

omit [DecidableEq ι] in
theorem removesStale_sound (c : PubSubConfig ι) (a : Act ι (Call ι) Choice)
    (h : removesStale c a = true) : RemovesStale c a := by
  rintro i x k name f id rfl hi hchannel
  simp only [removesStale, hi, hchannel, Option.all_some, decide_eq_true_eq] at h
  exact h

/-- `oneSender_iff` for `staleOnce`, where both clients are at the registered sender, and for
    `staleTwice`. -/
theorem oneSender_iff_staleOnce_staleTwice :
    (∃ c, pubSub.machine.run ⟨.new, fun _ => .idle⟩ staleOnce = some c ∧
      liveReceiver (c.calls 1) = some ("likes", (1, 1)) ∧
      liveReceiver (c.calls 2) = some ("likes", (1, 1)) ∧
      pubSub.machine.Along OneSender ⟨.new, fun _ => .idle⟩ staleOnce) ∧
    (pubSub.machine.Along OneSender ⟨.new, fun _ => .idle⟩ staleTwice ↔
      pubSub.machine.Meets RemovesStale ⟨.new, fun _ => .idle⟩ staleTwice) := by
  have hinit : (pubSub (ι := ℕ)).machine.init ⟨.new, fun _ => .idle⟩ := ⟨rfl, fun _ => rfl⟩
  constructor
  · have hview : (pubSub.machine.run ⟨.new, fun _ => .idle⟩ staleOnce).map (fun c =>
        (liveReceiver (c.calls 1), liveReceiver (c.calls 2))) =
        some (some ("likes", (1, 1)), some ("likes", (1, 1))) := by
      decide +kernel
    have hstale : pubSub.machine.meetsAll removesStale ⟨.new, fun _ => .idle⟩ staleOnce = true := by
      decide +kernel
    obtain ⟨c, hrun, hc⟩ := Option.map_eq_some_iff.mp hview
    obtain ⟨h₁, h₂⟩ := Prod.mk.inj hc
    exact ⟨c, hrun, h₁, h₂, (oneSender_iff hinit hrun).mpr
      (Machine.meets_of_meetsAll removesStale_sound hstale)⟩
  · have hview : (pubSub.machine.run ⟨.new, fun _ => .idle⟩ staleTwice).isSome = true := by
      decide +kernel
    obtain ⟨c, hrun⟩ := Option.isSome_iff_exists.mp hview
    exact oneSender_iff hinit hrun

end SocialApi.PubSub
