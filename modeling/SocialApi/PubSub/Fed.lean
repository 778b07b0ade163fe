import SocialApi.PubSub.Receivers

/-!
# Receivers that nobody feeds

A subscriber looks at the count of a sender and subscribes to it in two accesses, or finds the
entry of its name occupied and subscribes without a look (pubsub_manager.rs:67–74 and 86–90);
the bridge of that sender looks at the count on its own. A bridge that finds it zero exits,
whoever subscribes before its task is over.

* `fedReceivers_iff`: with Redis up and no shutdown, every receiver is at a sender whose bridge
  has neither exited nor decided to, along a run, exactly when every `tx.subscribe()` of the
  run is to such a sender.
* `lateSubscriber_unfed`: a subscriber that looked before the last receiver was dropped.
-/

namespace SocialApi.PubSub

open SocialApi.Concurrent

variable {ι : Type}

/-! ## Specification -/

/-- A bridge task that has decided to exit: the clean-up is ahead. -/
def Exits : PubSubM ι Unit → Prop
  | .op (.copyGet _ _) _ => True
  | .op (.copyRemove _ _) _ => True
  | .op (.finish _) _ => True
  | _ => False

/-- The bridge task of the sender has neither exited nor decided to; it may not have begun. -/
structure Fed (c : PubSubConfig ι) (id : ChanId ι) : Prop where
  stays : ∀ j name n p, c.calls j = .running (.bridge name id n) p → ¬ Exits p
  task : ∀ t, c.shared.tasks id = some t → t.ended = false

/-- Every receiver of a client belongs to a sender that is fed. -/
def FedReceivers (c : PubSubConfig ι) : Prop :=
  ∀ i name p id, c.calls i = .running (.client name) p → Holds id p → Fed c id

/-- Who subscribes does so at a sender that is fed. -/
def SubscribesFed (c : PubSubConfig ι) (a : Act ι (Call ι) Choice) : Prop :=
  ∀ i x k id f, a = .step i x → c.calls i = .running k (.op (.subscribe id) f) → Fed c id

/-! ## The invariant -/

/-- `Fed`, from the places. -/
structure Unleft (s : Manager ι) (γ : ι → Option (Seat ι)) (id : ChanId ι) : Prop where
  stays : ∀ j name, γ j ≠ some (.leaving name id)
  task : ∀ t, s.tasks id = some t → t.ended = false

/-- Redis has not failed, nobody has asked for a shutdown, and a sender that has receivers has
    not been left. -/
structure Served (s : Manager ι) (γ : ι → Option (Seat ι)) : Prop where
  shutdown : s.shutdown = false
  failing : ∀ j name id, γ j ≠ some (.failing name id)
  unleft : ∀ id, s.receivers id ≠ 0 → Unleft s γ id

section Steps

variable {s s' : Manager ι} {γ : ι → Option (Seat ι)} {i : ι} {g g' : Seat ι}
  {name : String} {id : ChanId ι}

/-- The last access of a bridge that leaves finds no receivers. -/
theorem Served.left (h : Served s γ) (hg : γ i = some (.leaving name id)) : s.receivers id = 0 := by
  by_contra hr
  exact (h.unleft id hr).stays i name hg

variable [DecidableEq ι]

/-- A step keeps it if it ends no task, leaves no sender and adds no receiver, or only where
    it may. -/
theorem Served.change (h : Served s γ) (hshutdown : s'.shutdown = s.shutdown)
    (hfailing : ∀ name id, g' ≠ .failing name id)
    (hleaving : ∀ name id, g' = .leaving name id → s'.receivers id = 0)
    (htasks : ∀ id t, s'.tasks id = some t → t.ended = true →
      (∃ t', s.tasks id = some t' ∧ t'.ended = true) ∨ s'.receivers id = 0)
    (hreceivers : ∀ id, s'.receivers id ≠ 0 → s.receivers id ≠ 0 ∨ Unleft s γ id) :
    Served s' (Function.update γ i (some g')) := by
  have hunleft : ∀ id, s'.receivers id ≠ 0 → Unleft s γ id := by
    intro id hr
    exact (hreceivers id hr).elim (h.unleft id) fun hu => hu
  refine ⟨hshutdown.trans h.shutdown, fun j name id hj => ?_, fun id hr => ⟨fun j name hj => ?_,
    fun t ht => ?_⟩⟩
  · by_cases hji : j = i
    · subst hji
      rw [Function.update_self] at hj
      exact hfailing name id (Option.some.inj hj)
    · rw [Function.update_of_ne hji] at hj
      exact h.failing j name id hj
  · by_cases hji : j = i
    · subst hji
      rw [Function.update_self] at hj
      exact hr (hleaving name id (Option.some.inj hj))
    · rw [Function.update_of_ne hji] at hj
      exact (hunleft id hr).stays j name hj
  · rw [← Bool.not_eq_true]
    intro hended
    rcases htasks id t ht hended with ⟨t', ht', hended'⟩ | hzero
    · rw [(hunleft id hr).task t' ht'] at hended'
      cases hended'
    · exact hr hzero

/-- A step that changes neither tasks nor receivers, to a place of which nothing is said. -/
theorem Served.keep (h : Served s γ) (hshutdown : s'.shutdown = s.shutdown)
    (htasks : s'.tasks = s.tasks) (hreceivers : ∀ id, s'.receivers id ≠ 0 → s.receivers id ≠ 0)
    (hfailing : ∀ name id, g' ≠ .failing name id) (hleaving : ∀ name id, g' ≠ .leaving name id) :
    Served s' (Function.update γ i (some g')) :=
  h.change hshutdown hfailing (fun name id hg => absurd hg (hleaving name id))
    (fun _ t ht hended => Or.inl ⟨t, htasks ▸ ht, hended⟩) fun id hr => Or.inl (hreceivers id hr)

/-- One more receiver of a sender that has not been left. -/
theorem Served.subscribe (h : Served s γ) (hunleft : Unleft s γ id)
    (hfailing : ∀ name id, g' ≠ .failing name id) (hleaving : ∀ name id, g' ≠ .leaving name id) :
    Served { s with receivers := Function.update s.receivers id (s.receivers id + 1) }
      (Function.update γ i (some g')) := by
  refine h.change rfl hfailing (fun name id hg => absurd hg (hleaving name id))
    (fun id t ht hended => Or.inl ⟨t, ht, hended⟩) fun id' hr => ?_
  by_cases hid : id' = id
  · subst hid
    exact Or.inr hunleft
  · have hr : Function.update s.receivers id (s.receivers id + 1) id' ≠ 0 := hr
    rw [Function.update_of_ne hid] at hr
    exact Or.inl hr

/-- What a subtraction leaves was there. -/
theorem of_update_sub {r : ChanId ι → ℕ} {id' : ChanId ι}
    (h : Function.update r id (r id - 1) id' ≠ 0) : r id' ≠ 0 := by
  by_cases hid : id' = id
  · subst hid
    rw [Function.update_self] at h
    omega
  · rwa [Function.update_of_ne hid] at h

theorem Served.move {o : Op ι} {x : Choice} (h : Served s γ) (hseats : Seats s γ)
    (hg : γ i = some g) (hconnected : x ≠ .connected false) (hitem : x ≠ .item .ended)
    (hsubscribe : ∀ id, o = .subscribe id → Unleft s γ id) (hmove : Move i o x s g s' g') :
    Served s' (Function.update γ i (some g')) := by
  cases hmove with
  | subscribe => exact h.subscribe (hsubscribe _ rfl) (by simp) (by simp)
  | join => exact h.subscribe (hsubscribe _ rfl) (by simp) (by simp)
  | create =>
    refine h.change rfl (by simp) (by simp) (fun id t ht hended => Or.inl ⟨t, ht, hended⟩)
      fun id hr => ?_
    by_cases hid : id = (i, s.serial)
    · -- nobody has heard of a new sender
      have htask : s.tasks id = none := by
        by_contra ht
        have hlt := hseats.tasks.task id ht
        rw [hid] at hlt
        exact absurd hlt (lt_irrefl _)
      refine Or.inr ⟨fun j name hj => ((hseats.ok j _ hj).bridge ⟨rfl, rfl⟩).1 htask, fun t ht => ?_⟩
      rw [htask] at ht
      cases ht
    · have hr : Function.update s.receivers (i, s.serial) 1 id ≠ 0 := hr
      rw [Function.update_of_ne hid] at hr
      exact Or.inl hr
  | dropNew => exact h.keep rfl rfl (fun _ hr => of_update_sub hr) (by simp) (by simp)
  | dropReceiver => exact h.keep rfl rfl (fun _ hr => of_update_sub hr) (by simp) (by simp)
  | @spawn _ _ id =>
    refine h.change rfl (by simp) (by simp) (fun id' t ht hended => ?_) fun _ hr => Or.inl hr
    by_cases hid : id' = id
    · subst hid
      have ht : Function.update s.tasks id' (some ⟨s.channels, false⟩) id' = some t := ht
      rw [Function.update_self] at ht
      cases ht
      cases hended
    · have ht : Function.update s.tasks id (some ⟨s.channels, false⟩) id' = some t := ht
      rw [Function.update_of_ne hid] at ht
      exact Or.inl ⟨t, ht, hended⟩
  | empty hcount =>
    refine h.change rfl (by simp) (fun name id hleaving => ?_)
      (fun id t ht hended => Or.inl ⟨t, ht, hended⟩) fun _ hr => Or.inl hr
    cases hleaving
    exact hcount
  | cancel hshutdown =>
    rw [h.shutdown] at hshutdown
    cases hshutdown
  | fail hx => exact (hx.elim hconnected hitem).elim
  | giveUp => exact absurd hg (h.failing i _ _)
  | retry => exact absurd hg (h.failing i _ _)
  | copyGet =>
    refine h.change rfl (by simp) (fun name id hleaving => ?_)
      (fun id t ht hended => Or.inl ⟨t, ht, hended⟩) fun _ hr => Or.inl hr
    cases hleaving
    exact h.left hg
  | @copyRemove _ name name' id =>
    refine h.change rfl (by simp) (fun name id hleaving => ?_) (fun id' t ht hended => ?_)
      fun _ hr => Or.inl hr
    · cases hleaving
      exact h.left hg
    · by_cases hid : id' = id
      · subst hid
        exact Or.inr (h.left hg)
      · refine Or.inl ⟨t, ?_, hended⟩
        exact (Function.update_of_ne hid _ _).symm.trans ht
  | @finish _ name id =>
    refine h.change rfl (by simp) (by simp) (fun id' t ht hended => ?_) fun _ hr => Or.inl hr
    by_cases hid : id' = id
    · subst hid
      exact Or.inr (h.left hg)
    · refine Or.inl ⟨t, ?_, hended⟩
      exact (Function.update_of_ne hid _ _).symm.trans ht
  | _ => exact h.keep rfl rfl (fun _ hr => hr) (by simp) (by simp)

end Steps

/-! ## All runs -/

/-- The places, and that senders with receivers have not been left. -/
def Feeding (s : Manager ι) (γ : ι → Option (Seat ι)) : Prop := Seats s γ ∧ Served s γ

section Configurations

variable {c : PubSubConfig ι} {γ : ι → Option (Seat ι)} {id : ChanId ι}

/-- While Redis does not fail, a bridge that has decided to exit is at its place for it. -/
theorem exits_iff {name : String} {g : Seat ι} {p : PubSubM ι Unit} (hg : g.OfBridge name id)
    (hfailing : g ≠ .failing name id) (hp : (seats ι).Obeys Seat.Over g p) :
    Exits p ↔ g = .leaving name id := by
  cases g with
  | bridging name' id' =>
    refine iff_of_false ?_ (by simp)
    cases p with
    | ret a => exact fun h => h
    | op o f =>
      have hask := hp.1
      cases o <;> first | exact hask.elim | exact fun h => h
  | failing name' id' =>
    obtain ⟨rfl, rfl⟩ := hg
    exact absurd rfl hfailing
  | leaving name' id' =>
    obtain ⟨rfl, rfl⟩ := hg
    refine iff_of_true ?_ rfl
    cases p with
    | ret a =>
      rcases hp with ⟨_, h⟩ | ⟨_, _, h⟩
      · cases h
      · cases h
    | op o f =>
      have hask := hp.1
      cases o <;> first | exact hask.elim | exact trivial
  | ended name' id' =>
    refine iff_of_false ?_ (by simp)
    cases p with
    | ret a => exact fun h => h
    | op o f =>
      have hask := hp.1
      cases o <;> exact hask.elim
  | _ => exact hg.elim

theorem fed_iff (hserved : Served c.shared γ)
    (hT : ∀ j, Pool.Tracked (seats ι) Seat.Of Seat.Over (fun _ => False) (γ j) (c.calls j)) :
    Fed c id ↔ Unleft c.shared γ id := by
  constructor
  · rintro ⟨hstays, htask⟩
    refine ⟨fun j name hj => ?_, htask⟩
    have hj' := hT j
    cases hcall : c.calls j with
    | idle =>
      rw [hcall] at hj'
      exact absurd (hj'.symm.trans hj) (by simp)
    | running k p =>
      rw [hcall] at hj'
      obtain ⟨g, hg, hk, hobeys⟩ := hj'
      obtain rfl : Seat.leaving name id = g := Option.some.inj (hj.symm.trans hg)
      cases k with
      | client name' => exact hk.elim
      | bridge name' id' n =>
        obtain ⟨rfl, rfl⟩ := hk
        have hplace : (Seat.leaving name id).OfBridge name id := ⟨rfl, rfl⟩
        exact hstays j _ n p hcall ((exits_iff hplace (by simp) hobeys).mpr rfl)
    | returned k u =>
      rw [hcall] at hj'
      obtain ⟨g, hg, -, hover⟩ := hj'
      obtain rfl : Seat.leaving name id = g := Option.some.inj (hj.symm.trans hg)
      rcases hover with ⟨_, h⟩ | ⟨_, _, h⟩
      · cases h
      · cases h
    | dropped k =>
      rw [hcall] at hj'
      obtain ⟨_, _, _, hfalse⟩ := hj'
      exact hfalse
  · rintro ⟨hstays, htask⟩
    refine ⟨fun j name n p hj hexits => ?_, htask⟩
    have hj' := hT j
    rw [hj] at hj'
    obtain ⟨g, hg, hk, hobeys⟩ := hj'
    have hfailing : g ≠ .failing name id := by
      rintro rfl
      exact hserved.failing j name id hg
    have hleaving := (exits_iff hk hfailing hobeys).mp hexits
    rw [hleaving] at hg
    exact hstays j name hg

end Configurations

theorem fed_records [DecidableEq ι] : Pool.Records (pubSub (ι := ι)) (seats ι) Seat.Of Seat.Over
    (fun _ => False) Call.seat Feeding fun c a => Calm a ∧ SubscribesFed c a where
  prog := Call.seats_obeys
  typed := Call.seat_of
  start c i k s γ _ h hγ hs := by
    obtain ⟨hseats, hserved⟩ := h
    refine ⟨hseats.start hγ hs, ?_⟩
    cases k with
    | client name =>
      cases hs
      exact hserved.keep rfl rfl (fun _ hr => hr) (by simp [Call.seat]) (by simp [Call.seat])
    | bridge name id fuel =>
      have hs : (if (name, id) ∈ c.shared.spawned then some _ else none) = some s := hs
      split_ifs at hs
      cases hs
      exact hserved.keep rfl rfl (fun _ hr => hr) (by simp [Call.seat]) (by simp [Call.seat])
  handle c i x k o f s r γ g ha h hT hi hγ hk hask hs := by
    obtain ⟨hseats, hserved⟩ := h
    obtain ⟨hcalm, hfed⟩ := ha
    have hk' := Seat.next_of (r := r) hk hask
    have hmove := handle_move hk hask hs
    refine ⟨g.next o r, rfl, hk', hseats.move hγ hk hk' hmove, ?_⟩
    refine hserved.move hseats hγ ?_ ?_ (fun id ho => ?_) hmove
    · rintro rfl
      cases hcalm
    · rintro rfl
      exact hcalm rfl
    · subst ho
      exact (fed_iff hserved hT).mp (hfed i x k id f rfl hi)
  drop c i s γ g _ _ _ hs := by cases hs
  env c x s γ ha _ _ := ha.1.elim

/-- What the invariant says of a configuration. -/
abbrev FedRecord (c : PubSubConfig ι) : Prop :=
  Pool.Record (seats ι) Seat.Of Seat.Over (fun _ => False) Feeding c

theorem FedRecord.fedReceivers {c : PubSubConfig ι} (h : FedRecord c) : FedReceivers c := by
  obtain ⟨γ, ⟨hseats, hserved⟩, hT⟩ := h
  intro i name p id hi hholds
  have hi' := hT i
  rw [hi] at hi'
  obtain ⟨g, hg, hclient, hobeys⟩ := hi'
  have hobtained := (holds_iff hclient hobeys).mp hholds
  exact (fed_iff hserved hT).mpr
    (hserved.unleft id (hseats.count.ne_zero hg (Seat.obtained_owns hobtained)))

variable [DecidableEq ι]

/-- A subscription to a sender that is not fed gives a receiver of one. -/
theorem FedRecord.not_fedReceivers {c c' : PubSubConfig ι} {a : Act ι (Call ι) Choice}
    (h : FedRecord c) (hbad : ¬ SubscribesFed c a) (hstep : pubSub.machine.step c a = some c') :
    ¬ FedReceivers c' := by
  obtain ⟨γ, ⟨hseats, hserved⟩, hT⟩ := h
  simp only [SubscribesFed, not_forall] at hbad
  obtain ⟨i, x, k, id, f, rfl, hi, hfed⟩ := hbad
  obtain ⟨s, r, hs, rfl⟩ := Pool.act_step hstep hi
  obtain rfl : x = .any := choice_any hs (by simp) (by simp) (by simp)
  cases hs
  have hi' := hT i
  rw [hi] at hi'
  obtain ⟨g, hg, hk, hask, hnext⟩ := hi'
  have hobeys := hnext () _ rfl
  -- the one that subscribes is a client
  obtain ⟨name, rfl, hobtained⟩ : ∃ name, k = .client name ∧
      (g.next (.subscribe id) ()).Obtained name id := by
    have hask : g.asks (.subscribe id) := hask
    cases g with
    | atEntry name' id' =>
      obtain rfl : id = id' := hask
      cases k with
      | client name =>
        obtain rfl : name' = name := hk
        exact ⟨name', rfl, rfl, rfl⟩
      | bridge name id'' n => exact hk.elim
    | occupied name' new id' =>
      obtain rfl : id = id' := hask
      cases k with
      | client name =>
        obtain rfl : name' = name := hk
        exact ⟨name', rfl, rfl, rfl⟩
      | bridge name id'' n => exact hk.elim
    | _ => exact hask.elim
  have hk' : Seat.Of (.client name) (g.next (.subscribe id) ()) := Seat.next_of hk hask
  have hholds := (holds_iff hk' hobeys).mpr hobtained
  intro hall
  refine hfed ?_
  have hrunning : CallState.settle (Call.client name : Call ι) (f ()) =
      .running (Call.client name) (f ()) := by
    cases hf : f () with
    | ret u =>
      rw [hf] at hholds
      exact hholds.elim
    | op o f' => rfl
  obtain ⟨hstays, htask⟩ := hall i name (f ()) id
    ((Function.update_self ..).trans hrunning) hholds
  refine ⟨fun j name' n p hj => ?_, htask⟩
  have hji : j ≠ i := by
    rintro rfl
    rw [hi] at hj
    cases hj
  exact hstays j name' n p ((Function.update_of_ne hji _ _).trans hj)

theorem fedRecord_init {c : PubSubConfig ι} (hc : (pubSub (ι := ι)).machine.init c) :
    FedRecord c := by
  obtain ⟨hs, hidle⟩ := hc
  refine Pool.record_init ?_ hidle
  have hs : c.shared = .new := hs
  rw [hs]
  exact ⟨Seats.new, rfl, fun _ _ _ hj => (by cases hj), fun _ hr => absurd rfl hr⟩

/-- Along a run from a new manager, with Redis up and no shutdown, every receiver is at a sender
    that is fed exactly when every subscription is to one. -/
theorem fedReceivers_iff {c c' : PubSubConfig ι} {acts : List (Act ι (Call ι) Choice)}
    (hc : (pubSub (ι := ι)).machine.init c) (hcalm : ∀ a ∈ acts, Calm a)
    (hrun : pubSub.machine.run c acts = some c') :
    pubSub.machine.Along FedReceivers c acts ↔ pubSub.machine.Meets SubscribesFed c acts :=
  fed_records.along_iff (fun _ h => FedRecord.fedReceivers h)
    (fun _ _ _ h _ hbad hstep => FedRecord.not_fedReceivers h hbad hstep) (fedRecord_init hc)
    (Machine.meets_of_labels hcalm c) hrun

/-! ## A late subscriber -/

/-- Client 2 looks at the count while client 0 has its receiver; client 0 drops it; the bridge,
    call 1, sees that nobody is left and ends; client 2 subscribes. -/
def lateSubscriber : List (Act (Fin 3) (Call (Fin 3)) Choice) :=
  [.start 0 (.client "likes"), .step 0 .any, .step 0 .any, .step 0 .any, .step 0 .any,
    .start 1 (.bridge "likes" (0, 0) 0), .step 1 .any,
    .start 2 (.client "likes"), .step 2 .any, .step 2 .any,
    .step 0 .any,
    .step 1 .any, .step 1 .any, .step 1 .any, .step 1 .any,
    .step 2 .any, .step 2 .any]

theorem lateSubscriber_calm : ∀ a ∈ lateSubscriber, Calm a := by
  have hkinds : ∀ a ∈ lateSubscriber, (∃ i k, a = .start i k) ∨ ∃ i, a = .step i .any := by
    simp [lateSubscriber]
  intro a ha
  rcases hkinds a ha with ⟨i, k, rfl⟩ | ⟨i, rfl⟩
  · trivial
  · trivial

/-- After `lateSubscriber`, with Redis up and no shutdown, client 2 has its receiver, the bridge
    task of its sender has ended, and the sender is still what the next subscriber finds. -/
theorem lateSubscriber_unfed : (∀ a ∈ lateSubscriber, Calm a) ∧
    ∃ c, pubSub.machine.run ⟨.new, fun _ => .idle⟩ lateSubscriber = some c ∧
      liveReceiver (c.calls 2) = some ("likes", (0, 0)) ∧
      (c.shared.tasks (0, 0)).map Task.ended = some true ∧
      c.shared.channels "likes" = some (0, 0) ∧ c.shared.receivers (0, 0) = 1 ∧
      ¬ FedReceivers c := by
  have hview : (pubSub.machine.run ⟨.new, fun _ => .idle⟩ lateSubscriber).any (fun c =>
      decide (liveReceiver (c.calls 2) = some ("likes", (0, 0)) ∧
        (c.shared.tasks (0, 0)).map Task.ended = some true ∧
        c.shared.channels "likes" = some (0, 0) ∧ c.shared.receivers (0, 0) = 1)) = true := by
    decide +kernel
  obtain ⟨c, hrun, hc⟩ := (Option.any_eq_true _ _).mp hview
  obtain ⟨hlive, hended, hchannel, hreceivers⟩ := of_decide_eq_true hc
  refine ⟨lateSubscriber_calm, c, hrun, hlive, hended, hchannel, hreceivers, fun hall => ?_⟩
  obtain ⟨p, hcall, hholds⟩ := of_liveReceiver hlive
  obtain ⟨t, ht, he⟩ := Option.map_eq_some_iff.mp hended
  rw [(hall 2 "likes" p (0, 0) hcall hholds).task t ht] at he
  cases he

/-- Client 2 joins client 0 at its sender, whose bridge has begun. -/
def joined : List (Act (Fin 3) (Call (Fin 3)) Choice) :=
  .start 0 (.client "likes") :: List.replicate 4 (.step 0 .any) ++
    [.start 1 (.bridge "likes" (0, 0) 0), .step 1 .any, .start 2 (.client "likes")] ++
    List.replicate 4 (.step 2 .any)

theorem joined_calm : ∀ a ∈ joined, Calm a := by
  have hkinds : ∀ a ∈ joined, (∃ i k, a = .start i k) ∨ ∃ i, a = .step i .any := by
    simp [joined]
  intro a ha
  rcases hkinds a ha with ⟨i, k, rfl⟩ | ⟨i, rfl⟩
  · trivial
  · trivial

/-- The call is at the clean-up of a bridge task. -/
def cleansUp : CallState (Call ι) (Op ι) Op.Ans Unit → Bool
  | .running _ (.op (.copyGet _ _) _) => true
  | .running _ (.op (.copyRemove _ _) _) => true
  | .running _ (.op (.finish _) _) => true
  | _ => false

/-- A subscription finds no bridge at its clean-up and the task of the sender not ended. -/
def subscribesEarly (c : PubSubConfig (Fin 3)) : Act (Fin 3) (Call (Fin 3)) Choice → Bool
  | .step i _ =>
    match c.calls i with
    | .running _ (.op (.subscribe id) _) => decide (∀ j, cleansUp (c.calls j) = false) &&
        (c.shared.tasks id).all fun t => !t.ended
    | _ => true
  | _ => true

theorem subscribesFed_of_early (c : PubSubConfig (Fin 3)) (a : Act (Fin 3) (Call (Fin 3)) Choice)
    (h : subscribesEarly c a = true) : SubscribesFed c a := by
  rintro i x k id f rfl hi
  simp only [subscribesEarly, hi, Bool.and_eq_true, decide_eq_true_eq] at h
  obtain ⟨hcalls, htask⟩ := h
  refine ⟨fun j name n p hj hexits => ?_, fun t ht => ?_⟩
  · have hstays := hcalls j
    rw [hj] at hstays
    cases p with
    | ret u => exact hexits
    | op o f => cases o <;> first | exact hexits | cases hstays
  · rw [ht, Option.all_some, Bool.not_eq_true'] at htask
    exact htask

/-- `fedReceivers_iff` for `joined`, where both clients are fed, and for `lateSubscriber`. -/
theorem fedReceivers_iff_joined_lateSubscriber :
    (∃ c, pubSub.machine.run ⟨.new, fun _ => .idle⟩ joined = some c ∧
      liveReceiver (c.calls 0) = some ("likes", (0, 0)) ∧
      liveReceiver (c.calls 2) = some ("likes", (0, 0)) ∧
      pubSub.machine.Along FedReceivers ⟨.new, fun _ => .idle⟩ joined) ∧
    (pubSub.machine.Along FedReceivers ⟨.new, fun _ => .idle⟩ lateSubscriber ↔
      pubSub.machine.Meets SubscribesFed ⟨.new, fun _ => .idle⟩ lateSubscriber) := by
  have hinit : (pubSub (ι := Fin 3)).machine.init ⟨.new, fun _ => .idle⟩ := ⟨rfl, fun _ => rfl⟩
  constructor
  · have hview : (pubSub.machine.run ⟨.new, fun _ => .idle⟩ joined).map (fun c =>
        (liveReceiver (c.calls 0), liveReceiver (c.calls 2))) =
        some (some ("likes", (0, 0)), some ("likes", (0, 0))) := by
      decide +kernel
    have hearly : pubSub.machine.meetsAll subscribesEarly ⟨.new, fun _ => .idle⟩ joined = true := by
      decide +kernel
    obtain ⟨c, hrun, hc⟩ := Option.map_eq_some_iff.mp hview
    obtain ⟨h₀, h₂⟩ := Prod.mk.inj hc
    exact ⟨c, hrun, h₀, h₂, (fedReceivers_iff hinit joined_calm hrun).mpr
      (Machine.meets_of_meetsAll subscribesFed_of_early hearly)⟩
  · have hview : (pubSub.machine.run ⟨.new, fun _ => .idle⟩ lateSubscriber).isSome = true := by
      decide +kernel
    obtain ⟨c, hrun⟩ := Option.isSome_iff_exists.mp hview
    exact fedReceivers_iff hinit lateSubscriber_calm hrun

end SocialApi.PubSub
