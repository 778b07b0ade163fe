import SocialApi.PubSub
import SocialApi.Concurrent.Tracked

/-!
# Where the clients and the bridges are

Where each client and each bridge task is (`Seat`), with the name it was called for, the
sender it is at and the receivers it has.

* `Call.seats_obeys`: the programs go through these places.
* `holds_iff`: the place of a client says whether it has a receiver of a sender.
* `Counted`: the count of a sender is the number of the calls that have a receiver of it.
-/

namespace SocialApi.PubSub

open SocialApi.Concurrent

/-! ## Places -/

/-- A client that has nothing, is at an entry under a guard, has subscribed there, has made a
    channel, has put it into the map, or is at an occupied entry instead, has subscribed there,
    has left it, has its receiver, or has dropped it; a bridge task at work, after a failure of
    Redis, on its way out, or ended. -/
inductive Seat (ι : Type) where
  | looking (name : String)
  | atEntry (name : String) (id : ChanId ι)
  | attached (name : String) (id : ChanId ι)
  | made (name : String) (id : ChanId ι)
  | inserted (name : String) (id : ChanId ι)
  | occupied (name : String) (new id : ChanId ι)
  | entered (name : String) (new id : ChanId ι)
  | joined (name : String) (new id : ChanId ι)
  | holding (name : String) (id : ChanId ι)
  | done (name : String)
  | bridging (name : String) (id : ChanId ι)
  | failing (name : String) (id : ChanId ι)
  | leaving (name : String) (id : ChanId ι)
  | ended (name : String) (id : ChanId ι)

namespace Seat

variable {ι : Type}

/-- The operations at a place. -/
def asks : Seat ι → Op ι → Prop
  | looking name, .get name' => name' = name
  | looking _, .create => True
  | looking name, .remove name' => name' = name
  | atEntry _ id, .receiverCount id' => id' = id
  | atEntry _ id, .subscribe id' => id' = id
  | atEntry name _, .dropRef name' => name' = name
  | attached name _, .dropRef name' => name' = name
  | made name id, .entry name' id' => name' = name ∧ id' = id
  | inserted name id, .spawn name' id' => name' = name ∧ id' = id
  | occupied _ _ id, .subscribe id' => id' = id
  | entered name _ _, .dropEntry name' => name' = name
  | joined _ new _, .dropNew new' => new' = new
  | holding _ id, .dropReceiver id' => id' = id
  | bridging _ id, .receiverCount id' => id' = id
  | bridging _ _, .isCancelled => True
  | bridging _ _, .connect _ => True
  | bridging _ _, .next => True
  | bridging _ id, .send id' _ => id' = id
  | bridging _ _, .park => True
  | failing _ _, .backoff _ => True
  | failing _ id, .copyGet id' _ => id' = id
  | leaving _ id, .copyGet id' _ => id' = id
  | leaving _ id, .copyRemove id' _ => id' = id
  | leaving _ id, .finish id' => id' = id
  | _, _ => False

/-- The place after the answer to an operation. -/
def next : Seat ι → (o : Op ι) → o.Ans → Seat ι
  | looking name, .get _, some id => atEntry name id
  | looking name, .create, id => made name id
  | atEntry name id, .subscribe _, _ => attached name id
  | atEntry name _, .dropRef _, _ => looking name
  | attached name id, .dropRef _, _ => holding name id
  | made name id, .entry _ _, none => inserted name id
  | made name id, .entry _ _, some existing => occupied name id existing
  | inserted name id, .spawn _ _, _ => holding name id
  | occupied name new id, .subscribe _, _ => entered name new id
  | entered name new id, .dropEntry _, _ => joined name new id
  | joined name _ id, .dropNew _, _ => holding name id
  | holding name _, .dropReceiver _, _ => done name
  | bridging name id, .receiverCount _, 0 => leaving name id
  | bridging name id, .isCancelled, true => leaving name id
  | bridging name id, .connect _, false => failing name id
  | bridging name id, .next, .cancelled => leaving name id
  | bridging name id, .next, .ended => failing name id
  | bridging name id, .send _ _, false => leaving name id
  | failing name id, .backoff _, true => leaving name id
  | failing name id, .backoff _, false => bridging name id
  | failing name id, .copyGet _ _, _ => leaving name id
  | leaving name id, .finish _, _ => ended name id
  | g, _, _ => g

/-- The place of a client of the name. -/
def OfClient (name : String) : Seat ι → Prop
  | looking name' => name' = name
  | atEntry name' _ => name' = name
  | attached name' _ => name' = name
  | made name' _ => name' = name
  | inserted name' _ => name' = name
  | occupied name' _ _ => name' = name
  | entered name' _ _ => name' = name
  | joined name' _ _ => name' = name
  | holding name' _ => name' = name
  | done name' => name' = name
  | _ => False

/-- The place of the bridge task of the sender. -/
def OfBridge (name : String) (id : ChanId ι) : Seat ι → Prop
  | bridging name' id' => name' = name ∧ id' = id
  | failing name' id' => name' = name ∧ id' = id
  | leaving name' id' => name' = name ∧ id' = id
  | ended name' id' => name' = name ∧ id' = id
  | _ => False

/-- The place goes with the request. -/
def Of : Call ι → Seat ι → Prop
  | .client name => OfClient name
  | .bridge name id _ => OfBridge name id

/-- The call is over there. -/
def Over (g : Seat ι) (_ : Unit) : Prop :=
  (∃ name, g = done name) ∨ ∃ name id, g = ended name id

/-- The call has a receiver of the sender. -/
def Owns : Seat ι → ChanId ι → Prop
  | attached _ id, id' => id' = id
  | made _ id, id' => id' = id
  | inserted _ id, id' => id' = id
  | occupied _ new _, id' => id' = new
  | entered _ new id, id' => id' = new ∨ id' = id
  | joined _ new id, id' => id' = new ∨ id' = id
  | holding _ id, id' => id' = id
  | _, _ => False

/-- The client has got a receiver of the sender for the name. -/
def Obtained : Seat ι → String → ChanId ι → Prop
  | attached name id, name', id' => name' = name ∧ id' = id
  | inserted name id, name', id' => name' = name ∧ id' = id
  | entered name _ id, name', id' => name' = name ∧ id' = id
  | joined name _ id, name', id' => name' = name ∧ id' = id
  | holding name id, name', id' => name' = name ∧ id' = id
  | _, _, _ => False

/-- The client has the sender it has made for itself. -/
def New : Seat ι → ChanId ι → Prop
  | made _ id, id' => id' = id
  | occupied _ new _, id' => id' = new
  | entered _ new _, id' => id' = new
  | joined _ new _, id' => id' = new
  | _, _ => False

theorem next_of {k : Call ι} {g : Seat ι} {o : Op ι} {r : o.Ans} (hk : Of k g) (ho : g.asks o) :
    Of k (g.next o r) := by
  cases k with
  | client name =>
    cases g <;> cases o <;> first
      | exact ho.elim
      | exact hk.elim
      | exact hk
      | (cases r <;> exact hk)
  | bridge name id fuel =>
    cases g <;> cases o <;> first
      | exact ho.elim
      | exact hk.elim
      | exact hk
      | (cases r <;> exact hk)

theorem ofClient_iff {g : Seat ι} {name name' : String} (h : g.OfClient name) :
    g.OfClient name' ↔ name' = name := by
  cases g <;> first
    | exact h.elim
    | exact ⟨fun h' => h'.symm.trans h, fun h' => h.trans h'.symm⟩

theorem not_ofBridge {g : Seat ι} {name name' : String} {id : ChanId ι} (h : g.OfClient name) :
    ¬ g.OfBridge name' id := by
  cases g <;> first
    | exact h.elim
    | exact fun h' => h'

theorem ofBridge_iff {g : Seat ι} {name name' : String} {id id' : ChanId ι}
    (h : g.OfBridge name id) : g.OfBridge name' id' ↔ name' = name ∧ id' = id := by
  cases g <;> first
    | exact h.elim
    | exact ⟨fun h' => ⟨h'.1.symm.trans h.1, h'.2.symm.trans h.2⟩,
        fun h' => ⟨h.1.trans h'.1.symm, h.2.trans h'.2.symm⟩⟩

/-- Two places of one request. -/
theorem of_iff {k : Call ι} {g g' : Seat ι} (h : Of k g) (h' : Of k g') :
    (∀ name, g'.OfClient name ↔ g.OfClient name) ∧
      ∀ name id, g'.OfBridge name id ↔ g.OfBridge name id := by
  cases k with
  | client name =>
    refine ⟨fun name' => (ofClient_iff h').trans (ofClient_iff h).symm, fun name' id => ?_⟩
    exact iff_of_false (not_ofBridge h') (not_ofBridge h)
  | bridge name id fuel =>
    refine ⟨fun name' => iff_of_false (fun hc => ?_) (fun hc => ?_), fun name' id' => ?_⟩
    · exact not_ofBridge hc h'
    · exact not_ofBridge hc h
    · exact (ofBridge_iff h').trans (ofBridge_iff h).symm

theorem obtained_owns {g : Seat ι} {name : String} {id : ChanId ι} (h : g.Obtained name id) :
    g.Owns id := by
  cases g with
  | entered name' new id' => exact Or.inr h.2
  | joined name' new id' => exact Or.inr h.2
  | attached name' id' => exact h.2
  | inserted name' id' => exact h.2
  | holding name' id' => exact h.2
  | _ => exact h.elim

theorem obtained_name {g : Seat ι} {name name' : String} {id : ChanId ι} (h : g.OfClient name)
    (ho : g.Obtained name' id) : name' = name := by
  cases g with
  | attached _ _ => exact ho.1.trans h
  | inserted _ _ => exact ho.1.trans h
  | entered _ _ _ => exact ho.1.trans h
  | joined _ _ _ => exact ho.1.trans h
  | holding _ _ => exact ho.1.trans h
  | _ => exact ho.elim

theorem obtained_not_over {g : Seat ι} {name : String} {id : ChanId ι} (h : g.Obtained name id) :
    ¬ Over g () := by
  rintro (⟨name', rfl⟩ | ⟨name', id', rfl⟩)
  · exact h
  · exact h

theorem owns_cases {g : Seat ι} {id : ChanId ι} (h : g.Owns id) :
    g.New id ∨ ∃ name, g.OfClient name ∧ g.Obtained name id := by
  cases g with
  | made name id' => exact Or.inl h
  | occupied name new id' => exact Or.inl h
  | entered name new id' => exact h.imp (fun h => h) fun h => ⟨name, rfl, rfl, h⟩
  | joined name new id' => exact h.imp (fun h => h) fun h => ⟨name, rfl, rfl, h⟩
  | attached name id' => exact Or.inr ⟨name, rfl, rfl, h⟩
  | inserted name id' => exact Or.inr ⟨name, rfl, rfl, h⟩
  | holding name id' => exact Or.inr ⟨name, rfl, rfl, h⟩
  | _ => exact h.elim

end Seat

/-- The places as a protocol. -/
def seats (ι : Type) : Protocol (Op ι) Op.Ans (Seat ι) where
  asks := Seat.asks
  answers g o r g' := g' = g.next o r

/-- The place a call starts at. -/
def Call.seat {ι : Type} : Call ι → Seat ι
  | client name => .looking name
  | bridge name id _ => .bridging name id

section Obeys

variable {ι : Type} {name : String} {id : ChanId ι} {α : Type}

/-- Where a bridge is when its connection has ended. -/
def Exited (name : String) (id : ChanId ι) (g : Seat ι) : BridgeExit → Prop
  | .shutdown => g = .leaving name id
  | .noReceivers => g = .leaving name id
  | .redisError => g = .failing name id

theorem forwardLoop_seats (fuel : ℕ) :
    (seats ι).Obeys (Exited name id) (.bridging name id) (forwardLoop id fuel) := by
  induction fuel with
  | zero => exact ⟨trivial, fun never => nomatch never⟩
  | succ fuel ih =>
    refine ⟨rfl, ?_⟩
    rintro count g rfl
    show (seats ι).Obeys _ _ (if count = 0 then _ else _)
    cases count with
    | zero => exact rfl
    | succ n =>
      rw [if_neg (Nat.succ_ne_zero n)]
      refine ⟨trivial, ?_⟩
      rintro (_ | payload | _ | _) g rfl
      · exact rfl
      · refine ⟨rfl, ?_⟩
        rintro (_ | _) g rfl
        · exact rfl
        · exact ih
      · exact rfl
      · exact ih

theorem runSingleConnection_seats (fuel : ℕ) :
    (seats ι).Obeys (Exited name id) (.bridging name id) (runSingleConnection fuel name id) := by
  refine ⟨trivial, ?_⟩
  rintro (_ | _) g rfl
  · exact rfl
  · exact forwardLoop_seats fuel

/-- A bridge gives up because it leaves, or after a failure of Redis. -/
def GaveUp (name : String) (id : ChanId ι) (g : Seat ι) (_ : Unit) : Prop :=
  g = .leaving name id ∨ g = .failing name id

theorem runBridgeWithReconnect_seats (fuel : ℕ) (left : ℕ) :
    (seats ι).Obeys (GaveUp name id) (.bridging name id)
      (runBridgeWithReconnect fuel name id left) := by
  induction left with
  | zero =>
    unfold runBridgeWithReconnect
    refine ⟨trivial, ?_⟩
    rintro (_ | _) g rfl
    · refine ⟨rfl, ?_⟩
      rintro (_ | count) g rfl
      · exact Or.inl rfl
      · refine (runSingleConnection_seats fuel).bind ?_
        rintro g (_ | _ | _) hg
        · exact Or.inl hg
        · exact Or.inl hg
        · exact Or.inr hg
    · exact Or.inl rfl
  | succ left ih =>
    unfold runBridgeWithReconnect
    refine ⟨trivial, ?_⟩
    rintro (_ | _) g rfl
    · refine ⟨rfl, ?_⟩
      rintro (_ | count) g rfl
      · exact Or.inl rfl
      · refine (runSingleConnection_seats fuel).bind ?_
        rintro g (_ | _ | _) hg
        · exact Or.inl hg
        · exact Or.inl hg
        · obtain rfl : g = .failing name id := hg
          refine ⟨trivial, ?_⟩
          rintro (_ | _) g rfl
          · refine ⟨rfl, ?_⟩
            rintro (_ | count) g rfl
            · exact Or.inl rfl
            · exact ih
          · exact Or.inl rfl
    · exact Or.inl rfl

theorem bridge_seats [DecidableEq ι] (fuel : ℕ) (name : String) (id : ChanId ι) :
    (seats ι).Obeys Seat.Over (.bridging name id) (bridge fuel name id) := by
  have hfinish : (seats ι).Obeys Seat.Over (.leaving name id) (perform (.finish id)) := by
    refine ⟨rfl, ?_⟩
    rintro r g rfl
    exact Or.inr ⟨name, id, rfl⟩
  have hremove : ∀ entry : ChanId ι, (seats ι).Obeys Seat.Over (.leaving name id)
      (if entry = id then do
        perform (.copyRemove id name)
        perform (.finish id)
      else perform (.finish id)) := by
    intro entry
    split_ifs
    · refine ⟨rfl, ?_⟩
      rintro r g rfl
      exact hfinish
    · exact hfinish
  refine (runBridgeWithReconnect_seats fuel _).bind ?_
  rintro g u (rfl | rfl)
  · refine ⟨rfl, ?_⟩
    rintro (_ | entry) g rfl
    · exact hfinish
    · exact hremove entry
  · refine ⟨rfl, ?_⟩
    rintro (_ | entry) g rfl
    · exact hfinish
    · exact hremove entry

/-- A client has its receiver when `subscribe` has returned. -/
theorem subscribeSlow_seats (name : String) :
    (seats ι).Obeys (fun g id => g = .holding name id) (.looking name) (subscribeSlow name) := by
  refine ⟨trivial, ?_⟩
  rintro new g rfl
  refine ⟨⟨rfl, rfl⟩, ?_⟩
  rintro (_ | existing) g rfl
  · refine ⟨⟨rfl, rfl⟩, ?_⟩
    rintro r g rfl
    exact rfl
  · refine ⟨rfl, ?_⟩
    rintro r g rfl
    refine ⟨rfl, ?_⟩
    rintro r g rfl
    refine ⟨rfl, ?_⟩
    rintro r g rfl
    exact rfl

theorem subscribe_seats (name : String) :
    (seats ι).Obeys (fun g id => g = .holding name id) (.looking name) (subscribe name) := by
  refine ⟨rfl, ?_⟩
  rintro (_ | id) g rfl
  · exact subscribeSlow_seats name
  · refine ⟨rfl, ?_⟩
    rintro count g rfl
    show (seats ι).Obeys _ (.atEntry name id) (if count > 0 then _ else _)
    split_ifs
    · refine ⟨rfl, ?_⟩
      rintro r g rfl
      refine ⟨rfl, ?_⟩
      rintro r g rfl
      exact rfl
    · refine ⟨rfl, ?_⟩
      rintro r g rfl
      refine ⟨rfl, ?_⟩
      rintro r g rfl
      exact subscribeSlow_seats name

theorem Call.seats_obeys [DecidableEq ι] (k : Call ι) : (seats ι).Obeys Seat.Over k.seat k.prog
    := by
  cases k with
  | client name =>
    refine (subscribe_seats name).bind ?_
    rintro g id rfl
    refine ⟨rfl, ?_⟩
    rintro r g rfl
    exact Or.inl ⟨name, rfl⟩
  | bridge name id fuel => exact bridge_seats fuel name id

theorem Call.seat_of (k : Call ι) : Seat.Of k k.seat := by
  cases k with
  | client name => exact rfl
  | bridge name id fuel => exact ⟨rfl, rfl⟩

/-- Redis does not fail, and nobody asks for a shutdown. -/
def Calm : Act ι (Call ι) Choice → Prop
  | .step _ (.connected ok) => ok = true
  | .step _ (.item item) => item ≠ .ended
  | .env _ => False
  | _ => True

/-- The name and the receiver of a client whose `subscribe` has returned and which has not
    dropped the receiver yet. -/
def liveReceiver : CallState (Call ι) (Op ι) Op.Ans Unit → Option (String × ChanId ι)
  | .running (.client name) (.op (.dropReceiver id) _) => some (name, id)
  | _ => none

/-- A client that has a receiver of the sender: before it drops it, it drops what else it has,
    or spawns the bridge task. -/
def Holds (id : ChanId ι) : PubSubM ι Unit → Prop
  | .op (.dropReceiver id') _ => id' = id
  | .op (.dropRef _) f => Holds id (f ())
  | .op (.dropEntry _) f => Holds id (f ())
  | .op (.dropNew _) f => Holds id (f ())
  | .op (.spawn _ _) f => Holds id (f ())
  | _ => False

theorem of_liveReceiver {cs : CallState (Call ι) (Op ι) Op.Ans Unit}
    (h : liveReceiver cs = some (name, id)) :
    ∃ p, cs = .running (.client name) p ∧ Holds id p := by
  unfold liveReceiver at h
  split at h
  · cases h
    exact ⟨_, rfl, rfl⟩
  · cases h

theorem holds_holding {id' : ChanId ι} {p : PubSubM ι Unit}
    (hp : (seats ι).Obeys Seat.Over (.holding name id) p) : Holds id' p ↔ id' = id := by
  cases p with
  | ret a =>
    rcases hp with ⟨_, h⟩ | ⟨_, _, h⟩
    · cases h
    · cases h
  | op o f =>
    cases o with
    | dropReceiver id₀ =>
      obtain rfl : id₀ = id := hp.1
      exact eq_comm
    | _ => exact hp.1.elim

theorem not_holds_looking {p : PubSubM ι Unit}
    (hp : (seats ι).Obeys Seat.Over (.looking name) p) : ¬ Holds id p := by
  cases p with
  | ret a => exact fun h => h
  | op o f =>
    cases o with
    | get _ => exact fun h => h
    | create => exact fun h => h
    | remove _ => exact fun h => h
    | _ => exact hp.1.elim

theorem holds_joined {new id' : ChanId ι} {p : PubSubM ι Unit}
    (hp : (seats ι).Obeys Seat.Over (.joined name new id) p) : Holds id' p ↔ id' = id := by
  cases p with
  | ret a =>
    rcases hp with ⟨_, h⟩ | ⟨_, _, h⟩
    · cases h
    · cases h
  | op o f =>
    cases o with
    | dropNew _ =>
      show Holds id' (f ()) ↔ _
      exact holds_holding (hp.2 () _ rfl)
    | _ => exact hp.1.elim

/-- It has its receiver at the places at which it has obtained one. -/
theorem holds_iff {g : Seat ι} {p : PubSubM ι Unit} (hg : g.OfClient name)
    (hp : (seats ι).Obeys Seat.Over g p) : Holds id p ↔ g.Obtained name id := by
  cases p with
  | ret a => exact iff_of_false (fun h => h) fun h => Seat.obtained_not_over h hp
  | op o f =>
    have hnext := hp.2
    cases g with
    | looking name' => exact iff_of_false (not_holds_looking hp) fun h => h
    | atEntry name' id' =>
      refine iff_of_false ?_ fun h => h
      cases o with
      | receiverCount _ => exact fun h => h
      | subscribe _ => exact fun h => h
      | dropRef _ =>
        show ¬ Holds id (f ())
        exact not_holds_looking (hnext () _ rfl)
      | _ => exact hp.1.elim
    | attached name' id' =>
      cases o with
      | dropRef _ => exact (holds_holding (hnext () _ rfl)).trans ⟨fun h => ⟨hg.symm, h⟩, And.right⟩
      | _ => exact hp.1.elim
    | made name' id' =>
      refine iff_of_false ?_ fun h => h
      cases o with
      | entry _ _ => exact fun h => h
      | _ => exact hp.1.elim
    | inserted name' id' =>
      cases o with
      | spawn _ _ => exact (holds_holding (hnext () _ rfl)).trans ⟨fun h => ⟨hg.symm, h⟩, And.right⟩
      | _ => exact hp.1.elim
    | occupied name' new id' =>
      refine iff_of_false ?_ fun h => h
      cases o with
      | subscribe _ => exact fun h => h
      | _ => exact hp.1.elim
    | entered name' new id' =>
      cases o with
      | dropEntry _ => exact (holds_joined (hnext () _ rfl)).trans ⟨fun h => ⟨hg.symm, h⟩, And.right⟩
      | _ => exact hp.1.elim
    | joined name' new id' => exact (holds_joined hp).trans ⟨fun h => ⟨hg.symm, h⟩, And.right⟩
    | holding name' id' => exact (holds_holding hp).trans ⟨fun h => ⟨hg.symm, h⟩, And.right⟩
    | done name' => cases o <;> exact hp.1.elim
    | _ => exact hg.elim

end Obeys

/-! ## Counting receivers -/

section Count

variable {ι : Type} {γ : ι → Option (Seat ι)} {i : ι} {g g' : Seat ι} {id : ChanId ι}
  {r : ChanId ι → ℕ}

/-- The calls that have a receiver of the sender. -/
def owners (γ : ι → Option (Seat ι)) (id : ChanId ι) : Set ι :=
  {i | ∃ g, γ i = some g ∧ g.Owns id}

/-- The count of each sender is the number of the calls that have a receiver of it. -/
def Counted (r : ChanId ι → ℕ) (γ : ι → Option (Seat ι)) : Prop :=
  ∀ id, (owners γ id).encard = r id

/-- Somebody has a receiver of a sender whose count is not zero, and nobody of one whose count
    is. -/
theorem Counted.owner (h : Counted r γ) (hr : r id ≠ 0) : ∃ i g, γ i = some g ∧ g.Owns id := by
  have hne : (owners γ id).encard ≠ 0 := by
    rw [h id]
    exact_mod_cast hr
  obtain ⟨i, g, hg, hown⟩ := Set.encard_ne_zero.mp hne
  exact ⟨i, g, hg, hown⟩

theorem Counted.ne_zero (h : Counted r γ) (hg : γ i = some g) (hown : g.Owns id) : r id ≠ 0 := by
  intro hr
  have hempty : (owners γ id).encard = 0 := by
    rw [h id, hr]
    rfl
  have hmem : i ∈ owners γ id := ⟨g, hg, hown⟩
  rw [Set.encard_eq_zero.mp hempty] at hmem
  exact hmem

variable [DecidableEq ι]

theorem owners_update_of_ne {j : ι} (hj : j ≠ i) :
    j ∈ owners (Function.update γ i (some g')) id ↔ j ∈ owners γ id := by
  unfold owners
  rw [Set.mem_ofPred_eq, Set.mem_ofPred_eq, Function.update_of_ne hj]

theorem mem_owners_self : i ∈ owners (Function.update γ i (some g')) id ↔ g'.Owns id := by
  unfold owners
  rw [Set.mem_ofPred_eq, Function.update_self]
  exact ⟨fun ⟨g, hg, hown⟩ => Option.some.inj hg ▸ hown, fun h => ⟨g', rfl, h⟩⟩

/-- A call that goes on with the receivers it has. -/
theorem owners_same (hsame : g'.Owns id ↔ i ∈ owners γ id) :
    owners (Function.update γ i (some g')) id = owners γ id := by
  ext j
  by_cases hj : j = i
  · subst hj
    exact mem_owners_self.trans hsame
  · exact owners_update_of_ne hj

theorem Counted.same (h : Counted r γ) (hsame : ∀ id, g'.Owns id ↔ i ∈ owners γ id) :
    Counted r (Function.update γ i (some g')) := by
  intro id
  rw [owners_same (hsame id)]
  exact h id

/-- A call that gets a receiver of the sender. -/
theorem Counted.gain (h : Counted r γ) (hnot : i ∉ owners γ id) (hown : g'.Owns id)
    (hsame : ∀ id', id' ≠ id → (g'.Owns id' ↔ i ∈ owners γ id')) :
    Counted (Function.update r id (r id + 1)) (Function.update γ i (some g')) := by
  intro id'
  by_cases hid : id' = id
  · subst hid
    have hinsert : owners (Function.update γ i (some g')) id' = insert i (owners γ id') := by
      ext j
      rw [Set.mem_insert_iff]
      by_cases hj : j = i
      · subst hj
        exact iff_of_true (mem_owners_self.mpr hown) (Or.inl rfl)
      · rw [owners_update_of_ne hj]
        exact ⟨Or.inr, fun h => h.resolve_left hj⟩
    rw [hinsert, Set.encard_insert_of_notMem hnot, h id', Function.update_self]
    rfl
  · rw [Function.update_of_ne hid, owners_same (hsame id' hid)]
    exact h id'

/-- A call that gives a receiver of the sender up. -/
theorem Counted.loss (h : Counted r γ) (hmem : i ∈ owners γ id) (hnot : ¬ g'.Owns id)
    (hsame : ∀ id', id' ≠ id → (g'.Owns id' ↔ i ∈ owners γ id')) :
    Counted (Function.update r id (r id - 1)) (Function.update γ i (some g')) := by
  intro id'
  by_cases hid : id' = id
  · subst hid
    have hinsert : insert i (owners (Function.update γ i (some g')) id') = owners γ id' := by
      ext j
      rw [Set.mem_insert_iff]
      by_cases hj : j = i
      · subst hj
        exact iff_of_true (Or.inl rfl) hmem
      · rw [owners_update_of_ne hj]
        exact ⟨fun h => h.resolve_left hj, Or.inr⟩
    have hcard := h id'
    rw [← hinsert, Set.encard_insert_of_notMem fun hi => hnot (mem_owners_self.mp hi)] at hcard
    rw [Function.update_self]
    have hlt : r id' ≠ 0 := by
      intro hr
      rw [hr] at hcard
      simp at hcard
    obtain ⟨n, hn⟩ := Nat.exists_eq_succ_of_ne_zero hlt
    rw [hn] at hcard ⊢
    push_cast at hcard
    exact (ENat.add_left_injective_of_ne_top (by simp) hcard)
  · rw [Function.update_of_ne hid, owners_same (hsame id' hid)]
    exact h id'

end Count

end SocialApi.PubSub
