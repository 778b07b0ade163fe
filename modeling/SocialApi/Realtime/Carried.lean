import SocialApi.Realtime.Places

/-!
# What the stages carry

A message travels from Redis to a connection, from there to the broadcast channel, and from there
to each stream on its own; bridges reconnect and give up, streams lag behind, clients go away.

* `Carries`: what every stage has passed on is part of what the stage before has, in the same
  order.
* `Carries.got_sublist`: so the changes a stream has passed on were published on its channel.
-/

namespace SocialApi.Realtime

open SocialApi.PubSub

/-! ## The operations of the manager -/

section Effects

variable {ι : Type} [DecidableEq ι]

/-- The answers that change nothing but the manager. -/
def Quiet : (o : PubSub.Op ι) → o.Ans → Prop
  | .subscribe _, _ => False
  | .create, _ => False
  | .connect _, true => False
  | .next, .message _ => False
  | .next, .ended => False
  | .send _ _, true => False
  | _, _ => True

/-- What an operation of the manager does to the rest. -/
inductive Effect (cfg : StreamConfig) (s : Hub ι) (i : ι) :
    (o : PubSub.Op ι) → o.Ans → Hub ι → Prop where
  | subscribe {id : ChanId ι} :
      Effect cfg s i (.subscribe id) () (s.setNext i id (s.rings id).tail)
  | create {id : ChanId ι} :
      Effect cfg s i .create id
        { s.setNext i id 0 with rings := Function.update s.rings id .new }
  | connect {name : String} :
      Effect cfg s i (.connect name) true
        { s with conn := Function.update s.conn i (some (name, (s.published name).length)) }
  | message {name payload : String} {pos : ℕ} : s.conn i = some (name, pos) →
      (s.published name)[pos]? = some payload →
      Effect cfg s i .next (.message payload)
        { s with conn := Function.update s.conn i (some (name, pos + 1)) }
  | ended : Effect cfg s i .next .ended { s with conn := Function.update s.conn i none }
  | send {id : ChanId ι} {payload : String} :
      Effect cfg s i (.send id payload) true
        { s with rings := Function.update s.rings id ((s.rings id).send cfg.slots payload) }
  | quiet {o : PubSub.Op ι} {r : o.Ans} : Quiet o r → Effect cfg s i o r s

theorem effect_of_after {cfg : StreamConfig} {s s' : Hub ι} {i : ι} {o : PubSub.Op ι} {r : o.Ans}
    (h : s.after cfg i o r = some s') : Effect cfg s i o r s' := by
  cases o with
  | subscribe id => cases h; exact .subscribe
  | create => cases h; exact .create
  | connect name =>
    cases r with
    | true => cases h; exact .connect
    | false => cases h; exact .quiet trivial
  | next =>
    cases r with
    | message payload =>
      simp only [Hub.after] at h
      split at h
      · cases h
      · rename_i name pos hconn
        split_ifs at h with hpayload
        cases h
        exact .message hconn hpayload
    | ended => cases h; exact .ended
    | cancelled => cases h; exact .quiet trivial
    | idle => cases h; exact .quiet trivial
  | send id payload =>
    cases r with
    | true => cases h; exact .send
    | false => cases h; exact .quiet trivial
  | _ => cases h; exact .quiet trivial

/-- An operation of the manager, with what it does to the manager and to the rest. -/
theorem pubsub_of_handle {cfg : StreamConfig} {s s' : Hub ι} {i : ι} {o : PubSub.Op ι} {x : Choice}
    {r : o.Ans} (h : handle cfg s i (.pubsub o) x = some (s', r)) :
    ∃ y m s₁, x = .pubsub y ∧ PubSub.handle s.manager i o y = some (m, r) ∧
      Effect cfg s i o r s₁ ∧ s' = { s₁ with manager := m } := by
  cases x with
  | pubsub y =>
    obtain ⟨⟨m, r'⟩, hm, h⟩ := Option.bind_eq_some_iff.mp h
    obtain ⟨s₁, hafter, h⟩ := Option.map_eq_some_iff.mp h
    cases h
    exact ⟨y, m, s₁, rfl, hm, effect_of_after hafter, rfl⟩
  | _ => cases h

end Effects

/-! ## Stages -/

section Stages

variable {ι : Type}

/-- A client that has no receiver for its name yet. -/
def Early : Seat ι → Prop
  | .looking _ => True
  | .atEntry _ _ => True
  | .made _ _ => True
  | .occupied _ _ _ => True
  | _ => False

theorem early_of_next {g : Seat ι} {o : PubSub.Op ι} {r : o.Ans} (ho : g.asks o)
    (h : Early (g.next o r)) : Early g := by
  cases g <;> cases o <;> first
    | exact ho.elim
    | exact trivial
    | exact h.elim
    | (cases r <;> exact h.elim)

theorem obtained_of_next {g : Seat ι} {o : PubSub.Op ι} {r : o.Ans} {name : String}
    {id : ChanId ι} (ho : g.asks o) (h : (g.next o r).Obtained name id) :
    g.Obtained name id ∨ Early g := by
  cases g <;> cases o <;> first
    | exact ho.elim
    | exact Or.inr trivial
    | exact Or.inl h
    | exact h.elim
    | (cases r <;> exact h.elim)

theorem done_of_next {g : Seat ι} {o : PubSub.Op ι} {r : o.Ans} {name : String}
    (ho : g.asks o) (h : g.next o r = .done name) : ∃ id, g.Obtained name id := by
  cases g <;> cases o <;> first
    | exact ho.elim
    | (cases h; exact ⟨_, rfl, rfl⟩)
    | cases h
    | (cases r <;> cases h)

theorem owns_of_next {g : Seat ι} {o : PubSub.Op ι} {r : o.Ans} {id : ChanId ι} (ho : g.asks o)
    (hcreate : o ≠ .create) (hsubscribe : ∀ id', o ≠ .subscribe id') (h : (g.next o r).Owns id) :
    g.Owns id := by
  cases g <;> cases o <;> first
    | exact ho.elim
    | exact absurd rfl hcreate
    | exact absurd rfl (hsubscribe _)
    | exact h
    | exact h.elim
    | exact Or.inr h
    | (cases r <;> exact h)

end Stages

/-! ## The invariant -/

section Invariant

variable {ι : Type} (C : EventCodec) (cfg : StreamConfig)

/-- The frames about changes that the client has been sent or is about to be sent. -/
def got (s : Hub ι) (i : ι) (g : Post ι) : List Frame := (s.frames i).filter (isChange C) ++ g.owed

/-- How many of the messages of the channel the bridge has been handed or has missed. -/
def Hub.read (s : Hub ι) (j : ι) (name : String) : ℕ :=
  match s.conn j with
  | some (_, pos) => pos
  | none => (s.published name).length

/-- What holds of a call at its place; `hist` has all messages sent on each broadcast channel. -/
structure PostOk (s : Hub ι) (hist : ChanId ι → List String) (i : ι) (g : Post ι) : Prop where
  early : Early g.seat → got C s i g = []
  behind : ∀ id, g.seat.Owns id → s.next i id ≤ (hist id).length
  ahead : ∀ name id, g.seat.Obtained name id →
    (got C s i g).Sublist (((hist id).take (s.next i id)).flatMap (g.call.view C))
  done : ∀ name, g.seat = .done name →
    (got C s i g).Sublist ((s.published g.call.channel).flatMap (g.call.view C))
  conn : ∀ name pos, s.conn i = some (name, pos) →
    name = g.call.channel ∧ pos ≤ (s.published name).length
  linked : g.link ≠ .off → s.conn i ≠ none
  read : ∀ name id, g.seat.OfBridge name id → (hist id ++ g.link.hand).Sublist
    ((s.published g.call.channel).take (s.read i g.call.channel))

/-- The places in the manager's code. -/
def seatsOf (γ : ι → Option (Post ι)) (i : ι) : Option (Seat ι) := (γ i).map Post.seat

/-- The whole invariant. -/
structure Carries (s : Hub ι) (γ : ι → Option (Post ι)) (hist : ChanId ι → List String) : Prop where
  seats : Seats s.manager (seatsOf γ)
  of : ∀ i g, γ i = some g → Post.Of g.call g
  homed : ∀ i g name id, γ i = some g → g.seat.Obtained name id →
    ∃ g₀, γ id.1 = some g₀ ∧ g₀.seat.OfClient name
  holds : ∀ id, (s.rings id).Holds cfg.slots (hist id)
  begun : ∀ id, hist id ≠ [] → ∃ j g name, γ j = some g ∧ g.seat.OfBridge name id
  idle : ∀ i, γ i = none → s.conn i = none ∧ s.frames i = []
  post : ∀ i g, γ i = some g → PostOk C s hist i g

variable {C cfg} {s s' : Hub ι} {γ : ι → Option (Post ι)} {hist hist' : ChanId ι → List String}
  {i j : ι} {g g' : Post ι} {name : String} {id : ChanId ι}

theorem seatsOf_eq_some {seat : Seat ι} :
    seatsOf γ i = some seat ↔ ∃ g, γ i = some g ∧ g.seat = seat :=
  Option.map_eq_some_iff

theorem seatsOf_of (hg : γ i = some g) : seatsOf γ i = some g.seat := by
  rw [seatsOf, hg]
  rfl

theorem seatsOf_update [DecidableEq ι] :
    seatsOf (Function.update γ i (some g)) = Function.update (seatsOf γ) i (some g.seat) := by
  funext j
  by_cases hj : j = i
  · subst hj
    rw [Function.update_self, seatsOf, Function.update_self]
    rfl
  · rw [Function.update_of_ne hj, seatsOf, Function.update_of_ne hj]
    rfl

theorem Hub.read_linked {name' : String} {pos : ℕ} (h : s.conn j = some (name', pos)) :
    s.read j name = pos := by
  unfold Hub.read
  rw [h]

/-- A call keeps what it has while others act. -/
theorem PostOk.frame (h : PostOk C s hist j g) (hframes : s'.frames j = s.frames j)
    (hnext : s'.next j = s.next j) (hconn : s'.conn j = s.conn j)
    (hpublished : ∀ name, s.published name <+: s'.published name)
    (hhist : ∀ id, hist id <+: hist' id)
    (hbridge : ∀ name id, g.seat.OfBridge name id → hist' id = hist id) :
    PostOk C s' hist' j g := by
  have hgot : got C s' j g = got C s j g := by rw [got, got, hframes]
  -- the part of a longer list that has been read is the same
  have htake : ∀ {xs ys : List String} {n : ℕ}, xs <+: ys → n ≤ xs.length →
      ys.take n = xs.take n := by
    intro xs ys n hprefix hn
    obtain ⟨zs, rfl⟩ := hprefix
    exact List.take_append_of_le_length hn
  refine ⟨fun he => hgot ▸ h.early he, fun id hid => ?_, fun name id hobtained => ?_,
    fun name hdone => ?_, fun name pos hpos => ?_, fun hlink => hconn ▸ h.linked hlink,
    fun name id hid => ?_⟩
  · rw [hnext]
    exact (h.behind id hid).trans (hhist id).length_le
  · have hle := h.behind id (Seat.obtained_owns hobtained)
    rw [hgot, hnext, htake (hhist id) hle]
    exact h.ahead name id hobtained
  · rw [hgot]
    exact (h.done name hdone).trans ((hpublished _).sublist.flatMap _)
  · rw [hconn] at hpos
    obtain ⟨hname, hle⟩ := h.conn name pos hpos
    exact ⟨hname, hle.trans (hpublished name).length_le⟩
  · rw [hbridge name id hid]
    refine (h.read name id hid).trans ?_
    unfold Hub.read
    rw [hconn]
    cases hc : s.conn j with
    | none =>
      show ((s.published _).take _).Sublist ((s'.published _).take _)
      rw [List.take_length, List.take_length]
      exact (hpublished _).sublist
    | some entry =>
      obtain ⟨name', pos⟩ := entry
      obtain ⟨rfl, hle⟩ := h.conn name' pos hc
      show ((s.published _).take pos).Sublist ((s'.published _).take pos)
      rw [htake (hpublished _) hle]

/-- A client gets its receiver at a sender whose bridge is one of its channel. -/
theorem Carries.channel_eq (h : Carries C cfg s γ hist) (hg : γ i = some g)
    (hobtained : g.seat.Obtained name id) {b : Post ι} (hb : γ j = some b) {name' : String}
    (hbridge : b.seat.OfBridge name' id) : g.call.channel = b.call.channel := by
  have htogether : Together s.manager (seatsOf γ) name' id :=
    Or.inr (Or.inr ⟨j, b.seat, seatsOf_of hb, hbridge⟩)
  obtain ⟨seat, hseat, hname'⟩ := h.seats.named name' id htogether
  obtain ⟨g₀, hg₀, rfl⟩ := seatsOf_eq_some.mp hseat
  obtain ⟨g₀', hg₀', hname⟩ := h.homed i g name id hg hobtained
  obtain rfl : g₀ = g₀' := Option.some.inj (hg₀.symm.trans hg₀')
  obtain rfl : name = name' := (Seat.ofClient_iff hname').mp hname
  obtain ⟨-, hof⟩ := h.of i g hg
  obtain ⟨-, hofb⟩ := h.of j b hb
  have hclient : g.call.channel = name := by
    cases hcall : g.call with
    | stream transport params fuel =>
      rw [hcall] at hof
      exact (Seat.obtained_name hof hobtained).symm
    | bridge n id' fuel =>
      rw [hcall] at hof
      cases hseat : g.seat <;> rw [hseat] at hof hobtained <;> first
        | exact hof.elim
        | exact hobtained.elim
  have hchannel : b.call.channel = name := by
    cases hcall : b.call with
    | stream transport params fuel =>
      rw [hcall] at hofb
      exact absurd hbridge (Seat.not_ofBridge hofb)
    | bridge n id' fuel =>
      rw [hcall] at hofb
      exact ((Seat.ofBridge_iff hbridge).mp hofb).1
  rw [hclient, hchannel]

/-- The changes a stream has passed on were published on its channel. -/
theorem Carries.got_sublist (h : Carries C cfg s γ hist) (hg : γ i = some g) {name : String}
    (hclient : g.seat.OfClient name) :
    (got C s i g).Sublist ((s.published g.call.channel).flatMap (g.call.view C)) := by
  have hpost := h.post i g hg
  have hheld : ∀ name' id, g.seat.Obtained name' id →
      (got C s i g).Sublist ((s.published g.call.channel).flatMap (g.call.view C)) := by
    intro name' id hobtained
    refine (hpost.ahead name' id hobtained).trans (((List.take_sublist _ _).trans ?_).flatMap _)
    by_cases hempty : hist id = []
    · rw [hempty]
      exact List.nil_sublist _
    · obtain ⟨j, b, name₁, hb, hbridge⟩ := h.begun id hempty
      rw [h.channel_eq hg hobtained hb hbridge]
      exact (List.sublist_append_left _ _).trans
        (((h.post j b hb).read _ id hbridge).trans (List.take_sublist _ _))
  cases hseat : g.seat with
  | looking name' =>
    rw [hpost.early (hseat ▸ trivial)]
    exact List.nil_sublist _
  | atEntry name' id =>
    rw [hpost.early (hseat ▸ trivial)]
    exact List.nil_sublist _
  | made name' id =>
    rw [hpost.early (hseat ▸ trivial)]
    exact List.nil_sublist _
  | occupied name' new id =>
    rw [hpost.early (hseat ▸ trivial)]
    exact List.nil_sublist _
  | attached name' id => exact hheld name' id (hseat ▸ ⟨rfl, rfl⟩)
  | inserted name' id => exact hheld name' id (hseat ▸ ⟨rfl, rfl⟩)
  | entered name' new id => exact hheld name' id (hseat ▸ ⟨rfl, rfl⟩)
  | joined name' new id => exact hheld name' id (hseat ▸ ⟨rfl, rfl⟩)
  | holding name' id => exact hheld name' id (hseat ▸ ⟨rfl, rfl⟩)
  | done name' => exact hpost.done name' hseat
  | _ =>
    rw [hseat] at hclient
    exact hclient.elim

/-- A bridge has no receivers. -/
theorem postOk_bridge (hbridge : g.seat.OfBridge name id)
    (hconn : ∀ name pos, s.conn i = some (name, pos) →
      name = g.call.channel ∧ pos ≤ (s.published name).length)
    (hlinked : g.link ≠ .off → s.conn i ≠ none)
    (hread : (hist id ++ g.link.hand).Sublist
      ((s.published g.call.channel).take (s.read i g.call.channel))) : PostOk C s hist i g where
  early he := by cases hseat : g.seat <;> rw [hseat] at hbridge he <;> first
    | exact he.elim
    | exact hbridge.elim
  behind id' hid := by cases hseat : g.seat <;> rw [hseat] at hbridge hid <;> first
    | exact hid.elim
    | exact hbridge.elim
  ahead name' id' hid := by cases hseat : g.seat <;> rw [hseat] at hbridge hid <;> first
    | exact hid.elim
    | exact hbridge.elim
  done name' hdone := by
    rw [hdone] at hbridge
    exact hbridge.elim
  conn := hconn
  linked := hlinked
  read name' id' hid := by
    obtain ⟨-, rfl⟩ := (Seat.ofBridge_iff hbridge).mp hid
    exact hread

/-- A bridge with a connection. -/
theorem postOk_linked (hbridge : g.seat.OfBridge name id) {pos : ℕ}
    (hconn : s.conn i = some (g.call.channel, pos))
    (hpos : pos ≤ (s.published g.call.channel).length)
    (hread : (hist id ++ g.link.hand).Sublist ((s.published g.call.channel).take pos)) :
    PostOk C s hist i g := by
  refine postOk_bridge hbridge (fun name pos' hpos' => ?_) (fun _ => ?_) ?_
  · rw [hconn] at hpos'
    cases hpos'
    exact ⟨rfl, hpos⟩
  · rw [hconn]
    simp
  · rw [Hub.read_linked hconn]
    exact hread

/-- A bridge without one. -/
theorem postOk_unlinked (hbridge : g.seat.OfBridge name id) (hconn : s.conn i = none)
    (hoff : g.link = .off) (hread : (hist id).Sublist (s.published g.call.channel)) :
    PostOk C s hist i g := by
  refine postOk_bridge hbridge (fun name pos hpos => ?_) (fun hlink => absurd hoff hlink) ?_
  · rw [hconn] at hpos
    cases hpos
  · unfold Hub.read
    rw [hconn, hoff, List.take_length]
    show (hist id ++ []).Sublist _
    rw [List.append_nil]
    exact hread

end Invariant

end SocialApi.Realtime
