import SocialApi.PubSub.Receivers
import SocialApi.Realtime

/-!
# Where streams and bridges are

The place of a call in the manager's code (`Seat`), what a bridge's connection is doing, and the
frames that a stream owes its client for the message it has taken.

* `posts`: what a call may do at its place, and where its answers lead.
* `Call.obeys`: every stream and every bridge keeps to it. In particular each message a bridge is
  handed is sent on once, and each change a stream takes is handed to the client once.
-/

namespace SocialApi.Realtime

open SocialApi.Concurrent SocialApi.PubSub

/-! ## Changes -/

section Changes

variable (C : EventCodec)

/-- The changes in a message. -/
def changes (payload : String) : List LikeEvent :=
  match C.fromJson payload with
  | some (.change event) => [event]
  | _ => []

/-- What a client is sent for a change. -/
def changeFrame (transport : Transport) (params : Streams.StreamParams) (event : LikeEvent) :
    List Frame :=
  match transport with
  | .sse => (C.toJson (.change event)).toList.map .sse
  | .grpc => [.grpc (toProtoStreamEvent (.change event) params.contentType params.contentId)]

/-- What a consumer owes its client for an item. -/
def dueFor (transport : Transport) (params : Streams.StreamParams) : LikeStreamItem → List Frame
  | .event (.change event) => changeFrame C transport params event
  | _ => []

/-- The frame is about a change. -/
def isChange : Frame → Bool
  | .sse data => !(changes C data).isEmpty
  | .grpc (some (.liked _)) => true
  | .grpc (some (.unliked _)) => true
  | .grpc _ => false

namespace Call

variable {ι : Type}

/-- What the client of a stream is sent for a message. -/
def view : Call ι → String → List Frame
  | stream transport params _, payload =>
    (changes C payload).flatMap (changeFrame C transport params)
  | bridge _ _ _, _ => []

/-- The channel of a call. -/
def channel : Call ι → String
  | stream _ params _ => channelOf params
  | bridge name _ _ => name

end Call

variable {C} {event : LikeEvent} {transport : Transport} {params : Streams.StreamParams}

theorem isChange_changeFrame (hC : C.RoundTrips) {frame : Frame}
    (h : frame ∈ changeFrame C transport params event) : isChange C frame = true := by
  cases transport with
  | sse =>
    obtain ⟨json, hjson, rfl⟩ := List.mem_map.mp h
    have hread := hC _ _ (Option.mem_toList.mp hjson)
    simp [isChange, changes, hread]
  | grpc =>
    obtain rfl := List.mem_singleton.mp h
    cases event <;> rfl

/-- Heartbeats and the message at a shutdown are not about changes. -/
theorem not_isChange_sse (hC : C.RoundTrips) {e : StreamEvent} (he : ∀ event, e ≠ .change event)
    {json : String} (hjson : C.toJson e = some json) : isChange C (.sse json) = false := by
  have hread := hC _ _ hjson
  cases e with
  | change event => exact absurd rfl (he event)
  | heartbeat timestamp => simp [isChange, changes, hread]
  | shutdown timestamp => simp [isChange, changes, hread]

end Changes

/-! ## Places -/

/-- A bridge without a connection, one that waits for messages, and one that has been handed a
    message and not yet sent it on. -/
inductive Link where
  | off
  | idle
  | carrying (payload : String)
  deriving DecidableEq, Repr

namespace Link

/-- The message in hand. -/
def hand : Link → List String
  | carrying payload => [payload]
  | _ => []

/-- The operations of the bridge task of the channel. -/
def asks {ι : Type} (name : String) : Link → PubSub.Op ι → Prop
  | l, .connect name' => l = off ∧ name' = name
  | l, .next => l = idle
  | l, .send _ payload => l = carrying payload
  | l, _ => l.hand = []

/-- The connection after an answer. -/
def next {ι : Type} : Link → (o : PubSub.Op ι) → o.Ans → Link
  | _, .connect _, true => idle
  | _, .next, .message payload => carrying payload
  | _, .next, .ended => off
  | _, .send _ _, _ => idle
  | l, _, _ => l

end Link

/-- The request, the place in the manager's code, the connection of a bridge, and the frames that
    a stream is about to hand over. -/
structure Post (ι : Type) where
  call : Call ι
  seat : Seat ι
  link : Link
  owed : List Frame

/-- The connection of a bridge as a protocol. -/
def links (ι : Type) (name : String) : Protocol (PubSub.Op ι) PubSub.Op.Ans Link where
  asks := Link.asks name
  answers l o r l' := l' = l.next o r

namespace Post

variable {ι : Type}

/-- The operations at a place. -/
def asks (C : EventCodec) (g : Post ι) : Op ι → Prop
  | .pubsub o => g.seat.asks o ∧ g.link.asks g.call.channel o ∧ g.owed = []
  | .interval => (∃ name id, g.seat = .holding name id) ∧ g.owed = []
  | .select id => (∃ name, g.seat = .holding name id) ∧ g.owed = []
  | .now => (∃ name id, g.seat = .holding name id) ∧ g.owed = []
  | .deliver frame => (∃ name id, g.seat = .holding name id) ∧ g.owed = [frame].filter (isChange C)
  | .park => (∃ name id, g.seat = .holding name id) ∧ g.owed = []

/-- The place after an answer. -/
def next (C : EventCodec) (g : Post ι) : (o : Op ι) → o.Ans → Post ι
  | .pubsub o, r => { g with seat := g.seat.next o r, link := g.link.next o r }
  | .select _, .ok payload => { g with owed := g.call.view C payload }
  | .deliver _, _ => { g with owed := [] }
  | _, _ => g

/-- The place goes with the request. -/
def Of (k : Call ι) (g : Post ι) : Prop := g.call = k ∧ Seat.Of k.seen g.seat

/-- The call is over there. -/
def Over (g : Post ι) (u : Unit) : Prop := g.seat.Over u ∧ g.owed = []

end Post

/-- The places as a protocol. -/
def posts (ι : Type) (C : EventCodec) : Protocol (Op ι) Op.Ans (Post ι) where
  asks := Post.asks C
  answers g o r g' := g' = g.next C o r

/-- The place a call starts at. -/
def Call.post {ι : Type} (k : Call ι) : Post ι := ⟨k, k.seen.seat, .off, []⟩

/-! ## Programs -/

section Obeys

variable {ι : Type} {C : EventCodec} {α : Type}

/-- The manager's methods, with the place and the connection taken together. -/
theorem obeys_ofPubSub {k : Call ι} {name : String} (hname : k.channel = name) {p : PubSubM ι α}
    {Q : Seat ι → α → Prop} {R : Link → α → Prop} :
    ∀ {seat : Seat ι} {link : Link}, (seats ι).Obeys Q seat p → (links ι name).Obeys R link p →
      (posts ι C).Obeys (fun g a => Q g.seat a ∧ R g.link a ∧ g.call = k ∧ g.owed = [])
        ⟨k, seat, link, []⟩ (ofPubSub p) := by
  induction p with
  | ret a =>
    intro seat link hseat hlink
    exact ⟨hseat, hlink, rfl, rfl⟩
  | op o f ih =>
    intro seat link hseat hlink
    refine ⟨⟨hseat.1, ?_, rfl⟩, ?_⟩
    · show link.asks k.channel o
      rw [hname]
      exact hlink.1
    · intro r g hg
      subst hg
      exact ih r (hseat.2 r _ rfl) (hlink.2 r _ rfl)

variable {name : String} {id : ChanId ι}

/-- Accesses that have nothing to do with a connection. -/
def Plain : PubSub.Op ι → Prop
  | .connect _ => False
  | .next => False
  | .send _ _ => False
  | _ => True

theorem plain_links {o : PubSub.Op ι} (ho : Plain o) {l : Link} (hl : l.hand = []) :
    (links ι name).asks l o ∧ ∀ r l', (links ι name).answers l o r l' → l' = l := by
  cases o <;> first
    | exact ho.elim
    | exact ⟨hl, fun r l' h => h⟩

theorem subscribeSlow_plain (name : String) : (subscribeSlow (ι := ι) name).All Plain := by
  refine ⟨trivial, fun new => ⟨trivial, fun existing => ?_⟩⟩
  cases existing with
  | none => exact ⟨trivial, fun _ => trivial⟩
  | some existing => exact ⟨trivial, fun _ => ⟨trivial, fun _ => ⟨trivial, fun _ => trivial⟩⟩⟩

theorem subscribe_plain (name : String) : (subscribe (ι := ι) name).All Plain := by
  refine ⟨trivial, fun found => ?_⟩
  cases found with
  | none => exact subscribeSlow_plain name
  | some id =>
    refine ⟨trivial, fun count => ?_⟩
    show Prog.All Plain (if count > 0 then _ else _)
    split_ifs
    · exact ⟨trivial, fun _ => ⟨trivial, fun _ => trivial⟩⟩
    · exact ⟨trivial, fun _ => ⟨trivial, fun _ => subscribeSlow_plain name⟩⟩

theorem subscribe_links (name name' : String) :
    (links ι name).Obeys (fun l _ => l = .off) .off (subscribe (ι := ι) name') :=
  Protocol.obeys_of_all (fun _ ho => plain_links ho rfl) (subscribe_plain name') fun _ => rfl

/-- The connection when the message loop has ended. -/
def Unlinked (l : Link) : BridgeExit → Prop
  | .redisError => l = .off
  | _ => l.hand = []

theorem forwardLoop_links (fuel : ℕ) :
    (links ι name).Obeys Unlinked .idle (forwardLoop id fuel) := by
  induction fuel with
  | zero => exact ⟨rfl, fun never => Empty.elim never⟩
  | succ fuel ih =>
    refine ⟨rfl, ?_⟩
    intro count l hl
    subst hl
    show (links ι name).Obeys _ .idle (if count = 0 then _ else _)
    split_ifs
    · exact rfl
    · refine ⟨rfl, ?_⟩
      intro item l hl
      subst hl
      cases item with
      | cancelled => exact rfl
      | message payload =>
        refine ⟨rfl, ?_⟩
        intro sent l hl
        subst hl
        cases sent with
        | false => exact rfl
        | true => exact ih
      | ended => exact rfl
      | idle => exact ih

theorem runSingleConnection_links (fuel : ℕ) :
    (links ι name).Obeys Unlinked .off (runSingleConnection fuel name id) := by
  refine ⟨⟨rfl, rfl⟩, ?_⟩
  intro ok l hl
  subst hl
  cases ok with
  | false => exact rfl
  | true => exact forwardLoop_links fuel

theorem runBridgeWithReconnect_links (fuel left : ℕ) :
    (links ι name).Obeys (fun l _ => l.hand = []) .off
      (runBridgeWithReconnect fuel name id left) := by
  induction left using Nat.strong_induction_on with
  | _ left ih =>
    unfold runBridgeWithReconnect
    refine ⟨rfl, ?_⟩
    intro cancelled l hl
    subst hl
    cases cancelled with
    | true => exact rfl
    | false =>
      refine ⟨rfl, ?_⟩
      intro count l hl
      subst hl
      show (links ι name).Obeys _ .off (if count = 0 then _ else _)
      split_ifs
      · exact rfl
      · refine (runSingleConnection_links fuel).bind ?_
        intro l exit hl
        cases exit with
        | shutdown => exact hl
        | noReceivers => exact hl
        | redisError =>
          obtain rfl : l = .off := hl
          cases left with
          | zero => exact rfl
          | succ left =>
            refine ⟨rfl, ?_⟩
            intro cancelled l hl
            subst hl
            cases cancelled with
            | true => exact rfl
            | false =>
              refine ⟨rfl, ?_⟩
              intro count l hl
              subst hl
              show (links ι name).Obeys _ .off (if count = 0 then _ else _)
              split_ifs
              · exact rfl
              · exact ih left (by omega)

theorem bridge_links [DecidableEq ι] (fuel : ℕ) (name : String) (id : ChanId ι) :
    (links ι name).Obeys (fun _ _ => True) .off (bridge fuel name id) := by
  refine (runBridgeWithReconnect_links fuel maxReconnectAttempts).bind ?_
  intro l u hl
  refine Protocol.obeys_of_all (S := Plain) (fun _ ho => plain_links ho hl) ?_ fun _ => trivial
  refine ⟨trivial, fun entry => ?_⟩
  cases entry with
  | none => exact ⟨trivial, fun _ => trivial⟩
  | some entry =>
    show Prog.All Plain (if entry = id then _ else _)
    split_ifs
    · exact ⟨trivial, fun _ => ⟨trivial, fun _ => trivial⟩⟩
    · exact ⟨trivial, fun _ => trivial⟩

/-- A consumer hands over what it owes for the item, and nothing else that is about a change. -/
theorem emit_obeys (hC : C.RoundTrips) {params : Streams.StreamParams} {transport : Transport}
    {item : LikeStreamItem} {k : Call ι} {owed : List Frame}
    (howed : owed = dueFor C transport params item) :
    (posts ι C).Obeys (fun g _ => g = ⟨k, .holding name id, .off, []⟩)
      ⟨k, .holding name id, .off, owed⟩ (emit C params transport item) := by
  have hdeliver : ∀ frame : Frame, owed = [frame].filter (isChange C) →
      (posts ι C).Obeys (fun g _ => g = ⟨k, .holding name id, .off, []⟩)
        ⟨k, .holding name id, .off, owed⟩ (perform (.deliver frame)) := by
    intro frame hframe
    refine ⟨⟨⟨name, id, rfl⟩, hframe⟩, ?_⟩
    intro r g hg
    exact hg
  have hother : ∀ frame : Frame, isChange C frame = false → [] = [frame].filter (isChange C) := by
    intro frame hframe
    simp [hframe]
  cases transport with
  | sse =>
    cases item with
    | event event =>
      dsimp only [emit]
      cases hjson : C.toJson event with
      | none =>
        cases event with
        | change event =>
          have hnone : owed = [] := by
            simpa [dueFor, changeFrame, hjson] using howed
          subst hnone
          exact rfl
        | heartbeat timestamp => subst howed; exact rfl
        | shutdown timestamp => subst howed; exact rfl
      | some payload =>
        refine hdeliver _ ?_
        cases event with
        | change event =>
          have hframe : changeFrame C .sse params event = [.sse payload] := by
            simp [changeFrame, hjson]
          have hmem : Frame.sse payload ∈ changeFrame C .sse params event := by simp [hframe]
          have hchange := isChange_changeFrame hC hmem
          rw [howed]
          simp [dueFor, hframe, hchange]
        | heartbeat timestamp =>
          rw [howed]
          exact hother _ (not_isChange_sse hC (by simp) hjson)
        | shutdown timestamp =>
          rw [howed]
          exact hother _ (not_isChange_sse hC (by simp) hjson)
    | lagged skipped => subst howed; exact rfl
    | closed => subst howed; exact rfl
  | grpc =>
    cases item with
    | event event =>
      refine hdeliver _ ?_
      cases event with
      | change event => cases event <;> (rw [howed]; rfl)
      | heartbeat timestamp => rw [howed]; exact hother _ rfl
      | shutdown timestamp => rw [howed]; exact hother _ rfl
    | lagged skipped => subst howed; exact rfl
    | closed =>
      subst howed
      refine ⟨⟨⟨name, id, rfl⟩, rfl⟩, ?_⟩
      intro timestamp g hg
      subst hg
      exact hdeliver _ rfl

/-- The loop of a stream owes nothing when it selects, and nothing when it is over. -/
theorem createLikeEventStream_obeys (hC : C.RoundTrips) {transport : Transport}
    {params : Streams.StreamParams} {n : ℕ} (fuel : ℕ) :
    (posts ι C).Obeys (fun g _ => g = ⟨.stream transport params n, .holding name id, .off, []⟩)
      ⟨.stream transport params n, .holding name id, .off, []⟩
      (createLikeEventStream C (emit C params transport) id fuel) := by
  set k : Call ι := .stream transport params n with hk
  -- what follows an item, once it has been passed on
  have hgo : ∀ (item : LikeStreamItem) (owed : List Frame) (p : StreamM ι Unit),
      owed = dueFor C transport params item →
      (posts ι C).Obeys (fun g _ => g = ⟨k, .holding name id, .off, []⟩)
        ⟨k, .holding name id, .off, []⟩ p →
      (posts ι C).Obeys (fun g _ => g = ⟨k, .holding name id, .off, []⟩)
        ⟨k, .holding name id, .off, owed⟩
        (do if ← emit C params transport item then p else return ()) := by
    intro item owed p howed hp
    refine (emit_obeys hC howed).bind ?_
    intro g more hg
    subst hg
    cases more with
    | true => exact hp
    | false => exact rfl
  -- the last item
  have hlast : ∀ item : LikeStreamItem, [] = dueFor C transport params item →
      (posts ι C).Obeys (fun g _ => g = ⟨k, .holding name id, .off, []⟩)
        ⟨k, .holding name id, .off, []⟩
        (do let _ ← emit C params transport item; return ()) := by
    intro item howed
    refine (emit_obeys hC howed).bind ?_
    intro g more hg
    exact hg
  induction fuel with
  | zero => exact ⟨⟨⟨name, id, rfl⟩, rfl⟩, fun never => Empty.elim never⟩
  | succ fuel ih =>
    refine ⟨⟨⟨name, rfl⟩, rfl⟩, ?_⟩
    intro selected g hg
    subst hg
    cases selected with
    | cancelled =>
      refine ⟨⟨⟨name, id, rfl⟩, rfl⟩, ?_⟩
      intro timestamp g hg
      subst hg
      exact hlast _ rfl
    | tick =>
      refine ⟨⟨⟨name, id, rfl⟩, rfl⟩, ?_⟩
      intro timestamp g hg
      subst hg
      exact hgo _ _ _ rfl ih
    | ok payload =>
      show (posts ι C).Obeys _ ⟨k, .holding name id, .off, k.view C payload⟩ _
      dsimp only [Prog.bind]
      have hview : k.view C payload =
          (changes C payload).flatMap (changeFrame C transport params) := rfl
      cases hread : C.fromJson payload with
      | none =>
        have hnone : k.view C payload = [] := by simp [hview, changes, hread]
        rw [hnone]
        exact ih
      | some event =>
        refine hgo _ _ _ ?_ ih
        cases event with
        | change event => simp [hview, changes, hread, dueFor]
        | heartbeat timestamp => simp [hview, changes, hread, dueFor]
        | shutdown timestamp => simp [hview, changes, hread, dueFor]
    | lagged skipped => exact hgo _ _ _ rfl ih
    | closed => exact hlast _ rfl
    | gone => exact rfl

/-- Every call keeps to the places. -/
theorem Call.obeys [DecidableEq ι] (hC : C.RoundTrips) (k : Call ι) :
    (posts ι C).Obeys Post.Over k.post (k.prog C) := by
  cases k with
  | stream transport params fuel =>
    refine (obeys_ofPubSub rfl (subscribe_seats _) (subscribe_links _ _)).bind ?_
    intro g id hg
    obtain ⟨call, seat, link, owed⟩ := g
    obtain ⟨rfl, rfl, rfl, rfl⟩ := hg
    refine ⟨⟨⟨_, id, rfl⟩, rfl⟩, ?_⟩
    intro r g hg
    subst hg
    refine (createLikeEventStream_obeys hC fuel).bind ?_
    intro g u hg
    subst hg
    refine ⟨⟨rfl, rfl, rfl⟩, ?_⟩
    intro r g hg
    subst hg
    exact ⟨Or.inl ⟨_, rfl⟩, rfl⟩
  | bridge name id fuel =>
    have hname : (Call.bridge name id fuel).channel = name := rfl
    refine (obeys_ofPubSub hname (bridge_seats fuel name id) (bridge_links fuel name id)).mono ?_
    intro g u hg
    exact ⟨hg.1, hg.2.2.2⟩

theorem Call.post_of (k : Call ι) : Post.Of k k.post := ⟨rfl, PubSub.Call.seat_of k.seen⟩

/-- The request of a call is the one it has at its place. -/
theorem Post.next_of {k : Call ι} {g : Post ι} {o : Op ι} {r : o.Ans} (hk : Post.Of k g)
    (ho : g.asks C o) : Post.Of k (g.next C o r) := by
  obtain ⟨hcall, hseat⟩ := hk
  cases o with
  | pubsub o => exact ⟨hcall, Seat.next_of hseat ho.1⟩
  | select id => cases r <;> exact ⟨hcall, hseat⟩
  | _ => exact ⟨hcall, hseat⟩

end Obeys

end SocialApi.Realtime
