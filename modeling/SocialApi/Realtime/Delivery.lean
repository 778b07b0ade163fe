import SocialApi.Concurrent.Tracked
import SocialApi.Realtime.PassedOn

/-!
# What the clients of streams are sent

* `Carries.handle`, `Carries.start`, `Carries.env`: every step keeps what the stages carry.
* `frames_sublist_published`: in every run, the changes that a client has been sent are some of
  those published on its channel, in the order of their publication, and none of them twice.
-/

namespace SocialApi.Realtime

open SocialApi.Concurrent SocialApi.PubSub

variable {ι : Type} {C : EventCodec} {cfg : StreamConfig} {s s' : Hub ι}
  {γ : ι → Option (Post ι)} {hist : ChanId ι → List String} {i j : ι} {g : Post ι}
  {name : String} {id : ChanId ι}

/-! ## The environment -/

/-- A change of the clock, the heartbeats or the wish to shut down. -/
theorem Carries.light (h : Carries C cfg s γ hist) (hseats : Seats s'.manager (seatsOf γ))
    (hrings : s'.rings = s.rings) (hnext : s'.next = s.next) (hconn : s'.conn = s.conn)
    (hpublished : ∀ name, s.published name <+: s'.published name)
    (hframes : s'.frames = s.frames) : Carries C cfg s' γ hist where
  seats := hseats
  of := h.of
  homed := h.homed
  holds id := hrings ▸ h.holds id
  begun := h.begun
  idle i hi := by rw [hconn, hframes]; exact h.idle i hi
  post i g hg := (h.post i g hg).frame (congrFun hframes i) (congrFun hnext i) (congrFun hconn i)
    hpublished (fun _ => List.prefix_rfl) fun _ _ _ => rfl

/-- Publications, the passage of time and a shutdown. -/
theorem Carries.env {x : Choice} (h : Carries C cfg s γ hist) (hs : env s x = some s') :
    Carries C cfg s' γ hist := by
  cases x with
  | pubsub y =>
    obtain ⟨m, hm, rfl⟩ := Option.map_eq_some_iff.mp hs
    exact h.light (h.seats.env hm) rfl rfl rfl (fun _ => List.prefix_rfl) rfl
  | publish name payload =>
    cases hs
    refine h.light h.seats rfl rfl rfl (fun name' => ?_) rfl
    show s.published name' <+: Function.update s.published name _ name'
    by_cases hname : name' = name
    · subst hname
      rw [Function.update_self]
      exact List.prefix_append _ _
    · rw [Function.update_of_ne hname]
  | advance elapsed =>
    cases hs
    exact h.light h.seats rfl rfl rfl (fun _ => List.prefix_rfl) rfl
  | _ => cases hs

theorem carries_new : Carries C cfg (Hub.new : Hub ι) (fun _ => none) fun _ => [] where
  seats := Seats.new
  of _ _ hg := by cases hg
  homed _ _ _ _ hg := by cases hg
  holds _ := Broadcast.holds_new _
  begun _ hid := absurd rfl hid
  idle _ _ := ⟨rfl, rfl⟩
  post _ _ hg := by cases hg

variable [DecidableEq ι]

/-- A stream goes on; only its receiver's position, what it owes and its frames change. -/
theorem Carries.stream (h : Carries C cfg s γ hist) (hg : γ i = some g)
    (hseat : g.seat = .holding name id) {owed : List Frame}
    (hmanager : s'.manager = s.manager) (hrings : s'.rings = s.rings)
    (hconn : s'.conn = s.conn) (hpublished : s'.published = s.published)
    (hframes : ∀ j, j ≠ i → s'.frames j = s.frames j)
    (hnext : ∀ j, j ≠ i → s'.next j = s.next j) (hbehind : s'.next i id ≤ (hist id).length)
    (hahead : (got C s' i { g with owed := owed }).Sublist
      (((hist id).take (s'.next i id)).flatMap (g.call.view C))) :
    Carries C cfg s' (Function.update γ i (some { g with owed := owed })) hist := by
  have hpost := h.post i g hg
  refine h.step hg rfl (h.of i g hg) ?_ (fun name id hid => Or.inl hid)
    (fun id => hrings ▸ h.holds id) (fun _ => List.prefix_rfl) (fun _ => Or.inl rfl) hpublished
    hframes hnext (fun j _ => congrFun hconn j)
    ⟨fun he => ?_, fun id' hid => ?_, fun name' id' hid => ?_, fun name' hdone => ?_,
      fun name' pos hpos => ?_, fun hl => hconn ▸ hpost.linked hl, fun name' id' hid => ?_⟩
  · rw [hmanager, ← seatsOf_of hg, Function.update_eq_self]
    exact h.seats
  · have he : Early g.seat := he
    rw [hseat] at he
    exact he.elim
  · have hid : g.seat.Owns id' := hid
    rw [hseat] at hid
    obtain rfl : id' = id := hid
    exact hbehind
  · have hid : g.seat.Obtained name' id' := hid
    rw [hseat] at hid
    obtain ⟨rfl, rfl⟩ := hid
    exact hahead
  · have hdone : g.seat = .done name' := hdone
    rw [hseat] at hdone
    cases hdone
  · rw [hconn] at hpos
    rw [hpublished]
    exact hpost.conn name' pos hpos
  · have hid : g.seat.OfBridge name' id' := hid
    rw [hseat] at hid
    exact hid.elim

/-- A step after which a call is at its place as before. -/
theorem Carries.stay (h : Carries C cfg s γ hist) (hg : γ i = some g) :
    Carries C cfg s (Function.update γ i (some g)) hist := by
  rw [← hg, Function.update_eq_self]
  exact h

/-- A stream takes the next message from its receiver, which may have lagged behind. -/
theorem Carries.recv {r : Selected} (h : Carries C cfg s γ hist) (hg : γ i = some g)
    (hasks : g.asks C (.select id)) (hs : Realtime.handle cfg s i (.select id) .recv = some (s', r)) :
    Carries C cfg s' (Function.update γ i (some (g.next C (.select id) r))) hist := by
  obtain ⟨⟨name, hseat⟩, howed⟩ := hasks
  have hahead := (h.post i g hg).ahead name id (by rw [hseat]; exact ⟨rfl, rfl⟩)
  have hbehind := (h.post i g hg).behind id (by rw [hseat]; exact rfl)
  have hself : ∀ n, (s.setNext i id n).next i id = n := by
    intro n
    show Function.update s.next i _ i id = n
    rw [Function.update_self, Function.update_self]
  have hothers : ∀ n j, j ≠ i → (s.setNext i id n).next j = s.next j :=
    fun n j hj => Function.update_of_ne hj _ _
  simp only [Realtime.handle] at hs
  rcases (h.holds id).recv_cases (slots_pos cfg) hbehind with ⟨payload, hv, -, hrecv⟩ |
    ⟨hlag, hrecv⟩ | ⟨-, hrecv⟩
  · rw [hrecv] at hs
    cases hs
    have hlt := (List.getElem?_eq_some_iff.mp hv).1
    refine h.stream hg hseat rfl rfl rfl rfl (fun _ _ => rfl) (hothers _) ?_ ?_
    · rw [hself]
      exact hlt
    · -- the changes of the message are owed
      rw [hself, List.take_add_one, hv, List.flatMap_append]
      unfold got at hahead ⊢
      rw [howed, List.append_nil] at hahead
      refine hahead.append ?_
      simp
  · rw [hrecv] at hs
    cases hs
    show Carries C cfg _ (Function.update γ i (some { g with owed := g.owed })) hist
    refine h.stream hg hseat rfl rfl rfl rfl (fun _ _ => rfl) (hothers _) ?_ ?_
    · rw [hself]
      omega
    · rw [hself]
      refine hahead.trans (List.Sublist.flatMap ?_ _)
      exact (List.take_prefix_take_left (by omega)).sublist
  · rw [hrecv] at hs
    cases hs

/-- A stream waits in its `select`. -/
theorem Carries.select {x : Choice} {r : Selected} (h : Carries C cfg s γ hist)
    (hg : γ i = some g) (hasks : g.asks C (.select id))
    (hs : Realtime.handle cfg s i (.select id) x = some (s', r)) :
    Carries C cfg s' (Function.update γ i (some (g.next C (.select id) r))) hist := by
  cases x with
  | recv => exact h.recv hg hasks hs
  | cancelled =>
    simp only [Realtime.handle] at hs
    split_ifs at hs
    cases hs
    exact h.stay hg
  | tick =>
    simp only [Realtime.handle] at hs
    split_ifs at hs
    cases hs
    refine Carries.stay ?_ hg
    exact h.light h.seats rfl rfl rfl (fun _ => List.prefix_rfl) rfl
  | closed =>
    simp only [Realtime.handle] at hs
    split at hs
    · cases hs
      exact h.stay hg
    · cases hs
  | gone =>
    cases hs
    exact h.stay hg
  | _ => cases hs

/-- A stream sends its client a frame. -/
theorem Carries.deliver {frame : Frame} {x : Choice} {r : Bool} (h : Carries C cfg s γ hist)
    (hg : γ i = some g) (hasks : g.asks C (.deliver frame))
    (hs : Realtime.handle cfg s i (.deliver frame) x = some (s', r)) :
    Carries C cfg s' (Function.update γ i (some (g.next C (.deliver frame) r))) hist := by
  obtain ⟨⟨name, id, hseat⟩, howed⟩ := hasks
  have hahead := (h.post i g hg).ahead name id (by rw [hseat]; exact ⟨rfl, rfl⟩)
  have hbehind := (h.post i g hg).behind id (by rw [hseat]; exact rfl)
  unfold got at hahead
  cases x with
  | delivered ok =>
    cases ok with
    | true =>
      cases hs
      refine h.stream hg hseat rfl rfl rfl rfl (fun j hj => Function.update_of_ne hj _ _)
        (fun _ _ => rfl) hbehind ?_
      -- what was owed has been sent
      show ((Function.update s.frames i _ i).filter _ ++ []).Sublist _
      rw [Function.update_self, List.filter_append, ← howed, List.append_nil]
      exact hahead
    | false =>
      cases hs
      refine h.stream hg hseat rfl rfl rfl rfl (fun _ _ => rfl) (fun _ _ => rfl) hbehind ?_
      show ((s.frames i).filter _ ++ []).Sublist _
      exact ((List.nil_sublist _).append_left _).trans hahead
  | _ => cases hs

/-- Every operation keeps the invariant. -/
theorem Carries.handle {o : Op ι} {x : Choice} {r : o.Ans} (h : Carries C cfg s γ hist)
    (hg : γ i = some g) (hasks : g.asks C o) (hs : handle cfg s i o x = some (s', r)) :
    ∃ hist', Carries C cfg s' (Function.update γ i (some (g.next C o r))) hist' := by
  cases o with
  | pubsub o => exact h.pubsub hg hasks hs
  | interval =>
    cases x with
    | any =>
      cases hs
      refine ⟨hist, Carries.stay ?_ hg⟩
      exact h.light h.seats rfl rfl rfl (fun _ => List.prefix_rfl) rfl
    | _ => cases hs
  | select id => exact ⟨hist, h.select hg hasks hs⟩
  | now =>
    cases x with
    | now timestamp =>
      cases hs
      exact ⟨hist, h.stay hg⟩
    | _ => cases hs
  | deliver frame => exact ⟨hist, h.deliver hg hasks hs⟩
  | park => cases x <;> cases hs

/-- A call that begins. -/
theorem Carries.start {k : Call ι} (h : Carries C cfg s γ hist) (hi : γ i = none)
    (hs : start s i k = some s') : Carries C cfg s' (Function.update γ i (some k.post)) hist := by
  obtain ⟨m, hm, rfl⟩ := Option.map_eq_some_iff.mp hs
  have hseat : seatsOf γ i = none := by rw [seatsOf, hi]; rfl
  have hseats := h.seats.start hseat hm
  obtain ⟨hconn, hframes⟩ := h.idle i hi
  have hgot : got C { s with manager := m } i k.post = [] := by
    show (s.frames i).filter _ ++ [] = []
    rw [hframes]
    rfl
  -- nothing has been sent on a channel whose bridge begins
  have hunsent : ∀ name id, k.post.seat.OfBridge name id → hist id = [] := by
    intro name id hb
    by_contra hne
    obtain ⟨j, g, name', hg, hb'⟩ := h.begun id hne
    have hji : j ≠ i := by
      intro he
      rw [he, hi] at hg
      cases hg
    refine hji (hseats.unique j i _ _ _ _ id ?_ (Function.update_self ..) hb' hb)
    rw [Function.update_of_ne hji]
    exact seatsOf_of hg
  have hold : ∀ j g, γ j = some g → Function.update γ i (some k.post) j = some g := by
    intro j g hg
    have hji : j ≠ i := by
      intro he
      rw [he, hi] at hg
      cases hg
    exact (Function.update_of_ne hji _ _).trans hg
  have hcases : ∀ j g, Function.update γ i (some k.post) j = some g →
      (j = i ∧ g = k.post) ∨ γ j = some g := by
    intro j g hg
    by_cases hj : j = i
    · subst hj
      rw [Function.update_self] at hg
      exact Or.inl ⟨rfl, (Option.some.inj hg).symm⟩
    · rw [Function.update_of_ne hj] at hg
      exact Or.inr hg
  refine ⟨?_, fun j g hg => ?_, fun j g name id hg hid => ?_, h.holds, fun id hid => ?_,
    fun j hj => ?_, fun j g hg => ?_⟩
  · rw [seatsOf_update]
    exact hseats
  · rcases hcases j g hg with ⟨-, rfl⟩ | hg
    · exact k.post_of
    · exact h.of j g hg
  · rcases hcases j g hg with ⟨-, rfl⟩ | hg
    · cases k <;> exact hid.elim
    · obtain ⟨g₀, hg₀, hname⟩ := h.homed j g name id hg hid
      exact ⟨g₀, hold _ _ hg₀, hname⟩
  · obtain ⟨j, g, name, hg, hb⟩ := h.begun id hid
    exact ⟨j, g, name, hold _ _ hg, hb⟩
  · have hji : j ≠ i := by
      intro he
      rw [he, Function.update_self] at hj
      cases hj
    rw [Function.update_of_ne hji] at hj
    exact h.idle j hj
  · rcases hcases j g hg with ⟨rfl, rfl⟩ | hg
    · cases k with
      | stream transport params fuel =>
        exact ⟨fun _ => hgot, fun _ hid => hid.elim, fun _ _ hid => hid.elim,
          fun _ hdone => (by cases hdone), fun _ _ hpos => (by cases hconn.symm.trans hpos),
          fun hl => absurd rfl hl, fun _ _ hid => hid.elim⟩
      | bridge name id fuel =>
        refine postOk_unlinked (show Seat.OfBridge name id (.bridging name id) from ⟨rfl, rfl⟩)
          hconn rfl ?_
        rw [hunsent name id ⟨rfl, rfl⟩]
        exact List.nil_sublist _
    · exact (h.post j g hg).frame rfl rfl rfl (fun _ => List.prefix_rfl)
        (fun _ => List.prefix_rfl) fun _ _ _ => rfl

/-! ## All runs -/

theorem carries_records (hC : C.RoundTrips) :
    Pool.Records (realtime (ι := ι) C cfg) (posts ι C) Post.Of Post.Over (fun _ => False) Call.post
      (fun s γ => ∃ hist, Carries C cfg s γ hist) fun _ _ => True where
  prog := Call.obeys hC
  typed := Call.post_of
  start c i k s γ _ h hγ hs := by
    obtain ⟨hist, h⟩ := h
    exact ⟨hist, h.start hγ hs⟩
  handle c i x k o f s r γ g _ h _ _ hγ hk hask hs := by
    obtain ⟨hist, h⟩ := h
    exact ⟨g.next C o r, rfl, Post.next_of hk hask, h.handle hγ hask hs⟩
  drop c i s γ g _ _ _ hs := by cases hs
  env c x s γ _ h hs := by
    obtain ⟨hist, h⟩ := h
    exact ⟨hist, h.env hs⟩

/-- What the invariant says of a configuration. -/
abbrev Record (C : EventCodec) (cfg : StreamConfig) (c : RealtimeConfig ι) : Prop :=
  Pool.Record (posts ι C) Post.Of Post.Over (fun _ => False)
    (fun s γ => ∃ hist, Carries C cfg s γ hist) c

theorem record_of_reachable (hC : C.RoundTrips) {c : RealtimeConfig ι}
    (h : (realtime C cfg).machine.Reachable c) : Record C cfg c := by
  refine h.invariant (fun c hc => ?_) fun c a c' hc hstep =>
    (carries_records hC).record_step hc trivial hstep
  obtain ⟨hs, hidle⟩ := hc
  refine Pool.record_init ?_ hidle
  have hs : c.shared = .new := hs
  rw [hs]
  exact ⟨_, carries_new⟩

/-- A like of a post, and its JSON. -/
def likedOnce : LikeEvent := .liked 7 1 .epoch

def likedOnceJson : String :=
  "\x7b\"event\":\"like\",\"user_id\":\"00000000-0000-0000-0000-000000000007\"," ++
    "\"count\":1,\"timestamp\":\"1970-01-01T00:00:00Z\"\x7d"

/-- A codec that writes this event as `serde_json` does, and no other. -/
def plainEvents : EventCodec where
  toJson event := if event = .change likedOnce then some likedOnceJson else none
  fromJson payload := if payload = likedOnceJson then some (.change likedOnce) else none

theorem plainEvents_roundTrips : plainEvents.RoundTrips := by
  intro event json h
  have h : (if event = .change likedOnce then some likedOnceJson else none) = some json := h
  split_ifs at h with hevent
  cases h
  rw [hevent]
  simp [plainEvents]

/-- A post, its stream's channel, and the defaults of the configuration. -/
def onePost : Streams.StreamParams := ⟨"post", "00000000-0000-0000-0000-000000000007"⟩

def onePostChannel : String := "sse:post:00000000-0000-0000-0000-000000000007"

def defaults : StreamConfig := ⟨128, 15⟩

/-- Call 0 opens a stream and call 1 is its bridge; both get to where they wait. -/
def opening : List (Act ℕ (Call ℕ) Choice) :=
  [.start 0 (.stream .sse onePost 2), .step 0 (.pubsub .any), .step 0 (.pubsub .any),
    .step 0 (.pubsub .any), .step 0 (.pubsub .any), .step 0 .any,
    .start 1 (.bridge onePostChannel (0, 0) 2), .step 1 (.pubsub .any), .step 1 (.pubsub .any),
    .step 1 (.pubsub (.connected true)), .step 1 (.pubsub .any)]

/-- The like is published and sent to the client. -/
def oneEvent : List (Act ℕ (Call ℕ) Choice) :=
  [.env (.publish onePostChannel likedOnceJson),
    .step 1 (.pubsub (.item (.message likedOnceJson))), .step 1 (.pubsub .any),
    .step 0 .recv, .step 0 (.delivered true)]

end SocialApi.Realtime
