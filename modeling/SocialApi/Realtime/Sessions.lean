import SocialApi.Realtime.Delivery

/-!
# The session of a stream and a bridge

A stream that waits at its receiver, and the bridge of its sender, connected. One lemma for each
operation that moves a message on: from Redis to the bridge (`Session.handed`), from there to the
broadcast channel (`Session.sent`), from there to the stream (`Session.received`) and from there to
the client (`Session.delivered`). All others leave everything in its place (`Session.alike`).
-/

namespace SocialApi.Realtime

open SocialApi.Concurrent SocialApi.PubSub

variable {ι : Type} (C : EventCodec) (cfg : StreamConfig)

/-- What has been sent to the client and what is on its way, from the places. -/
def total (s : Hub ι) (i j : ι) (id : ChanId ι) (g b : Post ι) : List Frame :=
  got C s i g ++ ((s.rings id).waiting cfg.slots (s.next i id) ++ b.link.hand ++
    (s.published b.call.channel).drop (s.read j b.call.channel)).flatMap (g.call.view C)

/-- Stream `i` has its receiver at the sender, bridge `j` is at work there with a connection, and
    the stream has not been overtaken. -/
structure Session (s : Hub ι) (i j : ι) (id : ChanId ι) (g b : Post ι) : Prop where
  shutdown : s.manager.shutdown = false
  receiver : ∃ name, g.seat = .holding name id
  bridge : ∃ name, b.seat = .bridging name id
  linked : b.link ≠ .off
  room : (s.rings id).tail ≤ s.next i id + cfg.slots

variable {C cfg} {s s' : Hub ι} {γ : ι → Option (Post ι)} {hist : ChanId ι → List String}
  {i j l : ι} {g b : Post ι} {id : ChanId ι}

/-- The connection of the bridge and how far it has read. -/
theorem Session.conn (h : Session cfg s i j id g b) (hc : Carries C cfg s γ hist)
    (hb : γ j = some b) : ∃ pos, s.conn j = some (b.call.channel, pos) ∧
      pos ≤ (s.published b.call.channel).length ∧ s.read j b.call.channel = pos := by
  have hpost := hc.post j b hb
  cases hconn : s.conn j with
  | none => exact absurd hconn (hpost.linked h.linked)
  | some entry =>
    obtain ⟨name, pos⟩ := entry
    obtain ⟨rfl, hpos⟩ := hpost.conn name pos hconn
    exact ⟨pos, rfl, hpos, Hub.read_linked hconn⟩

/-- What is waiting in the broadcast channel. -/
theorem Session.waiting (h : Session cfg s i j id g b) (hc : Carries C cfg s γ hist) :
    (s.rings id).waiting cfg.slots (s.next i id) = (hist id).drop (s.next i id) := by
  have hholds := hc.holds id
  refine hholds.waiting_eq ?_
  rw [← hholds.tail]
  exact h.room

/-- A step that leaves alone everything between the bridge and the client. -/
theorem Session.alike (h : Session cfg s i j id g b)
    (hshutdown : s'.manager.shutdown = s.manager.shutdown) (hframes : s'.frames i = s.frames i)
    (hrings : s'.rings id = s.rings id) (hnext : s'.next i id = s.next i id)
    (hconn : s'.conn j = s.conn j) (hpublished : s'.published = s.published) :
    Session cfg s' i j id g b ∧ total C cfg s' i j id g b = total C cfg s i j id g b := by
  refine ⟨⟨hshutdown.trans h.shutdown, h.receiver, h.bridge, h.linked, ?_⟩, ?_⟩
  · rw [hrings, hnext]
    exact h.room
  · unfold total got Hub.read
    rw [hframes, hrings, hnext, hconn, hpublished]

/-- The bridge finds that it goes on. -/
theorem Session.goesOn {m : Manager ι} (h : Session cfg s i j id g b)
    (hshutdown : m.shutdown = s.manager.shutdown)
    {o : PubSub.Op ι} {r : o.Ans} (hseat : b.seat.next o r = b.seat)
    (hlink : b.link.next o r = b.link) :
    Session cfg { s with manager := m } i j id g (b.next C (.pubsub o) r) ∧
      total C cfg { s with manager := m } i j id g (b.next C (.pubsub o) r) =
        total C cfg s i j id g b := by
  have hsame : b.next C (.pubsub o) r = b := by
    show { b with seat := _, link := _ } = b
    rw [hseat, hlink]
  rw [hsame]
  exact h.alike hshutdown rfl rfl rfl rfl rfl

theorem Post.call_next (g : Post ι) (o : Op ι) (r : o.Ans) :
    (g.next C o r).call = g.call := by
  cases o with
  | select id => cases r <;> rfl
  | _ => rfl

variable [DecidableEq ι]

/-- No operation asks for a shutdown. -/
theorem shutdown_of_move {m m' : Manager ι} {o : PubSub.Op ι} {y : PubSub.Choice}
    {seat seat' : Seat ι} (h : Move l o y m seat m' seat') : m'.shutdown = m.shutdown := by
  cases h <;> rfl

/-- No call publishes. -/
theorem published_of_handle {s s' : Hub ι} {i : ι} {o : Op ι} {x : Choice} {r : o.Ans}
    (hs : handle cfg s i o x = some (s', r)) : s'.published = s.published := by
  cases o with
  | pubsub o =>
    obtain ⟨y, m, s₁, rfl, hm, heffect, rfl⟩ := pubsub_of_handle hs
    cases heffect <;> rfl
  | select id =>
    cases x <;> simp only [handle] at hs <;> first
      | (split_ifs at hs; cases hs; rfl)
      | (split at hs <;> cases hs <;> rfl)
      | (cases hs; rfl)
      | cases hs
  | deliver frame =>
    cases x with
    | delivered ok => cases ok <;> (cases hs; rfl)
    | _ => cases hs
  | _ => cases x <;> cases hs <;> rfl

/-! ## Other calls -/

/-- The operations of other calls in the manager's code. -/
theorem Session.otherPubsub (h : Session cfg s i j id g b) (hc : Carries C cfg s γ hist)
    (hg : γ i = some g) (hb : γ j = some b) {p : Post ι} (hp : γ l = some p) (hli : l ≠ i)
    (hlj : l ≠ j) {o : PubSub.Op ι} {x : Choice} {r : o.Ans} (hasks : p.asks C (.pubsub o))
    (hs : handle cfg s l (.pubsub o) x = some (s', r)) :
    Session cfg s' i j id g b ∧ total C cfg s' i j id g b = total C cfg s i j id g b := by
  obtain ⟨y, m, s₁, rfl, hm, heffect, rfl⟩ := pubsub_of_handle hs
  have hshutdown := shutdown_of_move (handle_move (hc.of l p hp).2 hasks.1 hm)
  have hnext : ∀ id' n, (s.setNext l id' n).next i id = s.next i id :=
    fun id' n => congrFun (Function.update_of_ne (Ne.symm hli) _ s.next) id
  cases heffect with
  | quiet hquiet => exact h.alike hshutdown rfl rfl rfl rfl rfl
  | subscribe => exact h.alike hshutdown rfl rfl (hnext _ _) rfl rfl
  | @create id' =>
    have hnew : id' = (l, s.manager.serial) := by
      obtain rfl : y = .any := choice_any hm (by simp) (by simp) (by simp)
      cases hm
      rfl
    obtain ⟨name, hseat⟩ := h.receiver
    have hok := hc.seats.ok i _ (seatsOf_of hg)
    rw [hseat] at hok
    have hne : id ≠ id' := by
      intro he
      have hlt : id.2 < s.manager.serial := hok
      rw [he, hnew] at hlt
      exact absurd hlt (lt_irrefl _)
    exact h.alike hshutdown rfl (Function.update_of_ne hne _ _) (hnext _ _) rfl rfl
  | connect => exact h.alike hshutdown rfl rfl rfl (Function.update_of_ne (Ne.symm hlj) _ _) rfl
  | message => exact h.alike hshutdown rfl rfl rfl (Function.update_of_ne (Ne.symm hlj) _ _) rfl
  | ended => exact h.alike hshutdown rfl rfl rfl (Function.update_of_ne (Ne.symm hlj) _ _) rfl
  | @send id' payload =>
    -- only bridge `j` sends there
    have hne : id ≠ id' := by
      rintro rfl
      obtain ⟨name, id', hseat, hsend⟩ := bridging_of_asks hasks.1 fun h => h
      obtain rfl := hsend _ _ rfl
      obtain ⟨name', hseat'⟩ := h.bridge
      refine hlj (hc.seats.unique l j _ _ name name' id (seatsOf_of hp) (seatsOf_of hb) ?_ ?_)
      · rw [hseat]
        exact ⟨rfl, rfl⟩
      · rw [hseat']
        exact ⟨rfl, rfl⟩
    exact h.alike hshutdown rfl (Function.update_of_ne hne _ _) rfl rfl rfl

/-- The operations of other calls leave the session alone. -/
theorem Session.other (h : Session cfg s i j id g b) (hc : Carries C cfg s γ hist)
    (hg : γ i = some g) (hb : γ j = some b) {p : Post ι} (hp : γ l = some p) (hli : l ≠ i)
    (hlj : l ≠ j) {o : Op ι} {x : Choice} {r : o.Ans} (hasks : p.asks C o)
    (hs : handle cfg s l o x = some (s', r)) :
    Session cfg s' i j id g b ∧ total C cfg s' i j id g b = total C cfg s i j id g b := by
  have hnext : ∀ id' n, (s.setNext l id' n).next i id = s.next i id :=
    fun id' n => congrFun (Function.update_of_ne (Ne.symm hli) _ s.next) id
  cases o with
  | pubsub o => exact h.otherPubsub hc hg hb hp hli hlj hasks hs
  | select id' =>
    cases x with
    | cancelled =>
      simp only [handle] at hs
      split_ifs at hs
      cases hs
      exact h.alike rfl rfl rfl rfl rfl rfl
    | tick =>
      simp only [handle] at hs
      split_ifs at hs
      cases hs
      exact h.alike rfl rfl rfl rfl rfl rfl
    | recv =>
      simp only [handle] at hs
      split at hs
      · cases hs
        exact h.alike rfl rfl rfl (hnext _ _) rfl rfl
      · cases hs
        exact h.alike rfl rfl rfl (hnext _ _) rfl rfl
      · cases hs
    | closed =>
      simp only [handle] at hs
      split at hs
      · cases hs
        exact h.alike rfl rfl rfl rfl rfl rfl
      · cases hs
    | gone =>
      cases hs
      exact h.alike rfl rfl rfl rfl rfl rfl
    | _ => cases hs
  | deliver frame =>
    cases x with
    | delivered ok =>
      cases ok with
      | true =>
        cases hs
        exact h.alike rfl (Function.update_of_ne (Ne.symm hli) _ _) rfl rfl rfl rfl
      | false =>
        cases hs
        exact h.alike rfl rfl rfl rfl rfl rfl
    | _ => cases hs
  | _ =>
    cases x <;> cases hs <;> exact h.alike rfl rfl rfl rfl rfl rfl

/-! ## The bridge -/

/-- A message goes from Redis to the bridge. -/
theorem Session.handed (h : Session cfg s i j id g b) (hc : Carries C cfg s γ hist)
    {m : Manager ι} (hb : γ j = some b)
    (hshutdown : m.shutdown = s.manager.shutdown) (hidle : b.link = .idle) {name payload : String} {pos : ℕ} (hconn : s.conn j = some (name, pos))
    (hpayload : (s.published name)[pos]? = some payload) :
    let s' := { s with conn := Function.update s.conn j (some (name, pos + 1)), manager := m }
    Session cfg s' i j id g (b.next C (.pubsub .next) (.message payload)) ∧
      total C cfg s' i j id g (b.next C (.pubsub .next) (.message payload)) =
        total C cfg s i j id g b := by
  obtain ⟨name', hseat⟩ := h.bridge
  obtain ⟨pos', hconn', -, hread⟩ := h.conn hc hb
  rw [hconn] at hconn'
  cases hconn'
  refine ⟨⟨hshutdown.trans h.shutdown, h.receiver, ⟨name', ?_⟩, by simp [Post.next, Link.next],
    h.room⟩, ?_⟩
  · show b.seat.next _ _ = _
    rw [hseat]
    rfl
  · have hdrop : (s.published b.call.channel).drop pos =
        payload :: (s.published b.call.channel).drop (pos + 1) := by
      obtain ⟨hlt, hget⟩ := List.getElem?_eq_some_iff.mp hpayload
      rw [List.drop_eq_getElem_cons hlt, hget]
    show got C s i g ++ ((s.rings id).waiting cfg.slots (s.next i id) ++ [payload] ++
        (s.published b.call.channel).drop (Hub.read _ j b.call.channel)).flatMap _ = _
    unfold total
    rw [Hub.read_linked (Function.update_self ..), hread, hidle, hdrop]
    simp [Link.hand]

/-- A message goes from the bridge to the broadcast channel. -/
theorem Session.sent (h : Session cfg s i j id g b) (hc : Carries C cfg s γ hist)
    {m : Manager ι} (hg : γ i = some g) (hshutdown : m.shutdown = s.manager.shutdown)
    {payload : String}
    (hcarrying : b.link = .carrying payload) (hroom : (s.rings id).tail < s.next i id + cfg.slots) :
    let s' := { s with
      rings := Function.update s.rings id ((s.rings id).send cfg.slots payload), manager := m }
    Session cfg s' i j id g (b.next C (.pubsub (.send id payload)) true) ∧
      total C cfg s' i j id g (b.next C (.pubsub (.send id payload)) true) =
        total C cfg s i j id g b := by
  obtain ⟨name, hseat⟩ := h.bridge
  obtain ⟨name', hholding⟩ := h.receiver
  have hholds := (hc.holds id).send (slots_pos cfg) payload
  have htail := (hc.holds id).tail
  have hbehind := (hc.post i g hg).behind id (by rw [hholding]; exact rfl)
  have hring : Function.update s.rings id ((s.rings id).send cfg.slots payload) id =
      (s.rings id).send cfg.slots payload := Function.update_self ..
  refine ⟨⟨hshutdown.trans h.shutdown, h.receiver, ⟨name, ?_⟩, by simp [Post.next, Link.next], ?_⟩,
    ?_⟩
  · show b.seat.next _ _ = _
    rw [hseat]
    rfl
  · show (Function.update s.rings id _ id).tail ≤ _
    rw [hring]
    exact hroom
  · have hwaiting : ((s.rings id).send cfg.slots payload).waiting cfg.slots (s.next i id) =
        (hist id).drop (s.next i id) ++ [payload] := by
      rw [hholds.waiting_eq, List.drop_append_of_le_length hbehind]
      rw [List.length_append, List.length_singleton]
      omega
    show got C s i g ++ ((Function.update s.rings id _ id).waiting cfg.slots (s.next i id) ++ [] ++
        (s.published b.call.channel).drop (s.read j b.call.channel)).flatMap _ = _
    unfold total
    rw [hring, hwaiting, hcarrying, h.waiting hc]
    simp [Link.hand]

/-- The bridge waits for messages. -/
theorem Session.waits (h : Session cfg s i j id g b) (hc : Carries C cfg s γ hist)
    (hb : γ j = some b) {x : Choice} {r : StreamItem} (hasks : b.asks C (.pubsub .next))
    (hs : handle cfg s j (.pubsub .next) x = some (s', r))
    (hconnected : x ≠ .pubsub (.item .ended)) :
    Session cfg s' i j id g (b.next C (.pubsub .next) r) ∧
      total C cfg s' i j id g (b.next C (.pubsub .next) r) = total C cfg s i j id g b := by
  obtain ⟨name, hseat⟩ := h.bridge
  obtain ⟨y, m, s₁, rfl, hm, heffect, rfl⟩ := pubsub_of_handle hs
  have hshutdown := shutdown_of_move (handle_move (hc.of j b hb).2 hasks.1 hm)
  cases y with
  | item item =>
    simp only [PubSub.handle] at hm
    split_ifs at hm with hcancelled
    cases hm
    cases heffect with
    | message hconn hpayload => exact h.handed hc hb hshutdown hasks.2.1 hconn hpayload
    | ended => exact absurd rfl hconnected
    | quiet hquiet =>
      cases r with
      | cancelled => exact absurd ⟨rfl, h.shutdown⟩ hcancelled
      | message payload => exact hquiet.elim
      | ended => exact hquiet.elim
      | idle =>
        refine h.goesOn hshutdown ?_ rfl
        rw [hseat]
        rfl
  | _ => cases hm

/-- The bridge stays connected and passes on what it is handed. -/
theorem Session.bridging (h : Session cfg s i j id g b) (hc : Carries C cfg s γ hist)
    (hg : γ i = some g) (hb : γ j = some b) {o : Op ι} {x : Choice} {r : o.Ans}
    (hasks : b.asks C o) (hs : handle cfg s j o x = some (s', r))
    (hconnected : x ≠ .pubsub (.item .ended))
    (hroom : ∀ payload, o = .pubsub (.send id payload) →
      (s.rings id).tail < s.next i id + cfg.slots) :
    Session cfg s' i j id g (b.next C o r) ∧
      total C cfg s' i j id g (b.next C o r) = total C cfg s i j id g b := by
  obtain ⟨name, hseat⟩ := h.bridge
  obtain ⟨name', hholding⟩ := h.receiver
  have hlive : s.manager.receivers id ≠ 0 :=
    hc.seats.count.ne_zero (seatsOf_of hg) (by rw [hholding]; exact rfl)
  cases o with
  | pubsub o =>
    have hask := hasks.1
    rw [hseat] at hask
    cases o with
    | next => exact h.waits hc hb hasks hs hconnected
    | receiverCount id' =>
      obtain rfl : id' = id := hask
      obtain ⟨y, m, s₁, rfl, hm, heffect, rfl⟩ := pubsub_of_handle hs
      obtain rfl : y = .any := choice_any hm (by simp) (by simp) (by simp)
      cases hm
      cases heffect with
      | quiet hquiet =>
        obtain ⟨n, hn⟩ := Nat.exists_eq_succ_of_ne_zero hlive
        refine h.goesOn rfl ?_ rfl
        rw [hseat, hn]
        rfl
    | isCancelled =>
      obtain ⟨y, m, s₁, rfl, hm, heffect, rfl⟩ := pubsub_of_handle hs
      obtain rfl : y = .any := choice_any hm (by simp) (by simp) (by simp)
      cases hm
      cases heffect with
      | quiet hquiet =>
        refine h.goesOn rfl ?_ rfl
        rw [hseat, h.shutdown]
        rfl
    | connect name'' => exact absurd hasks.2.1.1 h.linked
    | send id' payload =>
      obtain rfl : id' = id := hask
      obtain ⟨y, m, s₁, rfl, hm, heffect, rfl⟩ := pubsub_of_handle hs
      obtain rfl : y = .any := choice_any hm (by simp) (by simp) (by simp)
      simp only [PubSub.handle, Option.some.injEq, Prod.mk.injEq] at hm
      obtain ⟨rfl, hsent⟩ := hm
      cases heffect with
      | send => exact h.sent hc hg rfl hasks.2.1 (hroom payload rfl)
      | quiet hquiet =>
        rw [decide_eq_true (Nat.pos_of_ne_zero hlive)] at hsent
        subst hsent
        exact hquiet.elim
    | park =>
      obtain ⟨y, m, s₁, rfl, hm, -⟩ := pubsub_of_handle hs
      cases y <;> cases hm
    | _ => exact hask.elim
  | select id' =>
    obtain ⟨⟨name, hholding⟩, -⟩ := hasks
    exact absurd (hseat.symm.trans hholding) (by simp)
  | park => cases x <;> cases hs
  | _ =>
    obtain ⟨⟨name, id', hholding⟩, -⟩ := hasks
    exact absurd (hseat.symm.trans hholding) (by simp)

/-! ## The stream -/

/-- A message goes from the broadcast channel to the stream. -/
theorem Session.received (h : Session cfg s i j id g b) (hc : Carries C cfg s γ hist)
    (hg : γ i = some g) {r : Selected} (hasks : g.asks C (.select id))
    (hs : handle cfg s i (.select id) .recv = some (s', r)) :
    Session cfg s' i j id (g.next C (.select id) r) b ∧
      total C cfg s' i j id (g.next C (.select id) r) b = total C cfg s i j id g b := by
  obtain ⟨⟨name, hholding⟩, howed⟩ := hasks
  have hholds := hc.holds id
  have hbehind := (hc.post i g hg).behind id (by rw [hholding]; exact rfl)
  have hroom := h.room
  rw [hholds.tail] at hroom
  simp only [handle] at hs
  rcases hholds.recv_cases (slots_pos cfg) hbehind with ⟨payload, hv, -, hrecv⟩ |
    ⟨hlag, -⟩ | ⟨-, hrecv⟩
  · rw [hrecv] at hs
    cases hs
    have hself : (s.setNext i id (s.next i id + 1)).next i id = s.next i id + 1 := by
      show Function.update s.next i _ i id = _
      rw [Function.update_self, Function.update_self]
    have hfits : (s.rings id).tail ≤ s.next i id + 1 + cfg.slots := by
      rw [hholds.tail]
      omega
    refine ⟨⟨h.shutdown, ⟨name, hholding⟩, h.bridge, h.linked, ?_⟩, ?_⟩
    · rw [hself]
      exact hfits
    · have hdrop : (hist id).drop (s.next i id) =
          payload :: (hist id).drop (s.next i id + 1) := by
        obtain ⟨hlt, hget⟩ := List.getElem?_eq_some_iff.mp hv
        rw [List.drop_eq_getElem_cons hlt, hget]
      have hwaiting : (s.rings id).waiting cfg.slots (s.next i id + 1) =
          (hist id).drop (s.next i id + 1) := by
        refine hholds.waiting_eq ?_
        rw [← hholds.tail]
        exact hfits
      unfold total got
      rw [hself, h.waiting hc, hdrop, howed]
      show (s.frames i).filter _ ++ g.call.view C payload ++
        ((s.rings id).waiting cfg.slots (s.next i id + 1) ++ b.link.hand ++ _).flatMap _ = _
      rw [hwaiting]
      simp
      rfl
  · omega
  · rw [hrecv] at hs
    cases hs

/-- What is owed goes from the stream to the client. -/
theorem Session.delivered (h : Session cfg s i j id g b) {frame : Frame} {x : Choice} {r : Bool}
    (hasks : g.asks C (.deliver frame)) (hs : handle cfg s i (.deliver frame) x = some (s', r))
    (htaken : x ≠ .delivered false) :
    Session cfg s' i j id (g.next C (.deliver frame) r) b ∧
      total C cfg s' i j id (g.next C (.deliver frame) r) b = total C cfg s i j id g b := by
  obtain ⟨-, howed⟩ := hasks
  cases x with
  | delivered ok =>
    cases ok with
    | true =>
      cases hs
      refine ⟨⟨h.shutdown, h.receiver, h.bridge, h.linked, h.room⟩, ?_⟩
      unfold total got
      show (Function.update s.frames i _ i).filter _ ++ [] ++ List.flatMap _ _ = _
      rw [Function.update_self, List.filter_append, ← howed, List.append_nil]
      rfl
    | false => exact absurd rfl htaken
  | _ => cases hs

/-- The stream goes on. -/
theorem Session.streaming (h : Session cfg s i j id g b) (hc : Carries C cfg s γ hist)
    (hg : γ i = some g) {o : Op ι} {x : Choice} {r : o.Ans}
    (hasks : g.asks C o) (hs : handle cfg s i o x = some (s', r))
    (hopen : o ≠ .pubsub (.dropReceiver id)) (htaken : x ≠ .delivered false) :
    Session cfg s' i j id (g.next C o r) b ∧
      total C cfg s' i j id (g.next C o r) b = total C cfg s i j id g b := by
  obtain ⟨name, hholding⟩ := h.receiver
  cases o with
  | pubsub o =>
    have hask := hasks.1
    rw [hholding] at hask
    cases o with
    | dropReceiver id' =>
      obtain rfl : id' = id := hask
      exact absurd rfl hopen
    | _ => exact hask.elim
  | interval =>
    cases x with
    | any =>
      cases hs
      exact h.alike rfl rfl rfl rfl rfl rfl
    | _ => cases hs
  | select id' =>
    obtain rfl : id' = id := by
      obtain ⟨⟨name', hholding'⟩, -⟩ := hasks
      rw [hholding] at hholding'
      cases hholding'
      rfl
    cases x with
    | recv => exact h.received hc hg hasks hs
    | cancelled =>
      simp only [handle, h.shutdown] at hs
      cases hs
    | tick =>
      simp only [handle] at hs
      split_ifs at hs
      cases hs
      exact h.alike rfl rfl rfl rfl rfl rfl
    | closed =>
      simp only [handle] at hs
      split at hs
      · cases hs
        exact h.alike rfl rfl rfl rfl rfl rfl
      · cases hs
    | gone =>
      cases hs
      exact h.alike rfl rfl rfl rfl rfl rfl
    | _ => cases hs
  | now =>
    cases x with
    | now timestamp =>
      cases hs
      exact h.alike rfl rfl rfl rfl rfl rfl
    | _ => cases hs
  | deliver frame => exact h.delivered hasks hs htaken
  | park => cases x <;> cases hs

end SocialApi.Realtime
