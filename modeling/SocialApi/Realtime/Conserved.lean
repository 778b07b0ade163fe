import SocialApi.Realtime.Sessions

/-!
# Nothing is lost on the way

A stream that waits at its receiver, and the bridge of its sender, connected and waiting for
messages. What the client has been sent and what is on its way to it, in the broadcast channel, in
the bridge's hand or not yet read by the connection, are together the changes published on the
channel, in their order.

* `Undisturbed`: the steps after which this stays so: no shutdown, the connection does not end,
  the client takes what it is handed, and the bridge does not overtake the stream.
* `sent_conserved`: along a run of such steps, what has been sent and what is on its way grows by
  exactly what is published.
-/

namespace SocialApi.Realtime

open SocialApi.Concurrent SocialApi.PubSub

/-! ## Specification -/

variable {ι : Type}

/-- The change that a stream is about to hand over. -/
def inHand (C : EventCodec) : CallState (Call ι) (Op ι) Op.Ans Unit → List Frame
  | .running _ (.op (.deliver frame) _) => [frame].filter (isChange C)
  | _ => []

/-- The message that a bridge is about to send on. -/
def carried : CallState (Call ι) (Op ι) Op.Ans Unit → List String
  | .running _ (.op (.pubsub (.send _ payload)) _) => [payload]
  | _ => []

/-- The messages of the channel that are on their way to stream `i` by bridge `j`. -/
def underway (cfg : StreamConfig) (c : RealtimeConfig ι) (i j : ι) (id : ChanId ι)
    (name : String) : List String :=
  (c.shared.rings id).waiting cfg.slots (c.shared.next i id) ++ carried (c.calls j) ++
    (c.shared.published name).drop (c.shared.read j name)

/-- What has been sent to the client of a stream about changes, and what is on its way. -/
def sentOrUnderway (C : EventCodec) (cfg : StreamConfig) (c : RealtimeConfig ι) (i j : ι)
    (id : ChanId ι) (transport : Transport) (params : Streams.StreamParams) : List Frame :=
  (c.shared.frames i).filter (isChange C) ++ inHand C (c.calls i) ++
    (underway cfg c i j id (channelOf params)).flatMap fun payload =>
      (changes C payload).flatMap (changeFrame C transport params)

/-- Nobody asks for a shutdown, the connection of bridge `j` does not end, the client of stream `i`
    takes what it is handed, and the bridge sends only while the stream has not fallen behind by
    all slots. -/
structure Undisturbed (cfg : StreamConfig) (i j : ι) (id : ChanId ι) (c : RealtimeConfig ι)
    (a : Act ι (Call ι) Choice) : Prop where
  shutdown : a ≠ .env (.pubsub .shutdown)
  connected : a ≠ .step j (.pubsub (.item .ended))
  taken : a ≠ .step i (.delivered false)
  room : ∀ x k payload f, a = .step j x →
    c.calls j = .running k (.op (.pubsub (.send id payload)) f) →
    (c.shared.rings id).tail < c.shared.next i id + cfg.slots

/-- Stream `i` does not drop its receiver. -/
def Open (i : ι) (c : RealtimeConfig ι) (a : Act ι (Call ι) Choice) : Prop :=
  ∀ x k id f, a = .step i x → c.calls i ≠ .running k (.op (.pubsub (.dropReceiver id)) f)

variable {C : EventCodec} {cfg : StreamConfig}

/-- The change in hand is the one that is owed. -/
theorem inHand_eq {k : Call ι} {g : Post ι} {p : StreamM ι Unit}
    (hp : (posts ι C).Obeys Post.Over g p) : inHand C (.running k p) = g.owed := by
  cases p with
  | ret a => exact hp.2.symm
  | op o f =>
    obtain ⟨hasks, -⟩ := hp
    cases o with
    | pubsub o => exact hasks.2.2.symm
    | _ => exact hasks.2.symm

/-- The message in hand is the one that the bridge has been handed. -/
theorem carried_eq {k : Call ι} {b : Post ι} {p : StreamM ι Unit} {name : String} {id : ChanId ι}
    (hseat : b.seat = .bridging name id) (hp : (posts ι C).Obeys Post.Over b p) :
    carried (.running k p) = b.link.hand := by
  cases p with
  | ret a =>
    obtain ⟨⟨name', hover⟩ | ⟨name', id', hover⟩, -⟩ := hp
    · cases hseat.symm.trans hover
    · cases hseat.symm.trans hover
  | op o f =>
    obtain ⟨hasks, -⟩ := hp
    cases o with
    | pubsub o =>
      have hlink : b.link.asks b.call.channel o := hasks.2.1
      cases o with
      | connect name' =>
        rw [hlink.1]
        rfl
      | next =>
        obtain hlink : b.link = .idle := hlink
        rw [hlink]
        rfl
      | send id' payload =>
        obtain hlink : b.link = .carrying payload := hlink
        rw [hlink]
        rfl
      | _ => exact Eq.symm hlink
    | select id' =>
      obtain ⟨⟨name', hholding⟩, -⟩ := hasks
      cases hseat.symm.trans hholding
    | _ =>
      obtain ⟨⟨name', id', hholding⟩, -⟩ := hasks
      cases hseat.symm.trans hholding

/-- What has been sent and what is on its way, from the places. -/
theorem sentOrUnderway_eq {c : RealtimeConfig ι} {γ : ι → Option (Post ι)} {i j : ι}
    {id : ChanId ι} {transport : Transport} {params : Streams.StreamParams} {fuel : ℕ} {g b : Post ι}
    (hT : ∀ i, Pool.Tracked (posts ι C) Post.Of Post.Over (fun _ => False) (γ i) (c.calls i))
    (hg : γ i = some g) (hb : γ j = some b) (hactive : (c.calls i).Active)
    (hcall : g.call = .stream transport params fuel) (hchannel : b.call.channel = channelOf params)
    (hbridge : ∃ name, b.seat = .bridging name id) :
    sentOrUnderway C cfg c i j id transport params = total C cfg c.shared i j id g b := by
  have hinHand : inHand C (c.calls i) = g.owed := by
    have hi := hT i
    cases hcs : c.calls i with
    | running k p =>
      rw [hcs] at hi
      obtain ⟨g', hg', -, hobeys⟩ := hi
      obtain rfl : g = g' := Option.some.inj (hg.symm.trans hg')
      exact inHand_eq hobeys
    | _ =>
      rw [hcs] at hactive
      exact hactive.elim
  have hcarried : carried (c.calls j) = b.link.hand := by
    obtain ⟨name, hseat⟩ := hbridge
    have hj := hT j
    cases hcs : c.calls j with
    | idle =>
      rw [hcs] at hj
      cases hb.symm.trans hj
    | running k p =>
      rw [hcs] at hj
      obtain ⟨b', hb', -, hobeys⟩ := hj
      obtain rfl : b = b' := Option.some.inj (hb.symm.trans hb')
      exact carried_eq hseat hobeys
    | returned k u =>
      rw [hcs] at hj
      obtain ⟨b', hb', -, hover, -⟩ := hj
      obtain rfl : b = b' := Option.some.inj (hb.symm.trans hb')
      obtain ⟨name', hover⟩ | ⟨name', id', hover⟩ := hover
      · cases hseat.symm.trans hover
      · cases hseat.symm.trans hover
    | dropped k =>
      rw [hcs] at hj
      obtain ⟨_, _, _, hfalse⟩ := hj
      exact hfalse.elim
  unfold sentOrUnderway underway total got
  rw [hinHand, hcarried, hchannel, hcall]
  rfl

/-! ## All runs -/

/-- The session goes on, and what has been sent or is on its way is what there was before and what
    has been published since. -/
structure Conserves (C : EventCodec) (cfg : StreamConfig) (i j : ι) (id : ChanId ι)
    (k : Call ι) (before : List Frame) (n : ℕ) (s : Hub ι) (g b : Post ι) : Prop where
  session : Session cfg s i j id g b
  call : g.call = k
  bridge : b.call.channel = k.channel
  le : n ≤ (s.published k.channel).length
  total : total C cfg s i j id g b =
    before ++ ((s.published k.channel).drop n).flatMap (k.view C)

/-- A step that leaves alone everything between the bridge and the client. -/
theorem Conserves.alike {i j : ι} {id : ChanId ι} {k : Call ι} {before : List Frame} {n : ℕ}
    {s s' : Hub ι} {g b : Post ι} (h : Conserves C cfg i j id k before n s g b)
    (hshutdown : s'.manager.shutdown = s.manager.shutdown) (hframes : s'.frames i = s.frames i)
    (hrings : s'.rings id = s.rings id) (hnext : s'.next i id = s.next i id)
    (hconn : s'.conn j = s.conn j) (hpublished : s'.published = s.published) :
    Conserves C cfg i j id k before n s' g b := by
  obtain ⟨hsession, htotal⟩ := h.session.alike (C := C) hshutdown hframes hrings hnext hconn
    hpublished
  refine ⟨hsession, h.call, h.bridge, ?_, ?_⟩
  · rw [hpublished]
    exact h.le
  · rw [htotal, hpublished]
    exact h.total

/-- A message that is published on the channel is on its way; others are none of its business. -/
theorem Conserves.publish {i j : ι} {id : ChanId ι} {k : Call ι} {before : List Frame} {n : ℕ}
    {s : Hub ι} {g b : Post ι} {γ : ι → Option (Post ι)} {hist : ChanId ι → List String}
    (h : Conserves C cfg i j id k before n s g b) (hc : Carries C cfg s γ hist)
    (hb : γ j = some b) (name payload : String) :
    Conserves C cfg i j id k before n (s.publish name payload) g b := by
  obtain ⟨pos, hconn, hpos, hread⟩ := h.session.conn hc hb
  have hsession : Session cfg (s.publish name payload) i j id g b :=
    ⟨h.session.shutdown, h.session.receiver, h.session.bridge, h.session.linked, h.session.room⟩
  have hread' : (s.publish name payload).read j b.call.channel = pos := Hub.read_linked hconn
  have htotal := h.total
  unfold Realtime.total at htotal
  rw [hread, h.bridge] at htotal
  rw [h.bridge] at hpos
  have hle := h.le
  by_cases hname : name = k.channel
  · subst hname
    have hself : Function.update s.published k.channel (s.published k.channel ++ [payload])
        k.channel = s.published k.channel ++ [payload] := Function.update_self ..
    refine ⟨hsession, h.call, h.bridge, ?_, ?_⟩
    · show n ≤ (Function.update s.published k.channel _ k.channel).length
      rw [hself, List.length_append]
      omega
    · unfold Realtime.total
      rw [hread', h.bridge]
      show got C s i g ++ ((s.rings id).waiting cfg.slots (s.next i id) ++ b.link.hand ++
        (Function.update s.published k.channel _ k.channel).drop pos).flatMap _ =
        before ++ ((Function.update s.published k.channel _ k.channel).drop n).flatMap _
      rw [hself, List.drop_append_of_le_length hpos, List.drop_append_of_le_length hle, h.call]
      rw [h.call] at htotal
      have hmore := congrArg (· ++ k.view C payload) htotal
      simpa [List.flatMap_append] using hmore
  · have hother : Function.update s.published name (s.published name ++ [payload]) k.channel =
        s.published k.channel := Function.update_of_ne (Ne.symm hname) _ _
    refine ⟨hsession, h.call, h.bridge, ?_, ?_⟩
    · show n ≤ (Function.update s.published name _ k.channel).length
      rw [hother]
      exact hle
    · unfold Realtime.total
      rw [hread', h.bridge]
      show got C s i g ++ ((s.rings id).waiting cfg.slots (s.next i id) ++ b.link.hand ++
        (Function.update s.published name _ k.channel).drop pos).flatMap _ =
        before ++ ((Function.update s.published name _ k.channel).drop n).flatMap _
      rw [hother]
      exact htotal

/-- The invariant of a run of undisturbed steps. -/
def Conserved (C : EventCodec) (cfg : StreamConfig) (i j : ι) (id : ChanId ι) (k : Call ι)
    (before : List Frame) (n : ℕ) (s : Hub ι) (γ : ι → Option (Post ι)) : Prop :=
  (∃ hist, Carries C cfg s γ hist) ∧ ∃ g b, γ i = some g ∧ γ j = some b ∧
    Conserves C cfg i j id k before n s g b

section Runs

variable [DecidableEq ι]

theorem conserved_records (hC : C.RoundTrips) {i j : ι} {id : ChanId ι} {k : Call ι}
    {before : List Frame} {n : ℕ} :
    Pool.Records (realtime (ι := ι) C cfg) (posts ι C) Post.Of Post.Over (fun _ => False) Call.post
      (Conserved C cfg i j id k before n) fun c a => Undisturbed cfg i j id c a ∧ Open i c a where
  prog := Call.obeys hC
  typed := Call.post_of
  start c l k' s γ _ h hγ hs := by
    obtain ⟨⟨hist, hc⟩, g, b, hg, hb, hcons⟩ := h
    have hli : i ≠ l := by
      rintro rfl
      rw [hγ] at hg
      cases hg
    have hlj : j ≠ l := by
      rintro rfl
      rw [hγ] at hb
      cases hb
    obtain ⟨m, hm, rfl⟩ := Option.map_eq_some_iff.mp (show (PubSub.start _ _ _).map _ = some s from hs)
    have hshutdown : m.shutdown = c.shared.manager.shutdown := by
      cases k' with
      | stream transport params fuel => cases hm; rfl
      | bridge name id' fuel =>
        have hm : (if (name, id') ∈ c.shared.manager.spawned then _ else _) = some m := hm
        split_ifs at hm
        cases hm
        rfl
    refine ⟨⟨hist, hc.start hγ hs⟩, g, b, (Function.update_of_ne hli _ _).trans hg,
      (Function.update_of_ne hlj _ _).trans hb, ?_⟩
    exact hcons.alike hshutdown rfl rfl rfl rfl rfl
  handle c l x k' o f s r γ p ha h _ hl hγ hk hask hs := by
    obtain ⟨⟨hist, hc⟩, g, b, hg, hb, hcons⟩ := h
    obtain ⟨hundisturbed, hopen⟩ := ha
    have hpublished := published_of_handle hs
    have hij : j ≠ i := by
      rintro rfl
      obtain rfl : g = b := Option.some.inj (hg.symm.trans hb)
      obtain ⟨name, hholding⟩ := hcons.session.receiver
      obtain ⟨name', hbridging⟩ := hcons.session.bridge
      exact absurd (hholding.symm.trans hbridging) (by simp)
    refine ⟨p.next C o r, rfl, Post.next_of hk hask, hc.handle hγ hask hs, ?_⟩
    by_cases hli : l = i
    · subst hli
      obtain rfl : g = p := Option.some.inj (hg.symm.trans hγ)
      obtain ⟨hsession, htotal⟩ := hcons.session.streaming hc hg hask hs
        (fun ho => by subst ho; exact hopen x k' id f rfl hl)
        (fun hx => hundisturbed.taken (by rw [hx]))
      refine ⟨_, b, Function.update_self .., (Function.update_of_ne hij _ _).trans hb, hsession,
        (g.call_next o r).trans hcons.call, hcons.bridge, hpublished ▸ hcons.le, ?_⟩
      rw [htotal, hpublished]
      exact hcons.total
    · by_cases hlj : l = j
      · subst hlj
        obtain rfl : b = p := Option.some.inj (hb.symm.trans hγ)
        obtain ⟨hsession, htotal⟩ := hcons.session.bridging hc hg hb hask hs
          (fun hx => hundisturbed.connected (by rw [hx]))
          (fun payload ho => by subst ho; exact hundisturbed.room x k' payload f rfl hl)
        refine ⟨g, _, (Function.update_of_ne (Ne.symm hli) _ _).trans hg, Function.update_self ..,
          hsession, hcons.call, ?_, hpublished ▸ hcons.le, ?_⟩
        · rw [b.call_next o r]
          exact hcons.bridge
        · rw [htotal, hpublished]
          exact hcons.total
      · obtain ⟨hsession, htotal⟩ := hcons.session.other hc hg hb hγ hli hlj hask hs
        refine ⟨g, b, (Function.update_of_ne (Ne.symm hli) _ _).trans hg,
          (Function.update_of_ne (Ne.symm hlj) _ _).trans hb, hsession, hcons.call, hcons.bridge,
          hpublished ▸ hcons.le, ?_⟩
        rw [htotal, hpublished]
        exact hcons.total
  drop c i s γ g _ _ _ hs := by cases hs
  env c x s γ ha h hs := by
    obtain ⟨⟨hist, hc⟩, g, b, hg, hb, hcons⟩ := h
    refine ⟨⟨hist, hc.env hs⟩, g, b, hg, hb, ?_⟩
    cases x with
    | pubsub y =>
      obtain ⟨m, hm, rfl⟩ := Option.map_eq_some_iff.mp (show (PubSub.env _ _).map _ = some s from hs)
      cases y with
      | shutdown => exact absurd rfl ha.1.shutdown
      | _ => cases hm
    | publish name payload =>
      cases hs
      exact hcons.publish hc hb name payload
    | advance elapsed =>
      cases hs
      exact hcons.alike rfl rfl rfl rfl rfl rfl
    | _ => cases hs

/-- A stream that has dropped its receiver has returned. -/
theorem open_of_active (hC : C.RoundTrips) {c c' : RealtimeConfig ι}
    {acts : List (Act ι (Call ι) Choice)} {i : ι} (hc : Record C cfg c)
    (hrun : (realtime C cfg).machine.run c acts = some c') (hactive : (c'.calls i).Active) :
    (realtime C cfg).machine.Meets (Open i) c acts := by
  refine Machine.meets_of_last (I := Record C cfg) (L := fun c => ∃ k u, c.calls i = .returned k u)
    (fun c a c' hc _ hstep => (carries_records hC).record_step hc trivial hstep)
    (fun c a c' hc hnot hstep => ?_) (fun c a c' hreturned hstep => ?_) hc hrun ?_
  · simp only [Open, not_forall, not_not] at hnot
    obtain ⟨x, k, id, f, rfl, hi⟩ := hnot
    obtain ⟨γ, -, hT⟩ := hc
    have hT := hT i
    rw [hi] at hT
    obtain ⟨g, -, -, hasks, hrest⟩ := hT
    obtain ⟨s, r, -, rfl⟩ := Pool.act_step hstep hi
    have hdone : ∃ name, (g.next C (.pubsub (.dropReceiver id)) r).seat = .done name := by
      have hseat := hasks.1
      show ∃ name, g.seat.next _ _ = .done name
      cases hg : g.seat <;> rw [hg] at hseat <;> first
        | exact hseat.elim
        | exact ⟨_, rfl⟩
    obtain ⟨name, hdone⟩ := hdone
    have hobeys := hrest r _ rfl
    refine ⟨k, (), ?_⟩
    show Function.update c.calls i _ i = _
    rw [Function.update_self]
    cases hf : f r with
    | ret u => rfl
    | op o f' =>
      rw [hf] at hobeys
      obtain ⟨hasks, -⟩ := hobeys
      cases o with
      | pubsub o =>
        have hseat := hasks.1
        rw [hdone] at hseat
        exact hseat.elim
      | select id' =>
        obtain ⟨⟨name', hholding⟩, -⟩ := hasks
        cases hdone.symm.trans hholding
      | _ =>
        obtain ⟨⟨name', id', hholding⟩, -⟩ := hasks
        cases hdone.symm.trans hholding
  · obtain ⟨k, u, hi⟩ := hreturned
    exact ⟨k, u, Pool.returned_step hstep hi⟩
  · rintro ⟨k, u, hi⟩
    rw [hi] at hactive
    exact hactive

/-- From any reachable configuration in which a stream waits at its receiver and the bridge of its
    sender for messages, along any run of undisturbed steps: what the client has been sent and
    what is on its way to it grows by exactly the changes that are published on its channel, in
    their order. -/
theorem sent_conserved (hC : C.RoundTrips) {c c' : RealtimeConfig ι}
    {acts : List (Act ι (Call ι) Choice)} (hreach : (realtime C cfg).machine.Reachable c) {i j : ι}
    {id : ChanId ι} {transport : Transport} {params : Streams.StreamParams} {name : String}
    {fuel n : ℕ} {f : Selected → StreamM ι Unit} {f' : StreamItem → StreamM ι Unit}
    (hi : c.calls i = .running (.stream transport params fuel) (.op (.select id) f))
    (hj : c.calls j = .running (.bridge name id n) (.op (.pubsub .next) f'))
    (hshutdown : c.shared.manager.shutdown = false)
    (hroom : (c.shared.rings id).tail ≤ c.shared.next i id + cfg.slots)
    (hmeets : (realtime C cfg).machine.Meets (Undisturbed cfg i j id) c acts)
    (hrun : (realtime C cfg).machine.run c acts = some c') (hactive : (c'.calls i).Active) :
    sentOrUnderway C cfg c' i j id transport params =
      sentOrUnderway C cfg c i j id transport params ++
        ((c'.shared.published (channelOf params)).drop
          (c.shared.published (channelOf params)).length).flatMap fun payload =>
            (changes C payload).flatMap (changeFrame C transport params) := by
  have hrecord := record_of_reachable hC hreach
  have hopen := open_of_active hC hrecord hrun hactive
  obtain ⟨γ, ⟨hist, hc⟩, hT⟩ := hrecord
  have hTi := hT i
  rw [hi] at hTi
  obtain ⟨g, hg, ⟨hcall, -⟩, ⟨⟨name', hholding⟩, -⟩, -⟩ := hTi
  have hTj := hT j
  rw [hj] at hTj
  obtain ⟨b, hb, ⟨-, hof⟩, ⟨hseat, hlink, -⟩, -⟩ := hTj
  have hbridging : b.seat = .bridging name id := by
    obtain ⟨name'', id', hbridging, -⟩ := bridging_of_asks hseat fun h => h
    rw [hbridging] at hof ⊢
    obtain ⟨rfl, rfl⟩ := hof
    rfl
  have hidle : b.link = .idle := hlink
  have hchannel : g.call.channel = b.call.channel :=
    hc.channel_eq hg (show g.seat.Obtained name' id by rw [hholding]; exact ⟨rfl, rfl⟩) hb
      (show b.seat.OfBridge name id by rw [hbridging]; exact ⟨rfl, rfl⟩)
  have hsession : Session cfg c.shared i j id g b :=
    ⟨hshutdown, ⟨name', hholding⟩, ⟨name, hbridging⟩, by simp [hidle], hroom⟩
  set k : Call ι := .stream transport params fuel with hk
  set n₀ := (c.shared.published k.channel).length with hn₀
  have hstart : Conserved C cfg i j id k (total C cfg c.shared i j id g b) n₀ c.shared γ := by
    refine ⟨⟨hist, hc⟩, g, b, hg, hb, hsession, hcall, ?_, le_refl _, ?_⟩
    · rw [← hchannel, hcall]
    · rw [hn₀, List.drop_length]
      simp
  obtain ⟨γ', ⟨-, g', b', hg', hb', hcons⟩, hT'⟩ :=
    (conserved_records hC).record_of_meets ⟨γ, hstart, hT⟩ (hmeets.and hopen) hrun
  have hactive₀ : (c.calls i).Active := by rw [hi]; trivial
  have hbefore : sentOrUnderway C cfg c i j id transport params = total C cfg c.shared i j id g b :=
    sentOrUnderway_eq hT hg hb hactive₀ hcall (by rw [← hchannel, hcall]; rfl) ⟨name, hbridging⟩
  rw [hbefore, sentOrUnderway_eq hT' hg' hb' hactive hcons.call hcons.bridge hcons.session.bridge]
  exact hcons.total

end Runs

/-! ## One event -/

/-- The steps of `Undisturbed`, and of a bridge that sends, as they can be computed. -/
def undisturbed (cfg : StreamConfig) (i : ι) (id : ChanId ι) (c : RealtimeConfig ι) :
    Act ι (Call ι) Choice → Bool
  | .env (.pubsub _) => false
  | .step j x =>
    decide (x ≠ .pubsub (.item .ended)) && decide (x ≠ .delivered false) &&
      match c.calls j with
      | .running _ (.op (.pubsub (.send _ _)) _) =>
        decide ((c.shared.rings id).tail < c.shared.next i id + cfg.slots)
      | _ => true
  | _ => true

theorem undisturbed_sound {i j : ι} {id : ChanId ι} (c : RealtimeConfig ι)
    (a : Act ι (Call ι) Choice) (h : undisturbed cfg i id c a = true) :
    Undisturbed cfg i j id c a := by
  cases a with
  | env x =>
    refine ⟨?_, by simp, by simp, fun x k payload f ha => by cases ha⟩
    intro ha
    cases ha
    cases h
  | step l x =>
    simp only [undisturbed, Bool.and_eq_true, decide_eq_true_eq] at h
    obtain ⟨⟨hended, htaken⟩, hroom⟩ := h
    refine ⟨by simp, ?_, ?_, ?_⟩
    · intro ha
      cases ha
      exact hended rfl
    · intro ha
      cases ha
      exact htaken rfl
    · intro x' k payload f ha hcall
      cases ha
      rw [hcall] at hroom
      exact of_decide_eq_true hroom
  | _ => exact ⟨by simp, by simp, by simp, fun x k payload f ha => by cases ha⟩

/-- What a stream that waits at its receiver has been started as. -/
def selecting : CallState (Call ι) (Op ι) Op.Ans Unit →
    Option (Transport × Streams.StreamParams × ℕ × ChanId ι)
  | .running (.stream transport params fuel) (.op (.select id) _) =>
    some (transport, params, fuel, id)
  | _ => none

/-- What a bridge that waits for messages has been started as. -/
def awaiting : CallState (Call ι) (Op ι) Op.Ans Unit → Option (String × ChanId ι × ℕ)
  | .running (.bridge name id n) (.op (.pubsub .next) _) => some (name, id, n)
  | _ => none

theorem running_of_selecting {cs : CallState (Call ι) (Op ι) Op.Ans Unit} {transport : Transport}
    {params : Streams.StreamParams} {fuel : ℕ} {id : ChanId ι}
    (h : selecting cs = some (transport, params, fuel, id)) :
    ∃ f, cs = .running (.stream transport params fuel) (.op (.select id) f) := by
  unfold selecting at h
  split at h
  · cases h
    exact ⟨_, rfl⟩
  · cases h

theorem running_of_awaiting {cs : CallState (Call ι) (Op ι) Op.Ans Unit} {name : String}
    {id : ChanId ι} {n : ℕ} (h : awaiting cs = some (name, id, n)) :
    ∃ f, cs = .running (.bridge name id n) (.op (.pubsub .next) f) := by
  unfold awaiting at h
  split at h
  · cases h
    exact ⟨_, rfl⟩
  · cases h

/-- `sent_conserved` for the event of `oneEvent`: it is published while both wait, and sent. -/
theorem sent_conserved_oneEvent :
    ∃ c c', (realtime plainEvents defaults).machine.run ⟨.new, fun _ => .idle⟩ opening = some c ∧
      (realtime plainEvents defaults).machine.run c oneEvent = some c' ∧
      c'.shared.frames 0 = [.sse likedOnceJson] ∧
      sentOrUnderway plainEvents defaults c' 0 1 (0, 0) .sse onePost =
        sentOrUnderway plainEvents defaults c 0 1 (0, 0) .sse onePost ++
          ((c'.shared.published (channelOf onePost)).drop
            (c.shared.published (channelOf onePost)).length).flatMap fun payload =>
              (changes plainEvents payload).flatMap (changeFrame plainEvents .sse onePost) := by
  have hview : ((realtime plainEvents defaults).machine.run ⟨.new, fun _ => .idle⟩ opening).any
      (fun c => decide (selecting (c.calls 0) = some (.sse, onePost, 2, (0, 0)) ∧
        awaiting (c.calls 1) = some (onePostChannel, (0, 0), 2) ∧
        c.shared.manager.shutdown = false ∧
        (c.shared.rings (0, 0)).tail ≤ c.shared.next 0 (0, 0) + defaults.slots) &&
        (realtime plainEvents defaults).machine.meetsAll (undisturbed defaults 0 (0, 0)) c oneEvent &&
        ((realtime plainEvents defaults).machine.run c oneEvent).any fun c' =>
          decide ((c'.calls 0).Active ∧ c'.shared.frames 0 = [.sse likedOnceJson])) = true := by
    decide +kernel
  obtain ⟨c, hrun, hc⟩ := (Option.any_eq_true _ _).mp hview
  simp only [Bool.and_eq_true, decide_eq_true_eq] at hc
  obtain ⟨⟨⟨hstream, hbridge, hshutdown, hroom⟩, hmeets⟩, hlast⟩ := hc
  obtain ⟨c', hrun', hc'⟩ := (Option.any_eq_true _ _).mp hlast
  obtain ⟨hactive, hframes⟩ := of_decide_eq_true hc'
  obtain ⟨f, hi⟩ := running_of_selecting hstream
  obtain ⟨f', hj⟩ := running_of_awaiting hbridge
  have hreach : (realtime plainEvents defaults).machine.Reachable c :=
    ⟨⟨.new, fun _ => .idle⟩, _, ⟨rfl, fun _ => rfl⟩, hrun⟩
  exact ⟨c, c', hrun, hrun', hframes, sent_conserved plainEvents_roundTrips hreach hi hj hshutdown
    hroom (Machine.meets_of_meetsAll undisturbed_sound hmeets) hrun' hactive⟩

end SocialApi.Realtime
