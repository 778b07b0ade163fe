import SocialApi.Realtime.Carried

/-!
# The operations of the manager

What the bridges and the clients do in the manager's code, and at their connections.

* `Carries.step`: what a call may do in one step.
* One lemma for each operation that does more than move a call on (`Carries.subscribe`,
  `Carries.create`, `Carries.connect`, `Carries.message`, `Carries.ended`, `Carries.send`), and one
  for the others (`Carries.quiet`).
* `Carries.pubsub`: the operations of the manager keep the invariant.
-/

namespace SocialApi.Realtime

open SocialApi.Concurrent SocialApi.PubSub

variable {ι : Type} {C : EventCodec} {cfg : StreamConfig} {s s' : Hub ι}
  {γ : ι → Option (Post ι)} {hist hist' : ChanId ι → List String} {i j : ι} {g g' : Post ι}
  {name : String} {id : ChanId ι}

/-! ## Places that follow one another -/

theorem slots_pos (cfg : StreamConfig) : 0 < cfg.slots := by
  obtain ⟨k, hk⟩ := Nat.isPowerOfTwo_nextPowerOfTwo cfg.broadcastCapacity
  unfold StreamConfig.slots
  rw [hk]
  exact Nat.two_pow_pos k

/-- No message has been sent on a channel that does not exist yet. -/
theorem Carries.unsent (h : Carries C cfg s γ hist) (hid : s.manager.serial ≤ id.2) :
    hist id = [] := by
  by_contra hne
  obtain ⟨j, g, name, hg, hbridge⟩ := h.begun id hne
  have htask := ((h.seats.ok j _ (seatsOf_of hg)).bridge hbridge).1
  have hlt := h.seats.tasks.task id htask
  omega

/-- Where no message is taken, what a connection has in hand can only become less. -/
theorem link_of_next {l : Link} {o : PubSub.Op ι} {r : o.Ans} (ho : l.asks name o)
    (h : Quiet o r ∨ Plain o) :
    (l.next o r).hand.Sublist l.hand ∧ (l.next o r ≠ .off → l ≠ .off) := by
  cases o with
  | connect name' =>
    cases r with
    | true => exact (h.elim id id).elim
    | false => exact ⟨List.Sublist.refl _, fun hl => hl⟩
  | next =>
    cases r with
    | message payload => exact (h.elim id id).elim
    | ended => exact (h.elim id id).elim
    | cancelled => exact ⟨List.Sublist.refl _, fun hl => hl⟩
    | idle => exact ⟨List.Sublist.refl _, fun hl => hl⟩
  | send id' payload =>
    obtain rfl : l = .carrying payload := ho
    exact ⟨List.nil_sublist _, fun _ => by simp⟩
  | _ => exact ⟨List.Sublist.refl _, fun hl => hl⟩

/-- A place in the manager's code is followed by another, no message is taken, and nothing is
    handed to a client. -/
theorem PostOk.move {o : PubSub.Op ι} {r : o.Ans} (h : PostOk C s hist i g)
    (hof : Post.Of g.call g) (hasks : g.asks C (.pubsub o)) (ho : Quiet o r ∨ Plain o)
    (hframes : s'.frames = s.frames) (hconn : s'.conn = s.conn)
    (hpublished : s'.published = s.published)
    (hnext : Early g.seat ∨ s'.next i = s.next i)
    (hbehind : ∀ id, (g.seat.next o r).Owns id → s'.next i id ≤ (hist id).length)
    (hgot : ∀ name, g.seat.OfClient name →
      (got C s i g).Sublist ((s.published g.call.channel).flatMap (g.call.view C))) :
    PostOk C s' hist i (g.next C (.pubsub o) r) := by
  obtain ⟨hseat, hlink, -⟩ := hasks
  have hsame : got C s' i (g.next C (.pubsub o) r) = got C s i g := by
    unfold got
    rw [hframes]
    rfl
  obtain ⟨hhand, hoff⟩ := link_of_next hlink ho
  refine ⟨fun he => hsame ▸ h.early (early_of_next hseat he), hbehind, fun name id hid => ?_,
    fun name hdone => ?_, fun name pos hpos => ?_, fun hl => ?_, fun name id hid => ?_⟩
  · rw [hsame]
    rcases obtained_of_next hseat hid with hold | hearly
    · rcases hnext with hearly | hnext
      · rw [h.early hearly]
        exact List.nil_sublist _
      · rw [hnext]
        exact h.ahead name id hold
    · rw [h.early hearly]
      exact List.nil_sublist _
  · rw [hsame, hpublished]
    obtain ⟨id, hid⟩ := done_of_next hseat hdone
    have hclient : ∃ name', g.seat.OfClient name' := by
      have hn := hof.2
      cases hcall : g.call with
      | stream transport params fuel => exact ⟨_, by rw [hcall] at hn; exact hn⟩
      | bridge n id' fuel =>
        rw [hcall] at hn
        cases hg : g.seat <;> rw [hg] at hn hid <;> first
          | exact hn.elim
          | exact hid.elim
    obtain ⟨name', hn⟩ := hclient
    exact hgot name' hn
  · rw [hconn] at hpos
    rw [hpublished]
    exact h.conn name pos hpos
  · rw [hconn]
    exact h.linked (hoff hl)
  · have hbridge : g.seat.OfBridge name id :=
      ((Seat.of_iff hof.2 (Seat.next_of hof.2 hseat)).2 name id).mp hid
    have hread : s'.read i g.call.channel = s.read i g.call.channel := by
      unfold Hub.read
      rw [hconn, hpublished]
    show List.Sublist _ ((s'.published g.call.channel).take (s'.read i g.call.channel))
    rw [hread, hpublished]
    exact (hhand.append_left _).trans (h.read name id hbridge)

/-- The accesses to a connection are those of a bridge at work. -/
theorem bridging_of_asks {seat : Seat ι} {o : PubSub.Op ι} (ho : seat.asks o) (hplain : ¬ Plain o) :
    ∃ name id, seat = .bridging name id ∧ ∀ id' payload, o = .send id' payload → id' = id := by
  cases seat <;> cases o <;> first
    | exact ho.elim
    | exact absurd trivial hplain
    | exact ⟨_, _, rfl, by rintro id' payload ⟨⟩; exact ho⟩
    | exact ⟨_, _, rfl, by rintro id' payload ⟨⟩⟩

/-- A receiver is asked for by a client that has none. -/
theorem early_of_asks {seat : Seat ι} {o : PubSub.Op ι} (ho : seat.asks o)
    (h : o = .create ∨ ∃ id, o = .subscribe id) : Early seat := by
  rcases h with rfl | ⟨id, rfl⟩ <;> cases seat <;> first
    | exact trivial
    | exact ho.elim

/-- A bridge at its connection stays the bridge of its channel. -/
theorem bridge_of_asks {o : PubSub.Op ι} (hof : Post.Of g.call g) (hasks : g.asks C (.pubsub o)) (hplain : ¬ Plain o)
    (r : o.Ans) : ∃ name id, g.seat.OfBridge name id ∧
      (g.next C (.pubsub o) r).seat.OfBridge name id ∧
        ∀ id' payload, o = .send id' payload → id' = id := by
  obtain ⟨name, id, hseat, hsend⟩ := bridging_of_asks hasks.1 hplain
  have hbridge : g.seat.OfBridge name id := by rw [hseat]; exact ⟨rfl, rfl⟩
  have hsame := (Seat.of_iff hof.2 (Seat.next_of (r := r) hof.2 hasks.1)).2 name id
  exact ⟨name, id, hbridge, hsame.mpr hbridge, hsend⟩

/-! ## One step -/

variable [DecidableEq ι]

/-- A call goes on to another place; the messages it has sent on, if any, are sent on the channel
    whose bridge it is. -/
theorem Carries.step (h : Carries C cfg s γ hist) (hg : γ i = some g) (hcall : g'.call = g.call)
    (hof : Post.Of g.call g')
    (hseats : Seats s'.manager (Function.update (seatsOf γ) i (some g'.seat)))
    (hobtained : ∀ name id, g'.seat.Obtained name id → g.seat.Obtained name id ∨
      ∃ g₀, γ id.1 = some g₀ ∧ g₀.seat.OfClient name)
    (hholds : ∀ id, (s'.rings id).Holds cfg.slots (hist' id))
    (hhist : ∀ id, hist id <+: hist' id)
    (hgrown : ∀ id, hist' id = hist id ∨ ∃ name, g.seat.OfBridge name id)
    (hpublished : s'.published = s.published)
    (hframes : ∀ j, j ≠ i → s'.frames j = s.frames j)
    (hnext : ∀ j, j ≠ i → s'.next j = s.next j) (hconn : ∀ j, j ≠ i → s'.conn j = s.conn j)
    (hpost : PostOk C s' hist' i g') :
    Carries C cfg s' (Function.update γ i (some g')) hist' := by
  obtain ⟨-, hof₀⟩ := h.of i g hg
  have hsame := Seat.of_iff hof₀ hof.2
  -- a place of the same request is still there
  have hstill : ∀ j g₀, γ j = some g₀ → ∃ g₁, Function.update γ i (some g') j = some g₁ ∧
      (∀ name, g₀.seat.OfClient name → g₁.seat.OfClient name) ∧
      ∀ name id, g₀.seat.OfBridge name id → g₁.seat.OfBridge name id := by
    intro j g₀ hg₀
    by_cases hj : j = i
    · subst hj
      obtain rfl : g₀ = g := Option.some.inj (hg₀.symm.trans hg)
      exact ⟨g', Function.update_self .., fun name => (hsame.1 name).mpr,
        fun name id => (hsame.2 name id).mpr⟩
    · exact ⟨g₀, (Function.update_of_ne hj _ _).trans hg₀, fun _ hn => hn, fun _ _ hb => hb⟩
  have hother : ∀ j g₁, j ≠ i → Function.update γ i (some g') j = some g₁ → γ j = some g₁ := by
    intro j g₁ hj hg₁
    rwa [Function.update_of_ne hj] at hg₁
  have hself : ∀ g₁, Function.update γ i (some g') i = some g₁ → g₁ = g' := by
    intro g₁ hg₁
    rw [Function.update_self] at hg₁
    exact (Option.some.inj hg₁).symm
  refine ⟨?_, fun j g₁ hg₁ => ?_, fun j g₁ name id hg₁ hid => ?_, hholds, fun id hid => ?_,
    fun j hj => ?_, fun j g₁ hg₁ => ?_⟩
  · rw [seatsOf_update]
    exact hseats
  · by_cases hj : j = i
    · subst hj
      rw [hself g₁ hg₁, hcall]
      exact hof
    · exact h.of j g₁ (hother j g₁ hj hg₁)
  · have hhome : ∃ g₀, γ id.1 = some g₀ ∧ g₀.seat.OfClient name := by
      by_cases hj : j = i
      · subst hj
        rw [hself g₁ hg₁] at hid
        exact (hobtained name id hid).elim (fun hid => h.homed j g name id hg hid) fun hh => hh
      · exact h.homed j g₁ name id (hother j g₁ hj hg₁) hid
    obtain ⟨g₀, hg₀, hname⟩ := hhome
    obtain ⟨g₂, hg₂, hclient, -⟩ := hstill id.1 g₀ hg₀
    exact ⟨g₂, hg₂, hclient name hname⟩
  · have hbegun : ∃ j g₀ name, γ j = some g₀ ∧ g₀.seat.OfBridge name id := by
      rcases hgrown id with hsame | ⟨name, hb⟩
      · exact h.begun id (hsame ▸ hid)
      · exact ⟨i, g, name, hg, hb⟩
    obtain ⟨j, g₀, name, hg₀, hb⟩ := hbegun
    obtain ⟨g₂, hg₂, -, hbridge⟩ := hstill j g₀ hg₀
    exact ⟨j, g₂, name, hg₂, hbridge name id hb⟩
  · have hji : j ≠ i := by
      intro he
      rw [he, Function.update_self] at hj
      cases hj
    rw [Function.update_of_ne hji] at hj
    rw [hconn j hji, hframes j hji]
    exact h.idle j hj
  · by_cases hj : j = i
    · subst hj
      rw [hself g₁ hg₁]
      exact hpost
    · have hg₁ := hother j g₁ hj hg₁
      refine (h.post j g₁ hg₁).frame (hframes j hj) (hnext j hj) (hconn j hj)
        (fun name => hpublished ▸ List.prefix_rfl) hhist fun name id hb => ?_
      -- each sender has one bridge
      rcases hgrown id with hsame | ⟨name', hb'⟩
      · exact hsame
      · exact absurd (h.seats.unique j i _ _ _ _ id (seatsOf_of hg₁) (seatsOf_of hg) hb hb') hj

/-- A receiver is obtained at the sender of the client's name. -/
theorem home_of_move {m m' : Manager ι} {σ : ι → Option (Seat ι)} {k : PubSub.Call ι}
    {o : PubSub.Op ι} {y : PubSub.Choice} {seat seat' : Seat ι} (h : Seats m σ)
    (hseat : σ i = some seat) (hk : Seat.Of k seat) (hmove : Move i o y m seat m' seat')
    (hobtained : seat'.Obtained name id) :
    seat.Obtained name id ∨ ∃ seat₀, σ id.1 = some seat₀ ∧ seat₀.OfClient name := by
  have hok := h.ok i seat hseat
  cases hmove with
  | subscribe =>
    obtain ⟨rfl, rfl⟩ := hobtained
    exact Or.inr (h.named _ _ (Or.inl hok.1))
  | join =>
    obtain ⟨rfl, rfl⟩ := hobtained
    exact Or.inr (h.named _ _ (Or.inl hok.2.1))
  | insert hnone =>
    obtain ⟨rfl, rfl⟩ := hobtained
    obtain rfl : id.1 = i := hok.creator
    exact Or.inr ⟨_, hseat, rfl⟩
  | dropReceiver => exact hobtained.elim
  | keep => exact Or.inl hobtained
  | leave => exact Or.inl hobtained
  | dropNew => exact Or.inl hobtained
  | spawn => exact Or.inl hobtained
  | _ => exact hobtained.elim

/-! ## One lemma for each operation -/

section Operations

variable {o : PubSub.Op ι} {r : o.Ans} {y : PubSub.Choice} {m : Manager ι} {t : Hub ι}

/-- A call goes on in the manager's code; `t` has what else has changed. -/
theorem Carries.proceed (h : Carries C cfg s γ hist) (hg : γ i = some g)
    (hasks : g.asks C (.pubsub o)) (hm : PubSub.handle s.manager i o y = some (m, r))
    (hholds : ∀ id, (t.rings id).Holds cfg.slots (hist' id))
    (hhist : ∀ id, hist id <+: hist' id)
    (hgrown : ∀ id, hist' id = hist id ∨ ∃ name, g.seat.OfBridge name id)
    (hpublished : t.published = s.published) (hframes : t.frames = s.frames)
    (hnext : ∀ j, j ≠ i → t.next j = s.next j) (hconn : ∀ j, j ≠ i → t.conn j = s.conn j)
    (hpost : PostOk C { t with manager := m } hist' i (g.next C (.pubsub o) r)) :
    Carries C cfg { t with manager := m }
      (Function.update γ i (some (g.next C (.pubsub o) r))) hist' := by
  have hof := h.of i g hg
  have hnextof := Seat.next_of (r := r) hof.2 hasks.1
  have hmove := handle_move hof.2 hasks.1 hm
  refine h.step hg rfl ⟨rfl, hnextof⟩ (h.seats.move (seatsOf_of hg) hof.2 hnextof hmove)
    (fun name id hobtained => ?_) hholds hhist hgrown hpublished (fun j _ => congrFun hframes j)
    hnext hconn hpost
  rcases home_of_move h.seats (seatsOf_of hg) hof.2 hmove hobtained with hold | ⟨seat, hseat, hn⟩
  · exact Or.inl hold
  · obtain ⟨g₀, hg₀, rfl⟩ := seatsOf_eq_some.mp hseat
    exact Or.inr ⟨g₀, hg₀, hn⟩

/-- No message is sent. -/
theorem Carries.unheard (h : Carries C cfg s γ hist) (hg : γ i = some g)
    (hasks : g.asks C (.pubsub o)) (hm : PubSub.handle s.manager i o y = some (m, r))
    (hrings : t.rings = s.rings) (hpublished : t.published = s.published)
    (hframes : t.frames = s.frames) (hnext : ∀ j, j ≠ i → t.next j = s.next j)
    (hconn : ∀ j, j ≠ i → t.conn j = s.conn j)
    (hpost : PostOk C { t with manager := m } hist i (g.next C (.pubsub o) r)) :
    Carries C cfg { t with manager := m }
      (Function.update γ i (some (g.next C (.pubsub o) r))) hist :=
  h.proceed hg hasks hm (fun id => hrings ▸ h.holds id) (fun _ => List.prefix_rfl)
    (fun _ => Or.inl rfl) hpublished hframes hnext hconn hpost

/-- An operation that changes nothing but the manager. -/
theorem Carries.quiet (h : Carries C cfg s γ hist) (hg : γ i = some g)
    (hasks : g.asks C (.pubsub o)) (hm : PubSub.handle s.manager i o y = some (m, r))
    (hquiet : Quiet o r) :
    Carries C cfg { s with manager := m }
      (Function.update γ i (some (g.next C (.pubsub o) r))) hist := by
  have hcreate : o ≠ .create := by
    rintro rfl
    exact hquiet
  have hsubscribe : ∀ id, o ≠ .subscribe id := by
    rintro id rfl
    exact hquiet
  refine h.unheard hg hasks hm rfl rfl rfl (fun _ _ => rfl) (fun _ _ => rfl)
    ((h.post i g hg).move (h.of i g hg) hasks (Or.inl hquiet) rfl rfl rfl (Or.inr rfl)
      (fun id hid => ?_) fun name hn => h.got_sublist hg hn)
  exact (h.post i g hg).behind id (owns_of_next hasks.1 hcreate hsubscribe hid)

/-- A client gets a receiver at a sender that exists. -/
theorem Carries.subscribe (h : Carries C cfg s γ hist) (hg : γ i = some g)
    (hasks : g.asks C (.pubsub (.subscribe id)))
    (hm : PubSub.handle s.manager i (.subscribe id) y = some (m, ())) :
    Carries C cfg { s.setNext i id (s.rings id).tail with manager := m }
      (Function.update γ i (some (g.next C (.pubsub (.subscribe id)) ()))) hist := by
  have hearly := early_of_asks hasks.1 (Or.inr ⟨id, rfl⟩)
  refine h.unheard hg hasks hm rfl rfl rfl (fun j hj => Function.update_of_ne hj _ _)
    (fun _ _ => rfl) ((h.post i g hg).move (h.of i g hg) hasks (Or.inr trivial) rfl rfl rfl
      (Or.inl hearly) (fun id' hid => ?_) fun name hn => h.got_sublist hg hn)
  show Function.update s.next i _ i id' ≤ _
  rw [Function.update_self]
  by_cases hsame : id' = id
  · subst hsame
    rw [Function.update_self, (h.holds id').tail]
  · rw [Function.update_of_ne hsame]
    refine (h.post i g hg).behind id' ?_
    have hseat := hasks.1
    cases hg : g.seat <;> rw [hg] at hseat hid <;> first
      | exact hseat.elim
      | exact absurd (hid.trans hseat.symm) hsame
      | exact hid.resolve_right fun he => hsame (he.trans hseat.symm)

/-- A client creates a sender and its first receiver. -/
theorem Carries.create (h : Carries C cfg s γ hist) (hg : γ i = some g)
    (hasks : g.asks C (.pubsub .create))
    (hm : PubSub.handle s.manager i .create y = some (m, id)) :
    Carries C cfg
      { s.setNext i id 0 with rings := Function.update s.rings id .new, manager := m }
      (Function.update γ i (some (g.next C (.pubsub .create) id))) hist := by
  have hearly := early_of_asks hasks.1 (Or.inl rfl)
  have hnew : id = (i, s.manager.serial) := by
    obtain rfl : y = .any := choice_any hm (by simp) (by simp) (by simp)
    cases hm
    rfl
  have hunsent : hist id = [] := h.unsent (by rw [hnew])
  refine h.proceed hg hasks hm
    (t := { s.setNext i id 0 with rings := Function.update s.rings id .new })
    (fun id' => ?_) (fun id => List.prefix_rfl) (fun id => Or.inl rfl) rfl rfl
    (fun j hj => Function.update_of_ne hj _ _) (fun _ _ => rfl)
    ((h.post i g hg).move (h.of i g hg) hasks (Or.inr trivial) rfl rfl rfl (Or.inl hearly)
      (fun id' hid => ?_) fun name hn => h.got_sublist hg hn)
  · show (Function.update s.rings id .new id').Holds cfg.slots (hist id')
    by_cases hsame : id' = id
    · subst hsame
      rw [Function.update_self, hunsent]
      exact Broadcast.holds_new _
    · rw [Function.update_of_ne hsame]
      exact h.holds id'
  · show Function.update s.next i _ i id' ≤ _
    rw [Function.update_self]
    by_cases hsame : id' = id
    · subst hsame
      rw [Function.update_self]
      exact Nat.zero_le _
    · have hseat := hasks.1
      cases hg : g.seat <;> rw [hg] at hseat hid <;> first
        | exact hseat.elim
        | exact absurd hid hsame

/-- A bridge connects to Redis; what is published from now on is handed to it. -/
theorem Carries.connect (h : Carries C cfg s γ hist) (hg : γ i = some g)
    (hasks : g.asks C (.pubsub (.connect name)))
    (hm : PubSub.handle s.manager i (.connect name) y = some (m, true)) :
    Carries C cfg
      { s with
        conn := Function.update s.conn i (some (name, (s.published name).length)), manager := m }
      (Function.update γ i (some (g.next C (.pubsub (.connect name)) true))) hist := by
  have hpost := h.post i g hg
  obtain ⟨-, rfl⟩ : g.link = .off ∧ name = g.call.channel := hasks.2.1
  obtain ⟨name', id, hbridge, hstays, -⟩ := bridge_of_asks (h.of i g hg) hasks (fun h => h) true
  have hread := (hpost.read name' id hbridge).trans (List.take_sublist _ _)
  refine h.unheard hg hasks hm
    (t := { s with conn := Function.update s.conn i (some (_, (s.published _).length)) }) rfl rfl rfl
    (fun _ _ => rfl) (fun j hj => Function.update_of_ne hj _ _)
    (postOk_linked hstays (Function.update_self ..) (le_refl _) ?_)
  show List.Sublist (hist id ++ []) ((s.published g.call.channel).take _)
  rw [List.take_length]
  exact ((List.nil_sublist _).append_left _).trans hread

/-- A bridge is handed the next message of its channel. -/
theorem Carries.message {payload : String} {pos : ℕ} (h : Carries C cfg s γ hist)
    (hg : γ i = some g) (hasks : g.asks C (.pubsub .next))
    (hm : PubSub.handle s.manager i .next y = some (m, .message payload))
    (hconn : s.conn i = some (name, pos)) (hpayload : (s.published name)[pos]? = some payload) :
    Carries C cfg
      { s with conn := Function.update s.conn i (some (name, pos + 1)), manager := m }
      (Function.update γ i (some (g.next C (.pubsub .next) (.message payload)))) hist := by
  have hpost := h.post i g hg
  have hidle : g.link = .idle := hasks.2.1
  obtain ⟨name', id, hbridge, hstays, -⟩ :=
    bridge_of_asks (h.of i g hg) hasks (fun h => h) (.message payload)
  obtain ⟨rfl, -⟩ := hpost.conn name pos hconn
  have hread := hpost.read name' id hbridge
  rw [Hub.read_linked hconn, hidle] at hread
  have hlt := (List.getElem?_eq_some_iff.mp hpayload).1
  refine h.unheard hg hasks hm
    (t := { s with conn := Function.update s.conn i (some (_, pos + 1)) }) rfl rfl rfl
    (fun _ _ => rfl) (fun j hj => Function.update_of_ne hj _ _)
    (postOk_linked hstays (Function.update_self ..) hlt ?_)
  show List.Sublist (hist id ++ [payload]) ((s.published g.call.channel).take (pos + 1))
  rw [List.take_add_one, hpayload]
  refine List.Sublist.append_right ?_ _
  exact (List.sublist_append_left _ _).trans hread

/-- The connection of a bridge ends. -/
theorem Carries.ended (h : Carries C cfg s γ hist) (hg : γ i = some g)
    (hasks : g.asks C (.pubsub .next))
    (hm : PubSub.handle s.manager i .next y = some (m, .ended)) :
    Carries C cfg { s with conn := Function.update s.conn i none, manager := m }
      (Function.update γ i (some (g.next C (.pubsub .next) .ended))) hist := by
  obtain ⟨name', id, hbridge, hstays, -⟩ := bridge_of_asks (h.of i g hg) hasks (fun h => h) .ended
  have hread := ((h.post i g hg).read name' id hbridge).trans (List.take_sublist _ _)
  exact h.unheard hg hasks hm (t := { s with conn := Function.update s.conn i none }) rfl rfl rfl
    (fun _ _ => rfl) (fun j hj => Function.update_of_ne hj _ _)
    (postOk_unlinked hstays (Function.update_self ..) rfl
      ((List.sublist_append_left _ _).trans hread))

/-- A bridge sends the message it has in hand to the receivers of its channel. -/
theorem Carries.send {payload : String} (h : Carries C cfg s γ hist) (hg : γ i = some g)
    (hasks : g.asks C (.pubsub (.send id payload)))
    (hm : PubSub.handle s.manager i (.send id payload) y = some (m, true)) :
    Carries C cfg
      { s with
        rings := Function.update s.rings id ((s.rings id).send cfg.slots payload), manager := m }
      (Function.update γ i (some (g.next C (.pubsub (.send id payload)) true)))
      (Function.update hist id (hist id ++ [payload])) := by
  have hpost := h.post i g hg
  have hcarrying : g.link = .carrying payload := hasks.2.1
  obtain ⟨name', id', hbridge, hstays, hsend⟩ :=
    bridge_of_asks (h.of i g hg) hasks (fun h => h) true
  obtain rfl : id = id' := hsend _ _ rfl
  have hread := hpost.read name' id hbridge
  rw [hcarrying] at hread
  obtain ⟨⟨name, pos⟩, hconn⟩ := Option.ne_none_iff_exists'.mp
    (hpost.linked (by rw [hcarrying]; simp))
  obtain ⟨rfl, hpos⟩ := hpost.conn name pos hconn
  rw [Hub.read_linked hconn] at hread
  refine h.proceed hg hasks hm
    (t := { s with rings := Function.update s.rings id ((s.rings id).send cfg.slots payload) })
    (fun id' => ?_) (fun id' => ?_) (fun id' => ?_) rfl rfl (fun _ _ => rfl) (fun _ _ => rfl)
    (postOk_linked hstays hconn hpos ?_)
  · show (Function.update s.rings id _ id').Holds cfg.slots _
    by_cases hsame : id' = id
    · subst hsame
      rw [Function.update_self, Function.update_self]
      exact (h.holds id').send (slots_pos cfg) payload
    · rw [Function.update_of_ne hsame, Function.update_of_ne hsame]
      exact h.holds id'
  · by_cases hsame : id' = id
    · subst hsame
      rw [Function.update_self]
      exact List.prefix_append _ _
    · rw [Function.update_of_ne hsame]
  · by_cases hsame : id' = id
    · subst hsame
      exact Or.inr ⟨name', hbridge⟩
    · exact Or.inl (Function.update_of_ne hsame _ _)
  · rw [Function.update_self]
    show List.Sublist (hist id ++ [payload] ++ []) _
    rw [List.append_nil]
    exact hread

end Operations

/-- The operations of the manager keep the invariant. -/
theorem Carries.pubsub {o : PubSub.Op ι} {x : Choice} {r : o.Ans} (h : Carries C cfg s γ hist)
    (hg : γ i = some g) (hasks : g.asks C (.pubsub o))
    (hs : handle cfg s i (.pubsub o) x = some (s', r)) :
    ∃ hist', Carries C cfg s' (Function.update γ i (some (g.next C (.pubsub o) r))) hist' := by
  obtain ⟨y, m, t, rfl, hm, heffect, rfl⟩ := pubsub_of_handle hs
  cases heffect with
  | quiet hquiet => exact ⟨_, h.quiet hg hasks hm hquiet⟩
  | subscribe => exact ⟨_, h.subscribe hg hasks hm⟩
  | create => exact ⟨_, h.create hg hasks hm⟩
  | connect => exact ⟨_, h.connect hg hasks hm⟩
  | message hconn hpayload => exact ⟨_, h.message hg hasks hm hconn hpayload⟩
  | ended => exact ⟨_, h.ended hg hasks hm⟩
  | send => exact ⟨_, h.send hg hasks hm⟩

end SocialApi.Realtime
