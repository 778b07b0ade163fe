import SocialApi.Services.PendingLeaders

/-!
# Channels and those who follow them

A reader that finds an entry in `pending_fetches` subscribes to its channel and waits
for the leader's count. What holds of every channel and of every call that follows one,
as long as nobody subscribes after the count has been sent.

* `SharedInv`: the invariant of the map, the channels and the stands of the calls.
* `SharedInv.touch`: a call that changes its stand and one channel.
* `SharedInv.start`, `SharedInv.over`: a call starts, a call ends.
-/

namespace SocialApi.Services

open SocialApi.Concurrent SocialApi.Postgres SocialApi.PendingFetches

variable {ι : Type}

/-! ## The invariant -/

/-- The leader has not sent anything and nobody can any more. -/
def Failed (ch : Channel ι) : Prop := ch.sent = none ∧ ch.senders = []

section Invariant

variable {s s' : Flights ι} {errors errors' : List ι} {γ γ' : ι → Option Stand} {i : ι}
  {g g' : Stand} {id : ChanId} {ch ch' : Channel ι}

/-- The call still has to wait on the channel. -/
def Waits (γ : ι → Option Stand) (j : ι) (id : ChanId) : Prop :=
  ∃ g rx, γ j = some g ∧ rx ∈ g.waits ∧ rx.chan = id

/-- The call may still send on the channel. -/
def Owes (γ : ι → Option Stand) (j : ι) (id : ChanId) : Prop := ∃ g, γ j = some g ∧ id ∈ g.unsent

variable [DecidableEq ι]

theorem Waits.stand {j : ι} (h : Waits γ j id) (hγ : γ i = some g)
    (hw : ∀ rx ∈ g.waits, rx.chan = id → rx ∈ g'.waits) :
    Waits (Function.update γ i (some g')) j id := by
  obtain ⟨g₁, rx, hg₁, hrx, hid⟩ := h
  by_cases hji : j = i
  · subst hji
    rw [hγ] at hg₁
    cases hg₁
    exact ⟨g', rx, Function.update_self _ _ _, hw rx hrx hid, hid⟩
  · exact ⟨g₁, rx, (Function.update_of_ne hji _ _).trans hg₁, hrx, hid⟩

theorem Owes.stand {j : ι} (h : Owes γ j id) (hγ : γ i = some g) (ho : id ∈ g.unsent → id ∈ g'.unsent) :
    Owes (Function.update γ i (some g')) j id := by
  obtain ⟨g₁, hg₁, hid⟩ := h
  by_cases hji : j = i
  · subst hji
    rw [hγ] at hg₁
    cases hg₁
    exact ⟨g', Function.update_self _ _ _, ho hid⟩
  · exact ⟨g₁, (Function.update_of_ne hji _ _).trans hg₁, hid⟩

/-- A channel: before the count is sent there is no value; a value is the count; each follower
    has been served, still waits, or follows in vain; a leader that has not sent still may, or
    its query has failed. -/
structure ChanOk (pending : CacheKey → Option ChanId) (errors : List ι) (γ : ι → Option Stand)
    (id : ChanId) (ch : Channel ι) : Prop where
  quiet : ch.sent = none → ch.version = 0 ∧ ch.value = none
  value : ch.value ≠ none → ch.value = ch.sent
  served : ∀ j ∈ ch.served, ch.value ≠ none
  followers : ∀ j ∈ ch.followers, j ∈ ch.served ∨ Failed ch ∨ Waits γ j id
  leader : ch.sent = none → Owes γ ch.leader id ∨ ch.leader ∈ errors
  inMap : pending id.1 = some id → none ∈ ch.senders

/-- A running call and a channel: it knows the keys it has subscribed to; where it still waits,
    the leader has found it among the receivers; where it may send, nobody else does and nothing
    has been sent. -/
structure PairOk (j : ι) (g : Stand) (id : ChanId) (ch : Channel ι) : Prop where
  entered : j ∈ ch.followers → id.1 ∈ g.entered
  followed : j ∈ ch.followers → id.1 ∈ g.followed ∨ Failed ch
  waiting : ∀ rx ∈ g.waits, rx.chan = id →
    rx.seen = 0 ∧ j ∈ ch.receivers ∧ j ∈ ch.followers ∧ (ch.sent ≠ none → ch.version ≠ 0)
  unsent : id ∈ g.unsent → ch.leader = j ∧ ch.sent = none ∧ (none ∈ ch.senders ∨ some j ∈ ch.senders)

/-- The whole invariant. -/
structure SharedInv (s : Flights ι) (errors : List ι) (γ : ι → Option Stand) : Prop where
  leaders : Leaders s γ
  chan : ∀ id ch, s.chans id = some ch → ChanOk s.pending errors γ id ch
  pair : ∀ j g id ch, γ j = some g → s.chans id = some ch → PairOk j g id ch
  once : ∀ j id id' ch ch', s.chans id = some ch → s.chans id' = some ch' → j ∈ ch.followers →
    j ∈ ch'.followers → id.1 = id'.1 → id = id'
  made : ∀ j g id, γ j = some g → id ∈ g.unsent → s.chans id ≠ none

/-- What one call's change of stand means for a channel it does not touch. -/
theorem ChanOk.stand {pending pending' : CacheKey → Option ChanId}
    (h : ChanOk pending errors γ id ch) (hγ : γ i = some g)
    (hpending : pending' id.1 = some id → pending id.1 = some id)
    (herrors : ∀ j ∈ errors, j ∈ errors')
    (hwaits : i ∈ ch.followers → ∀ rx ∈ g.waits, rx.chan = id →
      i ∈ ch.served ∨ Failed ch ∨ rx ∈ g'.waits)
    (howes : id ∈ g.unsent → id ∈ g'.unsent ∨ i ∈ errors') :
    ChanOk pending' errors' (Function.update γ i (some g')) id ch := by
  refine ⟨h.quiet, h.value, h.served, fun j hj => ?_, fun hsent => ?_, fun hp => h.inMap (hpending hp)⟩
  · rcases h.followers j hj with hs | hf | ⟨g₁, rx, hg₁, hrx, hid⟩
    · exact Or.inl hs
    · exact Or.inr (Or.inl hf)
    · by_cases hji : j = i
      · subst hji
        rw [hγ] at hg₁
        cases hg₁
        refine (hwaits hj rx hrx hid).imp_right fun hr => hr.imp_right fun hrx' => ?_
        exact ⟨g', rx, Function.update_self _ _ _, hrx', hid⟩
      · exact Or.inr (Or.inr ⟨g₁, rx, (Function.update_of_ne hji _ _).trans hg₁, hrx, hid⟩)
  · rcases h.leader hsent with ⟨g₁, hg₁, hid⟩ | he
    · by_cases hji : ch.leader = i
      · rw [hji, hγ] at hg₁
        cases hg₁
        refine (howes hid).imp (fun hid' => ?_) fun he => hji ▸ he
        exact ⟨g', by rw [hji, Function.update_self], hid'⟩
      · exact Or.inl ⟨g₁, (Function.update_of_ne hji _ _).trans hg₁, hid⟩
    · exact Or.inr (herrors _ he)

/-- One call changes its stand and no channel. -/
theorem SharedInv.stand (h : SharedInv s errors γ) (hγ : γ i = some g)
    (hleaders : Leaders s (Function.update γ i (some g'))) (herrors : ∀ j ∈ errors, j ∈ errors')
    (hwaits : ∀ id ch, s.chans id = some ch → i ∈ ch.followers → ∀ rx ∈ g.waits, rx.chan = id →
      i ∈ ch.served ∨ Failed ch ∨ rx ∈ g'.waits)
    (howes : ∀ id ∈ g.unsent, id ∈ g'.unsent ∨ i ∈ errors')
    (hpair : ∀ id ch, s.chans id = some ch → PairOk i g' id ch)
    (hmade : ∀ id ∈ g'.unsent, s.chans id ≠ none) :
    SharedInv s errors' (Function.update γ i (some g')) := by
  refine ⟨hleaders, fun id ch hch => ?_, fun j g₁ id ch hj hch => ?_, h.once, fun j g₁ id hj hid => ?_⟩
  · exact (h.chan id ch hch).stand hγ (fun hp => hp) herrors (hwaits id ch hch) (howes id)
  · rcases Pool.ghost_of_update hj with ⟨rfl, ⟨⟩⟩ | ⟨-, hj⟩
    · exact hpair id ch hch
    · exact h.pair j g₁ id ch hj hch
  · rcases Pool.ghost_of_update hj with ⟨rfl, ⟨⟩⟩ | ⟨-, hj⟩
    · exact hmade id hid
    · exact h.made j g₁ id hj hid

/-- One call changes its stand and one channel. -/
theorem SharedInv.touch (h : SharedInv s errors γ) (hγ : γ i = some g)
    (hleaders : Leaders s' (Function.update γ i (some g')))
    (hch : s'.chans id = some ch') (hother : ∀ id', id' ≠ id → s'.chans id' = s.chans id')
    (hpending : ∀ id', id' ≠ id → s'.pending id'.1 = some id' → s.pending id'.1 = some id')
    (hwaits : ∀ rx ∈ g.waits, rx.chan ≠ id → rx ∈ g'.waits)
    (howes : ∀ id' ∈ g.unsent, id' ≠ id → id' ∈ g'.unsent)
    (hchan : ChanOk s'.pending errors (Function.update γ i (some g')) id ch')
    (hpair : ∀ id' ch, s'.chans id' = some ch → PairOk i g' id' ch)
    (hpairs : ∀ j g₁, j ≠ i → γ j = some g₁ → PairOk j g₁ id ch')
    (honce : ∀ j id' ch₁, id' ≠ id → s.chans id' = some ch₁ → j ∈ ch'.followers →
      j ∈ ch₁.followers → id.1 ≠ id'.1)
    (hmade : ∀ id' ∈ g'.unsent, s'.chans id' ≠ none) :
    SharedInv s' errors (Function.update γ i (some g')) := by
  have hold : ∀ id', s.chans id' ≠ none → s'.chans id' ≠ none := by
    intro id' hne
    by_cases hid : id' = id
    · rw [hid, hch]; exact Option.some_ne_none _
    · rwa [hother id' hid]
  refine ⟨hleaders, fun id' ch hch' => ?_, fun j g₁ id' ch hj hch' => ?_,
    fun j id₁ id₂ ch₁ ch₂ h₁ h₂ hj₁ hj₂ hk => ?_, fun j g₁ id' hj hid' => ?_⟩
  · by_cases hid : id' = id
    · subst hid; rw [hch] at hch'; cases hch'; exact hchan
    · rw [hother id' hid] at hch'
      refine (h.chan id' ch hch').stand hγ (hpending id' hid) (fun _ hj => hj)
        (fun _ rx hrx hrid => Or.inr (Or.inr (hwaits rx hrx (hrid ▸ hid)))) fun hid' => ?_
      exact Or.inl (howes id' hid' hid)
  · rcases Pool.ghost_of_update hj with ⟨rfl, ⟨⟩⟩ | ⟨hji, hj⟩
    · exact hpair id' ch hch'
    · by_cases hid : id' = id
      · subst hid; rw [hch] at hch'; cases hch'; exact hpairs j g₁ hji hj
      · rw [hother id' hid] at hch'; exact h.pair j g₁ id' ch hj hch'
  · by_cases hid₁ : id₁ = id
    · by_cases hid₂ : id₂ = id
      · rw [hid₁, hid₂]
      · rw [hid₁, hch] at h₁
        cases h₁
        rw [hother id₂ hid₂] at h₂
        exact absurd (hid₁ ▸ hk) (honce j id₂ ch₂ hid₂ h₂ hj₁ hj₂)
    · rw [hother id₁ hid₁] at h₁
      by_cases hid₂ : id₂ = id
      · rw [hid₂, hch] at h₂
        cases h₂
        exact absurd (hid₂ ▸ hk.symm) (honce j id₁ ch₁ hid₁ h₁ hj₂ hj₁)
      · rw [hother id₂ hid₂] at h₂
        exact h.once j id₁ id₂ ch₁ ch₂ h₁ h₂ hj₁ hj₂ hk
  · rcases Pool.ghost_of_update hj with ⟨rfl, ⟨⟩⟩ | ⟨-, hj⟩
    · exact hmade id' hid'
    · exact hold id' (h.made j g₁ id' hj hid')

/-- A change of one channel that leaves the map, the count sent, the value and the followers as
    they are. -/
theorem SharedInv.adjust (h : SharedInv s errors γ) (hγ : γ i = some g) (hch : s.chans id = some ch)
    {f : Channel ι → Channel ι}
    (hleaders : Leaders (s.modify id f) (Function.update γ i (some g')))
    (hwaits : ∀ rx ∈ g.waits, rx.chan ≠ id → rx ∈ g'.waits)
    (hsame : g'.entered = g.entered ∧ g'.unsent = g.unsent ∧ g'.followed = g.followed)
    (hsub : ∀ rx ∈ g'.waits, rx ∈ g.waits)
    (hchan : ChanOk s.pending errors (Function.update γ i (some g')) id (f ch))
    (hfollowers : (f ch).followers = ch.followers)
    (hpairs : ∀ j g₁, γ j = some g₁ → PairOk j g₁ id (f ch)) :
    SharedInv (s.modify id f) errors (Function.update γ i (some g')) := by
  obtain ⟨hentered, hunsent, hfollowed⟩ := hsame
  have hcopy : ∀ id' ch', PairOk i g id' ch' → PairOk i g' id' ch' := fun id' ch' hp =>
    ⟨fun hj => hentered ▸ hp.entered hj, fun hj => hfollowed ▸ hp.followed hj,
      fun rx hrx => hp.waiting rx (hsub rx hrx), fun hid' => hp.unsent (hunsent ▸ hid')⟩
  refine h.touch hγ hleaders (Flights.modify_of_some f hch) (fun id' hne => Flights.modify_ne s f hne)
    (fun _ _ hp => hp) hwaits (fun id' hid' _ => hunsent ▸ hid') hchan (fun id' ch' hch' => ?_)
    (fun j g₁ _ hj => hpairs j g₁ hj) (fun j id' ch₁ hne hch₁ hj hj₁ hk => ?_) fun id' hid' => ?_
  · refine hcopy id' ch' ?_
    by_cases hne : id' = id
    · subst hne
      rw [Flights.modify_of_some f hch] at hch'
      cases hch'
      exact hpairs i g hγ
    · rw [Flights.modify_ne s f hne] at hch'
      exact h.pair i g id' ch' hγ hch'
  · exact hne (h.once j id' id ch₁ ch hch₁ hch hj₁ (hfollowers ▸ hj) hk.symm)
  · by_cases hne : id' = id
    · rw [hne, Flights.modify_of_some f hch]; exact Option.some_ne_none _
    · rw [Flights.modify_ne s f hne]; exact h.made i g id' hγ (hunsent ▸ hid')

/-- A call starts that follows no channel. -/
theorem SharedInv.start (h : SharedInv s errors γ) (hγ : γ i = none)
    (hfree : ∀ id ch, s.chans id = some ch → i ∉ ch.followers) :
    SharedInv s errors (Function.update γ i (some .fresh)) := by
  have hold : ∀ j g, γ j = some g → Function.update γ i (some Stand.fresh) j = some g := by
    intro j g hj
    rwa [Function.update_of_ne (by rintro rfl; rw [hγ] at hj; cases hj)]
  refine ⟨h.leaders.start hγ, fun id ch hch => ?_, fun j g id ch hj hch => ?_, h.once,
    fun j g id hj hid => ?_⟩
  · have hc := h.chan id ch hch
    refine ⟨hc.quiet, hc.value, hc.served, fun j hj => ?_, fun hs => ?_, hc.inMap⟩
    · refine (hc.followers j hj).imp_right fun hr => hr.imp_right ?_
      rintro ⟨g, rx, hg, hrx⟩
      exact ⟨g, rx, hold j g hg, hrx⟩
    · refine (hc.leader hs).imp_left ?_
      rintro ⟨g, hg, hid⟩
      exact ⟨g, hold _ g hg, hid⟩
  · rcases Pool.ghost_of_update hj with ⟨rfl, ⟨⟩⟩ | ⟨-, hj⟩
    · have hno := hfree id ch hch
      exact ⟨fun hm => absurd hm hno, fun hm => absurd hm hno, nofun, nofun⟩
    · exact h.pair j g id ch hj hch
  · rcases Pool.ghost_of_update hj with ⟨-, ⟨⟩⟩ | ⟨-, hj⟩
    · cases hid
    · exact h.made j g id hj hid

/-- A call that waits for nothing and owes nothing is over. -/
theorem SharedInv.over (h : SharedInv s errors γ) (hγ : γ i = some g) (hleads : g.leads = [])
    (hunsent : g.unsent = []) (hwaits : g.waits = []) :
    SharedInv s errors (Function.update γ i none) := by
  have hold : ∀ j g₁, γ j = some g₁ → j ≠ i → Function.update γ i none j = some g₁ :=
    fun j g₁ hj hji => (Function.update_of_ne hji _ _).trans hj
  refine ⟨h.leaders.over hγ hleads, fun id ch hch => ?_, fun j g₁ id ch hj hch => ?_, h.once,
    fun j g₁ id hj hid => ?_⟩
  · have hc := h.chan id ch hch
    refine ⟨hc.quiet, hc.value, hc.served, fun j hj => ?_, fun hs => ?_, hc.inMap⟩
    · refine (hc.followers j hj).imp_right fun hr => hr.imp_right ?_
      rintro ⟨g₁, rx, hg₁, hrx, hid⟩
      refine ⟨g₁, rx, hold j g₁ hg₁ ?_, hrx, hid⟩
      rintro rfl
      rw [hγ] at hg₁
      cases hg₁
      rw [hwaits] at hrx
      cases hrx
    · refine (hc.leader hs).imp_left ?_
      rintro ⟨g₁, hg₁, hid⟩
      refine ⟨g₁, hold _ g₁ hg₁ ?_, hid⟩
      intro hl
      rw [hl, hγ] at hg₁
      cases hg₁
      rw [hunsent] at hid
      cases hid
  · rcases Pool.ghost_of_update hj with ⟨-, ⟨⟩⟩ | ⟨-, hj⟩
    exact h.pair j g₁ id ch hj hch
  · rcases Pool.ghost_of_update hj with ⟨-, ⟨⟩⟩ | ⟨-, hj⟩
    exact h.made j g₁ id hj hid

omit [DecidableEq ι] in
theorem sharedInv_empty : SharedInv (.empty : Flights ι) errors fun _ => none where
  leaders := leaders_empty
  chan _ _ h := by cases h
  pair _ _ _ _ h := by cases h
  once _ _ _ _ _ h := by cases h
  made _ _ _ h := by cases h

end Invariant

end SocialApi.Services
