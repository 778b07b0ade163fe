import SocialApi.Services.FollowedChannels

/-!
# What the operations on a channel keep

One lemma for each operation on `pending_fetches` and its channels: making a channel,
subscribing, sending, taking the entry out of the map, waiting, and dropping a sender or
a receiver.

* `SharedInv.handleFlight`: every operation keeps `SharedInv` if no wait times out and nobody
  subscribes to a channel on which the count has been sent.
-/

namespace SocialApi.Services

open SocialApi.Concurrent SocialApi.Postgres SocialApi.PendingFetches

variable {ι : Type} {s s' : Flights ι} {errors : List ι} {γ : ι → Option Stand}
  {i : ι} {g : Stand} {id : ChanId} {ch : Channel ι}

/-- A new channel. -/
theorem SharedInv.lead [DecidableEq ι] (h : SharedInv s errors γ) (hγ : γ i = some g)
    {key : CacheKey} (keep : Bool)
    (holds : List ChanId) (hnone : s.pending key = none) :
    SharedInv { pending := Function.update s.pending key (some (key, s.made key)),
                chans := Function.update s.chans (key, s.made key) (some (newChannel i keep)),
                made := Function.update s.made key (s.made key + 1) } errors
      (Function.update γ i (some { g with
        entered := key :: g.entered, leads := (key, s.made key) :: g.leads,
        unsent := (key, s.made key) :: g.unsent, holds := holds })) := by
  have hnew : s.chans (key, s.made key) = none := by
    by_contra hne
    exact absurd (h.leaders.fresh _ hne) (lt_irrefl _)
  have hsender : none ∈ (newChannel i keep).senders := by cases keep <;> simp [newChannel]
  refine h.touch hγ (h.leaders.lead hγ keep holds hnone) (Function.update_self _ _ _)
    (fun id' hid => Function.update_of_ne hid _ _) (fun id' hid hp => ?_) (fun rx hrx _ => hrx)
    (fun id' hid' _ => List.mem_cons_of_mem _ hid') ?_ (fun id' ch hch => ?_) (fun j g₁ _ hj => ?_)
    (fun j id' ch₁ _ _ hj => by cases hj) fun id' hid' => ?_
  · have hp : Function.update s.pending key (some (key, s.made key)) id'.1 = some id' := hp
    by_cases hk : id'.1 = key
    · rw [hk, Function.update_self] at hp; exact absurd (Option.some.inj hp).symm hid
    · rwa [Function.update_of_ne hk] at hp
  · exact ⟨fun _ => ⟨rfl, rfl⟩, fun hv => absurd rfl hv, nofun, nofun,
      fun _ => Or.inl ⟨_, Function.update_self _ _ _, List.mem_cons_self⟩, fun _ => hsender⟩
  · have hch : Function.update s.chans (key, s.made key) _ id' = some ch := hch
    by_cases hid : id' = (key, s.made key)
    · subst hid
      rw [Function.update_self] at hch
      cases hch
      refine ⟨nofun, nofun, fun rx hrx hrid => ?_, fun _ => ⟨rfl, rfl, Or.inl hsender⟩⟩
      obtain ⟨ch, hch, -⟩ := h.leaders.seen i g rx hγ hrx
      rw [hrid, hnew] at hch
      cases hch
    · rw [Function.update_of_ne hid] at hch
      have hp := h.pair i g id' ch hγ hch
      refine ⟨fun hj => List.mem_cons_of_mem _ (hp.entered hj), hp.followed, hp.waiting,
        fun hid' => hp.unsent ((List.mem_cons.mp hid').resolve_left hid)⟩
  · refine ⟨nofun, nofun, fun rx hrx hrid => ?_, fun hid => absurd hnew (h.made j g₁ _ hj hid)⟩
    obtain ⟨ch, hch, -⟩ := h.leaders.seen j g₁ rx hj hrx
    rw [hrid, hnew] at hch
    cases hch
  · show Function.update s.chans (key, s.made key) _ id' ≠ none
    by_cases hid : id' = (key, s.made key)
    · rw [hid, Function.update_self]; exact Option.some_ne_none _
    · rw [Function.update_of_ne hid]
      exact h.made i g id' hγ ((List.mem_cons.mp hid').resolve_left hid)

/-- A new follower of a channel on which nothing has been sent. -/
theorem SharedInv.follow [DecidableEq ι] (h : SharedInv s errors γ) (hγ : γ i = some g)
    {key : CacheKey}
    (hkey : key ∉ g.entered) (hp : s.pending key = some id) (hch : s.chans id = some ch)
    (hsent : ch.sent = none)
    (hleaders : Leaders (subscribe s i id ch).1 (Function.update γ i (some { g with
      entered := key :: g.entered, waits := g.waits ++ [⟨id, ch.version⟩],
      followed := key :: g.followed }))) :
    SharedInv (subscribe s i id ch).1 errors (Function.update γ i (some { g with
      entered := key :: g.entered, waits := g.waits ++ [⟨id, ch.version⟩],
      followed := key :: g.followed })) := by
  have hid : id.1 = key := h.leaders.keyed key id hp
  have hold := h.chan id ch hch
  obtain ⟨hversion, hvalue⟩ := hold.quiet hsent
  have hnot : ∀ id' ch', s.chans id' = some ch' → id'.1 = key → i ∉ ch'.followers :=
    fun id' ch' hch' hk hj => hkey (hk ▸ (h.pair i g id' ch' hγ hch').entered hj)
  have hself : (subscribe s i id ch).1.chans id =
      some { ch with receivers := i :: ch.receivers, followers := i :: ch.followers } :=
    Flights.modify_of_some _ hch
  have hother : ∀ id', id' ≠ id → (subscribe s i id ch).1.chans id' = s.chans id' :=
    fun id' hne => Flights.modify_ne s _ hne
  refine h.touch hγ hleaders hself hother (fun _ _ hp => hp)
    (fun rx hrx _ => List.mem_append_left _ hrx) (fun id' hid' _ => hid')
    ⟨hold.quiet, hold.value, hold.served, fun j hj => ?_, fun hs => ?_, hold.inMap⟩
    (fun id' ch' hch' => ?_) (fun j g₁ hji hj => ?_) (fun j id' ch₁ hne hch₁ hj hj₁ hk => ?_)
    fun id' hid' => ?_
  · rcases List.mem_cons.mp hj with rfl | hj
    · exact Or.inr (Or.inr ⟨_, ⟨id, ch.version⟩, Function.update_self _ _ _,
        List.mem_append_right _ List.mem_cons_self, rfl⟩)
    · refine (hold.followers j hj).imp_right fun hr => hr.imp_right fun hw => ?_
      exact hw.stand hγ fun rx hrx _ => List.mem_append_left _ hrx
  · exact (hold.leader hs).imp_left fun ho => ho.stand hγ fun hm => hm
  · by_cases hne : id' = id
    · subst hne
      rw [hself] at hch'
      cases hch'
      have hpair := h.pair i g id' ch hγ hch
      refine ⟨fun _ => hid ▸ List.mem_cons_self, fun _ => Or.inl (hid ▸ List.mem_cons_self),
        fun rx hrx hrid => ?_, hpair.unsent⟩
      rcases List.mem_append.mp hrx with hrx | hrx
      · obtain ⟨hseen, hrec, hfol, hver⟩ := hpair.waiting rx hrx hrid
        exact ⟨hseen, List.mem_cons_of_mem _ hrec, List.mem_cons_of_mem _ hfol, hver⟩
      · cases List.mem_singleton.mp hrx
        exact ⟨hversion, List.mem_cons_self, List.mem_cons_self, fun hs => absurd hsent hs⟩
    · rw [hother id' hne] at hch'
      have hpair := h.pair i g id' ch' hγ hch'
      refine ⟨fun hj => List.mem_cons_of_mem _ (hpair.entered hj),
        fun hj => (hpair.followed hj).imp_left (List.mem_cons_of_mem _), fun rx hrx hrid => ?_,
        hpair.unsent⟩
      rcases List.mem_append.mp hrx with hrx | hrx
      · exact hpair.waiting rx hrx hrid
      · cases List.mem_singleton.mp hrx
        exact absurd hrid.symm hne
  · have hpair := h.pair j g₁ id ch hj hch
    have hback : j ∈ i :: ch.followers → j ∈ ch.followers :=
      fun hm => (List.mem_cons.mp hm).resolve_left hji
    refine ⟨fun hm => hpair.entered (hback hm), fun hm => hpair.followed (hback hm),
      fun rx hrx hrid => ?_, hpair.unsent⟩
    obtain ⟨hseen, hrec, hfol, hver⟩ := hpair.waiting rx hrx hrid
    exact ⟨hseen, List.mem_cons_of_mem _ hrec, List.mem_cons_of_mem _ hfol, hver⟩
  · rcases List.mem_cons.mp hj with rfl | hj
    · exact hnot id' ch₁ hch₁ (hk.symm.trans hid) hj₁
    · exact hne (h.once j id' id ch₁ ch hch₁ hch hj₁ hj hk.symm)
  · by_cases hne : id' = id
    · rw [hne, hself]; exact Option.some_ne_none _
    · rw [hother id' hne]; exact h.made i g id' hγ hid'

/-- Modifying a channel that does not exist changes nothing. -/
theorem Flights.modify_of_none (f : Channel ι → Channel ι) (h : s.chans id = none) :
    s.modify id f = s := by
  have hchans : Function.update s.chans id ((s.chans id).map f) = s.chans := by
    rw [h, Option.map_none, ← h, Function.update_eq_self]
  unfold PendingFetches.Flights.modify
  rw [hchans]

variable [DecidableEq ι]

/-- A sender of a call that may not send any more goes out of scope. -/
theorem SharedInv.dropSender (h : SharedInv s errors γ) (hγ : γ i = some g) (hid : id ∉ g.unsent)
    (holds : List ChanId)
    (hleaders : Leaders (s.modify id fun ch => { ch with senders := ch.senders.erase (some i) })
      (Function.update γ i (some { g with holds := holds }))) :
    SharedInv (s.modify id fun ch => { ch with senders := ch.senders.erase (some i) }) errors
      (Function.update γ i (some { g with holds := holds })) := by
  cases hch : s.chans id with
  | none =>
    rw [Flights.modify_of_none _ hch] at hleaders ⊢
    refine h.stand hγ hleaders (fun _ hj => hj) (fun _ _ _ _ _ hrx _ => Or.inr (Or.inr hrx))
      (fun _ hid => Or.inl hid) (fun id ch hch => ?_) fun id hid => h.made i g id hγ hid
    have hp := h.pair i g id ch hγ hch
    exact ⟨hp.entered, hp.followed, hp.waiting, hp.unsent⟩
  | some ch =>
    have hold := h.chan id ch hch
    have hfailed : Failed ch → Failed { ch with senders := ch.senders.erase (some i) } :=
      fun hf => ⟨hf.1, by show ch.senders.erase (some i) = []; rw [hf.2]; rfl⟩
    have hmap : none ∈ ch.senders → none ∈ ch.senders.erase (some i) :=
      (List.mem_erase_of_ne (Option.some_ne_none i).symm).mpr
    refine h.adjust hγ hch hleaders (fun _ hrx _ => hrx) ⟨rfl, rfl, rfl⟩ (fun _ hrx => hrx) ?_ rfl
      fun j g₁ hj => ?_
    · refine ⟨hold.quiet, hold.value, hold.served, fun j hj => ?_, fun hs => ?_,
        fun hp => hmap (hold.inMap hp)⟩
      · exact (hold.followers j hj).imp_right fun hr =>
          hr.imp hfailed fun hw => hw.stand hγ fun _ hrx _ => hrx
      · exact (hold.leader hs).imp_left fun ho => ho.stand hγ fun hm => hm
    · have hp := h.pair j g₁ id ch hj hch
      refine ⟨hp.entered, fun hj => (hp.followed hj).imp_right hfailed, hp.waiting, fun hid' => ?_⟩
      obtain ⟨hl, hs, hsenders⟩ := hp.unsent hid'
      have hji : j ≠ i := by
        rintro rfl
        rw [hγ] at hj
        cases hj
        exact hid hid'
      refine ⟨hl, hs, hsenders.imp hmap (List.mem_erase_of_ne ?_).mpr⟩
      exact fun he => hji (Option.some.inj he)

/-- A receiver that is not waited for any more goes out of scope. -/
theorem SharedInv.dropReceiver (h : SharedInv s errors γ) (hγ : γ i = some g)
    (hid : id ∉ g.waits.map Receiver.chan)
    (hleaders : Leaders (s.modify id fun ch => { ch with receivers := ch.receivers.erase i })
      (Function.update γ i (some g))) :
    SharedInv (s.modify id fun ch => { ch with receivers := ch.receivers.erase i }) errors
      (Function.update γ i (some g)) := by
  have hsame : Function.update γ i (some g) = γ := by rw [← hγ, Function.update_eq_self]
  cases hch : s.chans id with
  | none => rw [Flights.modify_of_none _ hch, hsame]; exact h
  | some ch =>
    have hold := h.chan id ch hch
    refine h.adjust hγ hch hleaders (fun _ hrx _ => hrx) ⟨rfl, rfl, rfl⟩ (fun _ hrx => hrx) ?_ rfl
      fun j g₁ hj => ?_
    · rw [hsame]
      exact ⟨hold.quiet, hold.value, hold.served, hold.followers, hold.leader, hold.inMap⟩
    · have hp := h.pair j g₁ id ch hj hch
      refine ⟨hp.entered, hp.followed, fun rx hrx hrid => ?_, hp.unsent⟩
      obtain ⟨hseen, hrec, hfol, hver⟩ := hp.waiting rx hrx hrid
      have hji : j ≠ i := by
        rintro rfl
        rw [hγ] at hj
        cases hj
        exact hid (List.mem_map.mpr ⟨rx, hrx, hrid⟩)
      exact ⟨hseen, (List.mem_erase_of_ne hji).mpr hrec, hfol, hver⟩

/-- A wait ends with a value. -/
theorem SharedInv.serve (h : SharedInv s errors γ) (hγ : γ i = some g) {rx : Receiver}
    (hch : s.chans rx.chan = some ch) (hnew : ch.version ≠ rx.seen) (hrx : rx ∈ g.waits)
    (hleaders : Leaders (s.modify rx.chan fun ch => { ch with served := i :: ch.served })
      (Function.update γ i (some { g with
        waits := g.waits.erase rx, ready := rx.chan :: g.ready }))) :
    SharedInv (s.modify rx.chan fun ch => { ch with served := i :: ch.served }) errors
      (Function.update γ i (some { g with
        waits := g.waits.erase rx, ready := rx.chan :: g.ready })) := by
  have hold := h.chan rx.chan ch hch
  have hpair := h.pair i g rx.chan ch hγ hch
  have hvalue : ch.value ≠ none := by
    intro hv
    have hzero := h.leaders.valued _ ch hch hv
    exact hnew (by rw [hzero, (hpair.waiting rx hrx rfl).1])
  refine h.adjust hγ hch hleaders (fun rx' hrx' hne => (List.mem_erase_of_ne ?_).mpr hrx')
    ⟨rfl, rfl, rfl⟩ (fun rx' hrx' => List.mem_of_mem_erase hrx') ?_ rfl fun j g₁ hj => ?_
  · exact fun he => hne (he ▸ rfl)
  · refine ⟨hold.quiet, hold.value, fun _ _ => hvalue, fun j hj => ?_, fun hs => ?_, hold.inMap⟩
    · by_cases hji : j = i
      · subst hji; exact Or.inl List.mem_cons_self
      · refine (hold.followers j hj).imp (List.mem_cons_of_mem _) fun hr => hr.imp_right ?_
        rintro ⟨g₁, rx', hg₁, hrx'⟩
        exact ⟨g₁, rx', (Function.update_of_ne hji _ _).trans hg₁, hrx'⟩
    · exact absurd (hold.quiet hs).2 hvalue
  · have hp := h.pair j g₁ rx.chan ch hj hch
    exact ⟨hp.entered, hp.followed, hp.waiting, hp.unsent⟩

/-- A wait ends without a value: the leader has failed. -/
theorem SharedInv.miss (h : SharedInv s errors γ) (hγ : γ i = some g) {rx : Receiver}
    (hch : s.chans rx.chan = some ch) (hseen : ch.version = rx.seen) (hclosed : ch.senders = [])
    (hrx : rx ∈ g.waits)
    (hleaders : Leaders s (Function.update γ i (some { g with
      waits := g.waits.erase rx, followed := g.followed.filter (· ≠ rx.chan.1) }))) :
    SharedInv s errors (Function.update γ i (some { g with
      waits := g.waits.erase rx, followed := g.followed.filter (· ≠ rx.chan.1) })) := by
  obtain ⟨hzero, -, hfol, hver⟩ := (h.pair i g rx.chan ch hγ hch).waiting rx hrx rfl
  have hfailed : Failed ch := ⟨by by_contra hs; exact hver hs (hseen.trans hzero), hclosed⟩
  refine h.stand hγ hleaders (fun _ hj => hj) (fun id ch' hch' _ rx' hrx' hrid => ?_)
    (fun id hid => Or.inl hid) (fun id ch' hch' => ?_) fun id hid => h.made i g id hγ hid
  · by_cases he : rx' = rx
    · subst he
      rw [← hrid, hch] at hch'
      cases hch'
      exact Or.inr (Or.inl hfailed)
    · exact Or.inr (Or.inr ((List.mem_erase_of_ne he).mpr hrx'))
  · have hp := h.pair i g id ch' hγ hch'
    refine ⟨hp.entered, fun hj => ?_, fun rx' hrx' => hp.waiting rx' (List.mem_of_mem_erase hrx'),
      hp.unsent⟩
    by_cases hk : id.1 = rx.chan.1
    · -- the only channel of this key that the call follows is the one that has failed
      have hid := h.once i id rx.chan ch' ch hch' hch hj hfol hk
      subst hid
      rw [hch] at hch'
      cases hch'
      exact Or.inr hfailed
    · refine (hp.followed hj).imp_left fun hm => List.mem_filter.mpr ⟨hm, ?_⟩
      simpa using hk

/-- The leader sends its count. -/
theorem SharedInv.send (h : SharedInv s errors γ) (hγ : γ i = some g) (hid : id ∈ g.unsent)
    (count : I64)
    (hleaders : Leaders (s.modify id fun ch =>
        if ch.receivers = [] then { ch with sent := some count }
        else { ch with value := some count, version := ch.version + 1, sent := some count })
      (Function.update γ i (some { g with unsent := g.unsent.filter (· ≠ id) }))) :
    SharedInv (s.modify id fun ch =>
        if ch.receivers = [] then { ch with sent := some count }
        else { ch with value := some count, version := ch.version + 1, sent := some count }) errors
      (Function.update γ i (some { g with unsent := g.unsent.filter (· ≠ id) })) := by
  obtain ⟨ch, hch⟩ := Option.ne_none_iff_exists'.mp (h.made i g id hγ hid)
  have hold := h.chan id ch hch
  obtain ⟨hleader, hsent, hsenders⟩ := (h.pair i g id ch hγ hch).unsent hid
  obtain ⟨hversion, hvalue⟩ := hold.quiet hsent
  have hnofail : ¬ Failed ch := by
    rintro ⟨-, hnil⟩
    rw [hnil] at hsenders
    rcases hsenders with hm | hm <;> cases hm
  -- the channel afterwards, whether or not somebody is there to receive
  obtain ⟨ch', hf, hl', hf', hs', hr', hse', hsent', hval', hver'⟩ : ∃ ch',
      (if ch.receivers = [] then { ch with sent := some count }
        else { ch with value := some count, version := ch.version + 1, sent := some count }) = ch' ∧
      ch'.leader = ch.leader ∧ ch'.followers = ch.followers ∧ ch'.served = ch.served ∧
      ch'.receivers = ch.receivers ∧ ch'.senders = ch.senders ∧ ch'.sent = some count ∧
      (ch'.value ≠ none → ch'.value = some count) ∧ (ch.receivers ≠ [] → ch'.version ≠ 0) := by
    split_ifs with hrec
    · exact ⟨_, rfl, rfl, rfl, rfl, rfl, rfl, rfl, fun hv => absurd hvalue hv, fun hn => absurd hrec hn⟩
    · exact ⟨_, rfl, rfl, rfl, rfl, rfl, rfl, rfl, fun _ => rfl, fun _ => Nat.succ_ne_zero _⟩
  have hself : (s.modify id fun ch => if ch.receivers = [] then { ch with sent := some count }
      else { ch with value := some count, version := ch.version + 1, sent := some count }).chans id =
      some ch' := by rw [Flights.modify_of_some _ hch, hf]
  have hpairs : ∀ j g₁ unsent, γ j = some g₁ → id ∉ unsent →
      PairOk j { g₁ with unsent := unsent } id ch' := by
    intro j g₁ unsent hj hnot
    have hp := h.pair j g₁ id ch hj hch
    refine ⟨fun hm => hp.entered (hf' ▸ hm), fun hm => ?_, fun rx hrx hrid => ?_, fun hid' => ?_⟩
    · exact (hp.followed (hf' ▸ hm)).imp_right fun hfail => absurd hfail hnofail
    · obtain ⟨hseen, hrec, hfol, -⟩ := hp.waiting rx hrx hrid
      refine ⟨hseen, hr' ▸ hrec, hf' ▸ hfol, fun _ => hver' fun hnil => ?_⟩
      rw [hnil] at hrec
      cases hrec
    · exact absurd hid' hnot
  refine h.touch hγ hleaders hself (fun id' hne => Flights.modify_ne s _ hne) (fun _ _ hp => hp)
    (fun _ hrx _ => hrx) (fun id' hid' hne => List.mem_filter.mpr ⟨hid', by simpa using hne⟩)
    ⟨fun hs => ?_, fun hv => (hval' hv).trans hsent'.symm, fun j hj => ?_, fun j hj => ?_, fun hs => ?_,
      fun hp => hse' ▸ hold.inMap hp⟩ (fun id' ch₁ hch₁ => ?_)
    (fun j g₁ hji hj => hpairs j g₁ g₁.unsent hj fun hm => hji ?_)
    (fun j id' ch₁ hne hch₁ hj hj₁ hk => hne (h.once j id' id ch₁ ch hch₁ hch hj₁ (hf' ▸ hj) hk.symm))
    fun id' hid' => ?_
  · rw [hsent'] at hs; cases hs
  · exact absurd hvalue (hold.served j (hs' ▸ hj))
  · rcases hold.followers j (hf' ▸ hj) with hs | hfail | hw
    · exact Or.inl (hs' ▸ hs)
    · exact absurd hfail hnofail
    · exact Or.inr (Or.inr (hw.stand hγ fun _ hrx _ => hrx))
  · rw [hsent'] at hs; cases hs
  · by_cases hne : id' = id
    · subst hne
      rw [hself] at hch₁
      cases hch₁
      exact hpairs i g _ hγ fun hm => by simpa using (List.mem_filter.mp hm).2
    · rw [Flights.modify_ne s _ hne] at hch₁
      have hp := h.pair i g id' ch₁ hγ hch₁
      exact ⟨hp.entered, hp.followed, hp.waiting, fun hm => hp.unsent (List.mem_of_mem_filter hm)⟩
  · exact ((h.pair j g₁ id ch hj hch).unsent hm).1.symm.trans hleader
  · obtain ⟨hid', hne⟩ := List.mem_filter.mp hid'
    rw [Flights.modify_ne s _ (by simpa using hne)]
    exact h.made i g id' hγ hid'

/-- The leader takes its entry out of the map. -/
theorem SharedInv.remove (h : SharedInv s errors γ) (hγ : γ i = some g) {key : CacheKey}
    (hp : s.pending key = some id) (hid : id ∈ g.leads) (holds : List ChanId)
    (hleaders : Leaders { s.modify id (fun ch =>
        { ch with senders := some i :: ch.senders.erase none }) with
          pending := Function.update s.pending key none }
      (Function.update γ i (some { g with leads := g.leads.filter fun id => id.1 ≠ key,
                                          holds := holds }))) :
    SharedInv { s.modify id (fun ch => { ch with senders := some i :: ch.senders.erase none }) with
        pending := Function.update s.pending key none } errors
      (Function.update γ i (some { g with leads := g.leads.filter fun id => id.1 ≠ key,
                                          holds := holds })) := by
  have hkey : id.1 = key := h.leaders.keyed key id hp
  obtain ⟨-, ch, hch, hleader⟩ := h.leaders.leads i g id hγ hid
  have hold := h.chan id ch hch
  have hnofail : ¬ Failed ch := by
    rintro ⟨-, hnil⟩
    have hmap := hold.inMap (by rw [hkey]; exact hp)
    rw [hnil] at hmap
    cases hmap
  have hpairs : ∀ j g₁ leads holds, γ j = some g₁ →
      PairOk j { g₁ with leads := leads, holds := holds } id
        { ch with senders := some i :: ch.senders.erase none } := by
    intro j g₁ leads holds hj
    have hpair := h.pair j g₁ id ch hj hch
    refine ⟨hpair.entered, fun hm => (hpair.followed hm).imp_right fun hf => absurd hf hnofail,
      hpair.waiting, fun hm => ?_⟩
    obtain ⟨hl, hs, -⟩ := hpair.unsent hm
    exact ⟨hl, hs, Or.inr ((hl.symm.trans hleader) ▸ List.mem_cons_self)⟩
  have hself : (s.modify id fun ch => { ch with senders := some i :: ch.senders.erase none }).chans
      id = some { ch with senders := some i :: ch.senders.erase none } :=
    Flights.modify_of_some _ hch
  have hstill : ∀ id', s.chans id' ≠ none →
      (s.modify id fun ch => { ch with senders := some i :: ch.senders.erase none }).chans id' ≠
        none := by
    intro id' hne'
    by_cases hne : id' = id
    · rw [hne, hself]; exact Option.some_ne_none _
    · rwa [Flights.modify_ne s _ hne]
  refine h.touch hγ hleaders hself (fun id' hne => Flights.modify_ne s _ hne)
    (fun id' hne hp' => ?_) (fun _ hrx _ => hrx) (fun _ hid' _ => hid')
    ⟨hold.quiet, hold.value, hold.served, fun j hj => ?_, fun hs => ?_, fun hp' => ?_⟩
    (fun id' ch₁ hch₁ => ?_) (fun j g₁ _ hj => hpairs j g₁ g₁.leads g₁.holds hj)
    (fun j id' ch₁ hne hch₁ hj hj₁ hk => hne (h.once j id' id ch₁ ch hch₁ hch hj₁ hj hk.symm))
    fun id' hid' => hstill id' (h.made i g id' hγ hid')
  · have hp' : Function.update s.pending key none id'.1 = some id' := hp'
    by_cases hk : id'.1 = key
    · rw [hk, Function.update_self] at hp'; cases hp'
    · rwa [Function.update_of_ne hk] at hp'
  · rcases hold.followers j hj with hs | hf | hw
    · exact Or.inl hs
    · exact absurd hf hnofail
    · exact Or.inr (Or.inr (hw.stand hγ fun _ hrx _ => hrx))
  · exact (hold.leader hs).imp_left fun ho => ho.stand hγ fun hm => hm
  · have hp' : Function.update s.pending key none id.1 = some id := hp'
    rw [hkey, Function.update_self] at hp'
    cases hp'
  · by_cases hne : id' = id
    · subst hne
      have hch₁ : (s.modify id' _).chans id' = some ch₁ := hch₁
      rw [hself] at hch₁
      cases hch₁
      exact hpairs i g _ _ hγ
    · have hch₁ : (s.modify id _).chans id' = some ch₁ := hch₁
      rw [Flights.modify_ne s _ hne] at hch₁
      have hpair := h.pair i g id' ch₁ hγ hch₁
      exact ⟨hpair.entered, hpair.followed, hpair.waiting, hpair.unsent⟩

/-- A query of the call fails: it may send no more and waits for nothing more. -/
theorem SharedInv.dbError (h : SharedInv s errors γ) (hγ : γ i = some g)
    (hattended : ∀ id ch, s.chans id = some ch → i ∈ ch.followers → i ∈ ch.served ∨ Failed ch)
    (hleaders : Leaders s (Function.update γ i (some { g with unsent := [], waits := [] }))) :
    SharedInv s (i :: errors) (Function.update γ i (some { g with unsent := [], waits := [] })) := by
  refine h.stand hγ hleaders (fun _ hj => List.mem_cons_of_mem _ hj)
    (fun id ch hch hj rx _ _ => (hattended id ch hch hj).imp_right Or.inl)
    (fun id _ => Or.inr List.mem_cons_self) (fun id ch hch => ?_) nofun
  have hp := h.pair i g id ch hγ hch
  exact ⟨hp.entered, hp.followed, nofun, nofun⟩

/-- One operation on the map or a channel, when no wait times out and nobody subscribes to a
    channel on which the count has been sent. -/
theorem SharedInv.handleFlight (h : SharedInv s errors γ) (hγ : γ i = some g)
    {o : PendingFetches.Op} {x : PendingFetches.Choice} {r : o.Ans} (hask : g.asks (.flight o))
    (hs : PendingFetches.handle s i o x = some (s', r)) (htime : x ≠ .elapsed)
    (hopen : ∀ key keep id ch, o = .entry key keep → s.pending key = some id →
      s.chans id = some ch → ch.sent = none) :
    SharedInv s' errors (Function.update γ i (some (g.next (.flight o) r))) := by
  have hleaders := (h.leaders.handleFlight hγ hask hs).2
  cases o with
  | entry key keep =>
    simp only [PendingFetches.handle] at hs
    cases hp : s.pending key with
    | none =>
      rw [hp] at hs
      cases hs
      exact h.lead hγ keep _ hp
    | some id =>
      simp only [hp] at hs
      cases hch : s.chans id with
      | none => rw [hch] at hs; cases hs
      | some ch =>
        rw [hch] at hs
        cases hs
        exact h.follow hγ hask hp hch (hopen key keep id ch rfl hp hch) hleaders
  | send tx count => cases hs; exact h.send hγ hask count hleaders
  | remove key =>
    obtain ⟨mine, hmine, hmk⟩ := hask
    have hp : s.pending key = some mine := by
      rw [← hmk]; exact (h.leaders.leads i g mine hγ hmine).1
    simp only [PendingFetches.handle, hp] at hs
    cases hs
    exact h.remove hγ hp hmine _ hleaders
  | dropSender tx => cases hs; exact h.dropSender hγ hask _ hleaders
  | changed rx =>
    obtain ⟨ch, hch, -⟩ := h.leaders.seen i g rx hγ hask.1
    simp only [PendingFetches.handle, hch] at hs
    split_ifs at hs with hnew hclosed
    · cases hs; exact h.serve hγ hch hnew hask.1 hleaders
    · cases hs; exact h.miss hγ hch (not_not.mp hnew) hclosed hask.1 hleaders
    · cases x with
      | inTime => cases hs
      | elapsed => exact absurd rfl htime
  | borrow rx =>
    cases hs
    show SharedInv s errors (Function.update γ i (some g))
    rw [← hγ, Function.update_eq_self]
    exact h
  | dropReceiver rx => cases hs; exact h.dropReceiver hγ hask hleaders

end SocialApi.Services
