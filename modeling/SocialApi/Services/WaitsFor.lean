import SocialApi.Services.PendingLeaders

/-!
# Readers of counts do not wait for each other in a circle

While no call is abandoned, the senders of a channel are held by the map or by the
leader that made the channel. A call waits only when it has no entry in the map and holds
no sender, so whoever another call waits for does not wait itself.

Results:
* `noWaitingCycle`: in every reachable state an entry of `pending_fetches` has exactly
  one leader, a waiting call leads nothing, and the waits-for relation has no cycle.
-/

namespace SocialApi.Services

open SocialApi.Concurrent SocialApi.Postgres SocialApi.PendingFetches

variable {ι : Type}

/-- Readers of counts whose futures run to their end. -/
def undroppedReaders [DecidableEq ι] (cfg : Config) :
    Pool ι (World ι) CountRead SvcOp SvcOp.Ans CountResult SvcChoice :=
  { countReaders cfg with drop := fun _ _ => none }

/-! ## Who leads and who waits -/

/-- Call `i` is in progress and leads `key`, which is still in the map. -/
def Leads (c : ReadersConfig ι) (i : ι) (key : CacheKey) : Prop :=
  ∃ id ch, c.shared.flights.pending key = some id ∧ c.shared.flights.chans id = some ch ∧
    ch.leader = i ∧ (c.calls i).Active

/-- The receiver of a call that is in `await_shared_count`, at `rx.changed()`. -/
def waitsOn (c : ReadersConfig ι) (i : ι) : Option Receiver :=
  match c.calls i with
  | .running _ (.op (.flight (.changed rx)) _) => some rx
  | _ => none

/-- Call `i` waits on a channel with no unseen value and a sender left, so it goes on only
    when the leader of the channel sends or lets go of it. -/
def WaitsFor (c : ReadersConfig ι) (i j : ι) : Prop :=
  ∃ rx ch, waitsOn c i = some rx ∧ c.shared.flights.chans rx.chan = some ch ∧ ch.version = rx.seen ∧
    ch.senders ≠ [] ∧ ch.leader = j

/-- Each entry has one leader, those who wait lead nothing, and nobody waits in a circle. -/
structure NoWaitingCycle (c : ReadersConfig ι) : Prop where
  leader : ∀ key id, c.shared.flights.pending key = some id → ∃! i, Leads c i key
  follower : ∀ i rx, waitsOn c i = some rx → ∀ key, ¬ Leads c i key
  released : ∀ i j, WaitsFor c i j → (c.calls j).Active ∧ waitsOn c j = none
  acyclic : ∀ i, ¬ Relation.TransGen (WaitsFor c) i i

/-! ## Who holds the senders -/

section Senders

variable {s s' : Flights ι} {γ : ι → Option Stand} {i : ι} {g g' : Stand} {id : ChanId}

/-- The senders of a call, as it knows them. -/
def held (g : Option Stand) (id : ChanId) : ℕ := (g.map fun g => g.holds.count id).getD 0

variable [DecidableEq ι]

/-- A sender is in the map, under its key, or held by the leader of the channel, which
    knows of it. -/
structure Holders (s : Flights ι) (γ : ι → Option Stand) : Prop where
  owner : ∀ id ch j, s.chans id = some ch → some j ∈ ch.senders → ch.leader = j
  entry : ∀ id ch, s.chans id = some ch → none ∈ ch.senders → s.pending id.1 = some id
  once : ∀ id ch, s.chans id = some ch → ch.senders.count none ≤ 1
  known : ∀ id ch j, s.chans id = some ch → ch.senders.count (some j) ≤ held (γ j) id

theorem holders_empty : Holders (.empty : Flights ι) fun _ => none where
  owner _ _ _ h := by cases h
  entry _ _ h := by cases h
  once _ _ h := by cases h
  known _ _ _ h := by cases h

/-- A call changes its stand and knows of as many senders as before. -/
theorem Holders.stand (h : Holders s γ) {γ' : Option Stand}
    (hheld : ∀ id, held (γ i) id ≤ held γ' id) : Holders s (Function.update γ i γ') := by
  refine ⟨h.owner, h.entry, h.once, fun id ch j hch => ?_⟩
  have hle := h.known id ch j hch
  by_cases hj : j = i
  · subst hj
    rw [Function.update_self]
    exact hle.trans (hheld id)
  · rw [Function.update_of_ne hj]
    exact hle

/-- One channel changes and keeps its leader and its senders. -/
theorem Holders.modify (h : Holders s γ) (id : ChanId) {f : Channel ι → Channel ι}
    (hleader : ∀ ch, (f ch).leader = ch.leader) (hsenders : ∀ ch, (f ch).senders = ch.senders) :
    Holders (s.modify id f) γ := by
  have hback : ∀ id' ch', (s.modify id f).chans id' = some ch' →
      ∃ ch, s.chans id' = some ch ∧ ch'.leader = ch.leader ∧ ch'.senders = ch.senders := by
    intro id' ch' hch'
    by_cases hid : id' = id
    · subst hid
      rw [Flights.modify_self] at hch'
      obtain ⟨ch, hch, rfl⟩ := Option.map_eq_some_iff.mp hch'
      exact ⟨ch, hch, hleader ch, hsenders ch⟩
    · rw [Flights.modify_ne s f hid] at hch'
      exact ⟨ch', hch', rfl, rfl⟩
  refine ⟨fun id' ch' j hch' hj => ?_, fun id' ch' hch' hn => ?_, fun id' ch' hch' => ?_,
    fun id' ch' j hch' => ?_⟩
  · obtain ⟨ch, hch, hl, hs⟩ := hback id' ch' hch'
    rw [hl]
    exact h.owner id' ch j hch (hs ▸ hj)
  · obtain ⟨ch, hch, -, hs⟩ := hback id' ch' hch'
    exact h.entry id' ch hch (hs ▸ hn)
  · obtain ⟨ch, hch, -, hs⟩ := hback id' ch' hch'
    rw [hs]
    exact h.once id' ch hch
  · obtain ⟨ch, hch, -, hs⟩ := hback id' ch' hch'
    rw [hs]
    exact h.known id' ch j hch

/-- A new channel, with a sender in the map and perhaps one with the call. -/
theorem Holders.lead (h : Holders s γ) (hγ : γ i = some g) {key : CacheKey} (keep : Bool)
    (hnone : s.pending key = none) (hleads : g'.holds =
      if keep then (key, s.made key) :: g.holds else g.holds) :
    Holders { pending := Function.update s.pending key (some (key, s.made key)),
              chans := Function.update s.chans (key, s.made key) (some (newChannel i keep)),
              made := Function.update s.made key (s.made key + 1) }
      (Function.update γ i (some g')) := by
  have hcases : ∀ id ch, Function.update s.chans (key, s.made key) (some (newChannel i keep)) id =
      some ch → (id = (key, s.made key) ∧ ch = newChannel i keep) ∨ s.chans id = some ch := by
    intro id ch hch
    by_cases hid : id = (key, s.made key)
    · subst hid
      rw [Function.update_self] at hch
      exact Or.inl ⟨rfl, (Option.some.inj hch).symm⟩
    · rw [Function.update_of_ne hid] at hch
      exact Or.inr hch
  refine ⟨fun id ch j hch hj => ?_, fun id ch hch hn => ?_, fun id ch hch => ?_,
    fun id ch j hch => ?_⟩
  · rcases hcases id ch hch with ⟨rfl, rfl⟩ | hch
    · cases keep <;> simp [newChannel] at hj
      exact hj.symm
    · exact h.owner id ch j hch hj
  · show Function.update s.pending key _ id.1 = some id
    rcases hcases id ch hch with ⟨rfl, rfl⟩ | hch
    · rw [Function.update_self]
    · have hp := h.entry id ch hch hn
      rw [Function.update_of_ne (by rintro rfl; rw [hnone] at hp; cases hp)]
      exact hp
  · rcases hcases id ch hch with ⟨rfl, rfl⟩ | hch
    · cases keep <;> simp [newChannel]
    · exact h.once id ch hch
  · have hgrow : ∀ id, g.holds.count id ≤ g'.holds.count id := by
      intro id
      rw [hleads]
      split_ifs
      · exact List.count_le_count_cons
      · exact le_refl _
    by_cases hj : j = i
    · subst hj
      rw [Function.update_self]
      show _ ≤ g'.holds.count id
      rcases hcases id ch hch with ⟨rfl, rfl⟩ | hch
      · cases keep
        · simp [newChannel]
        · simp [newChannel, hleads]
      · have hle := h.known id ch j hch
        rw [hγ] at hle
        exact le_trans hle (hgrow id)
    · rw [Function.update_of_ne hj]
      rcases hcases id ch hch with ⟨rfl, rfl⟩ | hch
      · cases keep <;> simp [newChannel, Ne.symm hj]
      · exact h.known id ch j hch

/-- The sender in the map goes to the leader that takes its entry out. -/
theorem Holders.takeOut (h : Holders s γ) (hL : Leaders s γ) (hγ : γ i = some g) {mine : ChanId}
    (hmine : mine ∈ g.leads) (hg' : g'.holds = mine :: g.holds) :
    Holders { s.modify mine (fun ch => { ch with senders := some i :: ch.senders.erase none }) with
        pending := Function.update s.pending mine.1 none }
      (Function.update γ i (some g')) := by
  obtain ⟨hpmine, chm, hchm, hlm⟩ := hL.leads i g mine hγ hmine
  have hcases : ∀ id ch, (s.modify mine fun ch =>
      { ch with senders := some i :: ch.senders.erase none }).chans id = some ch →
      (id = mine ∧ ch = { chm with senders := some i :: chm.senders.erase none }) ∨
        (id ≠ mine ∧ s.chans id = some ch) := by
    intro id ch hch
    by_cases hid : id = mine
    · subst hid
      rw [Flights.modify_of_some _ hchm] at hch
      exact Or.inl ⟨rfl, (Option.some.inj hch).symm⟩
    · rw [Flights.modify_ne s _ hid] at hch
      exact Or.inr ⟨hid, hch⟩
  have hgone : none ∉ chm.senders.erase none := by
    intro hmem
    have hpos := List.count_pos_iff.mpr hmem
    have honce := h.once mine chm hchm
    rw [List.count_erase_self] at hpos
    omega
  have hheld : ∀ id, held (some g) id ≤ held (some g') id := by
    intro id
    show g.holds.count id ≤ g'.holds.count id
    rw [hg']
    exact List.count_le_count_cons
  refine ⟨fun id ch j hch hj => ?_, fun id ch hch hn => ?_, fun id ch hch => ?_,
    fun id ch j hch => ?_⟩
  · rcases hcases id ch hch with ⟨rfl, rfl⟩ | ⟨-, hch⟩
    · rcases List.mem_cons.mp hj with he | hj
      · cases he
        exact hlm
      · exact h.owner id chm j hchm (List.mem_of_mem_erase hj)
    · exact h.owner id ch j hch hj
  · rcases hcases id ch hch with ⟨rfl, rfl⟩ | ⟨hne, hch⟩
    · rcases List.mem_cons.mp hn with he | hn
      · cases he
      · exact absurd hn hgone
    · show Function.update s.pending mine.1 none id.1 = some id
      have hp := h.entry id ch hch hn
      rw [Function.update_of_ne]
      · exact hp
      · intro he
        rw [he, hpmine] at hp
        exact hne (Option.some.inj hp).symm
  · rcases hcases id ch hch with ⟨rfl, rfl⟩ | ⟨-, hch⟩
    · show List.count none (some i :: chm.senders.erase none) ≤ 1
      rw [List.count_cons_of_ne (by simp), List.count_eq_zero_of_not_mem hgone]
      omega
    · exact h.once id ch hch
  · have hknown : ∀ ch, s.chans id = some ch →
        ch.senders.count (some j) ≤ held (Function.update γ i (some g') j) id := by
      intro ch hch
      exact (h.stand (i := i) (hγ ▸ hheld)).known id ch j hch
    rcases hcases id ch hch with ⟨rfl, rfl⟩ | ⟨-, hch⟩
    · show List.count (some j) (some i :: chm.senders.erase none) ≤ _
      have hle := h.known id chm j hchm
      have herase := List.count_erase_of_ne (l := chm.senders) (show some j ≠ none by simp)
      by_cases hj : j = i
      · subst hj
        rw [Function.update_self, List.count_cons_self, herase]
        show _ ≤ g'.holds.count id
        rw [hγ] at hle
        rw [hg', List.count_cons_self]
        exact Nat.succ_le_succ hle
      · rw [List.count_cons_of_ne (by simpa using Ne.symm hj), herase]
        exact hknown chm hchm
    · exact hknown ch hch

/-- A sender of the call goes out of scope. -/
theorem Holders.dropSender (h : Holders s γ) (hγ : γ i = some g) (tx : ChanId)
    (hg' : g'.holds = g.holds.erase tx) :
    Holders (s.modify tx fun ch => { ch with senders := ch.senders.erase (some i) })
      (Function.update γ i (some g')) := by
  have hback : ∀ id ch', (s.modify tx fun ch =>
      { ch with senders := ch.senders.erase (some i) }).chans id = some ch' →
      ∃ ch, s.chans id = some ch ∧ ch'.leader = ch.leader ∧
        ch'.senders = if id = tx then ch.senders.erase (some i) else ch.senders := by
    intro id ch' hch'
    by_cases hid : id = tx
    · subst hid
      rw [Flights.modify_self] at hch'
      obtain ⟨ch, hch, rfl⟩ := Option.map_eq_some_iff.mp hch'
      exact ⟨ch, hch, rfl, by rw [if_pos rfl]⟩
    · rw [Flights.modify_ne s _ hid] at hch'
      exact ⟨ch', hch', rfl, by rw [if_neg hid]⟩
  have hsub : ∀ id ch' ch (sender : Option ι), (ch' : Channel ι).senders =
      (if id = tx then ch.senders.erase (some i) else ch.senders) →
      sender ∈ ch'.senders → sender ∈ (ch : Channel ι).senders := by
    intro id ch' ch sender hs hmem
    rw [hs] at hmem
    split_ifs at hmem
    · exact List.mem_of_mem_erase hmem
    · exact hmem
  refine ⟨fun id ch' j hch' hj => ?_, fun id ch' hch' hn => ?_, fun id ch' hch' => ?_,
    fun id ch' j hch' => ?_⟩
  · obtain ⟨ch, hch, hl, hs⟩ := hback id ch' hch'
    rw [hl]
    exact h.owner id ch j hch (hsub id ch' ch _ hs hj)
  · obtain ⟨ch, hch, -, hs⟩ := hback id ch' hch'
    exact h.entry id ch hch (hsub id ch' ch _ hs hn)
  · obtain ⟨ch, hch, -, hs⟩ := hback id ch' hch'
    have honce := h.once id ch hch
    rw [hs]
    split_ifs
    · rwa [List.count_erase_of_ne (by simp)]
    · exact honce
  · obtain ⟨ch, hch, -, hs⟩ := hback id ch' hch'
    have hle := h.known id ch j hch
    rw [hs]
    by_cases hj : j = i
    · subst hj
      rw [Function.update_self]
      rw [hγ] at hle
      show _ ≤ g'.holds.count id
      have hle : ch.senders.count (some j) ≤ g.holds.count id := hle
      rw [hg']
      split_ifs with hid
      · rw [hid, List.count_erase_self, List.count_erase_self]
        rw [hid] at hle
        omega
      · rwa [List.count_erase_of_ne hid]
    · rw [Function.update_of_ne hj]
      split_ifs
      · rwa [List.count_erase_of_ne (by simpa using hj)]
      · exact hle

/-- What one operation on the map or a channel does to the senders. -/
theorem Holders.handleFlight (h : Holders s γ) (hL : Leaders s γ) (hγ : γ i = some g)
    {o : PendingFetches.Op} {x : PendingFetches.Choice} {r : o.Ans} (hask : g.asks (.flight o))
    (hs : PendingFetches.handle s i o x = some (s', r)) :
    Holders s' (Function.update γ i (some (g.next (.flight o) r))) := by
  have hkeep : ∀ {s' : Flights ι} {g' : Stand}, Holders s' γ → g'.holds = g.holds →
      Holders s' (Function.update γ i (some g')) := by
    intro s' g' h' hg'
    refine h'.stand fun id => ?_
    rw [hγ]
    show g.holds.count id ≤ g'.holds.count id
    rw [hg']
  cases o with
  | entry key keep =>
    simp only [PendingFetches.handle] at hs
    cases hp : s.pending key with
    | none =>
      rw [hp] at hs
      cases hs
      exact h.lead hγ keep hp rfl
    | some id =>
      simp only [hp] at hs
      cases hch : s.chans id with
      | none => rw [hch] at hs; cases hs
      | some ch =>
        rw [hch] at hs
        cases hs
        exact hkeep (h.modify id (fun _ => rfl) fun _ => rfl) rfl
  | send tx count =>
    cases hs
    refine hkeep (h.modify tx (fun ch => ?_) fun ch => ?_) rfl
    · split_ifs <;> rfl
    · split_ifs <;> rfl
  | remove key =>
    obtain ⟨mine, hmine, rfl⟩ := hask
    have hp := (hL.leads i g mine hγ hmine).1
    simp only [PendingFetches.handle, hp] at hs
    cases hs
    exact h.takeOut hL hγ hmine rfl
  | dropSender tx =>
    cases hs
    exact h.dropSender hγ tx rfl
  | changed rx =>
    obtain ⟨ch, hch, -⟩ := hL.seen i g rx hγ hask.1
    simp only [PendingFetches.handle, hch] at hs
    split_ifs at hs with hnew hclosed
    · cases hs
      exact hkeep (h.modify rx.chan (fun _ => rfl) fun _ => rfl) rfl
    · cases hs
      exact hkeep h rfl
    · cases x with
      | inTime => cases hs
      | elapsed => cases hs; exact hkeep h rfl
  | borrow rx =>
    cases hs
    exact hkeep h rfl
  | dropReceiver rx =>
    cases hs
    exact hkeep (h.modify rx.chan (fun _ => rfl) fun _ => rfl) rfl

/-- What one operation does to the senders. -/
theorem Holders.handle {cfg : Config} {w w' : World ι} {o : SvcOp} {x : SvcChoice} {r : o.Ans}
    (h : Holders w.flights γ) (hL : Leaders w.flights γ) (hγ : γ i = some g) (hask : g.asks o)
    (hs : Services.handle cfg w i o x = some (w', r)) :
    Holders w'.flights (Function.update γ i (some (g.next o r))) := by
  cases o with
  | flight o =>
    obtain ⟨y, f', rfl, hf, rfl⟩ := handle_flight hs
    exact h.handleFlight hL hγ hask hf
  | db q =>
    rw [handle_flights hs (by simp)]
    refine h.stand fun id => ?_
    rw [hγ]
    cases r <;> exact le_refl _
  | cache o =>
    rw [handle_flights hs (by simp)]
    exact h.stand fun id => by rw [hγ]; exact le_refl _
  | hashOrder =>
    rw [handle_flights hs (by simp)]
    exact h.stand fun id => by rw [hγ]; exact le_refl _
  | _ => exact hask.elim

/-- Whoever holds a sender of a channel, or has it in the map, is its leader, and knows it. -/
theorem Holders.leader (h : Holders s γ) (hL : Leaders s γ) {ch : Channel ι}
    (hch : s.chans id = some ch) (hsenders : ch.senders ≠ []) :
    ∃ g, γ ch.leader = some g ∧ (g.leads ≠ [] ∨ g.holds ≠ []) := by
  obtain ⟨sender, hsender⟩ := List.exists_mem_of_ne_nil _ hsenders
  cases sender with
  | none =>
    obtain ⟨ch', g, hch', hg, hid⟩ := hL.led id.1 id (h.entry id ch hch hsender)
    rw [hch] at hch'
    cases hch'
    exact ⟨g, hg, Or.inl (List.ne_nil_of_mem hid)⟩
  | some j =>
    have hpos := List.count_pos_iff.mpr hsender
    have hle := h.known id ch j hch
    rw [h.owner id ch j hch hsender]
    cases hj : γ j with
    | none =>
      rw [hj] at hle
      have hle : ch.senders.count (some j) ≤ 0 := hle
      omega
    | some g =>
      rw [hj] at hle
      have hle : ch.senders.count (some j) ≤ g.holds.count id := hle
      have hheld : 0 < g.holds.count id := by omega
      exact ⟨g, rfl, Or.inr (List.ne_nil_of_mem (List.count_pos_iff.mp hheld))⟩

end Senders

/-! ## All runs -/

theorem senders_sound [DecidableEq ι] (cfg : Config) :
    Pool.Sound (undroppedReaders (ι := ι) cfg) flightRules (fun _ => Stand.Done) (fun _ => .fresh)
      (fun w γ => Leaders w.flights γ ∧ Holders w.flights γ) (fun _ _ => True) where
  init w hw := by
    rw [show w.flights = .empty from hw]
    exact ⟨leaders_empty, holders_empty⟩
  prog := CountRead.obeys cfg
  start c i k w γ _ h hγ hs := by
    cases hs
    exact ⟨h.1.start hγ, h.2.stand fun id => by rw [hγ]; exact Nat.zero_le _⟩
  handle c i x k e f w r γ g _ h _ _ hγ hask hs := by
    obtain ⟨hfit, hnext⟩ := h.1.handle hγ hask hs
    exact ⟨_, ⟨rfl, hfit⟩, hnext, h.2.handle h.1 hγ hask hs⟩
  ret w i k γ g a h hγ hdone := by
    refine ⟨h.1.over hγ hdone.1, h.2.stand fun id => ?_⟩
    rw [hγ]
    show g.holds.count id ≤ 0
    rw [hdone.2.2.2]
    exact le_refl _
  drop c i k p w γ g _ _ _ _ _ hs := by cases hs
  env c x w γ _ h hs := by
    cases x with
    | evict layer key => cases hs; exact h
    | _ => cases hs

/-- Who is ahead of a wait has no entry and no sender. -/
theorem stand_of_waitsOn {c : ReadersConfig ι} {γ : ι → Option Stand} {i : ι} {rx : Receiver}
    (hF : ∀ j, Pool.Follows flightRules (fun _ => Stand.Done) (γ j) (c.calls j))
    (h : waitsOn c i = some rx) : ∃ g, γ i = some g ∧ g.leads = [] ∧ g.holds = [] := by
  have hFi := hF i
  unfold waitsOn at h
  split at h
  · rename_i k rx' f hi
    rw [hi] at hFi
    obtain ⟨g, hγ, hask, -⟩ := hFi
    exact ⟨g, hγ, hask.2⟩
  · cases h

/-- A call with a ghost state is in progress. -/
theorem active_of_stand {c : ReadersConfig ι} {γ : ι → Option Stand} {i : ι} {g : Stand}
    (hF : ∀ j, Pool.Follows flightRules (fun _ => Stand.Done) (γ j) (c.calls j))
    (hγ : γ i = some g) : (c.calls i).Active := by
  have hFi := hF i
  rw [hγ] at hFi
  cases hi : c.calls i with
  | running k p => trivial
  | idle => rw [hi] at hFi; cases hFi
  | returned k a => rw [hi] at hFi; cases hFi.1
  | dropped k => rw [hi] at hFi; cases hFi

variable [DecidableEq ι]

/-- In every reachable state each entry of `pending_fetches` has exactly one leader, a call
    that waits leads nothing, and no calls wait for each other in a circle. -/
theorem noWaitingCycle (cfg : Config) {c : ReadersConfig ι}
    (hc : (undroppedReaders cfg).machine.Reachable c) : NoWaitingCycle c := by
  obtain ⟨γ, ⟨hL, hH⟩, hF⟩ := (senders_sound cfg).reachable hc
  have hreleased : ∀ i j, WaitsFor c i j → (c.calls j).Active ∧ waitsOn c j = none := by
    rintro i j ⟨rx, ch, -, hch, -, hsenders, rfl⟩
    obtain ⟨g, hγ, hbusy⟩ := hH.leader hL hch hsenders
    refine ⟨active_of_stand hF hγ, Option.eq_none_iff_forall_ne_some.mpr fun rx' hwaits => ?_⟩
    obtain ⟨g', hγ', hleads, hholds⟩ := stand_of_waitsOn hF hwaits
    rw [hγ] at hγ'
    cases hγ'
    rcases hbusy with hbusy | hbusy
    · exact hbusy hleads
    · exact hbusy hholds
  refine ⟨fun key id hp => ?_, fun i rx hwaits key hleads => ?_, hreleased, fun i hcycle => ?_⟩
  · obtain ⟨ch, g, hch, hg, -⟩ := hL.led key id hp
    refine ⟨ch.leader, ⟨id, ch, hp, hch, rfl, active_of_stand hF hg⟩, ?_⟩
    rintro j ⟨id', ch', hp', hch', rfl, -⟩
    rw [hp] at hp'
    cases hp'
    rw [hch] at hch'
    cases hch'
    rfl
  · obtain ⟨id, ch, hp, hch, hl, -⟩ := hleads
    obtain ⟨ch', g, hch', hg, hid⟩ := hL.led key id hp
    rw [hch] at hch'
    cases hch'
    obtain ⟨g', hγ', hnil, -⟩ := stand_of_waitsOn hF hwaits
    rw [hl, hγ'] at hg
    cases hg
    rw [hnil] at hid
    cases hid
  · -- the last call of a circle is waited for and waits
    obtain ⟨j, -, hlast⟩ := Relation.TransGen.tail'_iff.mp hcycle
    obtain ⟨k, hfirst, -⟩ := Relation.TransGen.head'_iff.mp hcycle
    obtain ⟨rx, ch, hwaits, -⟩ := hfirst
    rw [(hreleased j i hlast).2] at hwaits
    cases hwaits

/-- Two batches ask for the same two items in opposite orders. Each leads the key the other
    one follows; the first has served its own key and waits. -/
def crossingBatches : List (Act ℕ CountRead SvcChoice) :=
  let ask (i : ℕ) : List (Act ℕ CountRead SvcChoice) :=
    [.step i (.cache .ok), .step i (.cache .ok), .step i (.cache .ok), .step i (.order [])]
  let look (i : ℕ) : Act ℕ CountRead SvcChoice := .step i (.flight .inTime)
  [.start 0 (.batchCounts [("post", 7), ("post", 8)]),
    .start 1 (.batchCounts [("post", 8), ("post", 7)])] ++ ask 0 ++ ask 1 ++
  [look 0, look 1, look 0, look 1, .step 0 (.db (.run .epoch [])), look 0, look 0, look 0,
    .step 0 (.cache .ok), .step 0 (.cache .ok)]

/-- `noWaitingCycle` for the run `crossingBatches`, at whose end the first batch waits for
    the second. -/
theorem noWaitingCycle_crossingBatches : ∃ c, (undroppedReaders .default).machine.run
      ⟨World.new, fun _ => .idle⟩ crossingBatches = some c ∧
    WaitsFor c 0 1 ∧ NoWaitingCycle c := by
  have hview : ((undroppedReaders .default).machine.run
      ⟨World.new, fun _ => .idle⟩ crossingBatches).map (fun c =>
        (waitsOn c 0, (c.shared.flights.chans (.lc "post" 8, 0)).map fun ch =>
          (ch.version, ch.senders, ch.leader))) =
      some (some ⟨(.lc "post" 8, 0), 0⟩, some (0, [none], 1)) := by decide +kernel
  obtain ⟨c, hrun, hc⟩ := Option.map_eq_some_iff.mp hview
  simp only [Prod.mk.injEq, Option.map_eq_some_iff] at hc
  obtain ⟨hwaits, ch, hch, hversion, hsenders, hleader⟩ := hc
  refine ⟨c, hrun, ⟨_, ch, hwaits, hch, hversion, by simp [hsenders], hleader⟩, ?_⟩
  have hinit : (undroppedReaders (ι := ℕ) .default).machine.init ⟨World.new, fun _ => .idle⟩ :=
    ⟨rfl, fun _ => rfl⟩
  exact noWaitingCycle .default (.run (.initial hinit) hrun)

end SocialApi.Services
