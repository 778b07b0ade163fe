import SocialApi.Services.FlightRules

/-!
# Pending fetches and their leaders

An entry of `pending_fetches` is taken out by the call that put it in. A call whose
future is dropped never gets there, so its entry stays, and later readers of the key
wait for a leader that no longer exists.

* `Leaders`: the entries of the map are exactly those the running calls still have to
  take out.
* `leadersInProgress_iff`: along a run every entry belongs to a call in progress
  exactly when no call is dropped while it has an entry in the map.
* `pending_leaks`: a run in which the leader's client disconnects.
-/

namespace SocialApi.Services

open SocialApi.Concurrent SocialApi.Postgres SocialApi.PendingFetches

/-! ## The calls -/

/-- The calls that read counts through `pending_fetches`. -/
inductive CountRead where
  | getCountValue (item : Item)
  | batchCounts (items : List Item)
  deriving DecidableEq, Repr

/-- What the two calls return. -/
abbrev CountResult := Except AppError (I64 ⊕ List BatchCountResult)

/-- The program of a call. -/
def CountRead.prog (cfg : Config) : CountRead → Svc CountResult
  | getCountValue item => (Services.getCountValue cfg item).bind fun r => .ret (r.map .inl)
  | batchCounts items => (Services.batchCounts cfg items).bind fun r => .ret (r.map .inr)

theorem CountRead.obeys (cfg : Config) (k : CountRead) :
    flightRules.Obeys Stand.Done .fresh (k.prog cfg) := by
  cases k with
  | getCountValue item => exact (getCountValue_obeys cfg item).bind fun _ _ h => h
  | batchCounts items => exact (batchCounts_obeys cfg items).bind fun _ _ h => h

variable {ι : Type}

/-- Readers of counts over any state in which no fetch is pending. Their futures may be
    dropped at any await point. -/
def countReaders [DecidableEq ι] (cfg : Config) : Pool ι
    (World ι) CountRead SvcOp SvcOp.Ans CountResult SvcChoice :=
  servicePool cfg (CountRead.prog cfg) fun s => s.flights = .empty

/-- A configuration of readers. -/
abbrev ReadersConfig (ι : Type) :=
  Configuration ι (World ι) CountRead SvcOp SvcOp.Ans CountResult

/-! ## Channels over time -/

section Channels

variable {s s' : Flights ι} {γ : ι → Option Stand} {i : ι} {g g' : Stand} {id : ChanId}

/-- What no operation undoes: the leader, a value, the order of versions. -/
structure Grows (ch ch' : Channel ι) : Prop where
  leader : ch'.leader = ch.leader
  version : ch.version ≤ ch'.version
  value : ch.value ≠ none → ch'.value ≠ none
  quiet : ch'.value = none → ch'.version = ch.version

/-- The same channels, each grown. -/
def AllGrow (s s' : Flights ι) : Prop :=
  ∀ id, (s.chans id = none → s'.chans id = none) ∧
    ∀ ch, s.chans id = some ch → ∃ ch', s'.chans id = some ch' ∧ Grows ch ch'

theorem Grows.refl (ch : Channel ι) : Grows ch ch := ⟨rfl, le_refl _, id, fun _ => rfl⟩

theorem AllGrow.refl (s : Flights ι) : AllGrow s s :=
  fun _ => ⟨id, fun ch h => ⟨ch, h, Grows.refl ch⟩⟩

theorem Flights.modify_self (s : Flights ι) (id : ChanId) (f : Channel ι → Channel ι) :
    (s.modify id f).chans id = (s.chans id).map f := Function.update_self _ _ _

theorem Flights.modify_of_some {s : Flights ι} {id : ChanId} {ch : Channel ι}
    (f : Channel ι → Channel ι) (h : s.chans id = some ch) :
    (s.modify id f).chans id = some (f ch) := by
  rw [Flights.modify_self, h]; rfl

theorem Flights.modify_ne (s : Flights ι) {id id' : ChanId} (f : Channel ι → Channel ι)
    (h : id' ≠ id) : (s.modify id f).chans id' = s.chans id' := Function.update_of_ne h _ _

/-- A modified channel grows if the modification lets it. -/
theorem AllGrow.modify (s : Flights ι) (id : ChanId) {f : Channel ι → Channel ι}
    (hf : ∀ ch, Grows ch (f ch)) : AllGrow s (s.modify id f) := by
  intro id'
  by_cases hid : id' = id
  · subst hid
    refine ⟨fun h => by rw [Flights.modify_self, h]; rfl, fun ch h => ⟨f ch, Flights.modify_of_some f h, hf ch⟩⟩
  · exact ⟨fun h => by rw [Flights.modify_ne s f hid, h],
      fun ch h => ⟨ch, by rw [Flights.modify_ne s f hid, h], Grows.refl ch⟩⟩

/-! ## The entries and those who have to take them out -/

/-- The entries of the map are those the running calls have to take out, and the channels a
    call waits for or has read from are as it knows them. -/
structure Leaders (s : Flights ι) (γ : ι → Option Stand) : Prop where
  keyed : ∀ key id, s.pending key = some id → id.1 = key
  fresh : ∀ id, s.chans id ≠ none → id.2 < s.made id.1
  led : ∀ key id, s.pending key = some id →
    ∃ ch g, s.chans id = some ch ∧ γ ch.leader = some g ∧ id ∈ g.leads
  leads : ∀ j g id, γ j = some g → id ∈ g.leads →
    s.pending id.1 = some id ∧ ∃ ch, s.chans id = some ch ∧ ch.leader = j
  valued : ∀ id ch, s.chans id = some ch → ch.value = none → ch.version = 0
  seen : ∀ j g rx, γ j = some g → rx ∈ g.waits →
    ∃ ch, s.chans rx.chan = some ch ∧ rx.seen ≤ ch.version
  ready : ∀ j g id, γ j = some g → id ∈ g.ready → ∃ ch, s.chans id = some ch ∧ ch.value ≠ none

theorem leaders_empty : Leaders (.empty : Flights ι) fun _ => none where
  keyed _ _ h := by cases h
  fresh _ h := (h rfl).elim
  led _ _ h := by cases h
  leads _ _ _ h := by cases h
  valued _ _ h := by cases h
  seen _ _ _ h := by cases h
  ready _ _ _ h := by cases h

variable [DecidableEq ι]

/-- Channels grow, and one call changes its stand without taking or leaving an entry. -/
theorem Leaders.grow (h : Leaders s γ) (hγ : γ i = some g) (hs : AllGrow s s')
    (hpending : s'.pending = s.pending) (hmade : s'.made = s.made) (hleads : g'.leads = g.leads)
    (hwaits : ∀ rx ∈ g'.waits, rx ∈ g.waits ∨
      ∃ ch, s'.chans rx.chan = some ch ∧ rx.seen ≤ ch.version)
    (hready : ∀ id ∈ g'.ready, id ∈ g.ready ∨ ∃ ch, s'.chans id = some ch ∧ ch.value ≠ none) :
    Leaders s' (Function.update γ i (some g')) := by
  have hseen : ∀ j g rx, γ j = some g → rx ∈ g.waits →
      ∃ ch, s'.chans rx.chan = some ch ∧ rx.seen ≤ ch.version := by
    intro j g rx hj hrx
    obtain ⟨ch, hch, hle⟩ := h.seen j g rx hj hrx
    obtain ⟨ch', hch', hg⟩ := (hs rx.chan).2 ch hch
    exact ⟨ch', hch', hle.trans hg.version⟩
  have hvalue : ∀ j g id, γ j = some g → id ∈ g.ready →
      ∃ ch, s'.chans id = some ch ∧ ch.value ≠ none := by
    intro j g id hj hid
    obtain ⟨ch, hch, hv⟩ := h.ready j g id hj hid
    obtain ⟨ch', hch', hg⟩ := (hs id).2 ch hch
    exact ⟨ch', hch', hg.value hv⟩
  refine ⟨fun key id hp => ?_, fun id hid => ?_, fun key id hp => ?_, fun j g₁ id hj hid => ?_,
    fun id ch' hch' hv => ?_, fun j g₁ rx hj hrx => ?_, fun j g₁ id hj hid => ?_⟩
  · exact h.keyed key id (hpending ▸ hp)
  · rw [hmade]
    exact h.fresh id fun hnone => hid ((hs id).1 hnone)
  · obtain ⟨ch, g₁, hch, hg₁, hid⟩ := h.led key id (hpending ▸ hp)
    obtain ⟨ch', hch', hg⟩ := (hs id).2 ch hch
    by_cases hji : ch.leader = i
    · refine ⟨ch', g', hch', by rw [hg.leader, hji, Function.update_self], ?_⟩
      rw [hji, hγ] at hg₁
      cases hg₁
      rw [hleads]
      exact hid
    · exact ⟨ch', g₁, hch', by rw [hg.leader, Function.update_of_ne hji]; exact hg₁, hid⟩
  · have hold : ∀ g₁, γ j = some g₁ → id ∈ g₁.leads →
        s'.pending id.1 = some id ∧ ∃ ch, s'.chans id = some ch ∧ ch.leader = j := by
      intro g₁ hj hid
      obtain ⟨hp, ch, hch, hl⟩ := h.leads j g₁ id hj hid
      obtain ⟨ch', hch', hg⟩ := (hs id).2 ch hch
      exact ⟨by rw [hpending]; exact hp, ch', hch', hg.leader.trans hl⟩
    rcases Pool.ghost_of_update hj with ⟨rfl, ⟨⟩⟩ | ⟨-, hj⟩
    · exact hold g hγ (hleads ▸ hid)
    · exact hold g₁ hj hid
  · cases hch : s.chans id with
    | none => rw [(hs id).1 hch] at hch'; cases hch'
    | some ch =>
      obtain ⟨ch'', hch'', hg⟩ := (hs id).2 ch hch
      rw [hch'] at hch''
      cases hch''
      rw [hg.quiet hv]
      exact h.valued id ch hch (by by_contra hn; exact hg.value hn hv)
  · rcases Pool.ghost_of_update hj with ⟨rfl, ⟨⟩⟩ | ⟨-, hj⟩
    · exact (hwaits rx hrx).elim (hseen j g rx hγ) fun h => h
    · exact hseen j g₁ rx hj hrx
  · rcases Pool.ghost_of_update hj with ⟨rfl, ⟨⟩⟩ | ⟨-, hj⟩
    · exact (hready id hid).elim (hvalue j g id hγ) fun h => h
    · exact hvalue j g₁ id hj hid

/-- A call that has no entry in the map is over. -/
theorem Leaders.over (h : Leaders s γ) (hγ : γ i = some g) (hleads : g.leads = []) :
    Leaders s (Function.update γ i none) := by
  have hstand : ∀ j g₁, Function.update γ i none j = some g₁ → γ j = some g₁ := by
    intro j g₁ hj
    rcases Pool.ghost_of_update hj with ⟨-, ⟨⟩⟩ | ⟨-, hj⟩
    exact hj
  refine ⟨h.keyed, h.fresh, fun key id hp => ?_, fun j g₁ id hj => h.leads j g₁ id (hstand j g₁ hj),
    h.valued, fun j g₁ rx hj => h.seen j g₁ rx (hstand j g₁ hj),
    fun j g₁ id hj => h.ready j g₁ id (hstand j g₁ hj)⟩
  obtain ⟨ch, g₁, hch, hg₁, hid⟩ := h.led key id hp
  refine ⟨ch, g₁, hch, ?_, hid⟩
  have hne : ch.leader ≠ i := by
    intro he
    rw [he, hγ] at hg₁
    cases hg₁
    rw [hleads] at hid
    cases hid
  rw [Function.update_of_ne hne]
  exact hg₁

/-- A call that starts has no entry. -/
theorem Leaders.start (h : Leaders s γ) (hγ : γ i = none) :
    Leaders s (Function.update γ i (some .fresh)) := by
  refine ⟨h.keyed, h.fresh, fun key id hp => ?_, fun j g id hj hid => ?_, h.valued,
    fun j g rx hj hrx => ?_, fun j g id hj hid => ?_⟩
  · obtain ⟨ch, g, hch, hg, hid⟩ := h.led key id hp
    refine ⟨ch, g, hch, ?_, hid⟩
    rw [Function.update_of_ne (by rintro he; rw [he, hγ] at hg; cases hg)]
    exact hg
  · rcases Pool.ghost_of_update hj with ⟨-, ⟨⟩⟩ | ⟨-, hj⟩
    · cases hid
    · exact h.leads j g id hj hid
  · rcases Pool.ghost_of_update hj with ⟨-, ⟨⟩⟩ | ⟨-, hj⟩
    · cases hrx
    · exact h.seen j g rx hj hrx
  · rcases Pool.ghost_of_update hj with ⟨-, ⟨⟩⟩ | ⟨-, hj⟩
    · cases hid
    · exact h.ready j g id hj hid

/-- A new entry. -/
theorem Leaders.lead (h : Leaders s γ) (hγ : γ i = some g) {key : CacheKey} (keep : Bool)
    (holds : List ChanId) (hnone : s.pending key = none) :
    Leaders { pending := Function.update s.pending key (some (key, s.made key)),
              chans := Function.update s.chans (key, s.made key) (some (newChannel i keep)),
              made := Function.update s.made key (s.made key + 1) }
      (Function.update γ i (some { g with
        entered := key :: g.entered, leads := (key, s.made key) :: g.leads,
        unsent := (key, s.made key) :: g.unsent, holds := holds })) := by
  have hnew : s.chans (key, s.made key) = none := by
    by_contra hne
    exact absurd (h.fresh _ hne) (lt_irrefl _)
  have hne : ∀ id ch, s.chans id = some ch → id ≠ (key, s.made key) := by
    rintro id ch hch rfl
    rw [hnew] at hch
    cases hch
  have hkeep : ∀ id ch, s.chans id = some ch →
      Function.update s.chans (key, s.made key) (some (newChannel i keep)) id = some ch :=
    fun id ch hch => (Function.update_of_ne (hne id ch hch) _ _).trans hch
  refine ⟨fun key' id hp => ?_, fun id hid => ?_, fun key' id hp => ?_, fun j g₁ id hj hid => ?_,
    fun id ch hch hv => ?_, fun j g₁ rx hj hrx => ?_, fun j g₁ id hj hid => ?_⟩
  · have hp : Function.update s.pending key (some (key, s.made key)) key' = some id := hp
    by_cases hk : key' = key
    · subst hk; rw [Function.update_self] at hp; cases hp; rfl
    · rw [Function.update_of_ne hk] at hp; exact h.keyed key' id hp
  · show id.2 < Function.update s.made key (s.made key + 1) id.1
    by_cases hid' : id = (key, s.made key)
    · subst hid'; rw [Function.update_self]; exact Nat.lt_succ_self _
    · have hid : Function.update s.chans (key, s.made key) _ id ≠ none := hid
      rw [Function.update_of_ne hid'] at hid
      have hlt := h.fresh id hid
      by_cases hk : id.1 = key
      · rw [hk, Function.update_self]; rw [hk] at hlt; exact Nat.lt_succ_of_lt hlt
      · rwa [Function.update_of_ne hk]
  · have hp : Function.update s.pending key (some (key, s.made key)) key' = some id := hp
    by_cases hk : key' = key
    · subst hk
      rw [Function.update_self] at hp
      cases hp
      exact ⟨_, _, Function.update_self _ _ _, Function.update_self _ _ _, List.mem_cons_self⟩
    · rw [Function.update_of_ne hk] at hp
      obtain ⟨ch, g₁, hch, hg₁, hid⟩ := h.led key' id hp
      by_cases hji : ch.leader = i
      · rw [hji, hγ] at hg₁
        cases hg₁
        exact ⟨ch, _, hkeep id ch hch, by rw [hji, Function.update_self],
          List.mem_cons_of_mem _ hid⟩
      · exact ⟨ch, g₁, hkeep id ch hch, by rw [Function.update_of_ne hji]; exact hg₁, hid⟩
  · have hold : ∀ g₁, γ j = some g₁ → id ∈ g₁.leads →
        Function.update s.pending key (some (key, s.made key)) id.1 = some id ∧
          ∃ ch, Function.update s.chans (key, s.made key) (some (newChannel i keep)) id = some ch ∧
            ch.leader = j := by
      intro g₁ hj hid
      obtain ⟨hp, ch, hch, hl⟩ := h.leads j g₁ id hj hid
      have hk : id.1 ≠ key := by
        intro he
        rw [he, hnone] at hp
        cases hp
      exact ⟨by rwa [Function.update_of_ne hk], ch, hkeep id ch hch, hl⟩
    rcases Pool.ghost_of_update hj with ⟨rfl, ⟨⟩⟩ | ⟨-, hj⟩
    · rcases List.mem_cons.mp hid with rfl | hid
      · exact ⟨Function.update_self _ _ _, _, Function.update_self _ _ _, rfl⟩
      · exact hold g hγ hid
    · exact hold g₁ hj hid
  · have hch : Function.update s.chans (key, s.made key) _ id = some ch := hch
    by_cases hid : id = (key, s.made key)
    · subst hid; rw [Function.update_self] at hch; cases hch; rfl
    · rw [Function.update_of_ne hid] at hch; exact h.valued id ch hch hv
  · have hold : ∀ g₁, γ j = some g₁ → rx ∈ g₁.waits → _ := fun g₁ hj hrx => h.seen j g₁ rx hj hrx
    have hgoal : ∃ ch, s.chans rx.chan = some ch ∧ rx.seen ≤ ch.version := by
      rcases Pool.ghost_of_update hj with ⟨rfl, ⟨⟩⟩ | ⟨-, hj⟩
      · exact hold g hγ hrx
      · exact hold g₁ hj hrx
    obtain ⟨ch, hch, hle⟩ := hgoal
    exact ⟨ch, hkeep _ ch hch, hle⟩
  · have hgoal : ∃ ch, s.chans id = some ch ∧ ch.value ≠ none := by
      rcases Pool.ghost_of_update hj with ⟨rfl, ⟨⟩⟩ | ⟨-, hj⟩
      · exact h.ready j g id hγ hid
      · exact h.ready j g₁ id hj hid
    obtain ⟨ch, hch, hv⟩ := hgoal
    exact ⟨ch, hkeep _ ch hch, hv⟩

/-- An entry is taken out by the call that put it in. -/
theorem Leaders.takeOut (h : Leaders s γ) (hγ : γ i = some g) (key : CacheKey)
    (holds : List ChanId) (hkey : ∃ id ∈ g.leads, id.1 = key) :
    Leaders { s with pending := Function.update s.pending key none }
      (Function.update γ i (some { g with leads := g.leads.filter fun id => id.1 ≠ key,
                                          holds := holds })) := by
  obtain ⟨mine, hmine, hmk⟩ := hkey
  obtain ⟨hpmine, chm, hchm, hlm⟩ := h.leads i g mine hγ hmine
  rw [hmk] at hpmine
  have hpending : ∀ key' id, Function.update s.pending key none key' = some id →
      key' ≠ key ∧ s.pending key' = some id := by
    intro key' id hp
    by_cases hk : key' = key
    · subst hk; rw [Function.update_self] at hp; cases hp
    · exact ⟨hk, by rwa [Function.update_of_ne hk] at hp⟩
  refine ⟨fun key' id hp => h.keyed key' id (hpending key' id hp).2, h.fresh, fun key' id hp => ?_,
    fun j g₁ id hj hid => ?_, h.valued, fun j g₁ rx hj hrx => ?_, fun j g₁ id hj hid => ?_⟩
  · obtain ⟨hk, hp⟩ := hpending key' id hp
    obtain ⟨ch, g₁, hch, hg₁, hid⟩ := h.led key' id hp
    by_cases hji : ch.leader = i
    · rw [hji, hγ] at hg₁
      cases hg₁
      refine ⟨ch, _, hch, by rw [hji, Function.update_self], List.mem_filter.mpr ⟨hid, ?_⟩⟩
      rw [h.keyed key' id hp]
      simpa using hk
    · exact ⟨ch, g₁, hch, by rw [Function.update_of_ne hji]; exact hg₁, hid⟩
  · show Function.update s.pending key none id.1 = some id ∧ _
    rcases Pool.ghost_of_update hj with ⟨rfl, ⟨⟩⟩ | ⟨hji, hj⟩
    · obtain ⟨hid, hk⟩ := List.mem_filter.mp hid
      obtain ⟨hp, hch⟩ := h.leads j g id hγ hid
      exact ⟨by rwa [Function.update_of_ne (by simpa using hk)], hch⟩
    · -- the entry under the key is the caller's, so it is not this one
      obtain ⟨hp, ch, hch, hl⟩ := h.leads j g₁ id hj hid
      have hk : id.1 ≠ key := by
        intro he
        rw [he, hpmine] at hp
        cases hp
        rw [hchm] at hch
        cases hch
        exact hji (hl.symm.trans hlm)
      exact ⟨by rwa [Function.update_of_ne hk], ch, hch, hl⟩
  · rcases Pool.ghost_of_update hj with ⟨rfl, ⟨⟩⟩ | ⟨-, hj⟩
    · exact h.seen j g rx hγ hrx
    · exact h.seen j g₁ rx hj hrx
  · rcases Pool.ghost_of_update hj with ⟨rfl, ⟨⟩⟩ | ⟨-, hj⟩
    · exact h.ready j g id hγ hid
    · exact h.ready j g₁ id hj hid

/-- One channel changes, and the call changes its stand without taking or leaving an entry. -/
theorem Leaders.modify (h : Leaders s γ) (hγ : γ i = some g) (id : ChanId)
    {f : Channel ι → Channel ι} (hf : ∀ ch, Grows ch (f ch)) (hleads : g'.leads = g.leads)
    (hwaits : ∀ rx ∈ g'.waits, rx ∈ g.waits ∨
      ∃ ch, (s.modify id f).chans rx.chan = some ch ∧ rx.seen ≤ ch.version)
    (hready : ∀ id' ∈ g'.ready, id' ∈ g.ready ∨
      ∃ ch, (s.modify id f).chans id' = some ch ∧ ch.value ≠ none) :
    Leaders (s.modify id f) (Function.update γ i (some g')) :=
  h.grow hγ (AllGrow.modify s id hf) rfl rfl hleads hwaits hready

/-- What one operation on the map or a channel does to the entries. -/
theorem Leaders.handleFlight (h : Leaders s γ) (hγ : γ i = some g) {o : PendingFetches.Op}
    {x : PendingFetches.Choice} {r : o.Ans} (hask : g.asks (.flight o))
    (hs : PendingFetches.handle s i o x = some (s', r)) :
    g.Fits (.flight o) r ∧ Leaders s' (Function.update γ i (some (g.next (.flight o) r))) := by
  cases o with
  | entry key keep =>
    simp only [PendingFetches.handle] at hs
    cases hp : s.pending key with
    | none =>
      rw [hp] at hs
      cases hs
      exact ⟨rfl, h.lead hγ keep _ hp⟩
    | some id =>
      simp only [hp] at hs
      cases hch : s.chans id with
      | none => rw [hch] at hs; cases hs
      | some ch =>
        rw [hch] at hs
        cases hs
        refine ⟨h.keyed key id hp, ?_⟩
        refine h.modify hγ id (fun ch => ⟨rfl, le_refl _, fun h => h, fun _ => rfl⟩) rfl
          (fun rx hrx => ?_) fun id hid => Or.inl hid
        rcases List.mem_append.mp hrx with hrx | hrx
        · exact Or.inl hrx
        · cases List.mem_singleton.mp hrx
          exact Or.inr ⟨_, Flights.modify_of_some _ hch, le_refl _⟩
  | send tx count =>
    cases hs
    refine ⟨trivial, h.modify hγ tx (fun ch => ?_) rfl (fun rx hrx => Or.inl hrx)
      fun id hid => Or.inl hid⟩
    split_ifs
    · exact ⟨rfl, le_refl _, fun h => h, fun _ => rfl⟩
    · exact ⟨rfl, Nat.le_succ _, fun _ => Option.some_ne_none _,
        fun h => absurd h (Option.some_ne_none _)⟩
  | remove key =>
    obtain ⟨mine, hmine, hmk⟩ := hask
    have hp : s.pending key = some mine := by
      rw [← hmk]; exact (h.leads i g mine hγ hmine).1
    simp only [PendingFetches.handle, hp] at hs
    cases hs
    refine ⟨fun id hid hk => ?_, ?_⟩
    · rw [← (h.leads i g id hγ hid).1, hk, hp]
    · have hgrown : Leaders _ (Function.update γ i (some g)) := h.modify hγ mine
        (f := fun ch => { ch with senders := some i :: ch.senders.erase none })
        (fun ch => ⟨rfl, le_refl _, fun h => h, fun _ => rfl⟩) rfl (fun rx hrx => Or.inl hrx)
        fun id hid => Or.inl hid
      have htaken := hgrown.takeOut (Function.update_self _ _ _) key
        (mine :: g.holds) ⟨mine, hmine, hmk⟩
      rw [Function.update_idem] at htaken
      exact htaken
  | dropSender tx =>
    cases hs
    exact ⟨trivial, h.modify hγ tx (fun ch => ⟨rfl, le_refl _, fun h => h, fun _ => rfl⟩) rfl
      (fun rx hrx => Or.inl hrx) fun id hid => Or.inl hid⟩
  | changed rx =>
    obtain ⟨ch, hch, hle⟩ := h.seen i g rx hγ hask.1
    simp only [PendingFetches.handle, hch] at hs
    have hwaits : ∀ rx' ∈ g.waits.erase rx, rx' ∈ g.waits := fun rx' h => List.mem_of_mem_erase h
    split_ifs at hs with hnew hclosed
    · cases hs
      refine ⟨trivial, h.modify hγ rx.chan (fun ch => ⟨rfl, le_refl _, fun h => h, fun _ => rfl⟩) rfl
        (fun rx' hrx' => Or.inl (hwaits rx' hrx')) fun id hid => ?_⟩
      rcases List.mem_cons.mp hid with rfl | hid
      · refine Or.inr ⟨_, Flights.modify_of_some _ hch, fun hv => hnew ?_⟩
        have hzero := h.valued _ ch hch hv
        omega
      · exact Or.inl hid
    · cases hs
      exact ⟨trivial, h.grow hγ (AllGrow.refl _) rfl rfl rfl
        (fun rx' hrx' => Or.inl (hwaits rx' hrx')) fun id hid => Or.inl hid⟩
    · cases x with
      | inTime => cases hs
      | elapsed =>
        cases hs
        exact ⟨trivial, h.grow hγ (AllGrow.refl _) rfl rfl rfl
          (fun rx' hrx' => Or.inl (hwaits rx' hrx')) fun id hid => Or.inl hid⟩
  | borrow rx =>
    cases hs
    obtain ⟨ch, hch, hv⟩ := h.ready i g rx.chan hγ hask
    refine ⟨?_, by rw [show g.next _ _ = g from rfl, ← hγ, Function.update_eq_self]; exact h⟩
    show (s.chans rx.chan).bind Channel.value ≠ none
    rw [hch]
    exact hv
  | dropReceiver rx =>
    cases hs
    exact ⟨trivial, h.modify hγ rx.chan (fun ch => ⟨rfl, le_refl _, fun h => h, fun _ => rfl⟩) rfl
      (fun rx' hrx' => Or.inl hrx') fun id hid => Or.inl hid⟩

/-- What one operation does to the entries. -/
theorem Leaders.handle {cfg : Config} {w w' : World ι} {o : SvcOp} {x : SvcChoice} {r : o.Ans}
    (h : Leaders w.flights γ) (hγ : γ i = some g) (hask : g.asks o)
    (hs : Services.handle cfg w i o x = some (w', r)) :
    g.Fits o r ∧ Leaders w'.flights (Function.update γ i (some (g.next o r))) := by
  have hsame : Leaders w.flights (Function.update γ i (some g)) := by
    rw [← hγ, Function.update_eq_self]; exact h
  cases o with
  | db q =>
    obtain ⟨y, db', rfl, -, rfl⟩ := handle_db hs
    cases r with
    | error e =>
      exact ⟨trivial, h.grow hγ (AllGrow.refl _) rfl rfl rfl nofun fun id hid => Or.inl hid⟩
    | ok rows =>
      exact ⟨trivial, h.grow hγ (AllGrow.refl _) rfl rfl rfl (fun rx hrx => Or.inl hrx)
        fun id hid => Or.inl hid⟩
  | cache o =>
    obtain ⟨y, c', rfl, -, rfl⟩ := handle_cache hs
    exact ⟨trivial, hsame⟩
  | flight o =>
    obtain ⟨y, f', rfl, hf, rfl⟩ := handle_flight hs
    exact h.handleFlight hγ hask hf
  | hashOrder =>
    cases x with
    | order ks => cases hs; exact ⟨trivial, hsame⟩
    | _ => cases hs
  | _ => exact hask.elim

/-- The senders and receivers of a call are gone; its entries stay. -/
theorem Leaders.abandon (h : Leaders s γ) (hγ : γ i = some g) (hleads : g.leads = []) :
    Leaders (PendingFetches.abandon s i) (Function.update γ i none) := by
  have hgrow : AllGrow s (PendingFetches.abandon s i) := by
    refine fun id => ⟨fun hnone => ?_, fun ch hch => ?_⟩
    · show (s.chans id).map _ = none
      rw [hnone]; rfl
    · refine ⟨_, show (s.chans id).map _ = _ by rw [hch]; rfl, ?_⟩
      exact ⟨rfl, le_refl _, fun h => h, fun _ => rfl⟩
  have hsame : Leaders (PendingFetches.abandon s i) (Function.update γ i (some g)) :=
    h.grow hγ hgrow rfl rfl rfl (fun rx hrx => Or.inl hrx) fun id hid => Or.inl hid
  rw [show Function.update γ i none = Function.update (Function.update γ i (some g)) i none by
    rw [Function.update_idem]]
  exact hsame.over (Function.update_self _ _ _) hleads

end Channels

/-! ## All runs -/

section Pool

/-- The dropped call has no entry in the map. -/
def LeadsNothing (c : ReadersConfig ι) (a : Act ι CountRead SvcChoice) : Prop :=
  ∀ i, a = .drop i → ∀ key id ch, c.shared.flights.pending key = some id →
    c.shared.flights.chans id = some ch → ch.leader ≠ i

/-- Every entry of the map belongs to a call in progress. -/
def LeadersInProgress (c : ReadersConfig ι) : Prop :=
  ∀ key id, c.shared.flights.pending key = some id →
    ∃ ch, c.shared.flights.chans id = some ch ∧ (c.calls ch.leader).Active

variable [DecidableEq ι]

theorem leaders_sound (cfg : Config) :
    Pool.Sound (countReaders (ι := ι) cfg) flightRules (fun _ => Stand.Done) (fun _ => .fresh)
      (fun w γ => Leaders w.flights γ) LeadsNothing where
  init w hw := by
    rw [show w.flights = .empty from hw]
    exact leaders_empty
  prog := CountRead.obeys cfg
  start c i k w γ _ h hγ hs := by
    cases hs
    exact h.start hγ
  handle c i x k e f w r γ g _ h _ _ hγ hask hs := by
    obtain ⟨hfit, hnext⟩ := h.handle hγ hask hs
    exact ⟨_, ⟨rfl, hfit⟩, hnext⟩
  ret w i k γ g a h hγ hdone := h.over hγ hdone.1
  drop c i k p w γ g ha h _ _ hγ hs := by
    cases hs
    refine h.abandon hγ (List.eq_nil_iff_forall_not_mem.mpr fun id hid => ?_)
    obtain ⟨hp, ch, hch, hl⟩ := h.leads i g id hγ hid
    exact ha i rfl id.1 id ch hp hch hl
  env c x w γ _ h hs := by
    cases x with
    | evict layer key => cases hs; exact h
    | _ => cases hs

/-- Along a run every entry of `pending_fetches` belongs to a call in progress exactly when
    no call is dropped that has an entry there. -/
theorem leadersInProgress_iff (cfg : Config) {c c' : ReadersConfig ι}
    {as : List (Act ι CountRead SvcChoice)} (hc : (countReaders cfg).machine.init c)
    (hrun : (countReaders cfg).machine.run c as = some c') :
    (countReaders cfg).machine.Along LeadersInProgress c as ↔
      (countReaders cfg).machine.Meets LeadsNothing c as := by
  have S := leaders_sound (ι := ι) cfg
  refine Machine.along_iff_meets (fun c a c' => S.inv_step c a c') ?_ ?_ (S.inv_init hc) hrun
  · rintro c ⟨γ, h, hF⟩ key id hp
    obtain ⟨ch, g, hch, hg, -⟩ := h.led key id hp
    refine ⟨ch, hch, ?_⟩
    have hFl := hF ch.leader
    cases hcall : c.calls ch.leader with
    | running k p => trivial
    | idle => rw [hcall, hg] at hFl; cases hFl
    | returned k a => rw [hcall, hg] at hFl; cases hFl.1
    | dropped k => rw [hcall, hg] at hFl; cases hFl
  · -- the entry of a dropped leader stays
    rintro c a c' ⟨γ, h, hF⟩ hbad hstep hall
    simp only [LeadsNothing, not_forall, not_not] at hbad
    obtain ⟨i, rfl, key, id, ch, hp, hch, rfl⟩ := hbad
    cases hi : c.calls ch.leader with
    | running k p =>
      obtain ⟨w, hw, rfl⟩ := Pool.act_drop hstep hi
      cases hw
      obtain ⟨ch', hch', hactive⟩ := hall key id hp
      have hch' : (c.shared.flights.chans id).map _ = some ch' := hch'
      rw [hch] at hch'
      cases hch'
      have hactive : CallState.Active
        (Function.update c.calls ch.leader (.dropped k) ch.leader) := hactive
      rw [Function.update_self] at hactive
      exact hactive
    | _ => simp only [Pool.machine, Pool.act, hi] at hstep; cases hstep

end Pool

/-! ## An entry that stays -/

/-- A reader finds nothing in the cache and becomes the leader; while it waits for the
    database its client disconnects. -/
def droppedLeader : List (Act (Fin 1) CountRead SvcChoice) :=
  [.start 0 (.getCountValue ("post", 7)), .step 0 (.cache .ok), .step 0 (.cache .ok),
    .step 0 (.flight .inTime), .drop 0]

/-- After `droppedLeader` no call is in progress, but the entry is there. -/
theorem pending_leaks : ∃ c, (countReaders .default).machine.run
      ⟨World.new, fun _ => .idle⟩ droppedLeader = some c ∧
    (∀ i, ¬ (c.calls i).Active) ∧
    c.shared.flights.pending (.lc "post" 7) = some (.lc "post" 7, 0) ∧
    ¬ LeadersInProgress c := by
  have hview : ((countReaders .default).machine.run
      ⟨World.new, fun _ => .idle⟩ droppedLeader).map (fun c =>
        (c.shared.flights.pending (.lc "post" 7), decide (∀ i, ¬ (c.calls i).Active))) =
      some (some (.lc "post" 7, 0), true) := by decide +kernel
  obtain ⟨c, hrun, hc⟩ := Option.map_eq_some_iff.mp hview
  simp only [Prod.mk.injEq, decide_eq_true_eq] at hc
  obtain ⟨hpending, hover⟩ := hc
  refine ⟨c, hrun, hover, hpending, fun hall => ?_⟩
  obtain ⟨ch, -, hactive⟩ := hall _ _ hpending
  exact hover _ hactive

/-- A reader that has not asked for the flight yet. -/
def firstReader : List (Act Bool CountRead SvcChoice) :=
  [.start true (.getCountValue ("post", 7)), .step true (.cache .ok), .step true (.cache .ok)]

/-- It disconnects; another one becomes the leader and brings its flight to an end. -/
def droppedReader : List (Act Bool CountRead SvcChoice) :=
  [.drop true, .start false (.getCountValue ("post", 7))] ++
    List.replicate 2 (.step false (.cache .ok)) ++
    [.step false (.flight .inTime), .step false (.db (.run .epoch []))] ++
    List.replicate 3 (.step false (.flight .inTime)) ++
    List.replicate 2 (.step false (.cache .ok)) ++ [.step false (.flight .inTime)]

theorem droppedReader_leadsNothing : (countReaders .default).machine.Meets LeadsNothing
    ⟨World.new, fun _ => .idle⟩ (firstReader ++ droppedReader) := by
  have hlabels : ∀ {as : List (Act Bool CountRead SvcChoice)}, (∀ i, .drop i ∉ as) →
      ∀ c, (countReaders .default).machine.Meets LeadsNothing c as := by
    intro as has c
    refine (Machine.meets_of_labels (C := fun a => a ∈ as) (fun _ ha => ha) c).mono ?_
    rintro c a ha i rfl
    exact absurd ha (has i)
  have hview : ((countReaders .default).machine.run ⟨World.new, fun _ => .idle⟩
      firstReader).map (fun c => c.shared.flights.pending) = some fun _ => none := rfl
  obtain ⟨c, hrun, hpending⟩ := Option.map_eq_some_iff.mp hview
  refine Machine.meets_append (hlabels (by simp [firstReader]) _) fun c' hc' => ⟨?_, fun c'' _ => ?_⟩
  · intro i _ key id ch hkey
    rw [← Option.some.inj (hrun.symm.trans hc'), hpending] at hkey
    cases hkey
  · exact hlabels (by simp) c''

/-- `leadersInProgress_iff` for a run in which the entry is gone when no call is in progress, and
    for `droppedLeader`. -/
theorem leadersInProgress_iff_droppedReader_droppedLeader :
    (∃ c, (countReaders .default).machine.run ⟨World.new, fun _ => .idle⟩
        (firstReader ++ droppedReader) = some c ∧
      (∀ i, ¬ (c.calls i).Active) ∧ c.shared.flights.pending (.lc "post" 7) = none ∧
      (countReaders .default).machine.Along LeadersInProgress ⟨World.new, fun _ => .idle⟩
        (firstReader ++ droppedReader)) ∧
    ((countReaders .default).machine.Along LeadersInProgress ⟨World.new, fun _ => .idle⟩
        droppedLeader ↔
      (countReaders .default).machine.Meets LeadsNothing ⟨World.new, fun _ => .idle⟩
        droppedLeader) := by
  constructor
  · have hview : ((countReaders .default).machine.run ⟨World.new, fun _ => .idle⟩
        (firstReader ++ droppedReader)).map (fun c =>
          (decide (∀ i, ¬ (c.calls i).Active), c.shared.flights.pending (.lc "post" 7))) =
        some (true, none) := by decide +kernel
    obtain ⟨c, hrun, hc⟩ := Option.map_eq_some_iff.mp hview
    obtain ⟨hover, hpending⟩ := Prod.mk.inj hc
    have hinit : (countReaders (ι := Bool) .default).machine.init ⟨World.new, fun _ => .idle⟩ :=
      ⟨rfl, fun _ => rfl⟩
    exact ⟨c, hrun, of_decide_eq_true hover, hpending,
      (leadersInProgress_iff .default hinit hrun).mpr droppedReader_leadsNothing⟩
  · have hview : ((countReaders .default).machine.run
        ⟨World.new, fun _ => .idle⟩ droppedLeader).isSome = true := by decide +kernel
    obtain ⟨c, hrun⟩ := Option.isSome_iff_exists.mp hview
    exact leadersInProgress_iff .default ⟨rfl, fun _ => rfl⟩ hrun

end SocialApi.Services
