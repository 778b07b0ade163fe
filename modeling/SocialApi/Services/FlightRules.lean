import SocialApi.Services.MissingCounts

/-!
# How readers of counts use `pending_fetches`

The discipline that `get_count_value` and `batch_counts` keep with the map of pending
fetches and its channels, as a protocol. A call remembers (`Stand`) which entries it
has put into the map and not taken out, on which channels it may still send, which
subscriptions it has not waited for, and which keys it follows.

* a key is looked up in the map at most once;
* only the call that put an entry in takes it out, and it does so before it ends;
* a count is sent once on each channel the call has made, unless its query fails;
* each subscription is waited for, unless a query fails first, and only when the call has no
  entry in the map and no sender left;
* a key is queried only by a call that leads it or whose wait for it has failed.

Results: `getCountValue_obeys`, `batchCounts_obeys`.
-/

namespace SocialApi.Services

open SocialApi.Concurrent SocialApi.Postgres SocialApi.PendingFetches

/-- How a call stands with `pending_fetches`. -/
structure Stand where
  /-- The keys it has looked up. -/
  entered : List CacheKey
  /-- The channels it has put into the map and not taken out. -/
  leads : List ChanId
  /-- The channels it may still send on. -/
  unsent : List ChanId
  /-- The subscriptions it has not waited for. -/
  waits : List Receiver
  /-- The keys it has subscribed to, but for those whose wait has failed. -/
  followed : List CacheKey
  /-- The channels on which it has seen a value. -/
  ready : List ChanId
  /-- The senders it holds, each with its channel. -/
  holds : List ChanId

namespace Stand

/-- A call that has not looked at the map. -/
def fresh : Stand := ⟨[], [], [], [], [], [], []⟩

/-- The operations allowed. -/
@[simp] def asks (g : Stand) : SvcOp → Prop
  | .db (.countRow item) => countCacheKey item ∉ g.followed
  | .db (.batchGetCounts items) => ∀ item ∈ items, countCacheKey item ∉ g.followed
  | .flight (.entry key _) => key ∉ g.entered
  | .flight (.send tx _) => tx ∈ g.unsent
  | .flight (.remove key) => ∃ id ∈ g.leads, id.1 = key
  | .flight (.dropSender tx) => tx ∉ g.unsent
  | .flight (.changed rx) => rx ∈ g.waits ∧ g.leads = [] ∧ g.holds = []
  | .flight (.borrow rx) => rx.chan ∈ g.ready
  | .flight (.dropReceiver rx) => rx.chan ∉ g.waits.map Receiver.chan
  | .cache _ => True
  | .hashOrder => True
  | _ => False

/-- The stand after the answer to an operation. -/
@[simp] def next (g : Stand) : (o : SvcOp) → o.Ans → Stand
  | .db _, .error _ => { g with unsent := [], waits := [] }
  | .flight (.entry key keep), .leader id =>
    { g with entered := key :: g.entered, leads := id :: g.leads, unsent := id :: g.unsent,
             holds := if keep then id :: g.holds else g.holds }
  | .flight (.entry key _), .follower rx =>
    { g with entered := key :: g.entered, waits := g.waits ++ [rx], followed := key :: g.followed }
  | .flight (.send tx _), _ => { g with unsent := g.unsent.filter (· ≠ tx) }
  | .flight (.remove key), r =>
    { g with leads := g.leads.filter fun id => id.1 ≠ key, holds := r.toList ++ g.holds }
  | .flight (.dropSender tx), _ => { g with holds := g.holds.erase tx }
  | .flight (.changed rx), .value =>
    { g with waits := g.waits.erase rx, ready := rx.chan :: g.ready }
  | .flight (.changed rx), _ =>
    { g with waits := g.waits.erase rx, followed := g.followed.filter (· ≠ rx.chan.1) }
  | _, _ => g

/-- What is known about an answer. -/
def Fits (g : Stand) : (o : SvcOp) → o.Ans → Prop
  | .flight (.entry key _), .leader id => id.1 = key
  | .flight (.entry key _), .follower rx => rx.chan.1 = key
  | .flight (.remove key), r => ∀ id ∈ g.leads, id.1 = key → r = some id
  | .flight (.borrow _), r => r ≠ none
  | _, _ => True

end Stand

/-- The discipline as a protocol. -/
def flightRules : Protocol SvcOp SvcOp.Ans Stand where
  asks := Stand.asks
  answers g o r g' := g' = g.next o r ∧ g.Fits o r

@[simp] theorem flightRules_asks (g : Stand) (o : SvcOp) : flightRules.asks g o = g.asks o := rfl

/-- No entry is left in the map, no count unsent, no subscription unattended and no sender held. -/
def Stand.Done {α : Type} (g : Stand) (_ : α) : Prop :=
  g.leads = [] ∧ g.unsent = [] ∧ g.waits = [] ∧ g.holds = []

section Obeys

variable {α : Type} {Q : Stand → α → Prop} {g : Stand}

/-- The cache has nothing to do with the map. -/
theorem cache_obeys {p : Cache.CacheM α} (hQ : ∀ a, Q g a) : flightRules.Obeys Q g (cache p) := by
  have hp : (cache p).All fun o => ∃ o', o = .cache o' :=
    Prog.All.lift (Prog.all_of_forall (fun o => ⟨o, rfl⟩) p)
  refine Protocol.obeys_of_all ?_ hp hQ
  rintro o ⟨o', rfl⟩
  exact ⟨trivial, fun r g' hr => hr.1⟩

/-- Waiting for a subscription: with a count the call goes on following the key, without
    one it is free to query it. -/
theorem awaitSharedCount_obeys {rx : Receiver} {Q : Stand → Option I64 → Prop} (hrx : rx ∈ g.waits)
    (hleads : g.leads = []) (hholds : g.holds = [])
    (hcount : ∀ count, Q { g with waits := g.waits.erase rx, ready := rx.chan :: g.ready }
      (some count))
    (hnone : Q { g with waits := g.waits.erase rx,
                        followed := g.followed.filter (· ≠ rx.chan.1) } none) :
    flightRules.Obeys Q g (awaitSharedCount rx) := by
  refine ⟨⟨hrx, hleads, hholds⟩, ?_⟩
  rintro (_ | _ | _) g' ⟨rfl, -⟩
  · refine ⟨List.mem_cons_self, ?_⟩
    rintro (_ | count) g' ⟨rfl, hsome⟩
    · exact absurd rfl hsome
    · exact hcount count
  · exact hnone
  · exact hnone

/-- Taking an entry out of the map after the channel has been used. -/
theorem removePending_obeys {key : CacheKey} {Q : Stand → Unit → Prop} {id : ChanId}
    (hid : id ∈ g.leads) (hkey : id.1 = key) (hsent : id ∉ g.unsent)
    (hQ : Q { g with leads := g.leads.filter fun id => id.1 ≠ key } ()) :
    flightRules.Obeys Q g (removePending key) := by
  refine ⟨⟨id, hid, hkey⟩, ?_⟩
  rintro r g' ⟨rfl, hr⟩
  cases hr id hid hkey
  refine ⟨hsent, ?_⟩
  rintro r g' ⟨rfl, -⟩
  have hback : (id :: g.holds).erase id = g.holds := List.erase_cons_head ..
  show Q { g with leads := _, holds := (id :: g.holds).erase id } ()
  rw [hback]
  exact hQ

/-! ## One item -/

theorem followCount_obeys (item : Item) {rx : Receiver} (hrx : rx.chan.1 = countCacheKey item)
    (hleads : g.leads = []) (hunsent : g.unsent = []) (hwaits : g.waits = [rx])
    (hholds : g.holds = []) : flightRules.Obeys Stand.Done g (followCount item rx) := by
  refine (awaitSharedCount_obeys (Q := fun g count => Stand.Done g count ∧
    (count = none → countCacheKey item ∉ g.followed)) (by simp [hwaits]) hleads hholds
    (fun count => ⟨⟨hleads, hunsent, by simp [hwaits], hholds⟩, nofun⟩)
    ⟨⟨hleads, hunsent, by simp [hwaits], hholds⟩, fun _ => by simp [hrx]⟩).bind ?_
  rintro g (_ | count) ⟨⟨hleads, hunsent, hwaits, hholds⟩, hfree⟩
  · refine ⟨hfree rfl, ?_⟩
    rintro (error | row) g ⟨rfl, -⟩
    · refine ⟨by simp, ?_⟩
      rintro r g ⟨rfl, -⟩
      exact ⟨hleads, rfl, rfl, hholds⟩
    · refine ⟨by simp [hwaits], ?_⟩
      rintro r g ⟨rfl, -⟩
      exact ⟨hleads, hunsent, hwaits, hholds⟩
  · refine ⟨by simp [hwaits], ?_⟩
    rintro r g ⟨rfl, -⟩
    exact ⟨hleads, hunsent, hwaits, hholds⟩

theorem leadCount_obeys (cfg : Config) (item : Item) {tx : ChanId}
    (htx : tx.1 = countCacheKey item) (hleads : g.leads = [tx]) (hunsent : g.unsent = [tx])
    (hwaits : g.waits = []) (hfollowed : g.followed = []) (hholds : g.holds = [tx]) :
    flightRules.Obeys Stand.Done g (leadCount cfg item tx) := by
  have hdrop : ∀ {α : Type} (a : α) (g : Stand), g.leads = [] → g.unsent = [] → g.waits = [] →
      g.holds = [tx] → flightRules.Obeys Stand.Done g
        (flight (.dropSender tx) >>= fun _ => pure a) := by
    intro α a g hleads hunsent hwaits hholds
    refine ⟨by simp [hunsent], ?_⟩
    rintro r g ⟨rfl, -⟩
    exact ⟨hleads, hunsent, hwaits, by simp [hholds]⟩
  refine ⟨by simp [hfollowed], ?_⟩
  rintro (error | row) g' ⟨rfl, -⟩
  · refine (removePending_obeys (Q := fun g _ => g.leads = [] ∧ g.unsent = [] ∧ g.waits = [] ∧
      g.holds = [tx]) (g := { g with unsent := [], waits := [] }) (by simp [hleads]) htx
      List.not_mem_nil ⟨by simp [hleads, htx], rfl, rfl, hholds⟩).bind ?_
    rintro g - ⟨hleads, hunsent, hwaits, hholds⟩
    exact hdrop _ g hleads hunsent hwaits hholds
  · refine ⟨by simp [hunsent], ?_⟩
    rintro r g ⟨rfl, -⟩
    have hsent : g'.unsent.filter (· ≠ tx) = [] := by simp [hunsent]
    refine (removePending_obeys (Q := fun g _ => g.leads = [] ∧ g.unsent = [] ∧ g.waits = [] ∧
      g.holds = [tx]) (g := { g' with unsent := g'.unsent.filter (· ≠ tx) }) (by simp [hleads])
      htx ?_ ⟨by simp [hleads, htx], hsent, hwaits, hholds⟩).bind ?_
    · show tx ∉ g'.unsent.filter (· ≠ tx)
      rw [hsent]
      exact List.not_mem_nil
    rintro g - ⟨hleads, hunsent, hwaits, hholds⟩
    refine (cache_obeys (Q := fun g' _ => g' = g) fun _ => rfl).bind ?_
    rintro g - rfl
    exact hdrop _ g hleads hunsent hwaits hholds

theorem getCountValue_obeys (cfg : Config) (item : Item) :
    flightRules.Obeys Stand.Done .fresh (getCountValue cfg item) := by
  refine (cache_obeys (Q := fun g _ => g = .fresh) fun _ => rfl).bind ?_
  rintro g cached rfl
  cases hhit : cached.bind I64.parse with
  | some count => exact ⟨rfl, rfl, rfl, rfl⟩
  | none =>
    refine ⟨by simp [Stand.fresh], ?_⟩
    rintro (tx | rx) g ⟨rfl, hkey⟩
    · exact leadCount_obeys cfg item hkey rfl rfl rfl rfl rfl
    · exact followCount_obeys item hkey rfl rfl rfl rfl

/-! ## Many items -/

/-- How a batch stands after the election `e`: its entries are those of the keys it leads, and
    it waits for those it follows. -/
structure Standing (e : Election) (g : Stand) : Prop where
  entered : ∀ key ∈ g.entered, key ∈ e.leaderKeys ++ e.followerRxs.map Prod.fst
  leads : ∀ id ∈ g.leads, id.1 ∈ e.leaderKeys
  led : ∀ key ∈ e.leaderKeys, ∃ id ∈ g.leads, id.1 = key
  unsent : g.unsent = g.leads
  waits : g.waits = e.followerRxs.map Prod.snd
  followed : ∀ key ∈ g.followed, key ∈ e.followerRxs.map Prod.fst
  holds : g.holds = []

theorem standing_fresh : Standing ⟨[], [], []⟩ .fresh :=
  ⟨nofun, nofun, nofun, rfl, rfl, nofun, rfl⟩

theorem electLoop_obeys {items : List Item} {missing : MissingMap} (keys : List CacheKey)
    {visited : List CacheKey} {e : Election} (hnodup : (visited ++ keys).Nodup)
    (he : Elected items missing visited e) (hg : Standing e g) :
    flightRules.Obeys (fun g e => Elected items missing (visited ++ keys) e ∧ Standing e g) g
      (electLoop items missing keys e) := by
  induction keys generalizing visited e g with
  | nil => exact ⟨by simpa using he, hg⟩
  | cons key keys ih =>
    have hnew : key ∉ visited := by
      have := (List.nodup_append.mp hnodup).2.2
      exact fun hmem => this key hmem key List.mem_cons_self rfl
    have happ : visited ++ key :: keys = (visited ++ [key]) ++ keys := by simp
    rw [happ] at hnodup ⊢
    refine ⟨fun hmem => hnew (he.sorted.mem_iff.mp (hg.entered key hmem)), ?_⟩
    rintro (id | rx) g' ⟨rfl, hkey⟩
    · have hkey : id.1 = key := hkey
      refine ih hnodup he.lead ⟨?_, ?_, ?_, ?_, hg.waits, hg.followed, hg.holds⟩
      · rintro key' (_ | ⟨_, hmem⟩)
        · simp
        · have := hg.entered key' hmem
          simp only [List.mem_append, List.mem_singleton] at this ⊢
          tauto
      · rintro id' (_ | ⟨_, hmem⟩)
        · simp [hkey]
        · exact List.mem_append_left _ (hg.leads id' hmem)
      · intro key' hmem
        rcases List.mem_append.mp hmem with hmem | hmem
        · obtain ⟨id', hid', hk⟩ := hg.led key' hmem
          exact ⟨id', List.mem_cons_of_mem _ hid', hk⟩
        · cases List.mem_singleton.mp hmem
          exact ⟨id, List.mem_cons_self, hkey⟩
      · show id :: g.unsent = id :: g.leads
        rw [hg.unsent]
    · refine ih hnodup (he.follow hkey) ⟨?_, hg.leads, hg.led, hg.unsent, ?_, ?_, hg.holds⟩
      · rintro key' (_ | ⟨_, hmem⟩)
        · simp
        · have := hg.entered key' hmem
          simp only [List.mem_append, List.map_append] at this ⊢
          tauto
      · show g.waits ++ [rx] = _
        rw [hg.waits, List.map_append]
        rfl
      · rintro key' (_ | ⟨_, hmem⟩)
        · simp
        · rw [List.map_append]
          exact List.mem_append_left _ (hg.followed key' hmem)

/-- The entries of a call are those of `keys`. -/
structure Leading (keys : List CacheKey) (g : Stand) : Prop where
  nodup : keys.Nodup
  leads : ∀ id ∈ g.leads, id.1 ∈ keys
  led : ∀ key ∈ keys, ∃ id ∈ g.leads, id.1 = key

/-- Taking the entry of the first key out. -/
theorem Leading.tail {key : CacheKey} {keys : List CacheKey} (h : Leading (key :: keys) g)
    (unsent holds : List ChanId) :
    Leading keys { g with leads := g.leads.filter (fun id => id.1 ≠ key), unsent := unsent,
                          holds := holds } := by
  have hnew : key ∉ keys := (List.nodup_cons.mp h.nodup).1
  refine ⟨(List.nodup_cons.mp h.nodup).2, fun id hid => ?_, fun key' hkey' => ?_⟩
  · obtain ⟨hid, hne⟩ := List.mem_filter.mp hid
    exact (List.mem_cons.mp (h.leads id hid)).resolve_left (by simpa using hne)
  · obtain ⟨id, hid, hk⟩ := h.led key' (List.mem_cons_of_mem _ hkey')
    refine ⟨id, List.mem_filter.mpr ⟨hid, ?_⟩, hk⟩
    have hne : key' ≠ key := fun he => hnew (he ▸ hkey')
    simpa [hk] using hne

/-- Without keys there are no entries. -/
theorem Leading.leads_nil (h : Leading [] g) : g.leads = [] :=
  List.eq_nil_iff_forall_not_mem.mpr fun id hid => by cases h.leads id hid

/-- What the loops over `leader_keys` leave alone. -/
def SameWaits {α : Type} (g₀ g : Stand) (_ : α) : Prop :=
  g.leads = [] ∧ g.unsent = [] ∧ g.holds = [] ∧ g.waits = g₀.waits

theorem leaderLoop_obeys {cfg : Config} {items : List Item} {missing : MissingMap}
    {countMap : Item → Option I64} (keys : List CacheKey) {results : List BatchCountResult}
    {entries : List (CacheKey × String × ℕ)} (hlead : Leading keys g)
    (hunsent : ∀ id, id ∈ g.unsent ↔ id ∈ g.leads) (hholds : g.holds = []) :
    flightRules.Obeys (SameWaits g) g
      (leaderLoop cfg items missing countMap keys results entries) := by
  induction keys generalizing g results entries with
  | nil =>
    refine ⟨hlead.leads_nil, List.eq_nil_iff_forall_not_mem.mpr fun id hid => ?_, hholds, rfl⟩
    have hid := (hunsent id).mp hid
    rw [hlead.leads_nil] at hid
    cases hid
  | cons key keys ih =>
    obtain ⟨tx, htx, hkey⟩ := hlead.led key List.mem_cons_self
    refine ⟨⟨tx, htx, hkey⟩, ?_⟩
    rintro r g' ⟨rfl, hr⟩
    cases hr tx htx hkey
    refine ⟨(hunsent tx).mpr htx, ?_⟩
    rintro r g' ⟨rfl, -⟩
    refine ⟨by simp, ?_⟩
    rintro r g' ⟨rfl, -⟩
    have hback : (tx :: g.holds).erase tx = g.holds := List.erase_cons_head ..
    refine (ih (hlead.tail (g.unsent.filter (· ≠ tx)) _) (fun id => ?_)
      (hback.trans hholds)).mono fun g a h => h
    -- the channel that is done with is the call's only one for this key
    show id ∈ g.unsent.filter (· ≠ tx) ↔ id ∈ g.leads.filter fun id => id.1 ≠ key
    simp only [List.mem_filter, hunsent, decide_eq_true_eq]
    refine and_congr_right fun hid => not_congr ⟨fun he => he ▸ hkey, fun hk => ?_⟩
    exact Option.some.inj (hr id hid hk).symm

theorem removeLoop_obeys (keys : List CacheKey) (hlead : Leading keys g) (hunsent : g.unsent = [])
    (hholds : g.holds = []) :
    flightRules.Obeys (SameWaits g) g (removeLoop keys) := by
  induction keys generalizing g with
  | nil => exact ⟨hlead.leads_nil, hunsent, hholds, rfl⟩
  | cons key keys ih =>
    obtain ⟨tx, htx, hkey⟩ := hlead.led key List.mem_cons_self
    refine (removePending_obeys (Q := fun g' _ =>
      g' = { g with leads := g.leads.filter fun id => id.1 ≠ key }) htx hkey
      (by simp [hunsent]) rfl).bind ?_
    rintro g' - rfl
    exact (ih (hlead.tail g.unsent g.holds) hunsent hholds).mono fun g a h => h

theorem dropReceivers_obeys (rxs : List (CacheKey × Receiver)) {g₀ : Stand} (hg : g = g₀)
    (hwaits : g₀.waits = []) :
    flightRules.Obeys (fun g _ => g = g₀) g (dropReceivers rxs) := by
  subst hg
  induction rxs with
  | nil => rfl
  | cons x rxs ih =>
    refine ⟨by simp [hwaits], ?_⟩
    rintro r g' ⟨rfl, -⟩
    exact ih

theorem followerLoop_obeys {cfg : Config} {items : List Item} {missing : MissingMap}
    (htracked : Tracked items missing) (rxs : List (CacheKey × Receiver))
    {results : List BatchCountResult} (hmissing : ∀ x ∈ rxs, x.1 ∈ missing.keys)
    (hchan : ∀ x ∈ rxs, x.2.chan.1 = x.1) (hnodup : (rxs.map Prod.fst).Nodup)
    (hleads : g.leads = []) (hunsent : g.unsent = []) (hholds : g.holds = []) (hwaits : g.waits = rxs.map Prod.snd) :
    flightRules.Obeys Stand.Done g (followerLoop cfg items missing rxs results) := by
  induction rxs generalizing g results with
  | nil => exact ⟨hleads, hunsent, hwaits, hholds⟩
  | cons x rxs ih =>
    obtain ⟨key, rx⟩ := x
    have hkey : rx.chan.1 = key := hchan (key, rx) List.mem_cons_self
    have hrest : g.waits.erase rx = rxs.map Prod.snd := by rw [hwaits]; simp
    -- the channel of this subscription is not among those still waited for
    have hfree : rx.chan ∉ (rxs.map Prod.snd).map Receiver.chan := by
      intro hmem
      rw [List.map_map] at hmem
      obtain ⟨y, hy, hych⟩ := List.mem_map.mp hmem
      refine (List.nodup_cons.mp hnodup).1 (List.mem_map.mpr ⟨y, hy, ?_⟩)
      rw [← hchan y (List.mem_cons_of_mem _ hy), ← hkey]
      exact congrArg Prod.fst hych
    have hih : ∀ g results, g.leads = [] → g.unsent = [] → g.holds = [] → g.waits = rxs.map Prod.snd →
        flightRules.Obeys Stand.Done g (followerLoop cfg items missing rxs results) :=
      fun g results => ih (fun y hy => hmissing y (List.mem_cons_of_mem _ hy))
        (fun y hy => hchan y (List.mem_cons_of_mem _ hy)) (List.nodup_cons.mp hnodup).2
    refine (awaitSharedCount_obeys (Q := fun g count => g.leads = [] ∧ g.unsent = [] ∧
      g.holds = [] ∧ g.waits = rxs.map Prod.snd ∧ (count = none → key ∉ g.followed))
      (by simp [hwaits]) hleads hholds (fun count => ⟨hleads, hunsent, hholds, hrest, nofun⟩)
      ⟨hleads, hunsent, hholds, hrest, fun _ => by simp [hkey]⟩).bind ?_
    rintro g (_ | count) ⟨hleads, hunsent, hholds, hwaits, hnone⟩
    · have hmem : key ∈ missing.keys := hmissing (key, rx) List.mem_cons_self
      obtain ⟨item, hfirst, hitem⟩ := htracked.firstItem hmem
      simp only [hfirst]
      refine ⟨by rw [← hitem] at hnone; exact hnone rfl, ?_⟩
      rintro (error | row) g ⟨rfl, -⟩
      · refine (dropReceivers_obeys _ rfl rfl).bind ?_
        rintro g - rfl
        exact ⟨hleads, rfl, rfl, hholds⟩
      · refine (cache_obeys (Q := fun g' _ => g' = g) fun _ => rfl).bind ?_
        rintro g' - rfl
        refine ⟨by rw [← hwaits] at hfree; exact hfree, ?_⟩
        rintro r g ⟨rfl, -⟩
        exact hih _ _ hleads hunsent hholds hwaits
    · refine ⟨by rw [← hwaits] at hfree; exact hfree, ?_⟩
      rintro r g ⟨rfl, -⟩
      exact hih _ _ hleads hunsent hholds hwaits

theorem fetchMissing_obeys (cfg : Config) {items : List Item} {missing : MissingMap}
    {results : List BatchCountResult} {visited : List CacheKey} {e : Election}
    (htracked : Tracked items missing) (hvisited : ∀ key ∈ visited, key ∈ missing.keys)
    (hnodup : visited.Nodup) (he : Elected items missing visited e) (hg : Standing e g) :
    flightRules.Obeys Stand.Done g (fetchMissing cfg items missing results e) := by
  have hall : (e.leaderKeys ++ e.followerRxs.map Prod.fst).Nodup := he.sorted.nodup_iff.mpr hnodup
  obtain ⟨hleaders, hfollowers, hdisjoint⟩ := List.nodup_append.mp hall
  have hfollow : ∀ (g : Stand) (results : List BatchCountResult), g.leads = [] →
      g.unsent = [] → g.holds = [] → g.waits = e.followerRxs.map Prod.snd →
      flightRules.Obeys Stand.Done g (followerLoop cfg items missing e.followerRxs results) := by
    refine fun g results hleads hunsent hholds hwaits =>
      followerLoop_obeys htracked _ (fun x hx => ?_) he.chan hfollowers hleads hunsent hholds hwaits
    exact hvisited _ (he.sorted.mem_iff.mp
      (List.mem_append_right _ (List.mem_map.mpr ⟨x, hx, rfl⟩)))
  have hlead : Leading e.leaderKeys g := ⟨hleaders, hg.leads, hg.led⟩
  unfold fetchMissing
  split_ifs with hfetch
  · have hnone := he.leaderKeys_nil htracked hvisited hfetch
    rw [hnone] at hlead
    exact hfollow g results hlead.leads_nil (hg.unsent.trans hlead.leads_nil) hg.holds
      hg.waits
  · -- the keys that are queried are led, so they are not followed
    have hask : ∀ item ∈ e.toFetch, countCacheKey item ∉ g.followed := fun item hitem hmem =>
      hdisjoint _ (he.key_of_mem htracked hvisited hitem) _ (hg.followed _ hmem) rfl
    unfold Repositories.batchGetCounts
    rw [if_neg hfetch]
    refine ⟨hask, ?_⟩
    rintro (error | rows) g' ⟨rfl, -⟩
    · refine (removeLoop_obeys (g := { g with unsent := [], waits := [] }) _
        ⟨hleaders, hg.leads, hg.led⟩ rfl hg.holds).bind ?_
      rintro g' - ⟨hleads, hunsent, hholds, hwaits⟩
      refine (dropReceivers_obeys _ rfl hwaits).bind ?_
      rintro g'' - rfl
      exact ⟨hleads, hunsent, hwaits, hholds⟩
    · refine (leaderLoop_obeys _ hlead (fun id => by rw [hg.unsent]) hg.holds).bind ?_
      rintro g' filled ⟨hleads, hunsent, hholds, hwaits⟩
      refine (cache_obeys (Q := fun g'' _ => g'' = g') fun _ => rfl).bind ?_
      rintro g'' - rfl
      exact hfollow _ _ hleads hunsent hholds (hwaits.trans hg.waits)

theorem batchCounts_obeys (cfg : Config) (items : List Item) :
    flightRules.Obeys Stand.Done .fresh (batchCounts cfg items) := by
  unfold batchCounts
  split_ifs
  · exact ⟨rfl, rfl, rfl, rfl⟩
  · refine (cache_obeys (Q := fun g _ => g = .fresh) fun _ => rfl).bind ?_
    rintro g cached rfl
    show flightRules.Obeys Stand.Done .fresh (if _ then _ else _)
    split_ifs
    · exact ⟨rfl, rfl, rfl, rfl⟩
    · refine ⟨trivial, ?_⟩
      rintro order g ⟨rfl, -⟩
      have htracked := splitCached_tracked cached items
      have hperm := shuffle_perm order (splitCached cached 0 items [] []).2.keys
      refine (electLoop_obeys _ (by simpa using hperm.nodup_iff.mpr htracked.nodup)
        elected_nil standing_fresh).bind ?_
      rintro g e ⟨he, hg⟩
      exact fetchMissing_obeys cfg htracked (fun key hkey => hperm.mem_iff.mp (by simpa using hkey))
        (by simpa using hperm.nodup_iff.mpr htracked.nodup) he hg

end Obeys

end SocialApi.Services
