import SocialApi.Concurrent.Mending
import SocialApi.Services.Events
import SocialApi.Streams

/-!
# The last event on a channel

A client that displays the count of the latest event shows the right number once all calls are
over if the last event of the item's channel is the one of the last commit. Between its commit and
its publish a call performs nine operations on the cache, and another call can commit and publish
meanwhile.

* `lastEventsRight_of_meets`: in a run in which no event is overtaken by that of the item's last
  change (`NotOvertaken`), the last event of every channel has the item's count whenever no call
  is in progress.
* `overtaken_wrong`: a like and an unlike, published in the other order; the last event says 1,
  and the item has no likes.
-/

namespace SocialApi.Services

open SocialApi.Concurrent SocialApi.Postgres SocialApi.Repositories SocialApi.Streams

/-! ## The last event and the last change -/

/-- The count that an event tells. -/
def likeEventCount : LikeEvent → I64
  | .liked _ count _ => count
  | .unliked _ count _ => count

/-- The last event on the channel of the item. -/
def lastEvent (published : List (Item × LikeEvent)) (item : Item) : Option LikeEvent :=
  (delivered (publishChannel item.1 item.2) published).getLast?

theorem lastEvent_snoc (published : List (Item × LikeEvent)) (item : Item) (e : Item × LikeEvent) :
    lastEvent (published ++ [e]) item = if e.1 = item then some e.2 else lastEvent published item := by
  unfold lastEvent
  rw [delivered_publishChannel, delivered_publishChannel, List.filter_append, List.map_append]
  split_ifs with h
  · simp [h]
  · simp [h]

/-- The last event on the channel of the item, if any, has the item's count. -/
def EventRight {ι : Type} (s : World ι) (item : Item) : Prop :=
  ∀ event, lastEvent s.published item = some event →
    likeEventCount event = s.db.store.committed.totalCount item

section Latest

variable {ι : Type}

/-- The last operation that has changed the count of the item. -/
def latest (log : List (Effect ι)) (item : Item) : Option (Effect ι) :=
  (log.filter fun p => p.tablesAfter.likeCounts item ≠ p.tablesBefore.likeCounts item).getLast?

theorem latest_snoc (log : List (Effect ι)) (p : Effect ι) (item : Item) :
    latest (log ++ [p]) item =
      if p.tablesAfter.likeCounts item = p.tablesBefore.likeCounts item then latest log item
      else some p := by
  unfold latest
  rw [List.filter_append]
  split_ifs with h
  · simp [h]
  · simp [h]

/-- An operation that has changed the count of the item is not the last one only if there is
    another. -/
theorem latest_of_mem {log : List (Effect ι)} {p : Effect ι} {item : Item} (hp : p ∈ log)
    (hitem : p.tablesAfter.likeCounts item ≠ p.tablesBefore.likeCounts item) :
    ∃ q ∈ log, latest log item = some q ∧
      q.tablesAfter.likeCounts item ≠ q.tablesBefore.likeCounts item := by
  have hmem : p ∈ log.filter fun p =>
      p.tablesAfter.likeCounts item ≠ p.tablesBefore.likeCounts item :=
    List.mem_filter.mpr ⟨hp, decide_eq_true hitem⟩
  have hlast := List.getLast_mem (List.ne_nil_of_mem hmem)
  obtain ⟨hin, hchanges⟩ := List.mem_filter.mp hlast
  exact ⟨_, hin, List.getLast?_eq_some_getLast _, of_decide_eq_true hchanges⟩

/-- A change changes the count of its own item and of no other. -/
theorem Changed.likeCounts_ne {t t' : Tables} {ch : Change} (h : Changed t ch t') (item : Item) :
    t'.likeCounts item ≠ t.likeCounts item ↔ item = ch.key.2 := by
  constructor
  · intro hne
    by_contra hitem
    refine hne ?_
    rw [h.counts, Function.update_of_ne hitem]
  · rintro rfl heq
    have hcounts := h.likesOf ch.key.2
    have hbefore := h.before.count ch.key.2
    have hafter := h.after.count ch.key.2
    unfold Tables.totalCount at hbefore hafter
    rw [heq, hbefore] at hafter
    rw [if_pos rfl] at hcounts
    split_ifs at hcounts
    · omega
    · omega

end Latest

/-! ## Runs -/

variable {ι : Type}

/-- An event is published while the item's last change is the call's own or that of a call whose
    event is not yet published. -/
def NotOvertaken [DecidableEq ι] (c : RecordedConfig ι) (a : Act ι Request SvcChoice) : Prop :=
  ∀ i k event item f x, a = .step i x → c.calls i = .running k (.op (.publish event item) f) →
    ∀ p, latest c.shared.2 item = some p →
      p.call = i ∨ (effectsOf c.shared.2 p.call).filterMap Effect.event = []

/-- No call is dropped. -/
def Kept (a : Act ι Request SvcChoice) : Prop := ∀ i, a ≠ .drop i

/-- What is known of the calls and the record in a run without drops. -/
structure Ordered [DecidableEq ι] (C : Codec) (c : RecordedConfig ι) : Prop where
  books : Books C c
  kept : ∀ i k, c.calls i ≠ .dropped k
  lastCount : ∀ item p, latest c.shared.2 item = some p →
    c.shared.1.db.store.committed.likeCounts item = p.tablesAfter.likeCounts item

/-- The operation publishes an event with the item's count. -/
def Announces (s : World ι) (item : Item) (o : SvcOp) : Prop :=
  ∃ event, o = .publish event item ∧ likeEventCount event = s.db.store.committed.totalCount item

variable {cfg : Config} {C : Codec}

theorem announces_of_pays {s : World ι} {ch : Change} {o : SvcOp} (h : ch.Pays C .event o)
    (hcount : s.db.store.committed.totalCount ch.key.2 = ch.count) :
    Announces s ch.key.2 o := by
  cases o with
  | publish event item =>
    have hreports : ch.Reports item event := h
    have hitem : item = ch.key.2 := congrArg Prod.snd (Change.Reports.key (e := (item, event)) hreports).1
    subst hitem
    refine ⟨event, rfl, ?_⟩
    rw [hcount]
    cases event with
    | liked userId count timestamp => exact hreports.2.1
    | unliked userId count timestamp => exact hreports.2.1
  | _ => exact h.elim

/-- An operation changes no table, or commits a change of which the call then owes the event. -/
theorem LedgerInv.change_or_same [DecidableEq ι] {s s' : World ι} {γ : ι → Option Ledger} {i : ι}
    {g : Ledger}
    (h : LedgerInv s γ) (hγ : γ i = some g) {o : SvcOp} {x : SvcChoice} {r : o.Ans}
    (hasks : (ledger C).asks g o) (hs : handle cfg s i o x = some (s', r)) :
    s'.db.store.committed = s.db.store.committed ∨
      ∃ ch, (g.next C o r).change = some ch ∧ (g.next C o r).owes .event ∧
        Changed s.db.store.committed ch s'.db.store.committed ∧ s'.published = s.published := by
  by_cases ho : o.OffDb
  · exact Or.inl (congrArg (fun d => d.store.committed) (handle_offDb hs ho))
  · cases o with
    | db q =>
      obtain ⟨-, -, ⟨-, hsame⟩ | ⟨ch, hch, -, hchanged⟩⟩ := h.statement (C := C) hγ hasks hs
      · exact Or.inl hsame
      · refine Or.inr ⟨ch, hch, ?_, hchanged, (handle_silent hs id).published⟩
        show Ledger.owing (g.changeAfter q r) .event
        rw [hch]
        trivial
    | _ => exact absurd trivial ho

/-- The call of a running operation, with its ledger and what comes after the answer. -/
theorem Books.running [DecidableEq ι] {c : RecordedConfig ι} (hc : Books C c) {i : ι} {k : Request}
    {o : SvcOp}
    {f : o.Ans → Svc (Except AppError Reply)} (hi : c.calls i = .running k (.op o f)) :
    ∃ γ g, RecordInv c.shared γ ∧ γ i = some g ∧ (ledger C).asks g o ∧
      (∀ r, g.Fits o r → (ledger C).Obeys k.Ends (g.next C o r) (f r)) ∧
      ∀ j, Pool.Follows (ledger C) Request.Ends (γ j) (c.calls j) := by
  obtain ⟨γ, hinv, hF⟩ := hc.inv
  have hfollows := hF i
  rw [hi] at hfollows
  obtain ⟨g, hγ, hobeys⟩ := hfollows
  exact ⟨γ, g, hinv, hγ, hobeys.1, fun r hfits => hobeys.2 r _ ⟨rfl, hfits⟩, hF⟩

/-- The last change of an item of which the event has not been published is that of a call that
    is bound to publish it. -/
theorem Ordered.promised [DecidableEq ι] {c : RecordedConfig ι} (hc : Ordered C c) {item : Item}
    {p : Effect ι}
    (hp : p ∈ c.shared.2) (hlatest : latest c.shared.2 item = some p)
    (hchanges : p.tablesAfter.likeCounts item ≠ p.tablesBefore.likeCounts item)
    (hunpublished : (effectsOf c.shared.2 p.call).filterMap Effect.event = []) :
    Pool.Promised c (Announces c.shared.1 item) p.call := by
  have hin : p ∈ changes (effectsOf c.shared.2 p.call) := by
    refine mem_changes.mpr ⟨List.mem_filter.mpr ⟨hp, decide_eq_true rfl⟩, fun heq => ?_⟩
    rw [heq] at hchanges
    exact hchanges rfl
  obtain ⟨γ, hinv, hF⟩ := hc.books.inv
  have hfollows := hF p.call
  cases hcall : c.calls p.call with
  | idle => exact absurd hcall (hc.books.started p hp)
  | dropped k => exact absurd hcall (hc.kept p.call k)
  | returned k a =>
    have hreported := (hc.books.returned p.call k a hcall).events.2
    rw [hunpublished, List.forall₂_nil_right_iff] at hreported
    rw [hreported] at hin
    exact absurd hin List.not_mem_nil
  | running k q =>
    rw [hcall] at hfollows
    obtain ⟨g, hγ, hobeys⟩ := hfollows
    have htold := hinv.told p.call g hγ
    cases hch : g.change with
    | none =>
      rw [(htold.unchanged hch).1] at hin
      exact absurd hin List.not_mem_nil
    | some ch =>
      obtain ⟨p', hown, hchanged⟩ := htold.changed ch hch
      rw [hown] at hin
      obtain rfl := List.mem_singleton.mp hin
      have howes : g.owes .event := by
        by_contra hpaid
        obtain ⟨item', event, hevents, -⟩ := htold.paid ch hch hpaid
        rw [hunpublished] at hevents
        cases hevents
      obtain rfl := (hchanged.likeCounts_ne item).mp hchanges
      have hcount : c.shared.1.db.store.committed.totalCount ch.key.2 = ch.count := by
        unfold Tables.totalCount
        rw [hc.lastCount _ p hlatest, hchanged.counts, Function.update_self]
        rfl
      exact ⟨k, q, hcall, (willIn_of_owes hobeys hch howes).mono fun o ho =>
        announces_of_pays ho hcount⟩

theorem ordered_step [DecidableEq ι] (c : RecordedConfig ι) (a : Act ι Request SvcChoice)
    (c' : RecordedConfig ι)
    (hc : Ordered C c) (ha : Kept a) (hstep : (service cfg C).recorded.machine.step c a = some c') :
    Ordered C c' := by
  refine ⟨books_step cfg C c a c' hc.books hstep, ?_, ?_⟩
  · have hupdate : ∀ i (cs : CallState Request SvcOp SvcOp.Ans (Except AppError Reply)) j k,
        (∀ k, cs ≠ .dropped k) → Function.update c.calls i cs j ≠ .dropped k := by
      intro i cs j k hcs
      by_cases hji : j = i
      · subst hji
        rw [Function.update_self]
        exact hcs k
      · rw [Function.update_of_ne hji]
        exact hc.kept j k
    have hsettle : ∀ (k : Request) (p : Svc (Except AppError Reply)) k',
        CallState.settle k p ≠ .dropped k' := by
      intro k p k'
      cases p <;> exact nofun
    rcases Pool.act_cases hstep with ⟨i, k, s, -, -, -, rfl⟩ | ⟨i, x, k, e, f, s, r, -, -, -, rfl⟩ |
      ⟨i, k, p, s, rfl, -⟩ | ⟨x, s, -, -, rfl⟩
    · exact fun j k' => hupdate _ _ _ _ (hsettle _ _)
    · exact fun j k' => hupdate _ _ _ _ (hsettle _ _)
    · exact absurd rfl (ha i)
    · exact hc.kept
  · intro item p hp
    rcases Pool.act_cases hstep with ⟨i, k, s, -, -, hs, rfl⟩ |
      ⟨i, x, k, e, f, s, r, -, -, hs, rfl⟩ | ⟨i, k, q, s, rfl, -⟩ | ⟨x, s, -, hs, rfl⟩
    · cases hs
      exact hc.lastCount item p hp
    · obtain ⟨s', -, rfl⟩ := Pool.recorded_handle hs
      have hp : latest (c.shared.2 ++ [_]) item = some p := hp
      rw [latest_snoc] at hp
      split_ifs at hp with hsame
      · exact hsame.trans (hc.lastCount item p hp)
      · cases hp
        rfl
    · exact absurd rfl (ha i)
    · obtain ⟨s', hs', rfl⟩ := Option.map_eq_some_iff.mp hs
      cases x with
      | evict layer key => cases hs'; exact hc.lastCount item p hp
      | _ => cases hs'

/-! ## The channels are right in the end -/

/-- Every event is delivered and every call finishes; no event is overtaken by that of the item's
    last change. -/
def InOrder [DecidableEq ι] (c : RecordedConfig ι) (a : Act ι Request SvcChoice) : Prop :=
  (Kept a ∧ Delivers a) ∧ NotOvertaken c a

theorem announces_congr {s s' : World ι} {item : Item}
    (h : s'.db.store.committed.totalCount item = s.db.store.committed.totalCount item) :
    Announces s' item = Announces s item := by
  unfold Announces
  rw [h]

theorem eventRight_congr {s s' : World ι} {item : Item}
    (h : s'.db.store.committed.totalCount item = s.db.store.committed.totalCount item)
    (hpublished : lastEvent s'.published item = lastEvent s.published item)
    (hright : EventRight s item) : EventRight s' item := by
  intro event hevent
  rw [hpublished] at hevent
  rw [h]
  exact hright event hevent

/-- After the commit of a change the call is bound to announce the new count; the other items are
    as before. -/
theorem committed_announces {s s' : World ι} {g : Ledger} {k : Request}
    {p : Svc (Except AppError Reply)} {ch : Change} (hobeys : (ledger C).Obeys k.Ends g p)
    (hchange : g.change = some ch) (howes : g.owes .event)
    (hchanged : Changed s.db.store.committed ch s'.db.store.committed)
    (hpublished : s'.published = s.published) (item : Item) :
    p.WillIn (Announces s' item) ∨
      Announces s' item = Announces s item ∧ (EventRight s item → EventRight s' item) := by
  by_cases hitem : item = ch.key.2
  · subst hitem
    refine Or.inl ((willIn_of_owes hobeys hchange howes).mono fun o ho => announces_of_pays ho ?_)
    unfold Tables.totalCount
    rw [hchanged.counts, Function.update_self]
    rfl
  · have htotal : s'.db.store.committed.totalCount item = s.db.store.committed.totalCount item := by
      unfold Tables.totalCount
      rw [hchanged.counts, Function.update_of_ne hitem]
    refine Or.inr ⟨announces_congr htotal, eventRight_congr htotal ?_⟩
    rw [hpublished]

variable [DecidableEq ι]

/-- The event of the item's last change has the item's count, and one that is not overtaken leaves
    the channel to the call of that change. -/
theorem Ordered.published {c : RecordedConfig ι} (hc : Ordered C c) {γ : ι → Option Ledger}
    (hinv : RecordInv c.shared γ) {i : ι} {g : Ledger} (hγ : γ i = some g) {event : LikeEvent}
    {item : Item} (hasks : (ledger C).asks g (.publish event item))
    (horder : ∀ p, latest c.shared.2 item = some p →
      p.call = i ∨ (effectsOf c.shared.2 p.call).filterMap Effect.event = []) :
    likeEventCount event = c.shared.1.db.store.committed.totalCount item ∨
      ∃ j, j ≠ i ∧ Pool.Promised c (Announces c.shared.1 item) j := by
  obtain ⟨-, ch, hch, hreports⟩ := hasks
  obtain ⟨own, howns, hchanged⟩ := (hinv.told i g hγ).changed ch hch
  have hown : own ∈ effectsOf c.shared.2 i :=
    (mem_changes.mp (howns ▸ List.mem_singleton_self own)).1
  have hitem : item = ch.key.2 := congrArg Prod.snd (Change.Reports.key (e := (item, event)) hreports).1
  obtain ⟨p, hp, hlatest, hchanges⟩ := latest_of_mem (List.mem_filter.mp hown).1
    ((hchanged.likeCounts_ne item).mpr hitem)
  by_cases hcall : p.call = i
  · have hin : p ∈ changes (effectsOf c.shared.2 i) := by
      refine mem_changes.mpr ⟨List.mem_filter.mpr ⟨hp, decide_eq_true hcall⟩, fun heq => ?_⟩
      rw [heq] at hchanges
      exact hchanges rfl
    rw [howns] at hin
    obtain rfl := List.mem_singleton.mp hin
    left
    unfold Tables.totalCount
    rw [hc.lastCount item p hlatest, hchanged.counts, hitem, Function.update_self]
    cases event with
    | liked userId count timestamp => exact hreports.2.1
    | unliked userId count timestamp => exact hreports.2.1
  · right
    exact ⟨p.call, hcall, hc.promised hp hlatest hchanges
      ((horder p hlatest).resolve_left hcall)⟩

variable (cfg C) in
theorem service_tends :
    Pool.Tends (service (ι := ι) cfg C).recorded (Ordered C) InOrder
      (fun s item => EventRight s.1 item) (fun s item => Announces s.1 item) (fun _ => True) where
  start c i k s _ _ hs item _ := by
    cases hs
    exact ⟨rfl, id⟩
  step c i x k o f s r hc ha hi hs item _ := by
    obtain ⟨s', hs', rfl⟩ := Pool.recorded_handle hs
    obtain ⟨γ, g, hinv, hγ, hasks, hobeys, -⟩ := hc.books.running hi
    have hrest := hobeys r (hinv.ledger.fits hγ hasks hs')
    rcases hinv.ledger.change_or_same hγ hasks hs' with hsame | ⟨ch, hch, howes, hchanged, hpub⟩
    · have htotal : s'.db.store.committed.totalCount item =
          c.shared.1.db.store.committed.totalCount item := by
        unfold Tables.totalCount
        rw [hsame]
      have hpublished := published_of_handle hs' fun hx => ha.1.2 i (by rw [hx])
      refine Or.inr ⟨announces_congr htotal, ?_, fun hright => ?_⟩
      · rintro ⟨event, rfl, hcount⟩ event' hevent'
        rw [hpublished] at hevent'
        have hevent' : lastEvent (c.shared.1.published ++ [(item, event)]) item = some event' :=
          hevent'
        rw [lastEvent_snoc, if_pos rfl] at hevent'
        cases hevent'
        rw [htotal]
        exact hcount
      · by_cases ho : ∃ event, o = .publish event item
        · obtain ⟨event, rfl⟩ := ho
          rcases hc.published hinv hγ hasks (ha.2 i k event item f x rfl hi) with hcount | hother
          · left
            intro event' hevent'
            rw [hpublished] at hevent'
            have hevent' : lastEvent (c.shared.1.published ++ [(item, event)]) item = some event' :=
              hevent'
            rw [lastEvent_snoc, if_pos rfl] at hevent'
            cases hevent'
            rw [htotal]
            exact hcount
          · exact Or.inr hother
        · left
          refine eventRight_congr htotal ?_ hright
          rw [hpublished]
          cases o with
          | publish event item' =>
            have hne : item' ≠ item := by
              rintro rfl
              exact ho ⟨event, rfl⟩
            show lastEvent (c.shared.1.published ++ [(item', event)]) item = _
            rw [lastEvent_snoc, if_neg hne]
          | _ =>
            show lastEvent (c.shared.1.published ++ []) item = _
            rw [List.append_nil]
    · rcases committed_announces hrest hch howes hchanged hpub item with hwill | ⟨hmends, hright⟩
      · exact Or.inl hwill
      · refine Or.inr ⟨hmends, ?_, fun h => Or.inl (hright h)⟩
        rintro ⟨event, rfl, -⟩
        -- an event is no commit
        have hdb := handle_offDb hs' trivial
        rw [hdb] at hchanged
        exact absurd rfl hchanged.ne
  drop c i s _ ha _ item _ := absurd rfl (ha.1.1 i)
  env c x s _ _ hs item _ := by
    obtain ⟨s', hs', rfl⟩ := Option.map_eq_some_iff.mp hs
    cases x with
    | evict layer key => cases hs'; exact ⟨rfl, id⟩
    | _ => cases hs'

variable (cfg C) in
/-- When every event is delivered and no call is dropped, and no event is overtaken by that of the
    item's last change, then whenever no call is in progress the last event on the channel of each
    item has the item's count. -/
theorem lastEventsRight_of_meets (init : RecordedConfig ι) (acts : List (Act ι Request SvcChoice))
    (hidle : ∀ i, init.calls i = .idle) (hlog : init.shared.2 = [])
    (hpublished : init.shared.1.published = [])
    (htables : ∃ t, Consistent t ∧ init.shared.1.db.store = .ofTables t)
    (hkept : ∀ i, .drop i ∉ acts) (hdelivered : ∀ i, .step i (.published false) ∉ acts)
    (horder : (service cfg C).recorded.machine.Meets NotOvertaken init acts) :
    (service cfg C).recorded.machine.Along
      (fun c => (∀ i, ¬ (c.calls i).Active) → ∀ item, EventRight c.shared.1 item) init acts := by
  obtain ⟨t, ht, hstore⟩ := htables
  have hinit : Ordered C init := by
    refine ⟨books_init C hidle hlog (ledgerInv_ofTables ht hstore), fun i k hi => ?_, ?_⟩
    · rw [hidle i] at hi
      cases hi
    · intro item p hp
      rw [hlog] at hp
      cases hp
  have hlabels : (service cfg C).recorded.machine.Meets (fun _ a => Kept a ∧ Delivers a) init acts := by
    refine Machine.meets_of_labels (fun a ha => ⟨fun i heq => ?_, fun i heq => ?_⟩) init
    · exact hkept i (heq ▸ ha)
    · exact hdelivered i (heq ▸ ha)
  refine ((service_tends cfg C).right_along (fun c a c' hc ha hstep => ?_) hinit
    (fun item _ => ?_) (hlabels.and horder)).mono fun c hc hquiet item => hc hquiet item trivial
  · exact ordered_step c a c' hc ha.1.1 hstep
  · intro event hevent
    rw [hpublished] at hevent
    cases hevent

/-! ## A like and an unlike -/

/-- `NotOvertaken`, computed. -/
def notOvertaken (c : RecordedConfig ι) : Act ι Request SvcChoice → Bool
  | .step i _ =>
    match c.calls i with
    | .running _ (.op (.publish _ item) _) => (latest c.shared.2 item).all fun p =>
        decide (p.call = i ∨ (effectsOf c.shared.2 p.call).filterMap Effect.event = [])
    | _ => true
  | _ => true

theorem notOvertaken_sound (c : RecordedConfig ι) (a : Act ι Request SvcChoice)
    (h : notOvertaken c a = true) : NotOvertaken c a := by
  rintro i k event item f x rfl hi p hp
  simp only [notOvertaken, hi, hp] at h
  exact of_decide_eq_true h

/-- A like and an unlike of one user at once; the call that commits first publishes first. -/
def orderedLikes : List (Act Bool Request SvcChoice) :=
  commitSteps false (.like 1 ("post", 7)) ++ commitSteps true (.unlike 1 ("post", 7)) ++
    refreshSteps true ++ [.step true (.wall .epoch)] ++ refreshSteps false ++
    [.step false (.published true), .step true (.published true)]

theorem lastEventsRight_of_meets_orderedLikes :
    ∃ c : RecordedConfig Bool, (service Config.default Codec.plain).recorded.machine.run
        ⟨(World.new, []), fun _ => .idle⟩ orderedLikes = some c ∧
      lastEvent c.shared.1.published ("post", 7) = some (.unliked 1 0 .epoch) ∧
      (service Config.default Codec.plain).recorded.machine.Along
        (fun c => (∀ i, ¬ (c.calls i).Active) → ∀ item, EventRight c.shared.1 item)
        ⟨(World.new, []), fun _ => .idle⟩ orderedLikes := by
  have hview : ((service Config.default Codec.plain).recorded.machine.run
      (⟨(World.new, []), fun _ => .idle⟩ : RecordedConfig Bool) orderedLikes).map (fun c =>
        c.shared.1.published) =
      some [(("post", 7), .liked 1 1 .epoch), (("post", 7), .unliked 1 0 .epoch)] := by
    decide +kernel
  obtain ⟨c, hrun, hpublished⟩ := Option.map_eq_some_iff.mp hview
  refine ⟨c, hrun, ?_, ?_⟩
  · rw [hpublished]
    decide +kernel
  have hchecks : (service Config.default Codec.plain).recorded.machine.meetsAll notOvertaken
      (⟨(World.new, []), fun _ => .idle⟩ : RecordedConfig Bool) orderedLikes = true := by
    decide +kernel
  apply lastEventsRight_of_meets Config.default Codec.plain ⟨(World.new, []), fun _ => .idle⟩
    orderedLikes (fun _ => rfl) rfl rfl ⟨_, consistent_empty, rfl⟩
  · simp [orderedLikes, commitSteps, refreshSteps]
  · simp [orderedLikes, commitSteps, refreshSteps]
  · exact Machine.meets_of_meetsAll notOvertaken_sound hchecks

/-- When the unlike publishes first, the last event tells of one like, and the item has none. -/
theorem overtaken_wrong :
    (∀ i, .drop i ∉ overtakenLike) ∧ (∀ i, .step i (.published false) ∉ overtakenLike) ∧
    ∃ c : RecordedConfig Bool, (service Config.default Codec.plain).recorded.machine.run
        ⟨(World.new, []), fun _ => .idle⟩ overtakenLike = some c ∧
      (∀ i, ¬ (c.calls i).Active) ∧
      lastEvent c.shared.1.published ("post", 7) = some (.liked 1 1 .epoch) ∧
      c.shared.1.db.store.committed.totalCount ("post", 7) = 0 ∧
      ¬ EventRight c.shared.1 ("post", 7) := by
  refine ⟨by simp [overtakenLike, commitSteps, refreshSteps],
    by simp [overtakenLike, commitSteps, refreshSteps], ?_⟩
  have hview : ((service Config.default Codec.plain).recorded.machine.run
      (⟨(World.new, []), fun _ => .idle⟩ : RecordedConfig Bool) overtakenLike).map (fun c =>
        (decide (∀ i, ¬ (c.calls i).Active),
          lastEvent c.shared.1.published ("post", 7),
          c.shared.1.db.store.committed.totalCount ("post", 7))) =
      some (true, some (.liked 1 1 .epoch), 0) := by
    decide +kernel
  obtain ⟨c, hrun, hc⟩ := Option.map_eq_some_iff.mp hview
  obtain ⟨hquiet, hc⟩ := Prod.mk.inj hc
  obtain ⟨hlast, htotal⟩ := Prod.mk.inj hc
  refine ⟨c, hrun, of_decide_eq_true hquiet, hlast, htotal, fun hright => ?_⟩
  have hcount := hright _ hlast
  rw [htotal] at hcount
  exact absurd hcount (by decide)

end SocialApi.Services
