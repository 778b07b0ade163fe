import SocialApi.Services.Effects

/-!
# The events that are published

`like_events.rs` publishes an event for each row that `like` inserts and each row that `unlike`
deletes, with the count that the transaction has written. The events of a channel come in the
order of the publishing calls; here they are compared with the changes in the order of their
commits.

* `alternates_of_leadsTo`, `balance_of_leadsTo`: events that tell of successive changes of the tables.
* `perm_of_calls`: two lists of what calls have done agree when they agree for every call.
* `eventsMatch_of_complete`: when every call has returned and every event was delivered, each call
  has published exactly one event for its change and none without a change, a user's events on an
  item alternate in the order of the commits, and the events on an item add up to its rows.
-/

namespace SocialApi.Services

open SocialApi.Concurrent SocialApi.Postgres SocialApi.Repositories

/-! ## Events -/

/-- The user whose like an event tells of. -/
def likeEventUser : LikeEvent → Uuid
  | .liked userId _ _ => userId
  | .unliked userId _ _ => userId

/-- The event tells of a new row. -/
def isLiked : LikeEvent → Bool
  | .liked _ _ _ => true
  | .unliked _ _ _ => false

/-- The events of the key's user on the key's item. -/
def eventsOf (key : LikeKey) (events : List (Item × LikeEvent)) : List (Item × LikeEvent) :=
  events.filter fun e => (likeEventUser e.2, e.1) = key

/-- Liked, unliked, liked, … or unliked, liked, unliked, …, as the first is to be. -/
def Alternates : Bool → List (Item × LikeEvent) → Prop
  | _, [] => True
  | first, e :: es => isLiked e.2 = first ∧ Alternates (!first) es

/-- The number of events of a kind on the item. -/
def countKind (item : Item) (kind : Bool) (events : List (Item × LikeEvent)) : ℕ :=
  events.countP fun e => e.1 = item ∧ isLiked e.2 = kind

/-- The user has a row for the item. -/
def hasRow (t : Tables) (key : LikeKey) : Bool := t.likes.any fun r => r.key = key

/-! ## Successive changes -/

variable {ι : Type}

/-- The event tells of the change that the operation has made. -/
def Effect.ReportedBy (p : Effect ι) (e : Item × LikeEvent) : Prop :=
  ∃ ch, Changed p.tablesBefore ch p.tablesAfter ∧ ch.Reports e.1 e.2

/-- The changes lead from the tables `t` to the tables `t'`. -/
def LeadsTo : Tables → List (Effect ι) → Tables → Prop
  | t, [], t' => t' = t
  | t, p :: ps, t' => p.tablesBefore = t ∧ LeadsTo p.tablesAfter ps t'

theorem leadsTo_snoc {t t' : Tables} {ps : List (Effect ι)} {p : Effect ι}
    (h : LeadsTo t ps p.tablesBefore) (ht' : t' = p.tablesAfter) : LeadsTo t (ps ++ [p]) t' := by
  induction ps generalizing t with
  | nil => exact ⟨h, ht'⟩
  | cons q ps ih => exact ⟨h.1, ih h.2⟩

/-- What an event says of the change that it reports. -/
theorem Change.Reports.key {ch : Change} {e : Item × LikeEvent} (h : ch.Reports e.1 e.2) :
    (likeEventUser e.2, e.1) = ch.key ∧ isLiked e.2 = ch.likedAt.isSome := by
  obtain ⟨item, event⟩ := e
  cases event with
  | liked userId count timestamp =>
    obtain ⟨hkey, -, hlikedAt⟩ := h
    exact ⟨hkey, by rw [hlikedAt]; rfl⟩
  | unliked userId count timestamp =>
    obtain ⟨hkey, -, hlikedAt⟩ := h
    exact ⟨hkey, by rw [hlikedAt]; rfl⟩

/-- A row is inserted where there was none and deleted where there was one. -/
theorem Changed.hasRow_before {t t' : Tables} {ch : Change} (h : Changed t ch t') :
    hasRow t ch.key = !ch.likedAt.isSome := by
  unfold hasRow
  rcases h.likes with ⟨row, -, hlikedAt, hnone, -⟩ | ⟨row, hlikedAt, hrow, -⟩
  · rw [hlikedAt]
    refine List.any_eq_false.mpr fun r hr => ?_
    exact List.filter_eq_nil_iff.mp hnone r hr
  · rw [hlikedAt]
    have hmem : row ∈ t.likes.filter fun r => r.key = ch.key := by
      rw [hrow]
      exact List.mem_singleton_self row
    obtain ⟨hin, hkey⟩ := List.mem_filter.mp hmem
    exact List.any_eq_true.mpr ⟨row, hin, hkey⟩

/-- After the change its own key has the row or has lost it, and no other key is concerned. -/
theorem Changed.hasRow_after {t t' : Tables} {ch : Change} (h : Changed t ch t') (key : LikeKey) :
    hasRow t' key = if ch.key = key then ch.likedAt.isSome else hasRow t key := by
  unfold hasRow
  rcases h.likes with ⟨row, hkey, hlikedAt, -, hlikes⟩ | ⟨row, hlikedAt, -, hlikes⟩
  · rw [hlikes, List.any_append, hlikedAt]
    split_ifs with hk
    · simp [hkey, hk]
    · simp [hkey, hk]
  · rw [hlikes, hlikedAt, List.any_filter]
    split_ifs with hk
    · refine List.any_eq_false.mpr fun r _ => ?_
      simp [hk]
    · refine congrArg t.likes.any (funext fun r => ?_)
      by_cases hr : r.key = key
      · simp [hr, Ne.symm hk]
      · simp [hr]

/-- The rows of an item after the change. -/
theorem Changed.likesOf {t t' : Tables} {ch : Change} (h : Changed t ch t') (item : Item) :
    ((t'.likesOf item).length : ℤ) = (t.likesOf item).length +
      if ch.key.2 = item then (if ch.likedAt.isSome then 1 else -1) else 0 := by
  rcases h.likes with ⟨row, hkey, hlikedAt, -, hlikes⟩ | ⟨row, hlikedAt, hrow, hlikes⟩
  · have hinsert := likesOf_insert row t item
    have hrows : t'.likesOf item = (Write.apply (.insertLike row) t).likesOf item := by
      unfold Tables.likesOf
      rw [hlikes]
      rfl
    have hitem : row.item = ch.key.2 := congrArg Prod.snd hkey
    rw [hrows, hinsert, hlikedAt, hitem]
    push_cast
    rfl
  · have hdelete := likesOf_delete hrow item
    have hrows : t'.likesOf item = (Write.apply (.deleteLike ch.key) t).likesOf item := by
      unfold Tables.likesOf
      rw [hlikes]
      rfl
    rw [← hrows] at hdelete
    rw [hlikedAt]
    split_ifs at hdelete ⊢ with hitem hsome
    · cases hsome
    · omega
    · omega

/-- Events that tell of successive changes alternate for every user and item. -/
theorem alternates_of_leadsTo {t t' : Tables} {ps : List (Effect ι)}
    {events : List (Item × LikeEvent)} (hleads : LeadsTo t ps t')
    (hevents : List.Forall₂ Effect.ReportedBy ps events) (key : LikeKey) :
    Alternates (!hasRow t key) (eventsOf key events) := by
  induction hevents generalizing t with
  | nil => trivial
  | @cons p e ps events hreported hevents ih =>
    obtain ⟨rfl, hrest⟩ := hleads
    obtain ⟨ch, hchanged, hreports⟩ := hreported
    obtain ⟨hkey, hkind⟩ := hreports.key
    have hafter := hchanged.hasRow_after key
    have hnext := ih hrest
    unfold eventsOf at hnext ⊢
    rw [List.filter_cons, hkey]
    by_cases hk : ch.key = key
    · rw [if_pos (decide_eq_true hk)]
      rw [if_pos hk] at hafter
      rw [hafter] at hnext
      rw [← hk, hchanged.hasRow_before, Bool.not_not, hk]
      exact ⟨hkind, hnext⟩
    · rw [if_neg (by simpa using hk)]
      rw [if_neg hk] at hafter
      rw [← hafter]
      exact hnext

/-- They add up to the rows that have been added. -/
theorem balance_of_leadsTo {t t' : Tables} {ps : List (Effect ι)}
    {events : List (Item × LikeEvent)} (hleads : LeadsTo t ps t')
    (hevents : List.Forall₂ Effect.ReportedBy ps events) (item : Item) :
    (countKind item true events : ℤ) - countKind item false events =
      (t'.likesOf item).length - (t.likesOf item).length := by
  induction hevents generalizing t with
  | nil =>
    obtain rfl := hleads
    simp [countKind]
  | @cons p e ps events hreported hevents ih =>
    obtain ⟨rfl, hrest⟩ := hleads
    obtain ⟨ch, hchanged, hreports⟩ := hreported
    obtain ⟨hkey, hkind⟩ := hreports.key
    have hafter := hchanged.likesOf item
    have hnext := ih hrest
    have hitem : e.1 = ch.key.2 := congrArg Prod.snd hkey
    unfold countKind at hnext ⊢
    rw [List.countP_cons, List.countP_cons, hitem, hkind]
    by_cases hi : ch.key.2 = item
    · rw [if_pos hi] at hafter
      cases hsome : ch.likedAt.isSome with
      | true =>
        rw [hsome] at hafter
        simp only [hi, and_self, decide_true, Bool.true_eq_false, and_false, decide_false,
          if_true, Bool.false_eq_true, if_false] at hafter ⊢
        push_cast
        omega
      | false =>
        rw [hsome] at hafter
        simp only [hi, and_self, decide_true, and_false, decide_false,
          if_true, Bool.false_eq_true, if_false] at hafter ⊢
        push_cast
        omega
    · rw [if_neg hi] at hafter
      simp only [hi, false_and, decide_false, Bool.false_eq_true, if_false]
      omega

/-! ## Lists of what calls have done -/

/-- Lists that agree piece by piece. -/
theorem forall₂_flatMap {β : Type} {R : Effect ι → β → Prop} {ps : List (Effect ι)}
    {f : Effect ι → List β} (h : ∀ p ∈ ps, List.Forall₂ R [p] (f p)) :
    List.Forall₂ R ps (ps.flatMap f) := by
  induction ps with
  | nil => exact .nil
  | cons p ps ih =>
    have hrest := ih fun q hq => h q (List.mem_cons_of_mem p hq)
    exact List.rel_append (h p List.mem_cons_self) hrest

variable [DecidableEq ι]

/-- What call `i` contributes to a list in which everything is marked with its call. -/
theorem filter_marked {β : Type} (ps : List (Effect ι)) (f : Effect ι → List β) (i : ι) :
    (ps.flatMap fun p => (f p).map fun b => (p.call, b)).filter (fun x => x.1 = i) =
      ((effectsOf ps i).flatMap f).map fun b => (i, b) := by
  induction ps with
  | nil => rfl
  | cons p ps ih =>
    rw [List.flatMap_cons, List.filter_append, ih]
    unfold effectsOf
    rw [List.filter_cons]
    by_cases hp : p.call = i
    · rw [if_pos (decide_eq_true hp), List.flatMap_cons, List.map_append, List.filter_eq_self.mpr, hp]
      intro x hx
      obtain ⟨b, -, rfl⟩ := List.mem_map.mp hx
      exact decide_eq_true hp
    · rw [if_neg (by simpa using hp), List.filter_eq_nil_iff.mpr, List.nil_append]
      intro x hx
      obtain ⟨b, -, rfl⟩ := List.mem_map.mp hx
      simpa using hp

/-- Two lists agree up to their order when they agree for every call. -/
theorem perm_of_calls {β : Type} [DecidableEq β] {ps qs : List (Effect ι)}
    {f g : Effect ι → List β}
    (h : ∀ i, (effectsOf ps i).flatMap f = (effectsOf qs i).flatMap g) :
    (ps.flatMap f).Perm (qs.flatMap g) := by
  have hmarked : (ps.flatMap fun p => (f p).map fun b => (p.call, b)).Perm
      (qs.flatMap fun p => (g p).map fun b => (p.call, b)) := by
    refine List.perm_iff_count.mpr fun x => ?_
    have hcount : ∀ (rs : List (Effect ι)) (k : Effect ι → List β),
        (rs.flatMap fun p => (k p).map fun b => (p.call, b)).count x =
          (((effectsOf rs x.1).flatMap k).map fun b => (x.1, b)).count x := by
      intro rs k
      rw [← filter_marked]
      exact (List.count_filter (by simp)).symm
    rw [hcount, hcount, h x.1]
  have hsnd : ∀ (rs : List (Effect ι)) (k : Effect ι → List β),
      (rs.flatMap fun p => (k p).map fun b => (p.call, b)).map Prod.snd = rs.flatMap k := by
    intro rs k
    rw [List.map_flatMap]
    refine congrArg (fun l => rs.flatMap l) (funext fun p => ?_)
    rw [List.map_map]
    exact List.map_id _
  have hperm := hmarked.map Prod.snd
  rwa [hsnd, hsnd] at hperm

theorem effectsOf_changes (log : List (Effect ι)) (i : ι) :
    effectsOf (changes log) i = changes (effectsOf log i) := by
  unfold effectsOf changes
  exact List.filter_comm _ _ _

/-! ## The record and what it is a record of -/

variable {cfg : Config} {C : Codec}

/-- The tables are where the recorded changes lead, and the events on the channels are the recorded
    ones. -/
structure Recorded (t : Tables) (c : RecordedConfig ι) : Prop where
  leads : LeadsTo t (changes c.shared.2) c.shared.1.db.store.committed
  published : c.shared.1.published = c.shared.2.filterMap Effect.event

/-- An operation that publishes delivers its event. -/
def Delivers (a : Act ι Request SvcChoice) : Prop :=
  ∀ i, a ≠ .step i (.published false)

/-- What an operation adds to the channels. -/
theorem published_of_handle {s s' : World ι} {i : ι} {o : SvcOp} {x : SvcChoice} {r : o.Ans}
    (h : handle cfg s i o x = some (s', r)) (hx : x ≠ .published false) :
    s'.published = s.published ++ (Effect.event ⟨i, o, r, s, s'⟩).toList := by
  by_cases ho : ∃ event item, o = .publish event item
  · obtain ⟨event, item, rfl⟩ := ho
    cases x with
    | published delivered =>
      cases delivered with
      | false => exact absurd rfl hx
      | true => cases h; rfl
    | _ => cases h
  · have hsame : s'.published = s.published := by
      cases o with
      | db q => obtain ⟨y, db', -, -, rfl⟩ := handle_db h; rfl
      | cache o => obtain ⟨y, c', -, -, rfl⟩ := handle_cache h; rfl
      | flight o => obtain ⟨y, f', -, -, rfl⟩ := handle_flight h; rfl
      | publish event item => exact absurd ⟨event, item, rfl⟩ ho
      | _ => cases x <;> cases h; rfl
    have hevent : Effect.event ⟨i, o, r, s, s'⟩ = none := by
      cases o with
      | publish event item => exact absurd ⟨event, item, rfl⟩ ho
      | _ => rfl
    rw [hsame, hevent]
    exact (List.append_nil _).symm

theorem recorded_step {t : Tables} (c : RecordedConfig ι) (a : Act ι Request SvcChoice)
    (c' : RecordedConfig ι) (hc : Recorded t c) (ha : Delivers a)
    (h : (service cfg C).recorded.machine.step c a = some c') : Recorded t c' := by
  rcases Pool.act_cases h with ⟨i, k, s, -, -, hs, rfl⟩ | ⟨i, x, k, e, f, s, r, rfl, -, hs, rfl⟩ |
    ⟨i, k, p, s, -, -, hs, rfl⟩ | ⟨x, s, -, hs, rfl⟩
  · cases hs
    exact ⟨hc.leads, hc.published⟩
  · obtain ⟨s', hs', rfl⟩ := Pool.recorded_handle hs
    constructor
    · show LeadsTo t (changes (c.shared.2 ++ [_])) s'.db.store.committed
      by_cases hchange : Effect.ChangesTables ⟨i, e, r, c.shared.1, s'⟩
      · rw [changes_snoc_of _ hchange]
        exact leadsTo_snoc hc.leads rfl
      · rw [changes_snoc_of_not _ hchange]
        have hsame : s'.db.store.committed = c.shared.1.db.store.committed := not_not.mp hchange
        rw [hsame]
        exact hc.leads
    · show s'.published = (c.shared.2 ++ [_]).filterMap Effect.event
      rw [published_of_handle hs' fun hx => ha i (by rw [hx]), hc.published, List.filterMap_append]
      cases he : Effect.event ⟨i, e, r, c.shared.1, s'⟩ with
      | none => rw [List.filterMap_cons_none he]; rfl
      | some event => rw [List.filterMap_cons_some he]; rfl
  · cases hs
    exact ⟨hc.leads, hc.published⟩
  · obtain ⟨s', hs', rfl⟩ := Option.map_eq_some_iff.mp hs
    cases x with
    | evict layer key => cases hs'; exact ⟨hc.leads, hc.published⟩
    | _ => cases hs'

/-! ## Complete runs -/

/-- The events in the order of the commits that they report. -/
noncomputable def eventsInOrder (log : List (Effect ι)) : List (Item × LikeEvent) :=
  (changes log).flatMap fun p => (effectsOf log p.call).filterMap Effect.event

/-- The events are those of the changes. -/
structure EventsMatch (c : RecordedConfig ι) : Prop where
  /-- A call that has changed the tables publishes the event of its change, any other none. -/
  once : ∀ i, (changes (effectsOf c.shared.2 i)).length ≤ 1 ∧
    List.Forall₂ Effect.ReportedBy (changes (effectsOf c.shared.2 i))
      ((effectsOf c.shared.2 i).filterMap Effect.event)
  /-- These are the events on the channels. -/
  published : (eventsInOrder c.shared.2).Perm c.shared.1.published
  /-- In the order of the commits a user's events on an item alternate. -/
  alternate : ∀ key, Alternates true (eventsOf key (eventsInOrder c.shared.2))
  /-- They add up to the rows of the item. -/
  balance : ∀ item, (countKind item true c.shared.1.published : ℤ) -
    countKind item false c.shared.1.published = (c.shared.1.db.store.committed.likesOf item).length

/-- What a call that has returned has changed and published. -/
theorem Accounted.events {s : World ι × List (Effect ι)} {i : ι} {k : Request}
    {a : Except AppError Reply} (h : Accounted s i k a) :
    (changes (effectsOf s.2 i)).length ≤ 1 ∧
      List.Forall₂ Effect.ReportedBy (changes (effectsOf s.2 i))
        ((effectsOf s.2 i).filterMap Effect.event) := by
  obtain ⟨g, hends, htold⟩ := h
  cases hch : g.change with
  | none =>
    obtain ⟨hchanges, hevents⟩ := htold.unchanged hch
    rw [hchanges, hevents]
    exact ⟨Nat.zero_le 1, .nil⟩
  | some ch =>
    obtain ⟨p, hchanges, hchanged⟩ := htold.changed ch hch
    obtain ⟨item, event, hevents, hreports⟩ := htold.paid ch hch (hends.2.1 .event)
    rw [hchanges, hevents]
    exact ⟨le_refl 1, .cons ⟨ch, hchanged, hreports⟩ .nil⟩

/-- The events of the calls of the changes that call `i` has made are its own. -/
theorem events_of_changes {log : List (Effect ι)} {i : ι}
    (hlength : (changes (effectsOf log i)).length ≤ 1)
    (hreported : List.Forall₂ Effect.ReportedBy (changes (effectsOf log i))
      ((effectsOf log i).filterMap Effect.event)) :
    ((changes (effectsOf log i)).flatMap fun p => (effectsOf log p.call).filterMap Effect.event) =
      (effectsOf log i).filterMap Effect.event := by
  cases hchanges : changes (effectsOf log i) with
  | nil =>
    rw [hchanges] at hreported
    rw [List.forall₂_nil_left_iff.mp hreported]
    rfl
  | cons p ps =>
    rw [hchanges, List.length_cons] at hlength
    obtain rfl : ps = [] := List.eq_nil_of_length_eq_zero (by omega)
    have hmem : p ∈ changes (effectsOf log i) := by
      rw [hchanges]
      exact List.mem_singleton_self p
    have hcall : p.call = i := of_decide_eq_true (List.mem_filter.mp (mem_changes.mp hmem).1).2
    rw [List.flatMap_cons, List.flatMap_nil, List.append_nil, hcall]

/-- A change is the only one of its call. -/
theorem changes_of_mem {log : List (Effect ι)} {p : Effect ι}
    (hlength : (changes (effectsOf log p.call)).length ≤ 1) (hp : p ∈ changes log) :
    changes (effectsOf log p.call) = [p] := by
  have hmem : p ∈ changes (effectsOf log p.call) := by
    rw [← effectsOf_changes]
    exact List.mem_filter.mpr ⟨hp, decide_eq_true rfl⟩
  obtain ⟨q, hq⟩ := List.length_eq_one_iff.mp (le_antisymm hlength (List.length_pos_of_mem hmem))
  rw [hq] at hmem
  rw [hq, List.mem_singleton.mp hmem]

variable (cfg C) in
/-- When every call has returned and every event was delivered, the events on the channels are
    those of the changes: one for each call that has changed the tables and none for any other, with
    the count right after its commit; they alternate for every user and item in the order of the
    commits, and add up to the rows of every item. -/
theorem eventsMatch_of_complete (init c : RecordedConfig ι) (acts : List (Act ι Request SvcChoice))
    (hidle : ∀ i, init.calls i = .idle) (hlog : init.shared.2 = [])
    (hpublished : init.shared.1.published = [])
    (hempty : init.shared.1.db.store = .ofTables ⟨[], fun _ => none⟩)
    (hrun : (service cfg C).recorded.machine.run init acts = some c)
    (hdelivered : ∀ i, .step i (.published false) ∉ acts)
    (hcomplete : ∀ i, c.calls i = .idle ∨ ∃ k a, c.calls i = .returned k a) : EventsMatch c := by
  have hbooks := service_run cfg C hidle hlog (ledgerInv_ofTables consistent_empty hempty) hrun
  have hrecorded : Recorded ⟨[], fun _ => none⟩ c := by
    have hmeets : (service cfg C).recorded.machine.Meets (fun _ => Delivers) init acts := by
      refine Machine.meets_of_labels (fun a ha i heq => ?_) init
      exact hdelivered i (heq ▸ ha)
    refine (Machine.along_of_meets recorded_step ⟨?_, ?_⟩ hmeets).last hrun
    · rw [hlog, hempty]
      rfl
    · rw [hlog, hpublished]
      rfl
  have hcall : ∀ i, (changes (effectsOf c.shared.2 i)).length ≤ 1 ∧
      List.Forall₂ Effect.ReportedBy (changes (effectsOf c.shared.2 i))
        ((effectsOf c.shared.2 i).filterMap Effect.event) := by
    intro i
    rcases hcomplete i with hi | ⟨k, a, hi⟩
    · have hnone : effectsOf c.shared.2 i = [] := by
        refine List.filter_eq_nil_iff.mpr fun p hp hcall => ?_
        rw [decide_eq_true_eq] at hcall
        exact hbooks.started p hp (hcall ▸ hi)
      rw [hnone]
      exact ⟨Nat.zero_le 1, .nil⟩
    · exact (hbooks.returned i k a hi).events
  have hperm : (eventsInOrder c.shared.2).Perm c.shared.1.published := by
    rw [hrecorded.published, List.filterMap_eq_flatMap_toList]
    refine perm_of_calls fun i => ?_
    rw [effectsOf_changes, ← List.filterMap_eq_flatMap_toList]
    exact events_of_changes (hcall i).1 (hcall i).2
  have hevents : List.Forall₂ Effect.ReportedBy (changes c.shared.2) (eventsInOrder c.shared.2) := by
    refine forall₂_flatMap fun p hp => ?_
    rw [← changes_of_mem (hcall p.call).1 hp]
    exact (hcall p.call).2
  refine ⟨hcall, hperm, fun key => ?_, fun item => ?_⟩
  · exact alternates_of_leadsTo hrecorded.leads hevents key
  · have hbalance := balance_of_leadsTo hrecorded.leads hevents item
    unfold countKind at hbalance ⊢
    rw [hperm.countP_eq, hperm.countP_eq] at hbalance
    rw [hbalance]
    exact sub_zero _

/-- A call starts, is validated from the validator's cache and runs its transaction. -/
def commitSteps {ι : Type} (i : ι) (m : Mutation) : List (Act ι Request SvcChoice) :=
  .start i (.mutation m) :: .step i (.clock 0 0) :: .step i (.validated (.ok (.cached true))) ::
    List.replicate 4 (.step i (.db (.run .epoch [])))

/-- It stores the count and the status and invalidates the pages. -/
def refreshSteps {ι : Type} (i : ι) : List (Act ι Request SvcChoice) :=
  List.replicate 4 (.step i (.cache .ok)) ++ .step i (.cache (.removed [])) ::
    List.replicate 4 (.step i (.cache .ok))

/-- A like and an unlike of one user; the unlike overtakes the like on the channel. -/
def overtakenLike : List (Act Bool Request SvcChoice) :=
  commitSteps false (.like 1 ("post", 7)) ++ commitSteps true (.unlike 1 ("post", 7)) ++
    refreshSteps true ++ [.step true (.wall .epoch), .step true (.published true)] ++
    refreshSteps false ++ [.step false (.published true)]

theorem eventsMatch_overtakenLike :
    ∃ c : RecordedConfig Bool, (service Config.default Codec.plain).recorded.machine.run
        ⟨(World.new, []), fun _ => .idle⟩ overtakenLike = some c ∧
      c.shared.1.published = [(("post", 7), .unliked 1 0 .epoch), (("post", 7), .liked 1 1 .epoch)] ∧
      EventsMatch c := by
  have hview : ((service Config.default Codec.plain).recorded.machine.run
      (⟨(World.new, []), fun _ => .idle⟩ : RecordedConfig Bool) overtakenLike).map (fun c =>
        (decide (∀ i, (c.calls i).result.isSome = true), c.shared.1.published)) =
      some (true, [(("post", 7), .unliked 1 0 .epoch), (("post", 7), .liked 1 1 .epoch)]) := by
    decide +kernel
  obtain ⟨c, hrun, hc⟩ := Option.map_eq_some_iff.mp hview
  obtain ⟨hresults, hpublished⟩ := Prod.mk.inj hc
  refine ⟨c, hrun, hpublished, ?_⟩
  apply eventsMatch_of_complete Config.default Codec.plain ⟨(World.new, []), fun _ => .idle⟩ c
    overtakenLike (fun _ => rfl) rfl rfl rfl hrun
  · intro i
    simp [overtakenLike, commitSteps, refreshSteps]
  · intro i
    obtain ⟨⟨k, a⟩, hresult⟩ := Option.isSome_iff_exists.mp (of_decide_eq_true hresults i)
    exact Or.inr ⟨k, a, CallState.returned_of_result hresult⟩

end SocialApi.Services
