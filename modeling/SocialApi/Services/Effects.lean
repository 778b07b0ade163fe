import SocialApi.Concurrent.History
import SocialApi.Services.Ledger

/-!
# What a call leaves behind

Every operation of every call is recorded with the state before and after it. What a call has
done is then in its part of the record, and its ledger tells what there is to be found.

* `Told`: the ledger of a call is right about its record.
* `failed_noTrace`: a call of `like` or `unlike` that returns an error has changed no committed
  row, no entry of the cache and no channel, and has left no transaction open.
-/

namespace SocialApi.Services

open SocialApi.Concurrent SocialApi.Postgres SocialApi.Repositories

/-! ## Records -/

/-- An operation of a call, with what it did. -/
abbrev Effect (ι : Type) := Performed ι (World ι) SvcOp SvcOp.Ans

/-- A configuration of the calls with the record of their operations. -/
abbrev RecordedConfig (ι : Type) :=
  Configuration ι (World ι × List (Effect ι)) Request SvcOp SvcOp.Ans (Except AppError Reply)

namespace Effect

variable {ι : Type}

/-- The committed tables before the operation. -/
def tablesBefore (p : Effect ι) : Tables := p.before.db.store.committed

/-- The committed tables after the operation. -/
def tablesAfter (p : Effect ι) : Tables := p.after.db.store.committed

/-- The operation has changed a committed row. -/
def ChangesTables (p : Effect ι) : Prop := p.tablesAfter ≠ p.tablesBefore

/-- The event that the operation publishes. -/
def event (p : Effect ι) : Option (Item × LikeEvent) :=
  match p.op with
  | .publish event item => some (item, event)
  | _ => none

/-- The operation writes and deletes nothing in the cache and publishes nothing. -/
structure Silent (p : Effect ι) : Prop where
  untouched : ¬ Touches p.op
  cache : p.after.cache = p.before.cache
  published : p.after.published = p.before.published

end Effect

variable {ι : Type}

/-- What call `i` has done. -/
def effectsOf [DecidableEq ι] (log : List (Effect ι)) (i : ι) : List (Effect ι) :=
  log.filter fun p => p.call = i

theorem effectsOf_snoc_self [DecidableEq ι] (log : List (Effect ι)) (p : Effect ι) :
    effectsOf (log ++ [p]) p.call = effectsOf log p.call ++ [p] := by
  simp [effectsOf]

theorem effectsOf_snoc_of_ne [DecidableEq ι] (log : List (Effect ι)) {p : Effect ι} {i : ι}
    (h : p.call ≠ i) :
    effectsOf (log ++ [p]) i = effectsOf log i := by
  simp [effectsOf, h]

open Classical in
/-- The operations that have changed the committed tables, in the order of their commits. -/
noncomputable def changes (log : List (Effect ι)) : List (Effect ι) :=
  log.filter fun p => p.ChangesTables

theorem mem_changes {log : List (Effect ι)} {p : Effect ι} :
    p ∈ changes log ↔ p ∈ log ∧ p.ChangesTables := by
  simp [changes]

theorem changes_snoc_of (log : List (Effect ι)) {p : Effect ι} (h : p.ChangesTables) :
    changes (log ++ [p]) = changes log ++ [p] := by
  simp [changes, h]

theorem changes_snoc_of_not (log : List (Effect ι)) {p : Effect ι} (h : ¬ p.ChangesTables) :
    changes (log ++ [p]) = changes log := by
  simp [changes, h]

/-! ## What a ledger tells -/

/-- The ledger is right about the record of its call. -/
structure Told (g : Ledger) (own : List (Effect ι)) : Prop where
  unchanged : g.change = none → changes own = [] ∧ own.filterMap Effect.event = []
  changed : ∀ ch, g.change = some ch →
    ∃ p, changes own = [p] ∧ Changed p.tablesBefore ch p.tablesAfter
  owing : g.owes .event → own.filterMap Effect.event = []
  paid : ∀ ch, g.change = some ch → ¬ g.owes .event →
    ∃ item event, own.filterMap Effect.event = [(item, event)] ∧ ch.Reports item event
  silent : ¬ g.touched → ∀ p ∈ own, p.Silent

theorem told_fresh : Told (ι := ι) .fresh [] where
  unchanged _ := ⟨rfl, rfl⟩
  changed ch h := by cases h
  owing h := h.elim
  paid ch h := by cases h
  silent _ p hp := absurd hp List.not_mem_nil

/-- What touches neither the cache nor the channels leaves them as they are. -/
theorem handle_silent [DecidableEq ι] {cfg : Config} {s s' : World ι} {i : ι} {o : SvcOp}
    {x : SvcChoice}
    {r : o.Ans} (h : handle cfg s i o x = some (s', r)) (ho : ¬ Touches o) :
    Effect.Silent ⟨i, o, r, s, s'⟩ := by
  cases o with
  | db q =>
    obtain ⟨y, db', -, -, rfl⟩ := handle_db h
    exact ⟨ho, rfl, rfl⟩
  | cache o =>
    obtain ⟨y, c', -, hc, rfl⟩ := handle_cache h
    refine ⟨ho, ?_, rfl⟩
    cases o with
    | l1Get key => cases y <;> cases hc; rfl
    | redisGet key => cases y <;> cases hc <;> rfl
    | redisMget keys => cases y <;> cases hc <;> rfl
    | _ => exact absurd trivial ho
  | flight o =>
    obtain ⟨y, f', -, -, rfl⟩ := handle_flight h
    exact ⟨ho, rfl, rfl⟩
  | publish event item => exact absurd trivial ho
  | _ => cases x <;> cases h; exact ⟨ho, rfl, rfl⟩

/-- A change does change the tables. -/
theorem Changed.ne {t t' : Tables} {ch : Change} (h : Changed t ch t') : t' ≠ t := by
  intro heq
  rcases h.likes with ⟨row, -, -, -, hlikes⟩ | ⟨row, -, hrow, hlikes⟩
  · rw [heq] at hlikes
    have hlength := congrArg List.length hlikes
    rw [List.length_append, List.length_singleton] at hlength
    omega
  · have hmem : row ∈ t.likes.filter fun r => r.key = ch.key := by
      rw [hrow]
      exact List.mem_singleton_self row
    obtain ⟨hin, hkey⟩ := List.mem_filter.mp hmem
    rw [← heq, hlikes, List.mem_filter] at hin
    rw [decide_eq_true_eq] at hkey
    exact absurd hkey (of_decide_eq_true hin.2)

/-! ## What a step adds to the record -/

section Steps

variable {g g' : Ledger} {own : List (Effect ι)} {p : Effect ι}

theorem Told.all_silent (hg : Told g own) (hp : ¬ g'.touched → ¬ g.touched ∧ p.Silent)
    (htouched : ¬ g'.touched) : ∀ q ∈ own ++ [p], q.Silent := by
  intro q hq
  rcases List.mem_append.mp hq with hq | hq
  · exact hg.silent (hp htouched).1 q hq
  · rw [List.mem_singleton.mp hq]
    exact (hp htouched).2

theorem events_snoc_of_none (own : List (Effect ι)) (h : p.event = none) :
    (own ++ [p]).filterMap Effect.event = own.filterMap Effect.event := by
  rw [List.filterMap_append, List.filterMap_cons_none h, List.filterMap_nil, List.append_nil]

/-- An operation that changes no table and publishes nothing. -/
theorem Told.quiet (hg : Told g own) (hchange : g'.change = g.change)
    (howes : g.change = none ∨ (g'.owes .event ↔ g.owes .event))
    (hp : ¬ g'.touched → ¬ g.touched ∧ p.Silent) (htables : ¬ p.ChangesTables)
    (hevent : p.event = none) : Told g' (own ++ [p]) := by
  have hchanges := changes_snoc_of_not own htables
  have hevents := events_snoc_of_none own hevent
  constructor
  · intro hnone
    rw [hchanges, hevents]
    exact hg.unchanged (hchange.symm.trans hnone)
  · intro ch hch
    rw [hchanges]
    exact hg.changed ch (hchange.symm.trans hch)
  · intro howed
    rw [hevents]
    rcases howes with hnone | hiff
    · exact (hg.unchanged hnone).2
    · exact hg.owing (hiff.mp howed)
  · intro ch hch hpaid
    rw [hevents]
    rw [hchange] at hch
    rcases howes with hnone | hiff
    · rw [hnone] at hch
      cases hch
    · exact hg.paid ch hch fun howed => hpaid (hiff.mpr howed)
  · exact hg.all_silent hp

/-- The commit of a change. -/
theorem Told.commit (hg : Told g own) (hnone : g.change = none) {ch : Change}
    (hch : g'.change = some ch) (hchanged : Changed p.tablesBefore ch p.tablesAfter)
    (howes : g'.owes .event) (hp : ¬ g'.touched → ¬ g.touched ∧ p.Silent)
    (hevent : p.event = none) : Told g' (own ++ [p]) := by
  obtain ⟨hbefore, hevents⟩ := hg.unchanged hnone
  have hchanges : changes (own ++ [p]) = [p] := by
    rw [changes_snoc_of own hchanged.ne, hbefore]
    rfl
  constructor
  · intro h
    rw [hch] at h
    cases h
  · intro ch' hch'
    obtain rfl := Option.some.inj (hch.symm.trans hch')
    exact ⟨p, hchanges, hchanged⟩
  · intro _
    rw [events_snoc_of_none own hevent]
    exact hevents
  · intro _ _ hpaid
    exact absurd howes hpaid
  · exact hg.all_silent hp

/-- The event of a change. -/
theorem Told.publish (hg : Told g own) {ch : Change} (hch : g.change = some ch)
    (howes : g.owes .event) (hchange : g'.change = some ch) (hpaid : ¬ g'.owes .event)
    (htouched : g'.touched) (htables : ¬ p.ChangesTables) {item : Item} {event : LikeEvent}
    (hevent : p.event = some (item, event)) (hreports : ch.Reports item event) :
    Told g' (own ++ [p]) := by
  have hchanges := changes_snoc_of_not own htables
  have hevents : (own ++ [p]).filterMap Effect.event = [(item, event)] := by
    rw [List.filterMap_append, hg.owing howes, List.filterMap_cons_some hevent]
    rfl
  constructor
  · intro hnone
    rw [hchange] at hnone
    cases hnone
  · intro ch' hch'
    obtain rfl := Option.some.inj (hchange.symm.trans hch')
    rw [hchanges]
    exact hg.changed ch hch
  · intro howed
    exact absurd howed hpaid
  · intro ch' hch' _
    obtain rfl := Option.some.inj (hchange.symm.trans hch')
    exact ⟨item, event, hevents, hreports⟩
  · intro hnot
    exact absurd htouched hnot

end Steps

variable [DecidableEq ι]

section Handle

variable {cfg : Config} {C : Codec} {s s' : World ι} {γ : ι → Option Ledger} {i : ι} {g : Ledger}
  {own : List (Effect ι)} {x : SvcChoice}

/-- Every operation is recorded as the ledger of its call has it. -/
theorem Told.handle (hg : Told g own) (h : LedgerInv s γ) (hγ : γ i = some g) {o : SvcOp}
    {r : o.Ans} (hasks : (ledger C).asks g o) (hs : handle cfg s i o x = some (s', r)) :
    Told (g.next C o r) (own ++ [⟨i, o, r, s, s'⟩]) := by
  by_cases ho : o.OffDb
  · have htables : ¬ Effect.ChangesTables ⟨i, o, r, s, s'⟩ := fun hne =>
      hne (congrArg (fun d => d.store.committed) (handle_offDb hs ho))
    by_cases hpublish : ∃ event item, o = .publish event item
    · obtain ⟨event, item, rfl⟩ := hpublish
      obtain ⟨howes, ch, hch, hreports⟩ := hasks
      refine hg.publish hch howes hch ?_ (Or.inr trivial) htables rfl hreports
      intro howed
      exact howed.2 ch hch hreports
    · have hnext : (g.next C o r).change = g.change ∧
          ((g.next C o r).owes .event ↔ g.owes .event) ∧
          (¬ (g.next C o r).touched → ¬ g.touched ∧ ¬ Touches o) ∧
          Effect.event ⟨i, o, r, s, s'⟩ = none := by
        cases o with
        | db q => exact ho.elim
        | publish event item => exact absurd ⟨event, item, rfl⟩ hpublish
        | _ => exact ⟨rfl, ⟨fun h => h.1, fun h => ⟨h, fun _ _ => id⟩⟩, not_or.mp, rfl⟩
      obtain ⟨hchange, howes, htouched, hevent⟩ := hnext
      refine hg.quiet hchange (Or.inr howes) (fun hnot => ?_) htables hevent
      obtain ⟨hg', ho'⟩ := htouched hnot
      exact ⟨hg', handle_silent hs ho'⟩
  · cases o with
    | db q =>
      have hsilent : ¬ (g.next C (.db q) r).touched →
          ¬ g.touched ∧ Effect.Silent ⟨i, .db q, r, s, s'⟩ :=
        fun hnot => ⟨hnot, handle_silent hs id⟩
      obtain ⟨-, -, hchange⟩ := h.statement (C := C) hγ hasks hs
      rcases hchange with ⟨hnone, hsame⟩ | ⟨ch, hch, -, hchanged⟩
      · exact hg.quiet (hnone.trans hasks.2.symm) (Or.inl hasks.2) hsilent (fun hne => hne hsame) rfl
      · refine hg.commit hasks.2 hch hchanged ?_ hsilent rfl
        show Ledger.owing (g.changeAfter q r) .event
        rw [hch]
        trivial
    | _ => exact absurd trivial ho

end Handle

/-! ## Runs -/

/-- The ledgers are in order, and right about the record. -/
structure RecordInv (s : World ι × List (Effect ι)) (γ : ι → Option Ledger) : Prop where
  ledger : LedgerInv s.1 γ
  told : ∀ i g, γ i = some g → Told g (effectsOf s.2 i)

/-- A call that starts has done nothing yet. -/
def Unrecorded (c : RecordedConfig ι) (a : Act ι Request SvcChoice) : Prop :=
  ∀ i k, a = .start i k → effectsOf c.shared.2 i = []

theorem RecordInv.update {s s' : World ι × List (Effect ι)} {γ : ι → Option Ledger} {i : ι}
    {g : Option Ledger} (h : RecordInv s γ) (hledger : LedgerInv s'.1 (Function.update γ i g))
    (hothers : ∀ j, j ≠ i → effectsOf s'.2 j = effectsOf s.2 j)
    (hown : ∀ g', g = some g' → Told g' (effectsOf s'.2 i)) :
    RecordInv s' (Function.update γ i g) := by
  refine ⟨hledger, fun j g' hj => ?_⟩
  by_cases hji : j = i
  · subst hji
    rw [Function.update_self] at hj
    exact hown g' hj
  · rw [Function.update_of_ne hji] at hj
    rw [hothers j hji]
    exact h.told j g' hj

variable (cfg : Config) (C : Codec)

theorem service_records :
    Pool.Keeps (service (ι := ι) cfg C).recorded (ledger C) Request.Ends (fun _ => .fresh)
      RecordInv Unrecorded where
  prog := Request.obeys
  start c i k s γ hc h hγ hs := by
    cases hs
    refine h.update (h.ledger.start hγ) (fun _ _ => rfl) fun g' hg' => ?_
    cases hg'
    show Told _ (effectsOf c.shared.2 i)
    rw [hc i k rfl]
    exact told_fresh
  handle c i x k o f s r γ g hc h hF hi hγ hasks hs := by
    obtain ⟨s', hs', rfl⟩ := Pool.recorded_handle hs
    obtain ⟨g', ⟨rfl, hfits⟩, hledger⟩ := (service_ledger cfg C).handle (Pool.forget c) i x k o f
      s' r γ g trivial h.ledger hF hi hγ hasks hs'
    refine ⟨_, ⟨rfl, hfits⟩, h.update hledger (fun j hj => ?_) fun g' hg' => ?_⟩
    · exact effectsOf_snoc_of_ne _ hj.symm
    · cases hg'
      rw [effectsOf_snoc_self]
      exact (h.told i g hγ).handle h.ledger hγ hasks hs'
  ret s i k γ g a h hγ ha :=
    h.update (h.ledger.ret hγ ha.1) (fun _ _ => rfl) fun g' hg' => by cases hg'
  drop c i k p s γ g hc h hF hi hγ hs := by
    cases hs
    exact h.update h.ledger.drop (fun _ _ => rfl) fun g' hg' => by cases hg'
  env c x s γ hc h hs := by
    obtain ⟨s', hs', rfl⟩ := Option.map_eq_some_iff.mp hs
    exact ⟨(service_ledger cfg C).env (Pool.forget c) x s' γ trivial h.ledger hs', h.told⟩

/-- The ledger of a call that has returned is right about what the call has done. -/
def Accounted (s : World ι × List (Effect ι)) (i : ι) (k : Request) (a : Except AppError Reply) :
    Prop :=
  ∃ g, k.Ends g a ∧ Told g (effectsOf s.2 i)

/-- The record of a call that has returned stays as it is. -/
theorem effectsOf_step {c c' : RecordedConfig ι} {a : Act ι Request SvcChoice}
    (h : (service cfg C).recorded.machine.step c a = some c') {i : ι} (hi : ¬ (c.calls i).Active) :
    effectsOf c'.shared.2 i = effectsOf c.shared.2 i := by
  rcases Pool.record_step h with hsame | ⟨p, hmore, hp⟩
  · rw [hsame]
  · rw [hmore]
    refine effectsOf_snoc_of_ne _ ?_
    rintro rfl
    exact hi hp

/-- The ledgers and the record are in order, for the calls in progress and those that have
    returned. -/
structure Books (c : RecordedConfig ι) : Prop where
  inv : Pool.Inv (ledger C) Request.Ends RecordInv c
  returned : Pool.Returns Accounted c
  started : Pool.Started c

theorem books_step (c : RecordedConfig ι) (a : Act ι Request SvcChoice) (c' : RecordedConfig ι)
    (hc : Books C c) (hstep : (service cfg C).recorded.machine.step c a = some c') : Books C c' := by
  have hunrecorded : Unrecorded c a := by
    rintro i k rfl
    refine List.filter_eq_nil_iff.mpr fun p hp => ?_
    simpa using Pool.unperformed_of_start hc.started hstep p hp
  refine ⟨(service_records cfg C).inv_step c a c' hc.inv hunrecorded hstep, ?_,
    Pool.started_step hc.started hstep⟩
  refine (service_records cfg C).returns_step (R := Accounted) ?_ ?_ hc.inv hc.returned hunrecorded
    hstep
  · intro s i k γ g a h hγ ha
    exact ⟨g, ha, h.told i g hγ⟩
  · intro i k b hi haccounted
    have hnot : ¬ (c.calls i).Active := by
      rw [hi]
      exact id
    unfold Accounted
    rw [effectsOf_step cfg C hstep hnot]
    exact haccounted

theorem books_init {init : RecordedConfig ι} (hidle : ∀ i, init.calls i = .idle)
    (hlog : init.shared.2 = []) (htables : LedgerInv init.shared.1 fun _ => none) :
    Books C init := by
  refine ⟨⟨fun _ => none, ⟨htables, fun i g hγ => by cases hγ⟩, fun i => ?_⟩, fun i k a hi => ?_,
    fun p hp => ?_⟩
  · rw [hidle i]
    rfl
  · rw [hidle i] at hi
    cases hi
  · rw [hlog] at hp
    exact absurd hp List.not_mem_nil

/-- The ledgers of all calls, in every run from tables in order. -/
theorem service_run {init c : RecordedConfig ι} {acts : List (Act ι Request SvcChoice)}
    (hidle : ∀ i, init.calls i = .idle) (hlog : init.shared.2 = [])
    (htables : LedgerInv init.shared.1 fun _ => none)
    (hrun : (service cfg C).recorded.machine.run init acts = some c) : Books C c :=
  (service cfg C).recorded.machine.run_keeps (books_step cfg C) acts init c
    (books_init C hidle hlog htables) hrun

/-! ## Calls that fail -/

/-- A call of `like` or `unlike` that returns an error has changed no committed row and no entry
    of the cache, has published nothing, and has no transaction open. -/
theorem failed_noTrace (init c : RecordedConfig ι) (acts : List (Act ι Request SvcChoice))
    (hidle : ∀ i, init.calls i = .idle) (hlog : init.shared.2 = [])
    (htables : ∃ t, Consistent t ∧ init.shared.1.db.store = .ofTables t)
    (hrun : (service cfg C).recorded.machine.run init acts = some c) (i : ι) (m : Mutation)
    (error : AppError) (hi : c.calls i = .returned (.mutation m) (.error error)) :
    (∀ p ∈ c.shared.2, p.call = i → ¬ Effect.ChangesTables p ∧ Effect.Silent p) ∧
      c.shared.1.db.store.txs i = none := by
  obtain ⟨t, ht, hstore⟩ := htables
  obtain ⟨⟨γ, hinv, hF⟩, hreturned, -⟩ :=
    service_run cfg C hidle hlog (ledgerInv_ofTables ht hstore) hrun
  obtain ⟨g, hends, htold⟩ := hreturned i _ _ hi
  obtain ⟨hchange, htouched⟩ := hends.2.2 m error rfl rfl
  constructor
  · intro p hp hcall
    have hown : p ∈ effectsOf c.shared.2 i := List.mem_filter.mpr ⟨hp, decide_eq_true hcall⟩
    refine ⟨fun hne => ?_, htold.silent htouched p hown⟩
    have hin : p ∈ changes (effectsOf c.shared.2 i) := mem_changes.mpr ⟨hown, hne⟩
    rw [(htold.unchanged hchange).1] at hin
    exact absurd hin List.not_mem_nil
  · have hγ : γ i = none := by
      refine (hF i).none_of_not_active ?_
      rw [hi]
      exact id
    have hholds := hinv.ledger.db.holds i
    have hout : ledgerPhases γ i = .outside := by simp [ledgerPhases, phaseOf, hγ]
    rw [hout] at hholds
    exact hholds

/-- A like whose count cannot be written: its row is rolled back. -/
def brokenLike : List (Act ℕ Request SvcChoice) :=
  [.start 0 (.mutation (.like 1 ("post", 7))), .step 0 (.clock 0 0),
    .step 0 (.validated (.ok (.cached true))), .step 0 (.db (.run .epoch [])),
    .step 0 (.db (.run .epoch [])), .step 0 (.db (.fail "connection lost")),
    .step 0 (.db (.run .epoch []))]

theorem failed_noTrace_brokenLike :
    ∃ c : RecordedConfig ℕ, (service Config.default Codec.plain).recorded.machine.run
        ⟨(World.new, []), fun _ => .idle⟩ brokenLike = some c ∧ c.shared.2.length = 6 ∧
      (∀ p ∈ c.shared.2, p.call = 0 → ¬ Effect.ChangesTables p ∧ Effect.Silent p) ∧
      c.shared.1.db.store.txs 0 = none := by
  have hview : ((service Config.default Codec.plain).recorded.machine.run
      (⟨(World.new, []), fun _ => .idle⟩ : RecordedConfig ℕ) brokenLike).map (fun c =>
        ((c.calls 0).result, c.shared.2.length)) =
      some (some (.mutation (.like 1 ("post", 7)), .error (.database "connection lost")), 6) := by
    decide +kernel
  obtain ⟨c, hrun, hc⟩ := Option.map_eq_some_iff.mp hview
  obtain ⟨hresult, hlength⟩ := Prod.mk.inj hc
  refine ⟨c, hrun, hlength, ?_⟩
  apply failed_noTrace Config.default Codec.plain ⟨(World.new, []), fun _ => .idle⟩ c brokenLike
    (fun _ => rfl) rfl ⟨_, consistent_empty, rfl⟩ hrun 0 _ _
  exact CallState.returned_of_result hresult

end SocialApi.Services
