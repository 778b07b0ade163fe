import SocialApi.Services.Answering

/-!
# The responses of `like` and `unlike`

* `oneMoment_of_meets`: as long as no other call of the same user comes between the statements
  that a response is taken from, every response is consistent with one moment of its call.
* `crossingUnlike_noMoment`: a run in which an unlike responds with a pair that no moment
  had.
-/

namespace SocialApi.Services

open SocialApi.Concurrent SocialApi.Postgres SocialApi.Repositories

/-! ## The tables at the deciding statements -/

section Statements

variable {ι : Type} [DecidableEq ι] {s : DbState ι} {phase : ι → Phase} {i : ι}

/-- The tables after the commit of an `insert_like`. -/
theorem agrees_of_inserted (h : DbInv s phase) {k : Mutation} {count : I64}
    (hi : phase i = .insertedCounted k.key count) :
    Agrees (s.store.commit layout i).committed k true count := by
  have hholds := h.holds i
  rw [hi] at hholds
  obtain ⟨row, hrow, hws, hlike, -⟩ := hholds
  rw [Store.commit_committed, Store.view_of_txs hws]
  constructor
  · show (List.find? _ (s.store.committed.likes ++ [row])).isSome = true
    rw [List.find?_isSome]
    exact ⟨row, List.mem_append_right _ (List.mem_singleton_self _), by simpa using hrow⟩
  · show (Write.apply (.setCount k.key.2 count) _).totalCount k.key.2 = count
    rw [totalCount_setCount, if_pos rfl]

/-- The tables after the commit of a `delete_like` that deleted a row. -/
theorem agrees_of_deleted (h : DbInv s phase) {k : Mutation} {count : I64}
    (hi : phase i = .deletedCounted k.key count) :
    Agrees (s.store.commit layout i).committed k false count := by
  have hholds := h.holds i
  rw [hi] at hholds
  obtain ⟨hws, -⟩ := hholds
  rw [Store.commit_committed, Store.view_of_txs hws]
  constructor
  · show (List.find? _ (s.store.committed.likes.filter _)).isSome = false
    rw [Option.isSome_eq_false_iff, Option.isNone_iff_eq_none, List.find?_eq_none]
    intro row hrow
    simpa using (List.mem_filter.mp hrow).2
  · show (Write.apply (.setCount k.key.2 count) _).totalCount k.key.2 = count
    rw [totalCount_setCount, if_pos rfl]

end Statements

/-! ## All interleavings -/

section Runs

variable {ι : Type} (cfg : Config) (C : Codec)

/-- The phases of all calls. -/
def phasesOf (γ : ι → Option Answering) : ι → Phase :=
  phaseOf fun i => (γ i).map Answering.phase

theorem phasesOf_of {γ : ι → Option Answering} {i : ι} {g : Answering} (h : γ i = some g) :
    phasesOf γ i = g.phase := by
  simp [phasesOf, phaseOf, h]

variable [DecidableEq ι]

theorem phasesOf_update (γ : ι → Option Answering) (i : ι) (g : Option Answering) :
    phasesOf (Function.update γ i g) =
      Function.update (phasesOf γ) i ((g.map Answering.phase).getD .outside) :=
  phaseOf_map_update Answering.phase γ i g

variable {cfg C} {init : MutationConfig ι} {acts : List (Act ι Mutation SvcChoice)}

/-- The database is in order, and a settled pair is that of a moment of its call. -/
structure AnswersInv (cfg : Config) (C : Codec) (init : MutationConfig ι)
    (acts : List (Act ι Mutation SvcChoice)) (s : World ι) (γ : ι → Option Answering) : Prop where
  db : DbInv s.db (phasesOf γ)
  settled : ∀ i g liked count, γ i = some g → g.settled = some (liked, count) →
    Moment cfg C init acts i g.request liked count

/-- A step of call `i` that leaves its phase where `db'` says and settles nothing new. -/
theorem AnswersInv.stage {s s' : World ι} {γ : ι → Option Answering}
    (h : AnswersInv cfg C init acts s γ) {i : ι} {g : Option Answering}
    (hdb : DbInv s'.db (Function.update (phasesOf γ) i ((g.map Answering.phase).getD .outside)))
    (hsettled : ∀ g' liked count, g = some g' → g'.settled = some (liked, count) →
      Moment cfg C init acts i g'.request liked count) :
    AnswersInv cfg C init acts s' (Function.update γ i g) := by
  refine ⟨by rw [phasesOf_update]; exact hdb, fun j g' liked count hj hg' => ?_⟩
  by_cases hji : j = i
  · subst hji
    rw [Function.update_self] at hj
    exact hsettled g' liked count hj hg'
  · rw [Function.update_of_ne hji] at hj
    exact h.settled j g' liked count hj hg'

/-- The same phase, over the same database. -/
theorem AnswersInv.quiet {s s' : World ι} {γ : ι → Option Answering}
    (h : AnswersInv cfg C init acts s γ) {i : ι} {g : Answering} (hγ : γ i = some g)
    (hdb : s'.db = s.db) :
    AnswersInv cfg C init acts s' (Function.update γ i (some { g with goesOn := false })) := by
  refine h.stage ?_ fun g' liked count hg' hsettled => ?_
  · have hsame : ((some { g with goesOn := false }).map Answering.phase).getD .outside =
        phasesOf γ i := (phasesOf_of hγ).symm
    rw [hsame, Function.update_eq_self, hdb]
    exact h.db
  · obtain rfl := Option.some.inj hg'
    exact h.settled i g liked count hγ hsettled

section Step

variable {c : MutationConfig ι} {γ : ι → Option Answering} {i : ι} {x : SvcChoice} {k : Mutation}
  {s' : World ι} {g : Answering} {liked : Bool} {count : I64}

/-- The state before a step of the call is a moment of the call. -/
theorem moment_before {o : SvcOp} {f : o.Ans → Svc (Except AppError LikeActionResponse)}
    (honrun : (writers cfg C).machine.OnRun init acts c (.step i x))
    (hi : c.calls i = .running k (.op o f))
    (hagrees : Agrees c.shared.db.store.committed k liked count) :
    Moment cfg C init acts i k liked count := by
  obtain ⟨bs, cs, hsplit, hrun⟩ := honrun
  refine ⟨bs, _, c, hsplit, hrun, ?_, hagrees⟩
  rw [hi]
  trivial

/-- So is the state after a step with which the call does not end. -/
theorem moment_after {o : SvcOp} {f : o.Ans → Svc (Except AppError LikeActionResponse)} {r : o.Ans}
    (honrun : (writers cfg C).machine.OnRun init acts c (.step i x))
    (hi : c.calls i = .running k (.op o f)) (hs : handle cfg c.shared i o x = some (s', r))
    (hgoes : ∃ o' f', f r = .op o' f') (hagrees : Agrees s'.db.store.committed k liked count) :
    Moment cfg C init acts i k liked count := by
  obtain ⟨bs, cs, hsplit, hrun⟩ := honrun
  obtain ⟨o', f', hnext⟩ := hgoes
  let c' : MutationConfig ι := ⟨s', Function.update c.calls i (.settle k (f r))⟩
  have hstep : (writers cfg C).machine.step c (.step i x) = some c' := by
    show (writers cfg C).act c (.step i x) = some c'
    simp only [Pool.act, hi]
    exact Option.map_eq_some_iff.mpr ⟨(s', r), hs, rfl⟩
  refine ⟨bs ++ [.step i x], cs, c', ?_, (Machine.run_snoc _).mpr ⟨c, hrun, hstep⟩, ?_, hagrees⟩
  · rw [hsplit, List.append_assoc]
    rfl
  · show (Function.update c.calls i (CallState.settle k (f r)) i).Active
    rw [Function.update_self, hnext]
    trivial

/-- The second look of a like. -/
theorem moment_of_existing {userId : Uuid} {item : Item} {row : LikeRow}
    {f : DbOp.Ans (.selectExisting userId item) → Svc (Except AppError LikeActionResponse)}
    (h : AnswersInv cfg C init acts c.shared γ)
    (honrun : (writers cfg C).machine.OnRun init acts c (.step i x))
    (hi : c.calls i = .running k (.op (.db (.selectExisting userId item)) f))
    (hkey : (userId, item) = k.key) (hopened : phasesOf γ i = .opened)
    (hs : handle cfg c.shared i (.db (.selectExisting userId item)) x =
      some (s', .ok (some (row, count)))) : Moment cfg C init acts i k true count := by
  obtain ⟨now, order, rfl, hrun⟩ := handle_ok hs
  simp only [runStatement, h.db.view_of_opened hopened, hkey, Option.some.injEq, Prod.mk.injEq,
    Except.ok.injEq, Option.map_eq_some_iff] at hrun
  obtain ⟨-, found, hfound, -, hcount⟩ := hrun
  refine moment_before honrun hi ⟨by rw [hfound]; rfl, ?_⟩
  rw [← hcount, show item = k.item from congrArg Prod.snd hkey]

/-- The second look of an unlike. -/
theorem moment_of_count {item : Item} {answer : Option I64}
    {f : DbOp.Ans (.selectCount item) → Svc (Except AppError LikeActionResponse)}
    (h : AnswersInv cfg C init acts c.shared γ)
    (honrun : (writers cfg C).machine.OnRun init acts c (.step i x))
    (hapart : SameUserApart c (.step i x))
    (hi : c.calls i = .running k (.op (.db (.selectCount item)) f))
    (hitem : item = k.item) (hopened : phasesOf γ i = .opened)
    (hs : handle cfg c.shared i (.db (.selectCount item)) x = some (s', .ok answer)) :
    Moment cfg C init acts i k false (answer.getD 0) := by
  obtain ⟨now, order, rfl, hrun⟩ := handle_ok hs
  have habsent := hapart.absent i k now order item f rfl hi
  simp only [runStatement, h.db.view_of_opened hopened, Option.some.injEq, Prod.mk.injEq,
    Except.ok.injEq] at hrun
  obtain ⟨-, rfl⟩ := hrun
  subst hitem
  exact moment_before honrun hi ⟨by rw [Mutation.key, habsent]; rfl, rfl⟩

/-- The commit of a call that has changed the tables. -/
theorem moment_of_commit {r : DbOp.Rows .commit}
    {f : DbOp.Ans .commit → Svc (Except AppError LikeActionResponse)}
    (honrun : (writers cfg C).machine.OnRun init acts c (.step i x))
    (hi : c.calls i = .running k (.op (.db .commit) f))
    (hgoes : ∃ o' f', f (.ok r) = .op o' f')
    (hs : handle cfg c.shared i (.db .commit) x = some (s', .ok r))
    (hagrees : Agrees (c.shared.db.store.commit layout i).committed k liked count) :
    Moment cfg C init acts i k liked count := by
  obtain ⟨now, order, rfl, hrun⟩ := handle_ok hs
  refine moment_after honrun hi hs hgoes ?_
  simp only [runStatement, Option.some.injEq, Prod.mk.injEq] at hrun
  rw [← hrun.1]
  exact hagrees

/-- What a statement settles is the pair of a moment. -/
theorem moment_of_settle {q : DbOp} {f : q.Ans → Svc (Except AppError LikeActionResponse)}
    {r : q.Ans} (h : AnswersInv cfg C init acts c.shared γ)
    (honrun : (writers cfg C).machine.OnRun init acts c (.step i x))
    (hapart : SameUserApart c (.step i x)) (hi : c.calls i = .running k (.op (.db q) f))
    (hobeys : answering.Obeys (Responds k) g (.op (.db q) f)) (hγ : γ i = some g)
    (hs : handle cfg c.shared i (.db q) x = some (s', r))
    (hanswers : answering.answers g (.db q) r (g.next q r))
    (hsettle : (g.next q r).settled = some (liked, count)) :
    Moment cfg C init acts i k liked count := by
  have hrequest := request_eq hobeys
  have hphase := phasesOf_of hγ
  have hold : g.settled = some (liked, count) → Moment cfg C init acts i k liked count := by
    intro hg
    rw [← hrequest]
    exact h.settled i g liked count hγ hg
  obtain ⟨⟨hasks, hconcerns⟩, hnext⟩ := hobeys
  cases q with
  | selectExisting userId item =>
    rcases r with e | (_ | ⟨row, total⟩)
    · exact hold hsettle
    · exact hold hsettle
    · cases hsettle
      have hopened := Phase.opened_of_asks hasks (Or.inl ⟨userId, item, rfl⟩)
      exact moment_of_existing h honrun hi (hrequest ▸ hconcerns) (hphase.trans hopened) hs
  | selectCount item =>
    cases r with
    | error e => exact hold hsettle
    | ok answer =>
      cases hsettle
      have hopened := Phase.opened_of_asks hasks (Or.inr ⟨item, rfl⟩)
      exact moment_of_count h honrun hapart hi (hrequest ▸ hconcerns) (hphase.trans hopened) hs
  | commit =>
    cases r with
    | error e => exact hold hsettle
    | ok u =>
      obtain ⟨request, phase, settled, goesOn⟩ := g
      subst hrequest
      -- a call that has committed writes goes on
      have hgoes : Answering.goesOnAfter ⟨request, phase, settled, goesOn⟩ .commit (.ok u) = true →
          ∃ o' f', f (.ok u) = .op o' f' := by
        intro htrue
        have hrest := hnext (.ok u) _ hanswers
        cases hf : f (.ok u) with
        | op o' f' => exact ⟨o', f', rfl⟩
        | ret a =>
          rw [hf] at hrest
          exact absurd (htrue.symm.trans hrest.2.2.1) (by simp)
      cases phase with
      | insertedCounted key total =>
        obtain rfl : key = request.key := hconcerns
        cases hsettle
        exact moment_of_commit honrun hi (hgoes rfl) hs (agrees_of_inserted h.db hphase)
      | deletedCounted key total =>
        obtain rfl : key = request.key := hconcerns
        cases hsettle
        exact moment_of_commit honrun hi (hgoes rfl) hs (agrees_of_deleted h.db hphase)
      | _ => exact hold hsettle
  | _ => exact hold hsettle

/-- Every statement keeps the invariant. -/
theorem AnswersInv.statement {q : DbOp} {f : q.Ans → Svc (Except AppError LikeActionResponse)}
    {r : q.Ans} (h : AnswersInv cfg C init acts c.shared γ)
    (honrun : (writers cfg C).machine.OnRun init acts c (.step i x))
    (hapart : SameUserApart c (.step i x)) (hi : c.calls i = .running k (.op (.db q) f))
    (hobeys : answering.Obeys (Responds k) g (.op (.db q) f)) (hγ : γ i = some g)
    (hs : handle cfg c.shared i (.db q) x = some (s', r)) :
    answering.answers g (.db q) r (g.next q r) ∧
      AnswersInv cfg C init acts s' (Function.update γ i (some (g.next q r))) := by
  have hphase := phasesOf_of hγ
  obtain ⟨y, db', rfl, hdb, rfl⟩ := handle_db hs
  obtain ⟨hinv, hfits⟩ := h.db.handle (hphase ▸ hobeys.1.1) hdb
  rw [hphase] at hinv hfits
  have hfinds : FindsRow q r := by
    cases q with
    | selectExisting userId item =>
      intro hnone
      subst hnone
      obtain ⟨now, order, hx, hrun⟩ := handle_ok hs
      have hopened := Phase.opened_of_asks hobeys.1.1 (Or.inl ⟨userId, item, rfl⟩)
      have hthere := hapart.existing i k now order userId item f (congrArg _ hx) hi
      simp only [runStatement, h.db.view_of_opened (hphase.trans hopened), Option.some.injEq,
        Prod.mk.injEq, Except.ok.injEq, Option.map_eq_none_iff] at hrun
      rw [hrun.2] at hthere
      cases hthere
    | _ => trivial
  have hanswers : answering.answers g (.db q) r (g.next q r) := ⟨rfl, hfits, hfinds⟩
  refine ⟨hanswers, h.stage hinv fun g' liked count hg' hsettled => ?_⟩
  obtain rfl := Option.some.inj hg'
  have hrequest : (g.next q r).request = k := request_eq (g := g) hobeys
  rw [hrequest]
  exact moment_of_settle h honrun hapart hi hobeys hγ hs hanswers hsettled

end Step

variable (cfg C init acts) in
theorem writers_keep :
    Pool.Keeps (writers cfg C) answering Responds Answering.fresh (AnswersInv cfg C init acts)
      (fun c a => (writers cfg C).machine.OnRun init acts c a ∧ SameUserApart c a) where
  prog := Mutation.answering
  start c i k s γ _ h hγ hs := by
    cases hs
    refine h.stage ?_ fun g liked count hg hsettled => ?_
    · have hout : phasesOf γ i = .outside := by simp [phasesOf, phaseOf, hγ]
      show DbInv c.shared.db (Function.update (phasesOf γ) i Phase.outside)
      rw [← hout, Function.update_eq_self]
      exact h.db
    · obtain rfl := Option.some.inj hg
      cases hsettled
  handle c i x k o f s r γ g hguard h hF hi hγ hasks hs := by
    have hfollows := hF i
    rw [hi] at hfollows
    obtain ⟨g', hg', hobeys⟩ := hfollows
    obtain rfl : g' = g := Option.some.inj (hg'.symm.trans hγ)
    cases o with
    | db q => exact ⟨_, h.statement hguard.1 hguard.2 hi hobeys hγ hs⟩
    | _ =>
      have hdb : s.db = c.shared.db := handle_offDb hs trivial
      exact ⟨_, rfl, h.quiet hγ hdb⟩
  ret s i k γ g a h hγ ha := by
    refine h.stage ?_ fun g' liked count hg' => by cases hg'
    show DbInv s.db (Function.update (phasesOf γ) i Phase.outside)
    rw [← ha.1, ← phasesOf_of hγ, Function.update_eq_self]
    exact h.db
  drop c i k p s γ g _ h _ _ _ hs := by
    cases hs
    exact h.stage (h.db.abort rfl) fun g' liked count hg' => by cases hg'
  env c x s γ _ h hs := by
    cases x with
    | evict layer key =>
      cases hs
      exact ⟨h.db, h.settled⟩
    | _ => cases hs

variable (cfg C) in
/-- Calls of `like` and `unlike` by any users on any items: as long as no other call of the
    caller comes between the two looks of a call, every response is consistent with one moment
    of its call. -/
theorem oneMoment_of_meets (init c : MutationConfig ι) (acts : List (Act ι Mutation SvcChoice))
    (hinit : (writers cfg C).machine.init init)
    (hrun : (writers cfg C).machine.run init acts = some c)
    (hmeets : (writers cfg C).machine.Meets SameUserApart init acts) :
    OneMoment cfg C init acts c := by
  obtain ⟨⟨t, ht, hstore⟩, hidle⟩ := hinit
  have hstart : AnswersInv cfg C init acts init.shared fun _ => none := by
    refine ⟨?_, fun i g liked count hg => by cases hg⟩
    have hphases : phasesOf (fun _ : ι => (none : Option Answering)) = fun _ => .outside := rfl
    rw [hphases]
    exact dbInv_ofTables ht hstore
  have hguard := (Machine.meets_onRun (writers cfg C).machine init acts).and hmeets
  obtain ⟨-, hreturns⟩ := (writers_keep cfg C init acts).returns_of_meets
    (R := fun _ i k a => ∀ response, a = .ok response →
      Moment cfg C init acts i k response.liked response.count)
    (fun s i k γ g a h hγ ha response hresponse => by
      have hmoment := h.settled i g _ _ hγ (ha.2.2.2 response hresponse)
      rwa [ha.2.1] at hmoment)
    (fun _ _ _ _ _ _ _ _ _ h => h) hstart hidle hguard hrun
  intro i k response hi
  exact hreturns i k _ hi response rfl

end Runs

/-! ## Two calls of one user -/

/-- `SameUserApart`, computed. -/
def sameUserApart {ι : Type} (c : MutationConfig ι) : Act ι Mutation SvcChoice → Bool
  | .step i (.db (.run _ _)) =>
    match c.calls i with
    | .running _ (.op (.db (.selectExisting userId item)) _) =>
      (c.shared.db.store.committed.find (userId, item)).isSome
    | .running k (.op (.db (.selectCount item)) _) =>
      decide (c.shared.db.store.committed.find (k.userId, item) = none)
    | _ => true
  | _ => true

theorem sameUserApart_sound {ι : Type} (c : MutationConfig ι) (a : Act ι Mutation SvcChoice)
    (h : sameUserApart c a = true) : SameUserApart c a := by
  constructor
  · rintro i k now order userId item f rfl hi
    simp only [sameUserApart, hi] at h
    exact h
  · rintro i k now order item f rfl hi
    simp only [sameUserApart, hi] at h
    exact of_decide_eq_true h

/-- A call starts and is validated from the validator's cache. -/
def enter (i : ℕ) (k : Mutation) : List (Act ℕ Mutation SvcChoice) :=
  [.start i k, .step i (.clock 0 0), .step i (.validated (.ok (.cached true)))]

/-- `n` statements of call `i`. -/
def statementsOf (i n : ℕ) : List (Act ℕ Mutation SvcChoice) :=
  List.replicate n (.step i (.db (.run .epoch [])))

/-- The cache operations of call `i` after its transaction: the count and the status are stored,
    and the caller's pages are invalidated. -/
def cacheSteps (i : ℕ) : List (Act ℕ Mutation SvcChoice) :=
  List.replicate 4 (.step i (.cache .ok)) ++ [.step i (.cache (.removed []))] ++
    List.replicate 4 (.step i (.cache .ok))

/-- The response of a call. -/
def responseOf (cs : CallState Mutation SvcOp SvcOp.Ans (Except AppError LikeActionResponse)) :
    Option LikeActionResponse :=
  match cs with
  | .returned _ (.ok response) => some response
  | _ => none

/-- A call that has responded has returned. -/
theorem returned_of_responseOf
    {cs : CallState Mutation SvcOp SvcOp.Ans (Except AppError LikeActionResponse)}
    {response : LikeActionResponse} (h : responseOf cs = some response) :
    ∃ k, cs = .returned k (.ok response) ∧ cs.request = some k := by
  cases cs with
  | returned k a =>
    cases a with
    | ok r => exact ⟨k, by rw [Option.some.inj h], rfl⟩
    | error e => cases h
  | _ => cases h

/-- A like of user 1, and between its statements one of user 2. -/
def apartLikes : List (Act ℕ Mutation SvcChoice) :=
  enter 0 (.like 1 ("post", 7)) ++ statementsOf 0 2 ++ enter 1 (.like 2 ("post", 7)) ++
    statementsOf 1 2 ++ statementsOf 0 2 ++ statementsOf 1 2 ++ cacheSteps 0 ++
    [.step 0 (.published true)]

theorem oneMoment_of_meets_apartLikes :
    ∃ c : MutationConfig ℕ, (writers Config.default Codec.plain).machine.run
        ⟨World.new, fun _ => .idle⟩ apartLikes = some c ∧
      responseOf (c.calls 0) = some ⟨true, some false, none, 1, some .epoch⟩ ∧
      OneMoment Config.default Codec.plain ⟨World.new, fun _ => .idle⟩ apartLikes c := by
  have hview : ((writers Config.default Codec.plain).machine.run
      (⟨World.new, fun _ => .idle⟩ : MutationConfig ℕ) apartLikes).map (fun c =>
        responseOf (c.calls 0)) = some (some ⟨true, some false, none, 1, some .epoch⟩) := by
    decide +kernel
  obtain ⟨c, hrun, hresponse⟩ := Option.map_eq_some_iff.mp hview
  have hchecks : (writers Config.default Codec.plain).machine.meetsAll sameUserApart
      (⟨World.new, fun _ => .idle⟩ : MutationConfig ℕ) apartLikes = true := by
    decide +kernel
  refine ⟨c, hrun, hresponse, ?_⟩
  apply oneMoment_of_meets Config.default Codec.plain
    (⟨World.new, fun _ => .idle⟩ : MutationConfig ℕ) c apartLikes _ hrun
  · exact Machine.meets_of_meetsAll sameUserApart_sound hchecks
  · exact ⟨⟨_, consistent_empty, rfl⟩, fun _ => rfl⟩

/-- An unlike of user 1 that finds nothing to delete, and before it reads the count a whole
    like of the same user. -/
def crossingUnlike : List (Act ℕ Mutation SvcChoice) :=
  enter 0 (.unlike 1 ("post", 7)) ++ statementsOf 0 2 ++ enter 1 (.like 1 ("post", 7)) ++
    statementsOf 1 4 ++ statementsOf 0 2 ++ cacheSteps 0

/-- User 1 has no row, and the item has one like. -/
def oneLikeNoRow (c : MutationConfig ℕ) : Bool :=
  decide ((c.shared.db.store.committed.find (1, ("post", 7))).isSome = false ∧
    c.shared.db.store.committed.totalCount ("post", 7) = 1)

/-- The unlike responds that the user does not like the item and that it has one like, which it
    only ever had from the user. -/
theorem crossingUnlike_noMoment :
    ∃ c : MutationConfig ℕ, (writers Config.default Codec.plain).machine.run
        ⟨World.new, fun _ => .idle⟩ crossingUnlike = some c ∧
      responseOf (c.calls 0) = some ⟨false, none, some false, 1, none⟩ ∧
      ¬OneMoment Config.default Codec.plain ⟨World.new, fun _ => .idle⟩ crossingUnlike c := by
  have hview : ((writers Config.default Codec.plain).machine.run
      (⟨World.new, fun _ => .idle⟩ : MutationConfig ℕ) crossingUnlike).map (fun c =>
        (responseOf (c.calls 0), (c.calls 0).request)) =
      some (some ⟨false, none, some false, 1, none⟩, some (.unlike 1 ("post", 7))) := by
    decide +kernel
  -- the item never has one like while it has no row of the user
  have hnever : (writers Config.default Codec.plain).machine.meetsAll
      (fun c _ => !oneLikeNoRow c) (⟨World.new, fun _ => .idle⟩ : MutationConfig ℕ)
      crossingUnlike = true := by
    decide +kernel
  obtain ⟨c, hrun, hc⟩ := Option.map_eq_some_iff.mp hview
  obtain ⟨hresponse, hrequest⟩ := Prod.mk.inj hc
  refine ⟨c, hrun, hresponse, fun h => ?_⟩
  obtain ⟨k, hreturned, hk⟩ := returned_of_responseOf hresponse
  obtain rfl : k = .unlike 1 ("post", 7) := Option.some.inj (hk.symm.trans hrequest)
  obtain ⟨bs, cs, m, hsplit, hbs, hactive, hagrees⟩ := h 0 _ _ hreturned
  cases cs with
  | nil =>
    obtain rfl : c = m := by
      rw [List.append_nil] at hsplit
      rw [hsplit, hbs] at hrun
      exact (Option.some.inj hrun).symm
    rw [hreturned] at hactive
    exact hactive
  | cons a cs =>
    have hmeets := Machine.meets_of_meetsAll (C := fun c _ => (!oneLikeNoRow c) = true)
      (fun _ _ h => h) hnever
    rw [hsplit] at hmeets
    have hm := hmeets.at hbs
    have hthere : oneLikeNoRow m = true := decide_eq_true ⟨hagrees.row, hagrees.total⟩
    rw [hthere] at hm
    cases hm

end SocialApi.Services
