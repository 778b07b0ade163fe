import SocialApi.Services.LikeCommands
import SocialApi.Services.ContentBreaker
import SocialApi.Repositories.WritePath

/-!
# What a response of `like` and `unlike` is taken from

A response says whether the caller now likes the item, and how many likes it has. Most
branches take both from one moment: a transaction that changed the tables from its
commit, a second like from the one statement that joins the row with the count. Two do
not. An unlike that deletes nothing reads the count in a second statement, and a like
that conflicts with a row that is then gone reads it in a third; at READ COMMITTED each
sees the tables as they are then.

* `Answering`: how far the answer of a call is; the calls keep to it (`Mutation.answering`).
-/

namespace SocialApi.Services

open SocialApi.Concurrent SocialApi.Postgres SocialApi.Repositories

/-! ## Moments -/

/-- The caller of a call. -/
def Mutation.userId : Mutation → Uuid
  | like userId _ => userId
  | unlike userId _ => userId

/-- The item of a call. -/
def Mutation.item : Mutation → Item
  | like _ item => item
  | unlike _ item => item

/-- The key of the caller's row. -/
def Mutation.key (k : Mutation) : LikeKey := (k.userId, k.item)

/-- The tables have a row of the caller exactly when `liked`, and `count` likes. -/
structure Agrees (t : Tables) (k : Mutation) (liked : Bool) (count : I64) : Prop where
  row : (t.find k.key).isSome = liked
  total : t.totalCount k.item = count

section Runs

variable {ι : Type} [DecidableEq ι] (cfg : Config) (C : Codec)

/-- `like` and `unlike` calls over consistent tables. -/
def writers : Pool ι (World ι) Mutation SvcOp SvcOp.Ans (Except AppError LikeActionResponse)
    SvcChoice :=
  servicePool cfg (Mutation.prog cfg C) fun s => ∃ t, Consistent t ∧ s.db.store = .ofTables t

/-- Between the start and the return of call `i` there was a moment at which the committed
    tables agreed with the pair. -/
def Moment (init : MutationConfig ι) (acts : List (Act ι Mutation SvcChoice)) (i : ι)
    (k : Mutation) (liked : Bool) (count : I64) : Prop :=
  ∃ bs cs m, acts = bs ++ cs ∧ (writers cfg C).machine.run init bs = some m ∧
    (m.calls i).Active ∧ Agrees m.shared.db.store.committed k liked count

/-- Every response is consistent with one moment of its call. -/
def OneMoment (init : MutationConfig ι) (acts : List (Act ι Mutation SvcChoice))
    (c : MutationConfig ι) : Prop :=
  ∀ i k response, c.calls i = .returned k (.ok response) →
    Moment cfg C init acts i k response.liked response.count

/-- The second look of a like finds the row it conflicted with, and that of an unlike still
    finds none. -/
structure SameUserApart (c : MutationConfig ι) (a : Act ι Mutation SvcChoice) : Prop where
  existing : ∀ i k now order userId item f, a = .step i (.db (.run now order)) →
    c.calls i = .running k (.op (.db (.selectExisting userId item)) f) →
      (c.shared.db.store.committed.find (userId, item)).isSome
  absent : ∀ i k now order item f, a = .step i (.db (.run now order)) →
    c.calls i = .running k (.op (.db (.selectCount item)) f) →
      c.shared.db.store.committed.find (k.userId, item) = none

end Runs

/-! ## How far an answer is -/

/-- A call's request, the phase of its transaction, the pair its response will have once that
    is known, and whether the call is bound to go on. -/
structure Answering where
  request : Mutation
  phase : Phase
  settled : Option (Bool × I64)
  goesOn : Bool

namespace Answering

/-- A call that has just started. -/
def fresh (k : Mutation) : Answering := ⟨k, .outside, none, false⟩

/-- The statement is about the caller's row and its item. -/
def Concerns (g : Answering) : DbOp → Prop
  | .insertLike userId item => (userId, item) = g.request.key
  | .selectExisting userId item => (userId, item) = g.request.key
  | .deleteLike userId item => (userId, item) = g.request.key
  | .incrementCount item => item = g.request.item
  | .decrementCount item => item = g.request.item
  | .selectCount item => item = g.request.item
  | .commit =>
    match g.phase with
    | .insertedCounted key _ => key = g.request.key
    | .deletedCounted key _ => key = g.request.key
    | _ => True
  | .countRow _ => False
  | _ => True

/-- The pair after the answer to a statement. -/
def settle (g : Answering) : (q : DbOp) → q.Ans → Option (Bool × I64)
  | .selectExisting _ _, .ok (some (_, count)) => some (true, count)
  | .selectCount _, .ok count => some (false, count.getD 0)
  | .commit, .ok _ =>
    match g.phase with
    | .insertedCounted _ count => some (true, count)
    | .deletedCounted _ count => some (false, count)
    | _ => g.settled
  | _, _ => g.settled

/-- A commit of writes is not the end of the call. -/
def goesOnAfter (g : Answering) : (q : DbOp) → q.Ans → Bool
  | .commit, .ok _ =>
    match g.phase with
    | .insertedCounted _ _ => true
    | .deletedCounted _ _ => true
    | _ => false
  | _, _ => false

/-- The ghost state after the answer to a statement. -/
def next (g : Answering) (q : DbOp) (r : q.Ans) : Answering :=
  ⟨g.request, g.phase.next q r, g.settle q r, g.goesOnAfter q r⟩

end Answering

/-- What a statement may answer: the second look of a like finds a row. -/
def FindsRow : (q : DbOp) → q.Ans → Prop
  | .selectExisting _ _, r => r ≠ .ok none
  | _, _ => True

/-- The statements of a call, and what becomes of its response. -/
def answering : Protocol SvcOp SvcOp.Ans Answering where
  asks g o :=
    match o with
    | .db q => g.phase.asks q ∧ g.Concerns q
    | _ => True
  answers g o r g' :=
    match o, r with
    | .db q, r => g' = g.next q r ∧ g.phase.Fits q r ∧ FindsRow q r
    | _, _ => g' = { g with goesOn := false }

/-- The call ends outside a transaction, with the pair that was settled. -/
def Responds (k : Mutation) (g : Answering) (result : Except AppError LikeActionResponse) : Prop :=
  g.phase = .outside ∧ g.request = k ∧ g.goesOn = false ∧
    ∀ response, result = .ok response → g.settled = some (response.liked, response.count)

/-! ## The programs -/

/-- The statements of a repository function, as operations of the service. -/
def statements : Protocol DbOp DbOp.Ans Answering := answering.comap .db fun _ r => r

section Statements

variable {α : Type} {Q : Answering → Except SqlxError α → Prop} {g : Answering} {k : Mutation}

/-- The call is outside a transaction and may end. -/
def Over (k : Mutation) (g : Answering) : Prop :=
  g.phase = .outside ∧ g.request = k ∧ g.goesOn = false

/-- A statement, with its error returned. -/
theorem statements_attempt {q : DbOp} {f : q.Rows → Repo α} (hq : g.phase.asks q)
    (hconcerns : g.Concerns q)
    (hok : ∀ a, g.phase.Fits q (.ok a) → FindsRow q (.ok a) →
      statements.Obeys Q (g.next q (.ok a)) (f a))
    (herr : ∀ e, Q (g.next q (.error e)) (.error e)) : statements.Obeys Q g (Repositories.attempt q f) := by
  unfold Repositories.attempt
  rw [Protocol.obeys_bind]
  refine ⟨⟨hq, hconcerns⟩, ?_⟩
  rintro r g' ⟨r', rfl, rfl, hfits, hfinds⟩
  cases r' with
  | error e => exact herr e
  | ok a => exact hok a hfits hfinds

/-- A statement inside a transaction, which an error ends. -/
theorem statements_inTx {q : DbOp} {f : q.Rows → Repo α} (hq : g.phase.asks q)
    (hconcerns : g.Concerns q)
    (hok : ∀ a, g.phase.Fits q (.ok a) → FindsRow q (.ok a) →
      statements.Obeys Q (g.next q (.ok a)) (f a))
    (hroll : ∀ e, (g.phase.next q (.error e)).asks .rollback)
    (herr : ∀ g' e, Over g.request g' → Q g' (.error e)) :
    statements.Obeys Q g (inTx q f) := by
  unfold inTx
  rw [Protocol.obeys_bind]
  refine ⟨⟨hq, hconcerns⟩, ?_⟩
  rintro r g' ⟨r', rfl, rfl, hfits, hfinds⟩
  cases r' with
  | error e =>
    refine ⟨⟨hroll e, trivial⟩, ?_⟩
    rintro r g' ⟨r', rfl, rfl, -, -⟩
    exact herr _ e ⟨rfl, rfl, rfl⟩
  | ok a => exact hok a hfits hfinds

/-- What is settled when `insert_like` returns. -/
def Inserted (k : Mutation) (g : Answering) : Except SqlxError InsertLikeResult → Prop
  | .error _ => Over k g
  | .ok (.inserted _ count) =>
    g.phase = .outside ∧ g.request = k ∧ g.settled = some (true, count)
  | .ok (.alreadyExisted _ count) => Over k g ∧ g.settled = some (true, count)
  | .ok (.concurrentlyRemoved _) => False

theorem insertLike_statements (k : Mutation) :
    statements.Obeys (Inserted k) (.fresh k) (insertLike k.userId k.item) := by
  unfold insertLike
  refine statements_attempt trivial trivial (fun _ _ _ => ?_) fun e => ⟨rfl, rfl, rfl⟩
  refine statements_inTx trivial rfl (fun row _ _ => ?_) (fun _ => trivial) fun _ _ h => h
  cases row with
  | some likeRow =>
    refine statements_inTx rfl rfl (fun count _ _ => ?_) (fun _ => trivial) fun _ _ h => h
    exact statements_attempt trivial rfl (fun _ _ _ => ⟨rfl, rfl, rfl⟩) fun _ => ⟨rfl, rfl, rfl⟩
  | none =>
    refine statements_inTx trivial rfl (fun existing _ hfinds => ?_) (fun _ => trivial) fun _ _ h => h
    cases existing with
    | none => exact absurd rfl hfinds
    | some found =>
      exact statements_attempt trivial trivial (fun _ _ _ => ⟨⟨rfl, rfl, rfl⟩, rfl⟩)
        fun _ => ⟨rfl, rfl, rfl⟩

/-- What is settled when `delete_like` returns. -/
def Deleted (k : Mutation) (g : Answering) : Except SqlxError DeleteLikeResult → Prop
  | .error _ => Over k g
  | .ok result => g.phase = .outside ∧ g.request = k ∧ g.settled = some (false, result.count)

theorem deleteLike_statements (k : Mutation) :
    statements.Obeys (Deleted k) (.fresh k) (deleteLike k.userId k.item) := by
  unfold deleteLike
  refine statements_attempt trivial trivial (fun _ _ _ => ?_) fun e => ⟨rfl, rfl, rfl⟩
  refine statements_inTx trivial rfl (fun rowsAffected _ _ => ?_) (fun _ => trivial) fun _ _ h => h
  split_ifs with hn
  · have hnext : ((Answering.fresh k).next .begin (.ok ())).next (.deleteLike k.userId k.item)
        (.ok rowsAffected) = ⟨k, .deleted k.key, none, false⟩ := by
      simp [Answering.next, Answering.fresh, Phase.next, Answering.settle, Answering.goesOnAfter,
        hn, Mutation.key]
    rw [hnext]
    refine statements_inTx rfl rfl (fun count hfits _ => ?_) (fun _ => trivial) fun _ _ h => h
    cases count with
    | none => exact absurd rfl hfits.1
    | some c =>
      exact statements_attempt trivial rfl (fun _ _ _ => ⟨rfl, rfl, rfl⟩) fun _ => ⟨rfl, rfl, rfl⟩
  · have hnext : ((Answering.fresh k).next .begin (.ok ())).next (.deleteLike k.userId k.item)
        (.ok rowsAffected) = ⟨k, .opened, none, false⟩ := by
      simp [Answering.next, Answering.fresh, Phase.next, Answering.settle, Answering.goesOnAfter, hn]
    rw [hnext]
    refine statements_inTx trivial rfl (fun count _ _ => ?_) (fun _ => trivial) fun _ _ h => h
    exact statements_attempt trivial trivial (fun _ _ _ => ⟨rfl, rfl, rfl⟩) fun _ => ⟨rfl, rfl, rfl⟩

end Statements

section Methods

variable {cfg : Config} {C : Codec} {α : Type} {g : Answering} {k : Mutation}

theorem answers_offDb {o : SvcOp} (ho : o.OffDb) :
    answering.asks g o ∧ ∀ r g', answering.answers g o r g' → g' = { g with goesOn := false } := by
  cases o with
  | db q => exact ho.elim
  | _ => exact ⟨trivial, fun r g' hr => hr⟩

/-- A program that leaves the database alone, once the call may end. -/
theorem answering_offDb {p : Svc α} (hp : p.All SvcOp.OffDb) (hg : g.goesOn = false) :
    answering.Obeys (fun g' _ => g' = g) g p := by
  have hsame : { g with goesOn := false } = g := by rw [← hg]
  refine Protocol.obeys_of_all (fun o ho => ?_) hp fun _ => rfl
  obtain ⟨hasks, hanswers⟩ := answers_offDb (g := g) ho
  exact ⟨hasks, fun r g' hr => (hanswers r g' hr).trans hsame⟩

/-- A program that leaves the database alone and does something, at the end of a call. -/
theorem answering_rest {p : Svc α} {S : α → Prop} (hstart : ∃ o f, p = .op o f)
    (hp : p.All SvcOp.OffDb) (hends : p.Ends S) :
    answering.Obeys (fun g' a => g' = { g with goesOn := false } ∧ S a) g p := by
  obtain ⟨o, f, rfl⟩ := hstart
  obtain ⟨hasks, hanswers⟩ := answers_offDb (g := g) hp.1
  refine ⟨hasks, fun r g' hr => ?_⟩
  rw [hanswers r g' hr]
  refine Protocol.obeys_of_all_of_ends (fun o ho => ?_) (hp.2 r) (hends r)
  exact answers_offDb (g := { g with goesOn := false }) ho

theorem cache_offDb (p : Cache.CacheM α) : (cache p).All SvcOp.OffDb :=
  .lift (Prog.all_of_forall (fun _ => trivial) p)

theorem validateContent_offDb (item : Item) : (validateContent item).All SvcOp.OffDb := by
  unfold validateContent
  refine ⟨trivial, fun admitted => ?_⟩
  cases admitted with
  | false => trivial
  | true =>
    refine ⟨trivial, fun outcome => ?_⟩
    rcases outcome with error | valid | valid
    · exact ⟨trivial, fun _ => trivial⟩
    · cases valid <;> trivial
    · refine ⟨trivial, fun _ => ?_⟩
      cases valid <;> trivial

/-- Validate, change the tables, and go on with the result. -/
theorem answering_mutation {item : Item} {p : Repo α} {Q : Answering → Except SqlxError α → Prop}
    {f : α → Svc (Except AppError LikeActionResponse)} (hp : statements.Obeys Q (.fresh k) p)
    (hok : ∀ g a, Q g (.ok a) → answering.Obeys (Responds k) g (f a))
    (herr : ∀ g e, Q g (.error e) → Over k g) :
    answering.Obeys (Responds k) (.fresh k)
      (attempt (validateContent item) fun _ => attempt (db p) f) := by
  refine (answering_offDb (validateContent_offDb item) rfl).bind ?_
  rintro g result rfl
  cases result with
  | error error => exact ⟨rfl, rfl, rfl, fun response h => by cases h⟩
  | ok u =>
    have hdb : answering.Obeys (fun g a => (∃ b, a = .ok b ∧ Q g (.ok b)) ∨
        ∃ e, a = .error e ∧ Over k g) (.fresh k) (db p) := by
      refine Protocol.Obeys.bind (Protocol.obeys_lift.mpr hp) ?_
      intro g result hQ
      cases result with
      | error e => exact Or.inr ⟨_, rfl, herr g e hQ⟩
      | ok b => exact Or.inl ⟨b, rfl, hQ⟩
    refine hdb.bind ?_
    rintro g result (⟨b, rfl, hQ⟩ | ⟨e, rfl, hphase, hrequest, hgoes⟩)
    · exact hok g b hQ
    · exact ⟨hphase, hrequest, hgoes, fun response h => by cases h⟩

/-- The rest of a call whose response is settled. -/
theorem answering_settled {p : Svc (Except AppError LikeActionResponse)} {liked : Bool}
    {count : I64} (hphase : g.phase = .outside) (hrequest : g.request = k)
    (hsettled : g.settled = some (liked, count)) (hstart : ∃ o f, p = .op o f)
    (hp : p.All SvcOp.OffDb)
    (hends : p.Ends fun result => ∃ response, result = .ok response ∧ response.liked = liked ∧
      response.count = count) : answering.Obeys (Responds k) g p := by
  refine (answering_rest hstart hp hends).mono ?_
  rintro g' result ⟨rfl, response, rfl, hliked, hcount⟩
  refine ⟨hphase, hrequest, rfl, fun response' h => ?_⟩
  obtain rfl := Except.ok.inj h
  rw [hliked, hcount]
  exact hsettled

theorem invalidateUserLikes_offDb (userId : Uuid) (contentType : String) :
    (invalidateUserLikes userId contentType).All SvcOp.OffDb :=
  (cache_offDb _).bind fun _ => cache_offDb _

theorem like_answering (userId : Uuid) (item : Item) :
    answering.Obeys (Responds (.like userId item)) (.fresh (.like userId item))
      (like cfg C userId item) := by
  refine answering_mutation (insertLike_statements (.like userId item)) ?_ fun _ _ h => h
  intro g result hresult
  cases result with
  | inserted row count =>
    obtain ⟨hphase, hrequest, hsettled⟩ := hresult
    refine answering_settled hphase hrequest hsettled ⟨_, _, rfl⟩ ?_ ?_
    · refine (cache_offDb _).bind fun _ => (cache_offDb _).bind fun _ => ?_
      refine (invalidateUserLikes_offDb _ _).bind fun _ => ?_
      exact ⟨trivial, fun _ => trivial⟩
    · refine Prog.Ends.bind (fun _ => Prog.Ends.bind (fun _ => Prog.Ends.bind (fun _ => ?_) _) _) _
      exact fun _ => ⟨_, rfl, rfl, rfl⟩
  | alreadyExisted row count =>
    obtain ⟨⟨hphase, hrequest, -⟩, hsettled⟩ := hresult
    refine answering_settled hphase hrequest hsettled ⟨_, _, rfl⟩ ?_ ?_
    · exact (cache_offDb _).bind fun _ => (cache_offDb _).bind fun _ => trivial
    · refine Prog.Ends.bind (fun _ => Prog.Ends.bind (fun _ => ?_) _) _
      exact ⟨_, rfl, rfl, rfl⟩
  | concurrentlyRemoved count => exact hresult.elim

theorem unlike_answering (userId : Uuid) (item : Item) :
    answering.Obeys (Responds (.unlike userId item)) (.fresh (.unlike userId item))
      (unlike cfg C userId item) := by
  refine answering_mutation (deleteLike_statements (.unlike userId item)) ?_ fun _ _ h => h
  intro g result hresult
  obtain ⟨hphase, hrequest, hsettled⟩ := hresult
  refine answering_settled hphase hrequest hsettled ⟨_, _, rfl⟩ ?_ ?_
  · refine (cache_offDb _).bind fun _ => (cache_offDb _).bind fun _ => ?_
    refine (invalidateUserLikes_offDb _ _).bind fun _ => ?_
    split_ifs
    · exact ⟨trivial, fun _ => ⟨trivial, fun _ => trivial⟩⟩
    · trivial
  · refine Prog.Ends.bind (fun _ => Prog.Ends.bind (fun _ => Prog.Ends.bind (fun _ => ?_) _) _) _
    split_ifs
    · exact fun _ _ => ⟨_, rfl, rfl, rfl⟩
    · exact ⟨_, rfl, rfl, rfl⟩

theorem Mutation.answering (k : Mutation) :
    Services.answering.Obeys (Responds k) (.fresh k) (k.prog cfg C) := by
  cases k with
  | like userId item => exact like_answering userId item
  | unlike userId item => exact unlike_answering userId item

end Methods

/-- Every operation has an answer that a call may get. -/
theorem answering_total {g : Answering} {o : SvcOp} :
    ∃ r g', answering.answers g o r g' ∧ g'.request = g.request := by
  cases o with
  | db q =>
    refine ⟨.error (.other ""), _, ⟨rfl, ?_, ?_⟩, rfl⟩
    · cases q with
      | decrementCount item => exact ⟨by simp, by simp⟩
      | _ => intro name; simp
    · cases q with
      | selectExisting userId item => simp [FindsRow]
      | _ => trivial
  | cache o =>
    cases o with
    | _ => exact ⟨default, _, rfl, rfl⟩
  | flight o =>
    cases o with
    | entry key keep => exact ⟨.leader ⟨key, 0⟩, _, rfl, rfl⟩
    | changed rx => exact ⟨.value, _, rfl, rfl⟩
    | _ => exact ⟨default, _, rfl, rfl⟩
  | validate item => exact ⟨.ok (.cached true), _, rfl, rfl⟩
  | now => exact ⟨.epoch, _, rfl, rfl⟩
  | _ => exact ⟨default, _, rfl, rfl⟩

/-- The ghost state of a call names its request. -/
theorem request_eq {k : Mutation} {g : Answering} {p : Svc (Except AppError LikeActionResponse)}
    (h : answering.Obeys (Responds k) g p) : g.request = k := by
  induction p generalizing g with
  | ret a => exact h.2.1
  | op o f ih =>
    obtain ⟨r, g', hanswers, hrequest⟩ := answering_total (g := g) (o := o)
    rw [← hrequest]
    exact ih r (h.2 r g' hanswers)

end SocialApi.Services
