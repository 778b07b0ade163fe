import SocialApi.Services.Requests

/-!
# What a writer owes after its commit

The commit of `like` or `unlike` changes the tables, and the call then has to bring the caches
and the subscribers up to date: the count and the status in both layers, the caller's pages,
the event. Here a call remembers (`Ledger`) what it has committed and which of this it still
owes.

* `Request.obeys`: a call owes what its commit affects and nothing when it ends; one that
  fails has touched nothing.
* `willIn_of_owes`: what a call owes it will do.
* `LedgerInv.statement`: every statement keeps the database in order, and the tables change by
  commits only, each by the change that its call remembers (`Changed`).
-/

namespace SocialApi.Services

open SocialApi.Concurrent SocialApi.Postgres SocialApi.Repositories

/-! ## Changes and dues -/

/-- What a transaction has changed: the row of the key is there, with its `created_at`, or is
    gone, and the item has `count` likes. -/
structure Change where
  key : LikeKey
  likedAt : Option DateTime
  count : I64
  deriving DecidableEq

/-- What is to be brought up to date: an entry of a layer, or the subscribers. -/
inductive Due where
  | count (layer : Cache.Layer)
  | status (layer : Cache.Layer)
  | page (layer : Cache.Layer) (filterKey : String)
  | event

namespace Change

/-- What the change makes out of date. -/
def Affects (ch : Change) : Due → Prop
  | .page _ filterKey => filterKey = "_" ∨ filterKey = ch.key.2.1
  | _ => True

/-- The event tells of the change. -/
def Reports (ch : Change) (item : Item) : LikeEvent → Prop
  | .liked userId count timestamp =>
    (userId, item) = ch.key ∧ count = ch.count ∧ ch.likedAt = some timestamp
  | .unliked userId count _ => (userId, item) = ch.key ∧ count = ch.count ∧ ch.likedAt = none

/-- The operation brings something up to date. -/
def Pays (C : Codec) (ch : Change) : Due → SvcOp → Prop
  | .count layer, .cache o => o.store = some (layer, countCacheKey ch.key.2, ch.count.toString)
  | .status layer, .cache o =>
    o.store = some (layer, statusCacheKey ch.key.1 ch.key.2, statusText C ch.likedAt)
  | .page .l1 filterKey, .cache o => o = .l1Remove (.ul ch.key.1 filterKey)
  | .page .redis filterKey, .cache o => o = .redisDel (.ul ch.key.1 filterKey)
  | .event, .publish event item => ch.Reports item event
  | _, _ => False

end Change

/-- The operation writes or deletes an entry of the cache, or publishes. -/
def Touches : SvcOp → Prop
  | .cache (.l1Get _) => False
  | .cache (.redisGet _) => False
  | .cache (.redisMget _) => False
  | .cache _ => True
  | .publish _ _ => True
  | _ => False

/-- The phase of a call's transaction, the `created_at` of the row it has inserted, what it has
    committed, what it owes, and whether it has touched the cache or the channels. -/
structure Ledger where
  phase : Phase
  row : Option DateTime
  change : Option Change
  owes : Due → Prop
  touched : Prop

namespace Ledger

/-- A call that has just started. -/
def fresh : Ledger := ⟨.outside, none, none, fun _ => False, False⟩

/-- Which operations a call performs: statements before its change, and the event of its
    change. -/
def asks (g : Ledger) : SvcOp → Prop
  | .db q => g.phase.asks q ∧ g.change = none
  | .publish event item => g.owes .event ∧ ∃ ch, g.change = some ch ∧ ch.Reports item event
  | _ => True

/-- What a call has committed after the answer to a statement. -/
def changeAfter (g : Ledger) : (q : DbOp) → q.Ans → Option Change
  | .commit, .ok _ =>
    match g.phase with
    | .insertedCounted key count => some ⟨key, g.row, count⟩
    | .deletedCounted key count => some ⟨key, none, count⟩
    | _ => g.change
  | _, _ => g.change

/-- The `created_at` of the inserted row. -/
def rowAfter (g : Ledger) (q : DbOp) (r : q.Ans) : Option DateTime :=
  match insertedRow q r with
  | some likeRow => some likeRow.createdAt
  | none => g.row

/-- What is owed when nothing has been paid yet. -/
def owing : Option Change → Due → Prop
  | some ch => ch.Affects
  | none => fun _ => False

/-- The ledger after an answer. -/
def next (C : Codec) (g : Ledger) : (o : SvcOp) → o.Ans → Ledger
  | .db q, r =>
    { g with
      phase := g.phase.next q r
      row := g.rowAfter q r
      change := g.changeAfter q r
      owes := owing (g.changeAfter q r) }
  | o, _ =>
    { g with
      owes := fun due => g.owes due ∧ ∀ ch, g.change = some ch → ¬ ch.Pays C due o
      touched := g.touched ∨ Touches o }

/-- What the answer to an operation is sure to be. -/
def Fits (g : Ledger) : (o : SvcOp) → o.Ans → Prop
  | .db q, r => g.phase.Fits q r
  | _, _ => True

end Ledger

/-- The ledgers as a protocol. -/
def ledger (C : Codec) : Protocol SvcOp SvcOp.Ans Ledger where
  asks := Ledger.asks
  answers g o r g' := g' = g.next C o r ∧ g.Fits o r

/-- The call has changed nothing and owes nothing. -/
def Unchanged (g : Ledger) : Prop :=
  g.phase = .outside ∧ g.change = none ∧ ¬ g.touched ∧ ∀ due, ¬ g.owes due

/-- The end of a call: nothing is owed, and a writer that fails has touched nothing. -/
def Request.Ends (k : Request) (g : Ledger) (result : Except AppError Reply) : Prop :=
  g.phase = .outside ∧ (∀ due, ¬ g.owes due) ∧
    ∀ m error, k = .mutation m → result = .error error → g.change = none ∧ ¬ g.touched

/-! ## The calls keep to the protocol -/

section Programs

open Ledger

variable {cfg : Config} {C : Codec} {α : Type} {g : Ledger}

/-- The statements of a repository function. -/
def ledgerStatements (C : Codec) : Protocol DbOp DbOp.Ans Ledger := (ledger C).comap .db fun _ r => r

/-- A statement, with its error returned. -/
theorem ledger_attempt {Q : Ledger → Except SqlxError α → Prop} {q : DbOp} {f : q.Rows → Repo α}
    (hq : g.phase.asks q) (hchange : g.change = none)
    (hok : ∀ a, g.phase.Fits q (.ok a) →
      (ledgerStatements C).Obeys Q (g.next C (.db q) (.ok a)) (f a))
    (herr : ∀ e, Q (g.next C (.db q) (.error e)) (.error e)) :
    (ledgerStatements C).Obeys Q g (Repositories.attempt q f) := by
  unfold Repositories.attempt
  rw [Protocol.obeys_bind]
  refine ⟨⟨hq, hchange⟩, ?_⟩
  rintro r g' ⟨r', rfl, rfl, hfits⟩
  cases r' with
  | error e => exact herr e
  | ok a => exact hok a hfits

/-- A statement that fails changes nothing. -/
theorem changeAfter_error (g : Ledger) (q : DbOp) (e : SqlxError) :
    g.changeAfter q (.error e) = g.change := by
  cases q <;> rfl

/-- A statement after which there is no change. -/
theorem unchanged_of {q : DbOp} {r : q.Ans} (hphase : g.phase.next q r = .outside)
    (hchange : g.changeAfter q r = none) (htouched : ¬ g.touched) :
    Unchanged (g.next C (.db q) r) := by
  refine ⟨hphase, hchange, htouched, fun due hdue => ?_⟩
  have hdue : owing (g.changeAfter q r) due := hdue
  rw [hchange] at hdue
  exact hdue

/-- A statement inside a transaction, which an error ends. -/
theorem ledger_inTx {Q : Ledger → Except SqlxError α → Prop} {q : DbOp} {f : q.Rows → Repo α}
    (hq : g.phase.asks q) (hchange : g.change = none) (htouched : ¬ g.touched)
    (hok : ∀ a, g.phase.Fits q (.ok a) →
      (ledgerStatements C).Obeys Q (g.next C (.db q) (.ok a)) (f a))
    (hroll : ∀ e, (g.phase.next q (.error e)).asks .rollback)
    (herr : ∀ g' e, Unchanged g' → Q g' (.error e)) :
    (ledgerStatements C).Obeys Q g (inTx q f) := by
  unfold inTx
  rw [Protocol.obeys_bind]
  refine ⟨⟨hq, hchange⟩, ?_⟩
  rintro r g' ⟨r', rfl, rfl, hfits⟩
  cases r' with
  | error e =>
    have hnone : g.changeAfter q (.error e) = none := (changeAfter_error g q e).trans hchange
    refine ⟨⟨hroll e, hnone⟩, ?_⟩
    rintro r g' ⟨r', rfl, rfl, -⟩
    have hnone' : (g.next C (.db q) (.error e)).changeAfter .rollback r' = none := by
      cases r' <;> exact hnone
    exact herr _ e (unchanged_of rfl hnone' htouched)
  | ok a => exact hok a hfits

/-- What `insert_like` has committed when it returns. -/
def HasInserted (userId : Uuid) (item : Item) (g : Ledger) : Except SqlxError InsertLikeResult → Prop
  | .ok (.inserted row count) =>
    let ch : Change := ⟨(userId, item), some row.createdAt, count⟩
    g = ⟨.outside, some row.createdAt, some ch, ch.Affects, False⟩
  | _ => Unchanged g

theorem insertLike_ledger (userId : Uuid) (item : Item) :
    (ledgerStatements C).Obeys (HasInserted userId item) .fresh (insertLike userId item) := by
  unfold insertLike
  refine ledger_attempt trivial rfl (fun _ _ => ?_) fun e => unchanged_of rfl rfl id
  refine ledger_inTx trivial rfl id (fun row _ => ?_) (fun _ => trivial) fun _ _ h => h
  cases row with
  | some likeRow =>
    refine ledger_inTx rfl rfl id (fun count _ => ?_) (fun _ => trivial) fun _ _ h => h
    exact ledger_attempt trivial rfl (fun _ _ => rfl) fun _ => unchanged_of (C := C) rfl rfl id
  | none =>
    refine ledger_inTx trivial rfl id (fun existing _ => ?_) (fun _ => trivial) fun _ _ h => h
    refine ledger_attempt trivial rfl (fun _ _ => ?_) fun _ => unchanged_of rfl rfl id
    cases existing with
    | some found => exact unchanged_of rfl rfl id
    | none =>
      refine ledger_attempt trivial rfl (fun _ _ => ?_) fun _ => unchanged_of rfl rfl id
      exact unchanged_of rfl rfl id

/-- What `delete_like` has committed when it returns. -/
def HasDeleted (userId : Uuid) (item : Item) (g : Ledger) : Except SqlxError DeleteLikeResult → Prop
  | .ok ⟨true, count⟩ =>
    let ch : Change := ⟨(userId, item), none, count⟩
    g = ⟨.outside, none, some ch, ch.Affects, False⟩
  | _ => Unchanged g

theorem deleteLike_ledger (userId : Uuid) (item : Item) :
    (ledgerStatements C).Obeys (HasDeleted userId item) .fresh (deleteLike userId item) := by
  unfold deleteLike
  refine ledger_attempt trivial rfl (fun _ _ => ?_) fun e => unchanged_of rfl rfl id
  refine ledger_inTx trivial rfl id (fun rowsAffected _ => ?_) (fun _ => trivial) fun _ _ h => h
  have hnext : (Ledger.fresh.next C (.db .begin) (.ok ())).next C (.db (.deleteLike userId item))
      (.ok rowsAffected) = ⟨if rowsAffected > 0 then .deleted (userId, item) else .opened, none,
        none, fun _ => False, False⟩ := rfl
  rw [hnext]
  split_ifs with hn
  · refine ledger_inTx rfl rfl id (fun count hfits => ?_) (fun _ => trivial) fun _ _ h => h
    cases count with
    | none => exact absurd rfl hfits.1
    | some c =>
      exact ledger_attempt trivial rfl (fun _ _ => rfl) fun _ => unchanged_of rfl rfl id
  · refine ledger_inTx trivial rfl id (fun count _ => ?_) (fun _ => trivial) fun _ _ h => h
    refine ledger_attempt trivial rfl (fun _ _ => ?_) fun _ => unchanged_of rfl rfl id
    exact unchanged_of rfl rfl id

/-! ### The rest of a call -/

/-- The breaker and the validator are not in the ledger. -/
theorem ledger_ofBreaker {o : SvcOp} (ho : o.OfBreaker) :
    (ledger C).asks .fresh o ∧ ∀ r g', (ledger C).answers .fresh o r g' → g' = .fresh := by
  have hsame : (⟨.outside, none, none, fun due => False ∧ ∀ ch : Change, none = some ch →
      ¬ ch.Pays C due o, False ∨ Touches o⟩ : Ledger) = .fresh := by
    have htouches : ¬ Touches o := by cases o <;> first | exact id | exact ho.elim
    simp only [fresh, false_and, htouches, or_false]
  cases o with
  | allowRequest => exact ⟨trivial, fun r g' hr => hr.1.trans hsame⟩
  | recordSuccess => exact ⟨trivial, fun r g' hr => hr.1.trans hsame⟩
  | recordFailure => exact ⟨trivial, fun r g' hr => hr.1.trans hsame⟩
  | validate item => exact ⟨trivial, fun r g' hr => hr.1.trans hsame⟩
  | _ => exact ho.elim

theorem validateContent_ofBreaker (item : Item) :
    (validateContent item).All SvcOp.OfBreaker := by
  refine ⟨trivial, fun admitted => ?_⟩
  cases admitted with
  | false => trivial
  | true =>
    refine ⟨trivial, fun outcome => ?_⟩
    rcases outcome with error | valid | valid
    · exact ⟨trivial, fun _ => trivial⟩
    · cases valid <;> trivial
    · refine ⟨trivial, fun _ => ?_⟩
      cases valid <;> trivial

/-- How the end of a call of `like` or `unlike` is. -/
def Settled (g : Ledger) (result : Except AppError LikeActionResponse) : Prop :=
  g.phase = .outside ∧ (∀ due, ¬ g.owes due) ∧
    ∀ error, result = .error error → g.change = none ∧ ¬ g.touched

/-- Validate, change the tables, and go on with the result. -/
theorem mutation_ledger {item : Item} {p : Repo α} {Q : Ledger → Except SqlxError α → Prop}
    {f : α → Svc (Except AppError LikeActionResponse)}
    (hp : (ledgerStatements C).Obeys Q .fresh p)
    (hok : ∀ g a, Q g (.ok a) → (ledger C).Obeys Settled g (f a))
    (herr : ∀ g e, Q g (.error e) → Unchanged g) :
    (ledger C).Obeys Settled .fresh (attempt (validateContent item) fun _ => attempt (db p) f) := by
  refine (Protocol.obeys_of_all (Q := fun g _ => g = .fresh) (fun o ho => ledger_ofBreaker ho)
    (validateContent_ofBreaker item) fun _ => rfl).bind ?_
  rintro g result rfl
  cases result with
  | error error => exact ⟨rfl, fun _ => id, fun _ _ => ⟨rfl, id⟩⟩
  | ok u =>
    have hdb : (ledger C).Obeys (fun g a => (∃ b, a = .ok b ∧ Q g (.ok b)) ∨
        ∃ e, a = .error e ∧ Unchanged g) .fresh (db p) := by
      refine Protocol.Obeys.bind (Protocol.obeys_lift.mpr hp) ?_
      intro g result hQ
      cases result with
      | error e => exact Or.inr ⟨_, rfl, herr g e hQ⟩
      | ok b => exact Or.inl ⟨b, rfl, hQ⟩
    refine hdb.bind ?_
    rintro g result (⟨b, rfl, hQ⟩ | ⟨e, rfl, hphase, hchange, htouched, howes⟩)
    · exact hok g b hQ
    · exact ⟨hphase, howes, fun _ _ => ⟨hchange, htouched⟩⟩

/-- What a method of the cache leaves of a ledger: the dues in `paid` are paid. -/
structure After (g g' : Ledger) (paid : Due → Prop) : Prop where
  phase : g'.phase = g.phase
  change : g'.change = g.change
  event : g.owes .event → g'.owes .event
  owes : ∀ due, g'.owes due → g.owes due ∧ ¬ paid due

theorem ledger_cache {ch : Change} (hchange : g.change = some ch) (paid : Due → Prop)
    {p : Cache.CacheM α} (hpaid : ∀ due, paid due → (cache p).WillIn (ch.Pays C due)) :
    (ledger C).Obeys (fun g' _ => After g g' paid) g (cache p) := by
  unfold cache at *
  induction p generalizing g paid with
  | ret a => exact ⟨rfl, rfl, id, fun due hdue => ⟨hdue, fun h => hpaid due h⟩⟩
  | op o k ih =>
    refine ⟨trivial, ?_⟩
    rintro r g' ⟨rfl, -⟩
    -- what the operation has not paid, the rest of the method pays
    refine (ih r (g := g.next C (.cache o) r) hchange
      (fun due => paid due ∧ ¬ ch.Pays C due (.cache o)) ?_).mono ?_
    · rintro due ⟨hdue, hnot⟩
      exact ((hpaid due hdue).resolve_left hnot) r
    · intro g' _ h
      refine ⟨h.phase, h.change, fun hevent => h.event ⟨hevent, fun ch' _ => id⟩, fun due hdue => ?_⟩
      obtain ⟨⟨hg, hnot⟩, hrest⟩ := h.owes due hdue
      exact ⟨hg, fun hpaid' => hrest ⟨hpaid', hnot ch hchange⟩⟩

/-- A method of the cache when nothing is owed. -/
theorem ledger_cache_settled (p : Cache.CacheM α) (hphase : g.phase = .outside)
    (howes : ∀ due, ¬ g.owes due) :
    (ledger C).Obeys (fun g' _ => g'.phase = .outside ∧ ∀ due, ¬ g'.owes due) g (cache p) := by
  refine Protocol.obeys_of_all_of_keeps (S := fun o => ∃ o', o = .cache o')
    (I := fun g : Ledger => g.phase = .outside ∧ ∀ due, ¬ g.owes due) ?_
    (.lift (Prog.all_of_forall (fun o => ⟨o, rfl⟩) p)) ⟨hphase, howes⟩
  rintro g _ ⟨hphase, howes⟩ ⟨o, rfl⟩
  refine ⟨trivial, ?_⟩
  rintro r g' ⟨rfl, -⟩
  exact ⟨hphase, fun due hdue => howes due hdue.1⟩

/-- The dues of a family. -/
def Due.isCount : Due → Prop
  | .count _ => True
  | _ => False

def Due.isStatus : Due → Prop
  | .status _ => True
  | _ => False

/-- The writes of a call after its change leave the event to be published. -/
theorem notify_ledger {c : Change} (hchange : g.change = some c) (howes : g.owes = c.Affects)
    {Q : Ledger → α → Prop} {rest : Svc α}
    (hrest : ∀ g', g'.phase = g.phase → g'.change = some c → g'.owes .event →
      (∀ due, g'.owes due → due = .event) → (ledger C).Obeys Q g' rest) :
    (ledger C).Obeys Q g ((writeCount cfg c.key.2 c.count).bind fun _ =>
      (updateStatusCache cfg C c.key.1 c.key.2 c.likedAt).bind fun _ =>
      (invalidateUserLikes c.key.1 c.key.2.1).bind fun _ => rest) := by
  refine (ledger_cache hchange Due.isCount fun due hdue => ?_).bind ?_
  · cases due with
    | count layer =>
      cases layer with
      | l1 => exact Or.inl rfl
      | redis => exact Or.inr fun _ => Or.inl rfl
    | _ => exact hdue.elim
  intro g₁ _ h₁
  refine (ledger_cache (h₁.change.trans hchange) Due.isStatus fun due hdue => ?_).bind ?_
  · cases due with
    | status layer =>
      cases layer with
      | l1 => exact Or.inl rfl
      | redis => exact Or.inr fun _ => Or.inl rfl
    | _ => exact hdue.elim
  intro g₂ _ h₂
  unfold invalidateUserLikes
  simp only [Prog.bind_eq, Prog.bind_assoc]
  refine (ledger_cache (h₂.change.trans (h₁.change.trans hchange)) (fun _ => False)
    fun due hdue => hdue.elim).bind ?_
  intro g₃ _ h₃
  refine (ledger_cache (h₃.change.trans (h₂.change.trans (h₁.change.trans hchange)))
    (fun due => ∃ layer filterKey, due = .page layer filterKey ∧ c.Affects due) ?_).bind ?_
  · rintro due ⟨layer, filterKey, rfl, hf⟩
    cases layer with
    | l1 =>
      rcases hf with rfl | rfl
      · exact Or.inl rfl
      · exact Or.inr fun _ => Or.inl rfl
    | redis =>
      rcases hf with rfl | rfl
      · exact Or.inr fun _ => Or.inr fun _ => Or.inl rfl
      · exact Or.inr fun _ => Or.inr fun _ => Or.inr fun _ => Or.inl rfl
  intro g₄ _ h₄
  refine hrest g₄ (h₄.phase.trans (h₃.phase.trans (h₂.phase.trans h₁.phase)))
    (h₄.change.trans (h₃.change.trans (h₂.change.trans (h₁.change.trans hchange))))
    (h₄.event (h₃.event (h₂.event (h₁.event (by rw [howes]; trivial))))) fun due hdue => ?_
  obtain ⟨hdue, hpage⟩ := h₄.owes due hdue
  obtain ⟨hdue, hstatus⟩ := h₂.owes due (h₃.owes due hdue).1
  obtain ⟨hdue, hcount⟩ := h₁.owes due hdue
  rw [howes] at hdue
  cases due with
  | count layer => exact absurd trivial hcount
  | status layer => exact absurd trivial hstatus
  | page layer filterKey => exact absurd ⟨layer, filterKey, rfl, hdue⟩ hpage
  | event => rfl

/-- The event is published, and nothing is owed any more. -/
theorem publish_ledger {ch : Change} (hphase : g.phase = .outside) (hchange : g.change = some ch)
    (howes : g.owes .event) (honly : ∀ due, g.owes due → due = .event) (event : LikeEvent)
    (item : Item) (hreports : ch.Reports item event) (response : LikeActionResponse) :
    (ledger C).Obeys Settled g ((perform (.publish event item)).bind fun _ =>
      .ret (.ok response)) := by
  refine ⟨⟨howes, ch, hchange, hreports⟩, ?_⟩
  rintro r g' ⟨rfl, -⟩
  refine ⟨hphase, fun due hdue => ?_, fun _ h => by cases h⟩
  obtain rfl := honly due hdue.1
  exact hdue.2 ch hchange hreports

theorem like_ledger (userId : Uuid) (item : Item) :
    (ledger C).Obeys Settled .fresh (like cfg C userId item) := by
  refine mutation_ledger (insertLike_ledger userId item) ?_ fun g e h => h
  intro g result hresult
  cases result with
  | inserted row count =>
    obtain rfl := hresult
    refine notify_ledger (c := ⟨(userId, item), some row.createdAt, count⟩) rfl rfl ?_
    intro g' hphase hchange hevent honly
    exact publish_ledger hphase hchange hevent honly (.liked userId count row.createdAt) item
      ⟨rfl, rfl, rfl⟩ _
  | alreadyExisted row count =>
    obtain ⟨hphase, -, -, howes⟩ := hresult
    refine (ledger_cache_settled _ hphase howes).bind ?_
    rintro g₁ - ⟨hphase, howes⟩
    refine (ledger_cache_settled _ hphase howes).bind ?_
    rintro g₂ - ⟨hphase, howes⟩
    exact ⟨hphase, howes, fun _ h => by cases h⟩
  | concurrentlyRemoved count =>
    obtain ⟨hphase, -, -, howes⟩ := hresult
    exact ⟨hphase, howes, fun _ h => by cases h⟩

theorem unlike_ledger (userId : Uuid) (item : Item) :
    (ledger C).Obeys Settled .fresh (unlike cfg C userId item) := by
  refine mutation_ledger (deleteLike_ledger userId item) ?_ fun g e h => h
  rintro g ⟨wasLiked, count⟩ hresult
  cases wasLiked with
  | true =>
    obtain rfl := hresult
    refine notify_ledger (c := ⟨(userId, item), none, count⟩) rfl rfl ?_
    intro g' hphase hchange hevent honly
    refine ⟨trivial, ?_⟩
    rintro timestamp g'' ⟨rfl, -⟩
    have hevent' : (g'.next C .now timestamp).owes .event := ⟨hevent, fun _ _ => id⟩
    exact publish_ledger (g := g'.next C .now timestamp) hphase hchange hevent' (fun due hdue => honly due hdue.1)
      (.unliked userId count timestamp) item ⟨rfl, rfl, rfl⟩ _
  | false =>
    obtain ⟨hphase, -, -, howes⟩ := hresult
    refine (ledger_cache_settled _ hphase howes).bind ?_
    rintro g₁ - ⟨hphase, howes⟩
    refine (ledger_cache_settled _ hphase howes).bind ?_
    rintro g₂ - ⟨hphase, howes⟩
    unfold invalidateUserLikes
    simp only [Prog.bind_eq, Prog.bind_assoc]
    refine (ledger_cache_settled _ hphase howes).bind ?_
    rintro g₃ - ⟨hphase, howes⟩
    refine (ledger_cache_settled _ hphase howes).bind ?_
    rintro g₄ - ⟨hphase, howes⟩
    exact ⟨hphase, howes, fun _ h => by cases h⟩

/-- A call that only reads changes nothing and owes nothing. -/
theorem reading_ledger {p : Svc α} (hp : p.All Reading) :
    (ledger C).Obeys (fun g _ => g.phase = .outside ∧ ∀ due, ¬ g.owes due) .fresh p := by
  refine (Protocol.obeys_of_all_of_keeps (S := Reading)
    (I := fun g : Ledger => (g.phase = .outside ∧ ∀ due, ¬ g.owes due) ∧ g.change = none) ?_ hp
    ⟨⟨rfl, fun _ => id⟩, rfl⟩).mono fun _ _ h => h.1
  rintro g o ⟨⟨hphase, howes⟩, hchange⟩ ho
  cases o with
  | db q =>
    have hq : g.phase.asks q ∧ ∀ r, g.phase.next q r = .outside ∧ g.changeAfter q r = none := by
      rw [hphase]
      cases q <;> first | exact ho.elim | exact ⟨trivial, fun _ => ⟨rfl, hchange⟩⟩
    refine ⟨⟨hq.1, hchange⟩, ?_⟩
    rintro r g' ⟨rfl, -⟩
    obtain ⟨hphase', hchange'⟩ := hq.2 r
    refine ⟨⟨hphase', fun due hdue => ?_⟩, hchange'⟩
    have hdue : owing (g.changeAfter q r) due := hdue
    rw [hchange'] at hdue
    exact hdue
  | publish event item => exact ho.elim
  | _ =>
    refine ⟨trivial, ?_⟩
    rintro r g' ⟨rfl, -⟩
    exact ⟨⟨hphase, fun due hdue => howes due hdue.1⟩, hchange⟩

/-- Every call keeps to the protocol. -/
theorem Request.obeys (k : Request) : (ledger C).Obeys k.Ends .fresh (k.prog cfg C) := by
  by_cases hk : ∃ m, k = .mutation m
  · obtain ⟨m, rfl⟩ := hk
    have hm : (ledger C).Obeys Settled .fresh (m.prog cfg C) := by
      cases m with
      | like userId item => exact like_ledger userId item
      | unlike userId item => exact unlike_ledger userId item
    refine hm.bind ?_
    rintro g result ⟨hphase, howes, herror⟩
    refine ⟨hphase, howes, fun _ error _ h => ?_⟩
    cases result with
    | ok response => cases h
    | error e => exact herror e rfl
  · refine (reading_ledger (Request.reading fun m hm => hk ⟨m, hm⟩)).mono ?_
    exact fun g result h => ⟨h.1, h.2, fun m _ hm _ => absurd ⟨m, hm⟩ hk⟩

/-- What a call owes it will do. -/
theorem willIn_of_owes {k : Request} {p : Svc (Except AppError Reply)}
    (h : (ledger C).Obeys k.Ends g p) {ch : Change} (hchange : g.change = some ch) {due : Due}
    (howes : g.owes due) : p.WillIn (ch.Pays C due) := by
  refine Protocol.willIn_of_obeys (fun g o (hg : g.change = some ch ∧ g.owes due) hasks hnot r => ?_)
    (fun g a hends hg => hends.2.1 due hg.2) h ⟨hchange, howes⟩
  cases o with
  | db q =>
    -- after a change there are no statements
    have hnone := hasks.2
    rw [hg.1] at hnone
    cases hnone
  | _ =>
    refine ⟨_, ⟨rfl, trivial⟩, hg.1, hg.2, fun ch' hch' => ?_⟩
    obtain rfl := Option.some.inj (hg.1.symm.trans hch')
    exact hnot

end Programs

/-! ## The tables -/

/-- The change takes the tables `t` to the tables `t'`. -/
structure Changed (t : Tables) (ch : Change) (t' : Tables) : Prop where
  before : Consistent t
  after : Consistent t'
  counts : t'.likeCounts = Function.update t.likeCounts ch.key.2 (some ch.count)
  likes : (∃ row, row.key = ch.key ∧ ch.likedAt = some row.createdAt ∧
      t.likes.filter (fun r => r.key = ch.key) = [] ∧ t'.likes = t.likes ++ [row]) ∨
    ∃ row, ch.likedAt = none ∧ t.likes.filter (fun r => r.key = ch.key) = [row] ∧
      t'.likes = t.likes.filter fun r => r.key ≠ ch.key

section Invariant

variable {ι : Type} {cfg : Config} {C : Codec} {s s' : World ι}
  {γ : ι → Option Ledger} {i : ι} {g : Ledger}

/-- The phases of all calls. -/
def ledgerPhases (γ : ι → Option Ledger) : ι → Phase := phaseOf fun i => (γ i).map Ledger.phase

theorem ledgerPhases_of (h : γ i = some g) : ledgerPhases γ i = g.phase := by
  simp [ledgerPhases, phaseOf, h]

/-- The database is in order, and a call knows the `created_at` of the row it has inserted. -/
structure LedgerInv (s : World ι) (γ : ι → Option Ledger) : Prop where
  db : DbInv s.db (ledgerPhases γ)
  row : ∀ i g row ws, γ i = some g → s.db.store.txs i = some (.insertLike row :: ws) →
    g.row = some row.createdAt

/-- And so does whatever leaves the database alone. -/
theorem LedgerInv.env (h : LedgerInv s γ) (hdb : s'.db = s.db) : LedgerInv s' γ :=
  ⟨by rw [hdb]; exact h.db, fun i g row ws hγ hws => h.row i g row ws hγ (by rwa [hdb] at hws)⟩

theorem ledgerInv_ofTables {t : Tables} (ht : Consistent t) (hs : s.db.store = .ofTables t) :
    LedgerInv s fun _ => none :=
  ⟨dbInv_ofTables ht hs, fun _ _ _ _ hγ => by cases hγ⟩

variable [DecidableEq ι]

/-- A step of call `i` that leaves its phase where `db'` says. -/
theorem LedgerInv.stage (h : LedgerInv s γ) {g : Option Ledger}
    (hdb : DbInv s'.db (Function.update (ledgerPhases γ) i ((g.map Ledger.phase).getD .outside)))
    (htxs : ∀ j, j ≠ i → s'.db.store.txs j = s.db.store.txs j)
    (hrow : ∀ g' row ws, g = some g' → s'.db.store.txs i = some (.insertLike row :: ws) →
      g'.row = some row.createdAt) : LedgerInv s' (Function.update γ i g) := by
  refine ⟨?_, fun j g' row ws hj hws => ?_⟩
  · have hphases : ledgerPhases (Function.update γ i g) =
        Function.update (ledgerPhases γ) i ((g.map Ledger.phase).getD .outside) :=
      phaseOf_map_update Ledger.phase γ i g
    rw [hphases]
    exact hdb
  · by_cases hji : j = i
    · subst hji
      rw [Function.update_self] at hj
      exact hrow g' row ws hj hws
    · rw [Function.update_of_ne hji] at hj
      rw [htxs j hji] at hws
      exact h.row j g' row ws hj hws

/-- A step of call `i` that leaves its phase and the database alone. -/
theorem LedgerInv.quiet (h : LedgerInv s γ) {g' : Option Ledger} (hdb : s'.db = s.db)
    (hphase : (g'.map Ledger.phase).getD .outside = ledgerPhases γ i)
    (hrow : ∀ g'' row ws, g' = some g'' → s.db.store.txs i = some (.insertLike row :: ws) →
      g''.row = some row.createdAt) : LedgerInv s' (Function.update γ i g') := by
  refine h.stage ?_ (fun j _ => by rw [hdb]) (fun g'' row ws hg hws => ?_)
  · rw [hphase, Function.update_eq_self, hdb]
    exact h.db
  · rw [hdb] at hws
    exact hrow g'' row ws hg hws

/-- The tables after the commit of a call that has changed them. -/
theorem LedgerInv.changed (h : LedgerInv s γ) (hγ : γ i = some g)
    (hask : g.phase.asks .commit) {ch : Change} (hnone : g.change = none)
    (hch : g.changeAfter .commit (.ok ()) = some ch) :
    Changed s.db.store.committed ch (s.db.store.commit layout i).committed := by
  have hphase := ledgerPhases_of hγ
  have hafter := consistent_commit h.db (hphase ▸ hask)
  have hholds := h.db.holds i
  rw [hphase] at hholds
  simp only [Ledger.changeAfter] at hch
  cases hg : g.phase with
  | insertedCounted key count =>
    rw [hg] at hch hholds
    obtain ⟨row, hkey, hws, hlike, -⟩ := hholds
    have hrow := h.row i g row _ hγ hws
    obtain rfl := Option.some.inj hch
    refine ⟨h.db.consistent, hafter, ?_, Or.inl ⟨row, hkey, hrow, ?_, ?_⟩⟩
    · rw [Store.commit_committed, Store.view_of_txs hws]
      rfl
    · simpa [part] using hlike
    · rw [Store.commit_committed, Store.view_of_txs hws]
      rfl
  | deletedCounted key count =>
    rw [hg] at hch hholds
    obtain ⟨hws, ⟨row, hlike⟩, -⟩ := hholds
    obtain rfl := Option.some.inj hch
    refine ⟨h.db.consistent, hafter, ?_, Or.inr ⟨row, rfl, ?_, ?_⟩⟩
    · rw [Store.commit_committed, Store.view_of_txs hws]
      rfl
    · simpa [part] using hlike
    · rw [Store.commit_committed, Store.view_of_txs hws]
      rfl
  | _ =>
    rw [hg] at hch
    simp only [hnone] at hch
    cases hch

/-- The `created_at` that a call remembers after a statement. -/
theorem LedgerInv.row_after (h : LedgerInv s γ) (hγ : γ i = some g) {q : DbOp} {x : SvcChoice}
    {r : q.Ans} (hasks : g.asks (.db q)) (hs : handle cfg s i (.db q) x = some (s', r))
    {row : LikesRow} {ws : List Write} (hws : s'.db.store.txs i = some (.insertLike row :: ws)) :
    g.rowAfter q r = some row.createdAt := by
  obtain ⟨y, db', rfl, hdb, rfl⟩ := handle_db hs
  have hws : db'.store.txs i = some (.insertLike row :: ws) := hws
  unfold Ledger.rowAfter
  rcases store_of_handle hdb with ⟨hnone, hstore⟩ | ⟨userId, item, row', rfl, hrow, hstore⟩
  · -- the row was there before
    rw [hnone]
    rcases hstore with hst | hst | hst | ⟨-, hst⟩ | ⟨w, hst, hw⟩
    · rw [hst] at hws
      exact h.row i g row ws hγ hws
    · rw [hst, Store.beginTx_txs] at hws
      cases hws
    · rw [hst, Store.abort_txs] at hws
      cases hws
    · rw [hst, Store.commit_txs] at hws
      cases hws
    · rw [hst, Store.write_txs] at hws
      cases hold : s.db.store.txs i with
      | none =>
        rw [hold] at hws
        exact absurd (List.cons.inj (Option.some.inj hws)).1 (hw row)
      | some ws' =>
        rw [hold] at hws
        cases ws' with
        | nil => exact absurd (List.cons.inj (Option.some.inj hws)).1 (hw row)
        | cons w' ws' =>
          refine h.row i g row ws' hγ ?_
          rw [hold, (List.cons.inj (Option.some.inj hws)).1]
  · have hopened : ledgerPhases γ i = .opened := by
      rw [ledgerPhases_of hγ]
      have hphase := hasks.1
      cases hg : g.phase with
      | opened => rfl
      | _ => rw [hg] at hphase; exact hphase.elim
    have hholds := h.db.holds i
    rw [hopened] at hholds
    rw [hstore, Store.write_txs, show s.db.store.txs i = some [] from hholds] at hws
    cases hws
    rw [hrow]
    rfl

/-- A statement keeps the invariant, and the tables change as the call remembers. -/
theorem LedgerInv.statement (h : LedgerInv s γ) (hγ : γ i = some g) {q : DbOp} {x : SvcChoice}
    {r : q.Ans} (hasks : g.asks (.db q)) (hs : handle cfg s i (.db q) x = some (s', r)) :
    g.Fits (.db q) r ∧ LedgerInv s' (Function.update γ i (some (g.next C (.db q) r))) ∧
      (g.changeAfter q r = none ∧ s'.db.store.committed = s.db.store.committed ∨
        ∃ ch, g.changeAfter q r = some ch ∧ q = .commit ∧
          Changed s.db.store.committed ch s'.db.store.committed) := by
  have hphase := ledgerPhases_of hγ
  have hrow : ∀ row ws, s'.db.store.txs i = some (.insertLike row :: ws) →
      g.rowAfter q r = some row.createdAt := fun row ws => h.row_after hγ hasks hs
  obtain ⟨y, db', rfl, hdb, rfl⟩ := handle_db hs
  obtain ⟨hinv, hfits⟩ := h.db.handle (hphase ▸ hasks.1) hdb
  rw [hphase] at hinv hfits
  refine ⟨hfits, h.stage hinv (fun j hj => txs_of_handle hdb hj) fun g' row ws hg' hws => ?_, ?_⟩
  · cases hg'
    exact hrow row ws hws
  · by_cases hq : q = .commit
    · subst hq
      cases y with
      | fail message => cases hdb; exact Or.inl ⟨hasks.2, rfl⟩
      | run now order =>
        cases hdb
        cases hch : g.changeAfter .commit (.ok ()) with
        | some ch => exact Or.inr ⟨ch, rfl, rfl, h.changed hγ hasks.1 hasks.2 hch⟩
        | none =>
          refine Or.inl ⟨rfl, ?_⟩
          have hopened : ledgerPhases γ i = .opened := by
            have hask := hasks.1
            rw [hphase]
            simp only [Ledger.changeAfter] at hch
            cases hg : g.phase with
            | opened => rfl
            | insertedCounted key count => rw [hg] at hch; cases hch
            | deletedCounted key count => rw [hg] at hch; cases hch
            | _ => rw [hg] at hask; exact hask.elim
          exact h.db.view_of_opened hopened
    · refine Or.inl ⟨?_, (committed_of_handle hdb).resolve_right fun hview => hq hview.1⟩
      cases q with
      | commit => exact absurd rfl hq
      | _ => exact hasks.2

/-- An operation on anything but the database keeps the invariant. -/
theorem LedgerInv.offDb (h : LedgerInv s γ) (hγ : γ i = some g) {o : SvcOp} {x : SvcChoice}
    {r : o.Ans} (ho : o.OffDb) (hs : handle cfg s i o x = some (s', r)) :
    g.Fits o r ∧ LedgerInv s' (Function.update γ i (some (g.next C o r))) := by
  have hsame : g.Fits o r ∧ (g.next C o r).phase = g.phase ∧ (g.next C o r).row = g.row := by
    cases o with
    | db q => exact ho.elim
    | _ => exact ⟨trivial, rfl, rfl⟩
  refine ⟨hsame.1, h.quiet (handle_offDb hs ho) ?_ fun g' row ws hg' hws => ?_⟩
  · exact hsame.2.1.trans (ledgerPhases_of hγ).symm
  · cases hg'
    rw [hsame.2.2]
    exact h.row i g row ws hγ hws

/-- An answer is what the ledger is sure of. -/
theorem LedgerInv.fits (h : LedgerInv s γ) (hγ : γ i = some g) {o : SvcOp} {x : SvcChoice}
    {r : o.Ans} (hasks : (ledger C).asks g o) (hs : handle cfg s i o x = some (s', r)) :
    g.Fits o r := by
  by_cases ho : o.OffDb
  · exact (h.offDb (C := C) hγ ho hs).1
  · cases o with
    | db q => exact (h.statement (C := C) hγ hasks hs).1
    | _ => exact absurd trivial ho

/-- A call that starts keeps the invariant. -/
theorem LedgerInv.start (h : LedgerInv s γ) (hγ : γ i = none) :
    LedgerInv s (Function.update γ i (some .fresh)) := by
  have hout : ledgerPhases γ i = .outside := by simp [ledgerPhases, phaseOf, hγ]
  refine h.quiet rfl hout.symm fun g' row ws hg' hws => ?_
  have hholds := h.db.holds i
  rw [hout] at hholds
  rw [show s.db.store.txs i = none from hholds] at hws
  cases hws

/-- So does one that ends outside its transaction. -/
theorem LedgerInv.ret (h : LedgerInv s γ) (hγ : γ i = some g) (hphase : g.phase = .outside) :
    LedgerInv s (Function.update γ i none) :=
  h.quiet rfl ((ledgerPhases_of hγ).trans hphase).symm fun _ _ _ hg' => by cases hg'

/-- So does one that is dropped. -/
theorem LedgerInv.drop (h : LedgerInv s γ) :
    LedgerInv (dropCall s i) (Function.update γ i none) := by
  refine h.stage (h.db.abort rfl) (fun j hj => Store.abort_txs_ne hj) fun _ _ _ hg' => ?_
  cases hg'

variable (cfg C) in
/-- In every reachable configuration the calls keep their ledgers. -/
theorem service_ledger :
    Pool.Sound (service (ι := ι) cfg C) (ledger C) Request.Ends (fun _ => .fresh) LedgerInv
      fun _ _ => True where
  init s hs := by
    obtain ⟨⟨t, ht, hstore⟩, -⟩ := hs
    exact ledgerInv_ofTables ht hstore
  prog := Request.obeys
  start c i k s γ _ h hγ hs := by
    cases hs
    exact h.start hγ
  handle c i x k o f s r γ g _ h _ _ hγ hasks hs := by
    by_cases ho : o.OffDb
    · obtain ⟨hfits, hinv⟩ := h.offDb (C := C) hγ ho hs
      exact ⟨_, ⟨rfl, hfits⟩, hinv⟩
    · cases o with
      | db q =>
        obtain ⟨hfits, hinv, -⟩ := h.statement (C := C) hγ hasks hs
        exact ⟨_, ⟨rfl, hfits⟩, hinv⟩
      | _ => exact absurd trivial ho
  ret s i k γ g a h hγ ha := h.ret hγ ha.1
  drop c i k p s γ g _ h _ _ _ hs := by
    cases hs
    exact h.drop
  env c x s γ _ h hs := by
    cases x with
    | evict layer key =>
      cases hs
      exact h.env rfl
    | _ => cases hs

end Invariant

end SocialApi.Services
