import SocialApi.Services.CountSources
import SocialApi.Services.LikeCommands

/-!
# Where the writers' counts come from

`like` and `unlike` keep to the discipline of `countSources`: the count they store and
return is one that their transaction has read or written.

Results: `like_sources`, `unlike_sources`.
-/

namespace SocialApi.Services

open SocialApi.Concurrent SocialApi.Postgres SocialApi.Repositories

/-! ## Changing the tables -/

/-- The count an `insert_like` reports. -/
def insertedCount : InsertLikeResult → I64
  | .inserted _ count => count
  | .alreadyExisted _ count => count
  | .concurrentlyRemoved count => count

section Writers

variable {cfg : Config} {C : Codec} {g : CountLog} {item : Item} {userId : Uuid} {α : Type}

/-- The statements of a repository function. -/
def statementSources (cfg : Config) : Protocol DbOp DbOp.Ans CountLog :=
  (countSources cfg).comap .db fun _ r => r

/-- The transaction is over, and a count that is reported has been seen. -/
def Reported (item : Item) (count : α → I64) (g : CountLog) (result : Except SqlxError α) : Prop :=
  g.phase = .outside ∧ ∀ a, result = .ok a → g.has .database item (count a)

theorem reported_error {count : α → I64} (error : SqlxError) (hphase : g.phase = .outside) :
    Reported item count g (.error error) :=
  ⟨hphase, fun a h => by cases h⟩

/-- A statement, with its error returned. -/
theorem attempt_sources {Q : CountLog → Except SqlxError α → Prop} {q : DbOp} {f : q.Rows → Repo α}
    (hreads : g.reads = false) (hq : g.phase.asks q)
    (hok : ∀ a, CountLog.Fits (.db q) (.ok a) →
      (statementSources cfg).Obeys Q (g.afterDb q (.ok a)) (f a))
    (herr : ∀ e, Q (g.afterDb q (.error e)) (.error e)) :
    (statementSources cfg).Obeys Q g (Repositories.attempt q f) := by
  unfold Repositories.attempt
  rw [Protocol.obeys_bind]
  refine ⟨⟨hq, fun h => by rw [hreads] at h; cases h⟩, ?_⟩
  rintro r g' ⟨r', rfl, rfl, hfits⟩
  cases r' with
  | error e => exact herr e
  | ok a => exact hok a hfits

/-- A statement inside a transaction, which an error ends. -/
theorem inTx_sources {count : α → I64} {q : DbOp} {f : q.Rows → Repo α} (hreads : g.reads = false)
    (hq : g.phase.asks q)
    (hok : ∀ a, CountLog.Fits (.db q) (.ok a) →
      (statementSources cfg).Obeys (Reported item count) (g.afterDb q (.ok a)) (f a))
    (hroll : ∀ e, (g.afterDb q (.error e)).phase.asks .rollback)
    (hreads' : ∀ e, (g.afterDb q (.error e)).reads = false) :
    (statementSources cfg).Obeys (Reported item count) g (inTx q f) := by
  unfold inTx
  rw [Protocol.obeys_bind]
  refine ⟨⟨hq, fun h => by rw [hreads] at h; cases h⟩, ?_⟩
  rintro r g' ⟨r', rfl, rfl, hfits⟩
  cases r' with
  | error e =>
    refine ⟨⟨hroll e, fun h => absurd ((hreads' e).symm.trans h) (by simp)⟩, ?_⟩
    · rintro r g' ⟨r', rfl, rfl, -⟩
      exact reported_error e rfl
  | ok a => exact hok a hfits

theorem insertLike_sources (userId : Uuid) (item : Item) :
    (statementSources cfg).Obeys (Reported item insertedCount) (.fresh false)
      (insertLike userId item) := by
  unfold insertLike
  refine attempt_sources rfl trivial (fun _ _ => ?_) fun e => reported_error e rfl
  refine inTx_sources rfl trivial (fun row _ => ?_) (fun _ => trivial) fun _ => rfl
  cases row with
  | some likeRow =>
    refine inTx_sources rfl rfl (fun count _ => ?_) (fun _ => trivial) fun _ => rfl
    refine attempt_sources rfl trivial (fun _ _ => ?_) fun e => reported_error e rfl
    refine ⟨rfl, fun a ha => ?_⟩
    rw [← Except.ok.inj ha]
    exact ⟨rfl, rfl, rfl⟩
  | none =>
    refine inTx_sources rfl trivial (fun existing _ => ?_) (fun _ => trivial) fun _ => rfl
    refine attempt_sources rfl trivial (fun _ _ => ?_) fun e => reported_error e rfl
    cases existing with
    | some found =>
      refine ⟨rfl, fun a ha => ?_⟩
      rw [← Except.ok.inj ha]
      exact Or.inr ⟨rfl, rfl, rfl⟩
    | none =>
      refine attempt_sources rfl trivial (fun row _ => ?_) fun e => reported_error e rfl
      refine ⟨rfl, fun a ha => ?_⟩
      rw [← Except.ok.inj ha]
      exact Or.inr ⟨rfl, rfl, rfl⟩

/-- The rest of `delete_like` after a row has been deleted. -/
theorem decrement_sources (hreads : g.reads = false) (hphase : g.phase = .deleted (userId, item)) :
    (statementSources cfg).Obeys (Reported item DeleteLikeResult.count) g
      (inTx (.decrementCount item) fun count => Repositories.attempt .commit fun _ =>
        .ret (.ok ⟨true, count.getD 0⟩)) := by
  obtain ⟨reads, phase, has, subs, ready⟩ := g
  obtain rfl : reads = false := hreads
  obtain rfl : phase = .deleted (userId, item) := hphase
  refine inTx_sources rfl rfl (fun count hcount => ?_) (fun _ => trivial) fun _ => rfl
  cases count with
  | none => exact absurd rfl hcount
  | some c =>
    refine attempt_sources rfl trivial (fun _ _ => ?_) fun e => reported_error e rfl
    refine ⟨rfl, fun a ha => ?_⟩
    rw [← Except.ok.inj ha]
    exact ⟨rfl, rfl, rfl⟩

/-- The rest of `delete_like` when there was no row. -/
theorem select_sources (hreads : g.reads = false) (hphase : g.phase = .opened) :
    (statementSources cfg).Obeys (Reported item DeleteLikeResult.count) g
      (inTx (.selectCount item) fun count => Repositories.attempt .commit fun _ =>
        .ret (.ok ⟨false, count.getD 0⟩)) := by
  obtain ⟨reads, phase, has, subs, ready⟩ := g
  obtain rfl : reads = false := hreads
  obtain rfl : phase = .opened := hphase
  refine inTx_sources rfl trivial (fun count _ => ?_) (fun _ => trivial) fun _ => rfl
  refine attempt_sources rfl trivial (fun _ _ => ?_) fun e => reported_error e rfl
  refine ⟨rfl, fun a ha => ?_⟩
  rw [← Except.ok.inj ha]
  exact Or.inr ⟨rfl, rfl, rfl⟩

theorem deleteLike_sources (userId : Uuid) (item : Item) :
    (statementSources cfg).Obeys (Reported item DeleteLikeResult.count) (.fresh false)
      (deleteLike userId item) := by
  unfold deleteLike
  refine attempt_sources rfl trivial (fun _ _ => ?_) fun e => reported_error e rfl
  refine inTx_sources rfl trivial (fun rowsAffected _ => ?_) (fun _ => trivial) fun _ => rfl
  split_ifs with hn
  · exact decrement_sources rfl (show _ = Repositories.Phase.deleted (userId, item) from if_pos hn)
  · exact select_sources rfl (if_neg hn)

/-! ## The writers -/

/-- An operation that no count has to do with. -/
def Quiet : SvcOp → Prop
  | .db _ => False
  | .flight _ => False
  | .cache (.l1Get _) => False
  | .cache (.redisGet _) => False
  | .cache (.redisMget _) => False
  | .cache (.l1Insert key _) => ∀ item, countCacheKey item ≠ key
  | .cache (.redisSetEx key _ _) => ∀ item, countCacheKey item ≠ key
  | _ => True

theorem quiet_next {o : SvcOp} (ho : Quiet o) :
    g.asks cfg o ∧ ∀ r g', (countSources cfg).answers g o r g' → g' = g := by
  cases o with
  | db q => exact ho.elim
  | flight o => exact ho.elim
  | cache o =>
    cases o with
    | l1Get key => exact ho.elim
    | redisGet key => exact ho.elim
    | redisMget keys => exact ho.elim
    | l1Insert key text => exact ⟨fun it c ht => absurd ht.1 (ho it), fun r g' h => h.1⟩
    | redisSetEx key text ttl => exact ⟨fun it hkey => absurd hkey (ho it), fun r g' h => h.1⟩
    | _ => exact ⟨trivial, fun r g' h => h.1⟩
  | _ => exact ⟨trivial, fun r g' h => h.1⟩

/-- A program without such operations leaves the log alone. -/
theorem quiet_sources {p : Svc α} (hp : p.All Quiet) :
    (countSources cfg).Obeys (fun g' _ => g' = g) g p :=
  Protocol.obeys_of_all (fun _ => quiet_next) hp fun _ => rfl

theorem updateStatusCache_quiet (userId : Uuid) (item : Item) (likedAt : Option DateTime) :
    (updateStatusCache cfg C userId item likedAt).All Quiet := by
  have hkey : ∀ it, countCacheKey it ≠ statusCacheKey userId item := fun it h => by cases h
  exact ⟨hkey, fun _ => ⟨hkey, fun _ => trivial⟩⟩

theorem invalidateUserLikes_quiet (userId : Uuid) (contentType : String) :
    (invalidateUserLikes userId contentType).All Quiet :=
  ⟨trivial, fun _ => ⟨trivial, fun _ => ⟨trivial, fun _ => ⟨trivial, fun _ => ⟨trivial, fun _ =>
    trivial⟩⟩⟩⟩⟩

theorem validateContent_quiet (item : Item) : (validateContent item).All Quiet := by
  unfold validateContent
  refine ⟨trivial, fun admitted => ?_⟩
  cases admitted with
  | false => trivial
  | true =>
    refine ⟨trivial, fun outcome => ?_⟩
    rcases outcome with error | valid | valid
    · exact ⟨trivial, fun _ => trivial⟩
    · cases valid <;> trivial
    · refine ⟨trivial, fun _ => ?_⟩
      cases valid <;> trivial

/-- The transaction is over, and the count of a response has been seen. -/
def Responded (item : Item) (g : CountLog) (result : Except AppError LikeActionResponse) : Prop :=
  g.phase = .outside ∧ ∀ response, result = .ok response → Seen g item response.count

/-- Validate, change the tables, and go on with the result. -/
theorem mutation_sources {p : Repo α} {count : α → I64}
    {f : α → Svc (Except AppError LikeActionResponse)}
    (hp : (statementSources cfg).Obeys (Reported item count) (.fresh false) p)
    (hf : ∀ g a, g.phase = .outside → g.has .database item (count a) →
      (countSources cfg).Obeys (Responded item) g (f a)) :
    (countSources cfg).Obeys (Responded item) (.fresh false)
      (attempt (validateContent item) fun _ => attempt (db p) f) := by
  refine (quiet_sources (validateContent_quiet item)).bind ?_
  rintro g (error | u) rfl
  · exact ⟨rfl, fun response h => by cases h⟩
  · have hdb : (countSources cfg).Obeys (fun g result => g.phase = .outside ∧
        ∀ a, result = .ok a → g.has .database item (count a)) (.fresh false) (db p) := by
      refine (Protocol.obeys_lift.mpr hp).bind ?_
      rintro g (error | a) ⟨hphase, hcount⟩
      · exact ⟨hphase, fun a h => by cases h⟩
      · exact ⟨hphase, fun b h => hcount b (by rw [← Except.ok.inj h])⟩
    refine hdb.bind ?_
    rintro g (error | a) ⟨hphase, hcount⟩
    · exact ⟨hphase, fun response h => by cases h⟩
    · exact hf g a hphase (hcount a rfl)

/-- The rest of a call: the count is stored, and what follows is quiet. -/
theorem respond_sources {count : I64} {p : Svc (Except AppError LikeActionResponse)}
    (hphase : g.phase = .outside) (hcount : g.has .database item count) (hp : p.All Quiet)
    (hends : p.Ends fun result => ∀ response, result = .ok response → response.count = count) :
    (countSources cfg).Obeys (Responded item) g ((writeCount cfg item count).bind fun _ => p) := by
  refine (writeCount_sources (Q := fun g' _ => g' = g) hcount rfl).bind ?_
  rintro g' - rfl
  refine (Protocol.obeys_of_all_of_ends (fun _ => quiet_next) hp hends).mono ?_
  rintro g' result ⟨rfl, hresult⟩
  exact ⟨hphase, fun response h => ⟨.database, by rw [hresult response h]; exact hcount⟩⟩

theorem like_sources (cfg : Config) (C : Codec) (userId : Uuid) (item : Item) :
    (countSources cfg).Obeys (Responded item) (.fresh false) (like cfg C userId item) := by
  refine mutation_sources (insertLike_sources userId item) fun g result hphase hcount => ?_
  cases result with
  | inserted row count =>
    refine respond_sources hphase hcount ?_ ?_
    · refine (updateStatusCache_quiet userId item _).bind fun _ => ?_
      exact (invalidateUserLikes_quiet userId item.1).bind fun _ => ⟨trivial, fun _ => trivial⟩
    · refine Prog.Ends.bind (fun _ => Prog.Ends.bind (fun _ => ?_) _) _
      exact fun _ response h => by rw [← Except.ok.inj h]
  | alreadyExisted row count =>
    refine respond_sources hphase hcount ?_ ?_
    · exact (updateStatusCache_quiet userId item _).bind fun _ => trivial
    · exact Prog.Ends.bind (fun _ response h => by rw [← Except.ok.inj h]) _
  | concurrentlyRemoved count =>
    refine ⟨hphase, fun response h => ⟨.database, ?_⟩⟩
    rw [← Except.ok.inj h]
    exact hcount

theorem unlike_sources (cfg : Config) (C : Codec) (userId : Uuid) (item : Item) :
    (countSources cfg).Obeys (Responded item) (.fresh false) (unlike cfg C userId item) := by
  refine mutation_sources (deleteLike_sources userId item) fun g result hphase hcount => ?_
  refine respond_sources hphase hcount ?_ ?_
  · refine (updateStatusCache_quiet userId item none).bind fun _ => ?_
    refine (invalidateUserLikes_quiet userId item.1).bind fun _ => ?_
    show Prog.All Quiet (if _ then _ else _)
    split_ifs
    · exact ⟨trivial, fun _ => ⟨trivial, fun _ => trivial⟩⟩
    · trivial
  · refine Prog.Ends.bind (fun _ => Prog.Ends.bind (fun _ => ?_) _) _
    show Prog.Ends _ (if _ then _ else _)
    split_ifs
    · exact fun _ _ response h => by rw [← Except.ok.inj h]
    · exact fun response h => by rw [← Except.ok.inj h]

end Writers

end SocialApi.Services
