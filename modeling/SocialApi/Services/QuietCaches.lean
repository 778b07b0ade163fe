import SocialApi.Services.Events
import SocialApi.Services.TimelyStores

/-!
# What the cache holds when no call is in progress

* `countsRight_of_meets`, `listsRight_of_meets`: along a run whose steps are in time the cached
  counts, and the cached statuses and pages, are those of the tables whenever no call is in
  progress.
* `crossedCounts_wrong`, `crossedStatuses_wrong`: a like and an unlike that cross; the entries in
  both layers keep saying what the like has done.
-/

namespace SocialApi.Services

open SocialApi.Concurrent SocialApi.Postgres SocialApi.Repositories

variable {ι : Type} {cfg : Config} {C : Codec}

/-! ## Counts -/

/-- The key of a count. -/
def IsCount : CacheKey → Prop
  | .lc _ _ => True
  | _ => False

/-- The cached counts are those of the tables, and `get_count` on its own answers with the count of
    the tables. -/
structure CountsRight [DecidableEq ι] (cfg : Config) (s : World ι) : Prop where
  entries : ∀ layer item text, s.cache.lookup layer (countCacheKey item) = some text →
    text = (s.db.store.committed.totalCount item).toString
  answer : ∀ q i item, ∃ s', (getCount cfg item).exec (quietly cfg q i) s =
    some (s', .ok ⟨item.1, item.2, s.db.store.committed.totalCount item⟩)

theorem found_cases {s : World ι} {up : Bool} {key : CacheKey} {text : String}
    (h : s.cache.found up key = some text) : ∃ layer, s.cache.lookup layer key = some text := by
  unfold Cache.CacheState.found at h
  cases hl1 : s.cache.l1 key with
  | some v =>
    rw [hl1] at h
    exact ⟨.l1, hl1.trans h⟩
  | none =>
    rw [hl1, Option.none_or] at h
    split_ifs at h
    exact ⟨.redis, h⟩

variable [DecidableEq ι]

/-- A reader of a right entry, or of none, answers with the count of the tables. -/
theorem exec_getCount_of_right {s : World ι} {q : Alone} {i : ι} {item : Item}
    (hregistered : Registered s.flights)
    (hright : ∀ layer text, s.cache.lookup layer (countCacheKey item) = some text →
      text = (s.db.store.committed.totalCount item).toString) :
    ∃ s', (getCount cfg item).exec (quietly cfg q i) s =
      some (s', .ok ⟨item.1, item.2, s.db.store.committed.totalCount item⟩) := by
  cases hfound : (s.cache.found q.up (countCacheKey item)).bind I64.parse with
  | none =>
    obtain ⟨f, hvalue⟩ : ∃ f, (getCountValue cfg item).exec (quietly cfg q i) s = some (countsRead s
        q.up [countCacheKey item] (if s.flights.pending (countCacheKey item) = none then
          [countCacheKey item] else []) f, .ok (s.db.store.committed.totalCount item)) :=
      exec_getCountValue hregistered hfound
    exact ⟨_, exec_attempt hvalue⟩
  | some count =>
    have hget : (cache (Cache.get (countCacheKey item))).exec (quietly cfg q i) s =
        some ({ s with cache := s.cache.loaded q.up [countCacheKey item] },
          s.cache.found q.up (countCacheKey item)) := by
      rw [exec_cache, Cache.exec_get]
      rfl
    have hvalue : (getCountValue cfg item).exec (quietly cfg q i) s =
        some ({ s with cache := s.cache.loaded q.up [countCacheKey item] }, .ok count) := by
      unfold getCountValue
      rw [exec_then hget, hfound]
      rfl
    obtain ⟨text, htext, hcount⟩ := Option.bind_eq_some_iff.mp hfound
    obtain ⟨layer, hlookup⟩ := found_cases htext
    rw [hright layer text hlookup, I64.parse_toString] at hcount
    rw [Option.some.inj hcount]
    exact ⟨_, exec_attempt hvalue⟩

variable (cfg C) in
/-- Along a run in which the steps are in time for the counts, the cached counts are those of the
    tables whenever no call is in progress, and the next `get_count` answers with them. -/
theorem countsRight_of_meets (init : RecordedConfig ι) (acts : List (Act ι Request SvcChoice))
    (hinit : (service cfg C).recorded.machine.init init)
    (hflights : init.shared.1.flights = .empty) (hup : ∀ i, .step i (.cache .fail) ∉ acts)
    (hmeets : (service cfg C).recorded.machine.Meets (InTime C IsCount) init acts) :
    (service cfg C).recorded.machine.Along
      (fun c => (∀ i, ¬ (c.calls i).Active) → CountsRight cfg c.shared.1) init acts := by
  have hright := Machine.along_iff.mp (entriesRight_of_meets hinit hup hmeets)
  refine Machine.along_iff.mpr fun bs cs c hsplit hrun hquiet => ?_
  have hregistered : Registered c.shared.1.flights := by
    refine (service cfg C).recorded.machine.run_keeps (I := fun c => Registered c.shared.1.flights)
      (fun c a c' h hstep => registered_step h (Pool.forget_step hstep)) bs init c ?_ hrun
    rw [hflights]
    exact registered_empty
  have hentries : ∀ layer item text,
      c.shared.1.cache.lookup layer (countCacheKey item) = some text →
        text = (c.shared.1.db.store.committed.totalCount item).toString := by
    intro layer item text htext
    exact (Option.some.inj (hright bs cs c hsplit hrun hquiet (layer, countCacheKey item) trivial
      text htext)).symm
  exact ⟨hentries, fun q i item => exec_getCount_of_right hregistered fun layer text =>
    hentries layer item text⟩

/-- `InTime` when no call is dropped and no page is filtered by `_`, computed. -/
def isInTime (C : Codec) (c : RecordedConfig ι) : Act ι Request SvcChoice → Bool
  | .start _ (.getUserLikes _ contentTypeFilter _ _) => contentTypeFilter != some "_"
  | .step i _ =>
    match c.calls i with
    | .running _ (.op (.cache o) _) => (storedCell o).all fun cell =>
        !(order C c.shared.2).stale i cell.2 ||
          ((order C c.shared.2).debtor cell).any fun j => j ≠ i
    | _ => true
  | .drop _ => false
  | _ => true

theorem inTime_of_isInTime (sel : CacheKey → Prop) (c : RecordedConfig ι)
    (a : Act ι Request SvcChoice) (h : isInTime C c a = true) : InTime C sel c a := by
  constructor
  · rintro i k o f x cell rfl hi hcell -
    simp only [isInTime, hi, hcell, Option.all_some, Bool.or_eq_true, Bool.not_eq_true',
      Option.any_eq_true, decide_eq_true_eq] at h
    exact h.imp_right fun ⟨j, hj, hji⟩ => ⟨j, hji, hj⟩
  · rintro i cell rfl
    cases h
  · rintro i k key rfl - hmistake
    obtain ⟨userId, limit, rfl⟩ := hmistake.eq
    cases h

/-- The calls of `repaired`. -/
inductive Caller where
  | reader
  | liker
  | unliker
  deriving DecidableEq

instance : Fintype Caller where
  elems := {.reader, .liker, .unliker}
  complete i := by cases i <;> decide

/-- A like that commits between what the reader reads and what it stores, and an unlike that commits
    before the like stores anything and stores last. -/
def repaired (reading storing : List (Act Caller Request SvcChoice)) :
    List (Act Caller Request SvcChoice) :=
  reading ++ commitSteps .liker (.like 1 ("post", 7)) ++ storing ++
    commitSteps .unliker (.unlike 1 ("post", 7)) ++
    refreshSteps .liker ++ .step .liker (.published true) ::
    refreshSteps .unliker ++ [.step .unliker (.wall .epoch), .step .unliker (.published true)]

/-- The reader calls `get_count`. -/
def repairedCounts : List (Act Caller Request SvcChoice) :=
  repaired (.start .reader (.getCount ("post", 7)) ::
      List.replicate 2 (.step .reader (.cache .ok)) ++
      [.step .reader (.flight .inTime), .step .reader (.db (.run .epoch []))])
    (List.replicate 3 (.step .reader (.flight .inTime)) ++
      List.replicate 2 (.step .reader (.cache .ok)) ++ [.step .reader (.flight .inTime)])

theorem countsRight_of_meets_repairedCounts :
    ∃ c : RecordedConfig Caller, (service Config.default Codec.plain).recorded.machine.run
        ⟨(World.new, []), fun _ => .idle⟩ repairedCounts = some c ∧
      (∀ i, ¬ (c.calls i).Active) ∧
      (∀ layer, c.shared.1.cache.lookup layer (.lc "post" 7) = some "0") ∧
      CountsRight Config.default c.shared.1 := by
  have hview : ((service Config.default Codec.plain).recorded.machine.run
      (⟨(World.new, []), fun _ => .idle⟩ : RecordedConfig Caller) repairedCounts).map (fun c =>
        (decide (∀ i, ¬ (c.calls i).Active), c.shared.1.cache.l1 (.lc "post" 7),
          c.shared.1.cache.redis (.lc "post" 7))) = some (true, some "0", some "0") := by
    decide +kernel
  obtain ⟨c, hrun, hc⟩ := Option.map_eq_some_iff.mp hview
  obtain ⟨hquiet, hc⟩ := Prod.mk.inj hc
  obtain ⟨hl1, hredis⟩ := Prod.mk.inj hc
  have hintime : (service Config.default Codec.plain).recorded.machine.meetsAll
      (isInTime Codec.plain) (⟨(World.new, []), fun _ => .idle⟩ : RecordedConfig Caller)
      repairedCounts = true := by
    decide +kernel
  have hright := countsRight_of_meets Config.default Codec.plain
    (⟨(World.new, []), fun _ => .idle⟩ : RecordedConfig Caller) repairedCounts
    ⟨⟨⟨⟨_, consistent_empty, rfl⟩, rfl, rfl⟩, rfl⟩, fun _ => rfl⟩ rfl
    (by simp [repairedCounts, repaired, commitSteps, refreshSteps])
    (Machine.meets_of_meetsAll (inTime_of_isInTime IsCount) hintime)
  refine ⟨c, hrun, of_decide_eq_true hquiet, fun layer => ?_,
    hright.last hrun (of_decide_eq_true hquiet)⟩
  cases layer with
  | l1 => exact hl1
  | redis => exact hredis

/-- When the unlike writes to the cache before the like does, both layers are left with the count
    of the like, and so is the next `get_count`. -/
theorem crossedCounts_wrong :
    (∀ i, .step i (.cache .fail) ∉ overtakenLike) ∧ (∀ i, .drop i ∉ overtakenLike) ∧
    ∃ c : ServiceConfig Bool, (service Config.default Codec.plain).machine.run
        ⟨World.new, fun _ => .idle⟩ overtakenLike = some c ∧
      (∀ i, ¬ (c.calls i).Active) ∧
      (∀ layer, c.shared.cache.lookup layer (.lc "post" 7) = some "1") ∧
      c.shared.db.store.committed.totalCount ("post", 7) = 0 ∧
      ((getCount Config.default ("post", 7)).exec
        (quietly Config.default ⟨true, .epoch, [], []⟩ false) c.shared).map Prod.snd =
          some (.ok ⟨"post", 7, 1⟩) ∧
      ¬ CountsRight Config.default c.shared := by
  refine ⟨by simp [overtakenLike, commitSteps, refreshSteps],
    by simp [overtakenLike, commitSteps, refreshSteps], ?_⟩
  have hview : ((service Config.default Codec.plain).machine.run
      (⟨World.new, fun _ => .idle⟩ : ServiceConfig Bool) overtakenLike).map (fun c =>
        (decide (∀ i, ¬ (c.calls i).Active), c.shared.cache.l1 (.lc "post" 7),
          c.shared.cache.redis (.lc "post" 7), c.shared.db.store.committed.totalCount ("post", 7),
          decide (((getCount Config.default ("post", 7)).exec
            (quietly Config.default ⟨true, .epoch, [], []⟩ false) c.shared).map Prod.snd =
              some (.ok ⟨"post", 7, 1⟩)))) =
      some (true, some "1", some "1", 0, true) := by
    decide +kernel
  obtain ⟨c, hrun, hc⟩ := Option.map_eq_some_iff.mp hview
  obtain ⟨hquiet, hc⟩ := Prod.mk.inj hc
  obtain ⟨hl1, hc⟩ := Prod.mk.inj hc
  obtain ⟨hredis, hc⟩ := Prod.mk.inj hc
  obtain ⟨htotal, hanswer⟩ := Prod.mk.inj hc
  refine ⟨c, hrun, of_decide_eq_true hquiet, fun layer => ?_, htotal, of_decide_eq_true hanswer,
    fun hright => ?_⟩
  · cases layer with
    | l1 => exact hl1
    | redis => exact hredis
  · have hentry := hright.entries .l1 ("post", 7) "1" hl1
    rw [htotal] at hentry
    exact absurd hentry (by decide)

/-! ## Statuses and pages -/

/-- The key of a status or a page. -/
def IsList : CacheKey → Prop
  | .ls _ _ _ => True
  | .ul _ _ => True
  | _ => False

/-- The cached statuses and pages are those of the tables. -/
structure ListsRight (C : Codec) (s : World ι) : Prop where
  status : ∀ layer userId item text, s.cache.lookup layer (statusCacheKey userId item) = some text →
    text = statusText C ((s.db.store.committed.find (userId, item)).map LikesRow.createdAt)
  page : ∀ layer userId filterKey text, s.cache.lookup layer (.ul userId filterKey) = some text →
    C.pageToJson (firstRows s.db.store.committed userId (pageFilter filterKey)) = some text

variable (cfg C) in
/-- Along a run in which the steps are in time for the statuses and the pages, the cached ones are
    those of the tables whenever no call is in progress. -/
theorem listsRight_of_meets (init : RecordedConfig ι) (acts : List (Act ι Request SvcChoice))
    (hinit : (service cfg C).recorded.machine.init init)
    (hup : ∀ i, .step i (.cache .fail) ∉ acts)
    (hmeets : (service cfg C).recorded.machine.Meets (InTime C IsList) init acts) :
    (service cfg C).recorded.machine.Along
      (fun c => (∀ i, ¬ (c.calls i).Active) → ListsRight C c.shared.1) init acts := by
  refine (entriesRight_of_meets hinit hup hmeets).mono fun c hright hquiet => ⟨?_, ?_⟩
  · intro layer userId item text htext
    exact (Option.some.inj (hright hquiet (layer, statusCacheKey userId item) trivial text
      htext)).symm
  · intro layer userId filterKey text htext
    exact hright hquiet (layer, .ul userId filterKey) trivial text htext

/-- The reader calls `get_status`. -/
def repairedLists : List (Act Caller Request SvcChoice) :=
  repaired (.start .reader (.getStatus 1 ("post", 7)) :: List.replicate 2 (.step .reader (.cache .ok)) ++
      [.step .reader (.db (.run .epoch []))])
    (List.replicate 2 (.step .reader (.cache .ok)))

theorem listsRight_of_meets_repairedLists :
    ∃ c : RecordedConfig Caller, (service Config.default Codec.plain).recorded.machine.run
        ⟨(World.new, []), fun _ => .idle⟩ repairedLists = some c ∧
      (∀ i, ¬ (c.calls i).Active) ∧
      (∀ layer, c.shared.1.cache.lookup layer (.ls 1 "post" 7) = some "") ∧
      ListsRight Codec.plain c.shared.1 := by
  have hview : ((service Config.default Codec.plain).recorded.machine.run
      (⟨(World.new, []), fun _ => .idle⟩ : RecordedConfig Caller) repairedLists).map (fun c =>
        (decide (∀ i, ¬ (c.calls i).Active), c.shared.1.cache.l1 (.ls 1 "post" 7),
          c.shared.1.cache.redis (.ls 1 "post" 7))) = some (true, some "", some "") := by
    decide +kernel
  obtain ⟨c, hrun, hc⟩ := Option.map_eq_some_iff.mp hview
  obtain ⟨hquiet, hc⟩ := Prod.mk.inj hc
  obtain ⟨hl1, hredis⟩ := Prod.mk.inj hc
  have hintime : (service Config.default Codec.plain).recorded.machine.meetsAll
      (isInTime Codec.plain) (⟨(World.new, []), fun _ => .idle⟩ : RecordedConfig Caller)
      repairedLists = true := by
    decide +kernel
  have hright := listsRight_of_meets Config.default Codec.plain
    (⟨(World.new, []), fun _ => .idle⟩ : RecordedConfig Caller) repairedLists
    ⟨⟨⟨⟨_, consistent_empty, rfl⟩, rfl, rfl⟩, rfl⟩, fun _ => rfl⟩
    (by simp [repairedLists, repaired, commitSteps, refreshSteps])
    (Machine.meets_of_meetsAll (inTime_of_isInTime IsList) hintime)
  refine ⟨c, hrun, of_decide_eq_true hquiet, fun layer => ?_,
    hright.last hrun (of_decide_eq_true hquiet)⟩
  cases layer with
  | l1 => exact hl1
  | redis => exact hredis

/-- When the unlike writes to the cache before the like does, both layers keep saying that the user
    likes the item. -/
theorem crossedStatuses_wrong :
    (∀ i, .step i (.cache .fail) ∉ overtakenLike) ∧ (∀ i, .drop i ∉ overtakenLike) ∧
    ∃ c : ServiceConfig Bool, (service Config.default Codec.plain).machine.run
        ⟨World.new, fun _ => .idle⟩ overtakenLike = some c ∧
      (∀ i, ¬ (c.calls i).Active) ∧
      (∀ layer, c.shared.cache.lookup layer (.ls 1 "post" 7) = some "1970-01-01T00:00:00+00:00") ∧
      c.shared.db.store.committed.find (1, ("post", 7)) = none ∧
      ¬ ListsRight Codec.plain c.shared := by
  refine ⟨by simp [overtakenLike, commitSteps, refreshSteps],
    by simp [overtakenLike, commitSteps, refreshSteps], ?_⟩
  have hview : ((service Config.default Codec.plain).machine.run
      (⟨World.new, fun _ => .idle⟩ : ServiceConfig Bool) overtakenLike).map (fun c =>
        (decide (∀ i, ¬ (c.calls i).Active), c.shared.cache.l1 (.ls 1 "post" 7),
          c.shared.cache.redis (.ls 1 "post" 7),
          c.shared.db.store.committed.find (1, ("post", 7)))) =
      some (true, some "1970-01-01T00:00:00+00:00", some "1970-01-01T00:00:00+00:00", none) := by
    decide +kernel
  obtain ⟨c, hrun, hc⟩ := Option.map_eq_some_iff.mp hview
  obtain ⟨hquiet, hc⟩ := Prod.mk.inj hc
  obtain ⟨hl1, hc⟩ := Prod.mk.inj hc
  obtain ⟨hredis, hnone⟩ := Prod.mk.inj hc
  refine ⟨c, hrun, of_decide_eq_true hquiet, fun layer => ?_, hnone, fun hright => ?_⟩
  · cases layer with
    | l1 => exact hl1
    | redis => exact hredis
  · have hentry := hright.status .l1 1 ("post", 7) _ hl1
    rw [hnone] at hentry
    exact absurd hentry (by decide)

end SocialApi.Services
