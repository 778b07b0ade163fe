import SocialApi.Leaderboard

/-!
# The unfiltered board after a refresh

The task writes the first 50 rows of the query as members `"{type}:{id}"` with the counts as
scores; the endpoint reads a range of that sorted set back and parses the members. Redis
may rank members of equal score in another order than the database.

* `parse_memberText`: a member is parsed to the item and count it was made of.
* `refreshWindow_exec`: what the task leaves in the sorted set.
* `refreshed_board`: after the task has run, the endpoint returns the counts of the query,
  every item once and with its own count.
-/

namespace SocialApi.Leaderboard

open SocialApi.Concurrent SocialApi.Postgres SocialApi.Ranking

/-! ## Members -/

theorem takeWhile_colon {as bs : List Char} (h : ':' ∉ as) :
    (as ++ ':' :: bs).takeWhile (· ≠ ':') = as := by
  induction as with
  | nil => simp
  | cons a as ih =>
    obtain ⟨ha, has⟩ := not_or.mp (List.mem_cons.not.mp h)
    rw [List.cons_append, List.takeWhile_cons, if_pos (by simpa using Ne.symm ha), ih has]

theorem dropWhile_colon {as bs : List Char} (h : ':' ∉ as) :
    (as ++ ':' :: bs).dropWhile (· ≠ ':') = ':' :: bs := by
  induction as with
  | nil => simp
  | cons a as ih =>
    obtain ⟨ha, has⟩ := not_or.mp (List.mem_cons.not.mp h)
    rw [List.cons_append, List.dropWhile_cons, if_pos (by simpa using Ne.symm ha), ih has]

theorem toList_memberText (item : Item) :
    (memberText item).toList = item.1.toList ++ ':' :: item.2.toString.toList := by
  unfold memberText
  rw [String.toList_append, String.toList_append, List.append_assoc]
  rfl

/-- A member is parsed to what it was made of. -/
theorem parse_memberText {L : BoardLibs} (hL : L.Documented) {item : Item}
    (hitem : ':' ∉ item.1.toList) (score : F64) :
    parseLeaderboardMember L (memberText item) score = some ⟨item.1, item.2, asI64 score⟩ := by
  have hcolon : ':' ∈ item.1.toList ++ ':' :: item.2.toString.toList :=
    List.mem_append_right _ List.mem_cons_self
  unfold parseLeaderboardMember
  simp only [toList_memberText, takeWhile_colon hitem, dropWhile_colon hitem, if_pos hcolon,
    List.drop_succ_cons, List.drop_zero, String.ofList_toList, hL.parse, Option.map_some]

theorem memberText_inj {item item' : Item} (h : ':' ∉ item.1.toList) (h' : ':' ∉ item'.1.toList)
    (heq : memberText item = memberText item') : item = item' := by
  have hlists := congrArg String.toList heq
  rw [toList_memberText, toList_memberText] at hlists
  obtain ⟨htype, hid⟩ := CacheKey.split_unique h h' hlists
  refine Prod.ext (String.toList_inj.mp htype) (Uuid.toList_injective ?_)
  rw [Uuid.toString, Uuid.toString, String.toList_ofList, String.toList_ofList] at hid
  exact hid

/-! ## The sorted set -/

theorem foldl_zadd {members set : SortedSet} (h : ((set ++ members).map Prod.fst).Nodup) :
    members.foldl zadd set = set ++ members := by
  induction members generalizing set with
  | nil => rw [List.append_nil]; rfl
  | cons e members ih =>
    have hfresh : set.filter (fun e' => e'.1 ≠ e.1) = set := by
      refine List.filter_eq_self.mpr fun e' he' => decide_eq_true fun heq => ?_
      rw [List.map_append, List.map_cons] at h
      exact List.disjoint_of_nodup_append h (List.mem_map_of_mem he') (heq ▸ List.mem_cons_self)
    have happend : zadd set e = set ++ [e] := by unfold zadd; rw [hfresh]
    rw [List.foldl_cons, happend, ih (by rwa [List.append_assoc]), List.append_assoc]
    rfl

theorem replaceMembers_eq {members : SortedSet} (h : (members.map Prod.fst).Nodup) :
    replaceMembers members = members :=
  foldl_zadd (show (([] ++ members).map Prod.fst).Nodup from h)

/-- `ZREVRANGE key 0 (n - 1)`. -/
theorem zrevrange_first (L : BoardLibs) (set : SortedSet) {n : ℤ} (hn : 1 ≤ n) :
    zrevrange L set 0 (n - 1) = (L.rank set).take n.toNat := by
  unfold zrevrange
  have hstop : ¬ n - 1 < 0 := by omega
  simp only [lt_irrefl, if_false, if_neg hstop, Int.toNat_zero, List.drop_zero]
  congr 2
  omega

/-! ## Running the task and the endpoint -/

/-- Every operation works: `now` is the time, the tables are `t`, and the unfiltered query
    comes to the items in some order. -/
structure Calm (L : BoardLibs) (t : Tables) (now : DateTime) (x : BoardOp → BoardChoice) :
    Prop where
  enabled : ∀ s o, ∃ r, handle L s o (x o) = some r
  redis : ∀ o, x o ≠ .fail
  clock : x .utcNow = .now now
  rows : ∀ since limit, ∃ plan, x (.query none since limit) = .rows plan ∧ t.Lists plan

/-- Outcomes with which everything works and invalidations remove nothing. -/
def calmChoice (now : DateTime) (plan : List Item) : BoardOp → BoardChoice
  | .cache (.l1InvalidatePrefix _) => .cache (.removed [])
  | .cache _ => .cache .ok
  | .l1InvalidateFiltered => .removed []
  | .l1ZsetInvalidate _ => .removedRanges []
  | .utcNow => .now now
  | .query _ _ _ => .rows plan
  | _ => .ok

theorem calm_calmChoice (L : BoardLibs) {t : Tables} {plan : List Item} (hplan : t.Lists plan)
    (now : DateTime) : Calm L t now (calmChoice now plan) where
  enabled s o := by
    cases o with
    | cache o => cases o <;> exact ⟨_, rfl⟩
    | _ => exact ⟨_, rfl⟩
  redis o := by
    cases o with
    | cache o => cases o <;> exact nofun
    | _ => exact nofun
  clock := rfl
  rows _ _ := ⟨plan, rfl, hplan⟩

/-- The operations with the outcomes `x`. -/
def outcomes (L : BoardLibs) (x : BoardOp → BoardChoice) (s : Boards) (o : BoardOp) :
    Option (Boards × o.Ans) :=
  handle L s o (x o)

variable {L : BoardLibs} {t : Tables} {now : DateTime} {x : BoardOp → BoardChoice}

/-- The beginning of the window at a given time. -/
def startOf (window : TimeWindow) (now : DateTime) : Option DateTime :=
  window.durationSecs.map (minusSecs now)

theorem windowStart_exec (h : Calm L t now x) (s : Boards) (window : TimeWindow) :
    (windowStart window).exec (outcomes L x) s = some (s, startOf window now) := by
  have hclock : outcomes L x s .utcNow = some (s, now) := by
    unfold outcomes
    rw [h.clock]
    rfl
  unfold windowStart startOf
  cases window.durationSecs with
  | none => rfl
  | some secs =>
    simp only [Prog.bind_eq, perform, Prog.exec_bind, Prog.exec_perform, hclock, Option.bind_some]
    rfl

/-- `l1_zsets.get` and the accesses that change neither tables nor sorted sets. -/
def Quiet (o : BoardOp) : Prop := ∀ window members, o ≠ .replace window members

theorem handle_quiet {s : Boards} {o : BoardOp} {x : BoardChoice} {r : Boards × o.Ans}
    (ho : Quiet o) (h : handle L s o x = some r) :
    r.1.tables = s.tables ∧ r.1.zsets = s.zsets := by
  cases o with
  | replace window members => exact absurd rfl (ho window members)
  | cache o =>
    cases x with
    | cache x =>
      obtain ⟨r', -, rfl⟩ := Option.map_eq_some_iff.mp h
      exact ⟨rfl, rfl⟩
    | _ => cases h
  | _ => cases x <;> cases h <;> exact ⟨rfl, rfl⟩

theorem cache_quiet {α : Type} (p : Cache.CacheM α) : (cache p).All Quiet :=
  (Prog.all_of_forall (S := fun o => Quiet (.cache o)) (fun _ _ _ => nofun) p).lift

theorem storeFiltered_quiet (ttl : ℕ) (window : TimeWindow) (ct : String)
    (answer : Except SqlxError (List (Item × I64))) :
    (storeFiltered L ttl window ct answer).All Quiet := by
  cases answer with
  | error e => trivial
  | ok rows =>
    simp only [storeFiltered]
    split
    · exact cache_quiet _
    · trivial

theorem refreshFiltered_quiet (ttl : ℕ) (window : TimeWindow) (since : Option DateTime)
    (contentTypes : List String) :
    (refreshFiltered L ttl window since contentTypes).All Quiet := by
  induction contentTypes with
  | nil => trivial
  | cons ct contentTypes ih =>
    refine ⟨fun _ _ => nofun, fun answer => ?_⟩
    exact (storeFiltered_quiet ttl window ct answer).bind fun _ => ih

/-- The rows of the query as members of the sorted set. -/
def membersOf (rows : List (Item × I64)) : SortedSet :=
  rows.map fun row => (memberText row.1, asF64 row.2.val)

/-- The task replaces the sorted set by the rows of its query. -/
theorem refreshWindow_exec {s : Boards} (h : Calm L s.tables now x) (ttl : ℕ)
    (contentTypes : List String) {window : TimeWindow}
    (hok : ∀ plan, s.tables.Lists plan → ∃ rows,
      s.tables.getLeaderboard plan none (startOf window now) leaderboardLimit = .ok rows) :
    ∃ s' plan rows, s.tables.Lists plan ∧
      s.tables.getLeaderboard plan none (startOf window now) leaderboardLimit = .ok rows ∧
      (refreshWindow L ttl contentTypes window).exec (outcomes L x) s = some (s', .ok ()) ∧
      s'.tables = s.tables ∧ s'.zsets window = replaceMembers (membersOf rows) := by
  obtain ⟨plan, hplan, hlists⟩ := h.rows (startOf window now) leaderboardLimit
  obtain ⟨rows, hrows⟩ := hok plan hlists
  have hquery : outcomes L x s (.query none (startOf window now) leaderboardLimit) =
      some (s, .ok rows) := by
    unfold outcomes
    rw [hplan, ← hrows]
    rfl
  obtain ⟨⟨s₁, u₁⟩, h₁⟩ := h.enabled s (.l1ZsetInvalidate window)
  obtain ⟨htables₁, hzsets₁⟩ := handle_quiet (o := .l1ZsetInvalidate window) (fun _ _ => nofun) h₁
  obtain ⟨⟨s₂, u₂⟩, h₂⟩ := h.enabled s₁ (.replace window (membersOf rows))
  set zsets := Function.update s₁.zsets window (replaceMembers (membersOf rows)) with hzsets
  have hs₂ : s₂ = { s₁ with zsets := zsets } := by
    have hredis := h.redis (.replace window (membersOf rows))
    cases hx : x (.replace window (membersOf rows)) with
    | ok => rw [hx] at h₂; cases h₂; rfl
    | fail => exact absurd hx hredis
    | _ => rw [hx] at h₂; cases h₂
  obtain ⟨⟨s₃, u₃⟩, h₃⟩ := Prog.exec_total h.enabled s₂
    (refreshFiltered L ttl window (startOf window now) contentTypes)
  have hkeep := Prog.exec_keeps (I := fun b : Boards => b.tables = s₂.tables ∧ b.zsets = s₂.zsets)
    (fun b o r ho hr hb => by
      obtain ⟨htables, hzsets⟩ := handle_quiet ho hr
      exact ⟨htables.trans hb.1, hzsets.trans hb.2⟩)
    (refreshFiltered_quiet ttl window (startOf window now) contentTypes) h₃ ⟨rfl, rfl⟩
  refine ⟨s₃, plan, rows, hlists, hrows, ?_, ?_, ?_⟩
  · have h₁ : outcomes L x s (.l1ZsetInvalidate window) = some (s₁, ()) := h₁
    have h₂ : outcomes L x s₁ (.replace window (membersOf rows)) = some (s₂, ()) := h₂
    have h₃ : (refreshFiltered L ttl window (startOf window now) contentTypes).exec
      (outcomes L x) s₂ = some (s₃, ()) := h₃
    simp only [refreshWindow, replaceSortedSet, perform, Prog.bind_eq, Prog.exec_bind,
      windowStart_exec h, Prog.exec_perform, hquery, Option.bind_some, Prog.pure_eq]
    show ((((outcomes L x s (.l1ZsetInvalidate window)).bind fun r =>
      outcomes L x r.1 (.replace window (membersOf rows))).bind fun r =>
      ((refreshFiltered L ttl window (startOf window now) contentTypes).exec (outcomes L x)
        r.1).bind fun r => some (r.1, Except.ok ()))) = _
    rw [h₁, Option.bind_some, h₂, Option.bind_some, h₃, Option.bind_some]
  · rw [hkeep.1, hs₂]
    exact htables₁
  · rw [hkeep.2, hs₂]
    exact Function.update_self _ _ _

/-- A range of the sorted set, when L1 does not hold it. -/
theorem zrevrangeWithScores_exec {s : Boards} (h : Calm L t now x) {window : TimeWindow}
    {start stop : ℤ} (hl1 : s.l1Zsets window start stop = none) :
    ∃ s', (zrevrangeWithScores window start stop).exec (outcomes L x) s =
      some (s', zrevrange L (s.zsets window) start stop) ∧ s'.tables = s.tables := by
  have hget : outcomes L x s (.l1ZsetGet window start stop) = some (s, none) := by
    obtain ⟨r, hr⟩ := h.enabled s (.l1ZsetGet window start stop)
    unfold outcomes
    cases hx : x (.l1ZsetGet window start stop) with
    | ok => rw [← hl1]; rfl
    | _ => rw [hx] at hr; cases hr
  set pairs := zrevrange L (s.zsets window) start stop with hpairs
  have hrange : outcomes L x s (.zrevrange window start stop) = some (s, pairs) := by
    obtain ⟨r, hr⟩ := h.enabled s (.zrevrange window start stop)
    have hredis := h.redis (.zrevrange window start stop)
    unfold outcomes
    cases hx : x (.zrevrange window start stop) with
    | ok => rfl
    | fail => exact absurd hx hredis
    | _ => rw [hx] at hr; cases hr
  have hquiet : (keepRange window start stop pairs).All Quiet := by
    unfold keepRange
    split_ifs
    · exact ⟨fun _ _ => nofun, fun _ => trivial⟩
    · trivial
  obtain ⟨⟨s', u⟩, hkeep⟩ := Prog.exec_total h.enabled s (keepRange window start stop pairs)
  refine ⟨s', ?_, ?_⟩
  · have hkeep : (keepRange window start stop pairs).exec (outcomes L x) s = some (s', ()) := hkeep
    simp only [zrevrangeWithScores, perform, Prog.bind_eq, Prog.exec_bind, Prog.exec_perform, hget,
      hrange, hkeep, Option.bind_some]
    rfl
  · exact Prog.exec_keeps (I := fun b : Boards => b.tables = s.tables)
      (fun b o r ho hr hb => (handle_quiet ho hr).1.trans hb) hquiet hkeep rfl

/-- The fallback returns what the query on the database returns. -/
theorem boardFromDatabase_exec {s : Boards} (h : Calm L s.tables now x) (window : TimeWindow)
    (limit : ℤ) (hok : ∀ plan, s.tables.Lists plan → ∃ rows,
      s.tables.getLeaderboard plan none (startOf window now) limit = .ok rows) :
    ∃ plan rows, s.tables.Lists plan ∧
      s.tables.getLeaderboard plan none (startOf window now) limit = .ok rows ∧
      (boardFromDatabase none window limit).exec (outcomes L x) s =
        some (s, .ok ⟨window.asStr, none, rows.map toTopLikedItem⟩) := by
  obtain ⟨plan, hplan, hlists⟩ := h.rows (startOf window now) limit
  obtain ⟨rows, hrows⟩ := hok plan hlists
  have hquery : outcomes L x s (.query none (startOf window now) limit) = some (s, .ok rows) := by
    unfold outcomes
    rw [hplan, ← hrows]
    rfl
  refine ⟨plan, rows, hlists, hrows, ?_⟩
  simp only [boardFromDatabase, perform, Prog.bind_eq, Prog.exec_bind, windowStart_exec h,
    Prog.exec_perform, hquery, Option.bind_some]
  rfl

/-! ## The board after a refresh -/

/-- No count of the database exceeds 2⁵³, up to which a double is exact. -/
def SmallCounts (t : Tables) : Prop := ∀ since item, (t.countSince since item).natAbs ≤ 2 ^ 53

/-- No content type contains the separator of a member. -/
def NoColons (t : Tables) : Prop :=
  ∀ item, t.likeCounts item ≠ none ∨ (∃ r ∈ t.likes, r.item = item) → ':' ∉ item.1.toList

theorem SmallCounts.lt (h : SmallCounts t) (since : Option DateTime) (item : Item) :
    t.countSince since item < 2 ^ 63 := by
  have hle := h since item
  omega

/-- The items show the counts of the query's rows, each item once and with its own count. -/
structure ShowsBoard (t : Tables) (since : Option DateTime) (items : List TopLikedItem)
    (rows : List (Item × I64)) : Prop where
  counts : items.map TopLikedItem.count = rows.map Prod.snd
  once : (items.map fun it => (it.contentType, it.contentId)).Nodup
  own : ∀ it ∈ items, it.count.val = t.countSince since (it.contentType, it.contentId)

theorem ranked_row {since : Option DateTime} {item : Item} (h : t.Ranked since item) :
    t.likeCounts item ≠ none ∨ ∃ r ∈ t.likes, r.item = item := by
  cases since with
  | none => exact Or.inl h
  | some sinceTs =>
    obtain ⟨r, hr, hitem, -⟩ := h
    exact Or.inr ⟨r, hr, hitem⟩

theorem ranked_of_later {window : TimeWindow} {now now' : DateTime} {item : Item}
    (hnow : now.micros ≤ now'.micros) (h : t.Ranked (startOf window now') item) :
    t.Ranked (startOf window now) item := by
  unfold startOf at h ⊢
  cases hsecs : window.durationSecs with
  | none => rw [hsecs] at h; exact h
  | some secs =>
    rw [hsecs] at h
    obtain ⟨r, hr, hitem, hsince⟩ := h
    refine ⟨r, hr, hitem, le_trans ?_ hsince⟩
    show max _ (min _ _) ≤ max _ (min _ _)
    omega

/-- A board is empty when there is nothing to rank. -/
theorem board_nil_iff (hsmall : SmallCounts t) {plan : List Item} (hplan : t.Lists plan)
    {since : Option DateTime} {limit : ℤ} (hlimit : 1 ≤ limit) :
    t.getLeaderboard plan none since limit = .ok [] ↔ ∀ item, ¬ t.Ranked since item := by
  obtain ⟨entries, -, hmem, hentries⟩ := Tables.getLeaderboard_eq hplan none since
    (hsmall.lt since)
  rw [hentries, Except.ok.injEq, top_eq_nil (by omega)]
  constructor
  · rintro rfl item hranked
    have hle := hsmall since item
    exact List.not_mem_nil ((hmem item ⟨t.countSince since item, by omega, by omega⟩).mpr
      ⟨fun ct hct => (by cases hct), hranked, rfl⟩)
  · intro hnone
    refine List.eq_nil_iff_forall_not_mem.mpr fun row hrow => ?_
    exact hnone row.1 ((hmem row.1 row.2).mp hrow).2.1

theorem eq_of_val_eq {as bs : List (Item × I64)}
    (h : as.map (fun row => row.2.val) = bs.map fun row => row.2.val) :
    as.map Prod.snd = bs.map Prod.snd := by
  have hinj : Function.Injective (List.map I64.val) := List.map_injective_iff.mpr fun _ _ => I64.ext
  refine hinj ?_
  rw [List.map_map, List.map_map]
  exact h

/-- A range of the sorted set that the task has written shows the board. -/
theorem showsBoard_of_members (hL : L.Documented) (hsmall : SmallCounts t) (hcolons : NoColons t)
    {since : Option DateTime} {plan plan' : List Item} (hplan : t.Lists plan)
    (hplan' : t.Lists plan') {rows rows' : List (Item × I64)} {limit : ℤ} (hlimit : limit ≤ 50)
    (hrows : t.getLeaderboard plan none since leaderboardLimit = .ok rows)
    (hrows' : t.getLeaderboard plan' none since limit = .ok rows') :
    ∃ items, ((L.rank (replaceMembers (membersOf rows))).take limit.toNat).filterMap
        (fun pair => parseLeaderboardMember L pair.1 pair.2) = items ∧
      ((L.rank (replaceMembers (membersOf rows))).take limit.toNat).length = items.length ∧
      ShowsBoard t since items rows' := by
  obtain ⟨entries, hnodup, hmem, hentries⟩ := Tables.getLeaderboard_eq hplan none since
    (hsmall.lt since)
  obtain ⟨entries', hnodup', hmem', hentries'⟩ := Tables.getLeaderboard_eq hplan' none since
    (hsmall.lt since)
  set score : Item × I64 → ℤ := fun row => row.2.val with hscore
  obtain rfl : top score 50 entries = rows := Except.ok.inj ((hentries _).symm.trans hrows)
  obtain rfl : top score limit.toNat entries' = rows' :=
    Except.ok.inj ((hentries' _).symm.trans hrows')
  have hperm : entries.Perm entries' :=
    (List.perm_ext_iff_of_nodup (List.Nodup.of_map _ hnodup) (List.Nodup.of_map _ hnodup')).mpr
      fun row => (hmem row.1 row.2).trans (hmem' row.1 row.2).symm
  have hitem : ∀ row ∈ entries, ':' ∉ row.1.1.toList ∧ row.2.val = t.countSince since row.1 ∧
      asF64 row.2.val = row.2.val := by
    intro row hrow
    obtain ⟨-, hranked, hcount⟩ := (hmem row.1 row.2).mp hrow
    refine ⟨hcolons row.1 (ranked_row hranked), hcount, asF64_of_le ?_⟩
    rw [hcount]
    exact hsmall since row.1
  have htop : ∀ row ∈ top score 50 entries, row ∈ entries := fun row => mem_of_mem_top
  have hmembers : ((membersOf (top score 50 entries)).map Prod.fst).Nodup := by
    have hkeys : ((top score 50 entries).map _).Nodup := nodup_map_top hnodup
    rw [membersOf, List.map_map]
    refine List.Nodup.map_on (fun row hrow row' hrow' heq => ?_) (List.Nodup.of_map _ hkeys)
    have hkey := memberText_inj (hitem row (htop row hrow)).1 (hitem row' (htop row' hrow')).1 heq
    exact List.inj_on_of_nodup_map hkeys hrow hrow' hkey
  rw [replaceMembers_eq hmembers]
  -- Redis ranks the members of some rearrangement of the rows
  obtain ⟨ranked, hranked, hrank⟩ := exists_map_of_perm (hL.rank_perm (membersOf
    (top score 50 entries)))
  have hin : ∀ row ∈ ranked, row ∈ entries := fun row hrow => htop row (hranked.mem_iff.mp hrow)
  have hdescending : Descending score ranked := by
    have h := hL.rank_descending (membersOf (top score 50 entries))
    rw [hrank] at h
    refine (List.pairwise_map.mp h).imp_of_mem fun {row row'} hrow hrow' habove => ?_
    have habove : asF64 row'.2.val ≤ asF64 row.2.val := habove
    rw [(hitem row (hin row hrow)).2.2, (hitem row' (hin row' hrow')).2.2] at habove
    exact habove
  have htake : ∀ row ∈ ranked.take limit.toNat, row ∈ entries := fun row hrow =>
    hin row (List.mem_of_mem_take hrow)
  have hparse : (((ranked.take limit.toNat).map fun row => (memberText row.1, asF64 row.2.val)).filterMap
      fun pair => parseLeaderboardMember L pair.1 pair.2) =
      (ranked.take limit.toNat).map toTopLikedItem := by
    rw [List.filterMap_map, ← List.filterMap_eq_map]
    refine List.filterMap_congr fun row hrow => ?_
    obtain ⟨hcolon, -, hexact⟩ := hitem row (htake row hrow)
    show parseLeaderboardMember L (memberText row.1) (asF64 row.2.val) = _
    rw [parse_memberText hL hcolon, hexact, asI64_val]
    rfl
  rw [hrank, ← List.map_take]
  refine ⟨_, hparse, by rw [List.length_map, List.length_map], ?_, ?_, ?_⟩
  · rw [List.map_map]
    refine eq_of_val_eq ?_
    have hn : limit.toNat ≤ 50 := by omega
    rw [show (ranked.take limit.toNat).map (fun row => row.2.val) =
      (top score limit.toNat entries).map score from
        scores_take_of_perm_top hn hdescending (hranked.map score)]
    exact scores_top_of_perm _ (hperm.map score)
  · rw [List.map_map]
    have hkeys := (hranked.map Prod.fst).nodup_iff.mpr
      (nodup_map_top hnodup : ((top score 50 _).map _).Nodup)
    exact hkeys.sublist ((List.take_sublist _ _).map Prod.fst)
  · intro it hit
    obtain ⟨row, hrow, rfl⟩ := List.mem_map.mp hit
    exact (hitem row (htake row hrow)).2.1

/-- After the task has run against the tables, and while L1 holds no range of the sorted set,
    the endpoint shows the board of the query with the same `since`, for every window and
    every limit (clamped to 1..=50). -/
theorem refreshed_board (hL : L.Documented) {s : Boards} (hsmall : SmallCounts s.tables)
    (hcolons : NoColons s.tables) {y : BoardOp → BoardChoice} {now' : DateTime}
    (hx : Calm L s.tables now x) (hy : Calm L s.tables now' y) (hnow : now.micros ≤ now'.micros)
    (ttl : ℕ) (contentTypes : List String) (window : TimeWindow) (limit : ℤ) :
    ∃ s₁, (refreshWindow L ttl contentTypes window).exec (outcomes L x) s = some (s₁, .ok ()) ∧
      ∀ s₂ : Boards, s₂.tables = s₁.tables → s₂.zsets = s₁.zsets →
        (∀ window start stop, s₂.l1Zsets window start stop = none) →
        ∃ s₃ items, (getLeaderboard L none window limit).exec (outcomes L y) s₂ =
            some (s₃, .ok ⟨window.asStr, none, items⟩) ∧
          ∀ plan, s.tables.Lists plan → ∃ rows,
            s.tables.getLeaderboard plan none (startOf window now) (max 1 (min limit 50)) =
              .ok rows ∧
            ShowsBoard s.tables (startOf window now) items rows := by
  have hok : ∀ since limit plan, s.tables.Lists plan → ∃ rows,
      s.tables.getLeaderboard plan none since limit = .ok rows := by
    intro since limit plan hplan
    obtain ⟨rows, -, -, hrows⟩ := Tables.getLeaderboard_eq hplan none since (hsmall.lt since)
    exact ⟨_, hrows limit⟩
  obtain ⟨s₁, plan, stored, hplan, hstored, hexec, htables, hzset⟩ :=
    refreshWindow_exec hx ttl contentTypes (hok (startOf window now) leaderboardLimit)
  refine ⟨s₁, hexec, fun s₂ htables₂ hzsets₂ hl1 => ?_⟩
  set cut := max 1 (min limit 50) with hcut
  obtain ⟨s₃, hread, htables₃⟩ := zrevrangeWithScores_exec hy (hl1 window 0 (cut - 1))
  rw [zrevrange_first L _ (le_max_left 1 _), congrFun hzsets₂ window, hzset] at hread
  set pairs := (L.rank (replaceMembers (membersOf stored))).take cut.toNat with hpairs
  by_cases hempty : pairs = []
  · -- nothing is stored: the endpoint queries the database, which has no rows either
    have hcut1 : 1 ≤ cut := le_max_left 1 _
    have hnil : ∀ plan', s.tables.Lists plan' →
        s.tables.getLeaderboard plan' none (startOf window now) cut = .ok [] := by
      intro plan' hplan'
      obtain ⟨rows, hrows⟩ := hok (startOf window now) cut plan' hplan'
      obtain ⟨items, -, hlength, hshows⟩ := showsBoard_of_members hL hsmall hcolons hplan hplan'
        (max_le (by norm_num) (min_le_right _ _)) hstored hrows
      have hitems : items = [] := by
        rw [← List.length_eq_zero_iff, ← hlength, ← hpairs, hempty]
        rfl
      have hcounts := hshows.counts
      rw [hitems, List.map_nil] at hcounts
      rw [hrows, List.map_eq_nil_iff.mp hcounts.symm]
    have hnone := (board_nil_iff hsmall hplan hcut1).mp (hnil plan hplan)
    have hsame : s₃.tables = s.tables := by rw [htables₃, htables₂, htables]
    obtain ⟨plan', rows, hplan', hrows, hdb⟩ := boardFromDatabase_exec (by rw [hsame]; exact hy)
      window cut (by rw [hsame]; exact hok _ _)
    rw [hsame] at hplan' hrows
    have hrowsnil := (board_nil_iff hsmall hplan' hcut1).mpr fun item hranked =>
      hnone item (ranked_of_later hnow hranked)
    obtain rfl : rows = [] := Except.ok.inj (hrows.symm.trans hrowsnil)
    refine ⟨s₃, [], ?_, fun plan' hplan' => ⟨[], hnil plan' hplan', ?_⟩⟩
    · simp only [getLeaderboard, Prog.bind_eq, Prog.exec_bind]
      rw [← hcut, hread, Option.bind_some, if_neg (not_not.mpr hempty)]
      exact hdb
    · exact ⟨rfl, List.nodup_nil, fun it hit => absurd hit List.not_mem_nil⟩
  · refine ⟨s₃, pairs.filterMap fun pair => parseLeaderboardMember L pair.1 pair.2, ?_, ?_⟩
    · simp only [getLeaderboard, Prog.bind_eq, Prog.exec_bind]
      rw [← hcut, hread, Option.bind_some, if_pos hempty]
      rfl
    · intro plan' hplan'
      obtain ⟨rows, hrows⟩ := hok (startOf window now) cut plan' hplan'
      obtain ⟨items, rfl, -, hshows⟩ := showsBoard_of_members hL hsmall hcolons hplan hplan'
        (max_le (by norm_num) (min_le_right _ _)) hstored hrows
      exact ⟨rows, hrows, hshows⟩

/-- A database with one like each of two items, and caches with nothing in them. -/
def tiedBoards : Boards where
  tables := ⟨[⟨0, 1, "post", 7, .epoch⟩, ⟨1, 2, "post", 8, .epoch⟩],
    fun item => if item = ("post", 7) ∨ item = ("post", 8) then some 1 else none⟩
  cache := .empty
  zsets _ := []
  l1Zsets _ _ _ := none

/-- The items of the two likes, in the order in which the database returns them. -/
def tiedPlan : List Item := [("post", 7), ("post", 8)]

theorem tiedBoards_lists : tiedBoards.tables.Lists tiedPlan := by
  refine ⟨by decide, fun item hitem => List.mem_pair.mpr ?_⟩
  rcases hitem with hcount | ⟨r, hr, hitem⟩
  · by_contra hne
    exact hcount (if_neg hne)
  · rcases List.mem_pair.mp hr with rfl | rfl
    · exact Or.inl hitem.symm
    · exact Or.inr hitem.symm

theorem tiedBoards_small : SmallCounts tiedBoards.tables := by
  intro since item
  cases since with
  | none =>
    show ((if item = ("post", 7) ∨ item = ("post", 8) then some 1 else none).getD 0 :
      I64).val.natAbs ≤ _
    split_ifs
    · exact show (1 : ℕ) ≤ 2 ^ 53 by norm_num
    · exact Nat.zero_le _
  | some sinceTs =>
    simp only [Tables.countSince, Int.natAbs_natCast]
    refine le_trans List.countP_le_length (le_trans (List.length_filter_le _ _) ?_)
    exact show (2 : ℕ) ≤ 2 ^ 53 by norm_num

/-- The board of the two likes, read back after a refresh: Redis ranks the two items, which the
    query returns in this order, the other way round. -/
theorem refreshed_board_tiedBoards :
    ∃ s₁, (refreshWindow plainLibs 60 ["post"] .all).exec
        (outcomes plainLibs (calmChoice .epoch tiedPlan)) tiedBoards = some (s₁, .ok ()) ∧
      ∃ s₂ items, (getLeaderboard plainLibs none .all 10).exec
          (outcomes plainLibs (calmChoice .epoch tiedPlan))
            { s₁ with l1Zsets := fun _ _ _ => none } = some (s₂, .ok ⟨"all", none, items⟩) ∧
        items = [⟨"post", 8, 1⟩, ⟨"post", 7, 1⟩] ∧
        ∃ rows, tiedBoards.tables.getLeaderboard tiedPlan none none 10 = .ok rows ∧
          rows = [(("post", 7), 1), (("post", 8), 1)] ∧
          ShowsBoard tiedBoards.tables none items rows := by
  have hcolons : NoColons tiedBoards.tables := by
    intro item hitem
    rcases List.mem_pair.mp (tiedBoards_lists.2 item hitem) with rfl | rfl
    · decide
    · decide
  have hcalm := calm_calmChoice plainLibs tiedBoards_lists .epoch
  obtain ⟨s₁, hexec, hread⟩ := refreshed_board plainLibs_documented tiedBoards_small hcolons
    hcalm hcalm le_rfl 60 ["post"] .all 10
  obtain ⟨s₂, items, hget, hboard⟩ := hread { s₁ with l1Zsets := fun _ _ _ => none } rfl rfl
    fun _ _ _ => rfl
  obtain ⟨rows, hrows, hshows⟩ := hboard _ tiedBoards_lists
  have hitems : (((refreshWindow plainLibs 60 ["post"] .all).exec
      (outcomes plainLibs (calmChoice .epoch tiedPlan)) tiedBoards).bind fun p =>
        (getLeaderboard plainLibs none .all 10).exec
          (outcomes plainLibs (calmChoice .epoch tiedPlan))
            { p.1 with l1Zsets := fun _ _ _ => none }).map (fun p =>
              p.2.toOption.map TopLikedResponse.items) =
      some (some [⟨"post", 8, 1⟩, ⟨"post", 7, 1⟩]) := by
    decide +kernel
  rw [hexec, Option.bind_some, hget] at hitems
  have hquery : (tiedBoards.tables.getLeaderboard tiedPlan none none 10).toOption =
      some [(("post", 7), 1), (("post", 8), 1)] := by
    decide +kernel
  rw [show tiedBoards.tables.getLeaderboard tiedPlan none none 10 = .ok rows from hrows] at hquery
  exact ⟨s₁, hexec, s₂, items, hget, Option.some.inj (Option.some.inj hitems), rows, hrows,
    Option.some.inj hquery, hshows⟩

end SocialApi.Leaderboard
