import SocialApi.Ranking.Top
import SocialApi.Repositories.WritePath

/-!
# The all-time board and the windowed board

`get_leaderboard` reads `like_counts` when no `since` is given and aggregates `likes`
otherwise. The executor comes to the items in any order (`Tables.Lists`), and rows with
equal counts are returned in the order in which it comes to them.

* `getLeaderboard_eq`: which rows the two queries rank.
* `lists_of_run`: the tables that like and unlike transactions leave can be listed.
* `boardsAgree_iff`: from empty tables on, the all-time board and a board of a window
  that covers all likes show the same counts exactly when no matching item has been left
  with a count of 0 or enough matching items are liked to fill the board.
-/

namespace SocialApi.Postgres

open SocialApi.Ranking

/-- `plan` lists every item that has a row in one of the tables. -/
def Tables.Lists (t : Tables) (plan : List Item) : Prop :=
  plan.Nodup ∧ ∀ item, t.likeCounts item ≠ none ∨ (∃ r ∈ t.likes, r.item = item) → item ∈ plan

/-- The condition on `content_type`, if there is one. -/
def OfType (contentType : Option String) (item : Item) : Prop := ∀ ct ∈ contentType, item.1 = ct

instance (contentType : Option String) : DecidablePred (OfType contentType) := fun item => by
  unfold OfType; infer_instance

namespace Tables

/-- The rows that a windowed board counts: `WHERE created_at >= … AND content_type = …`. -/
def likesSince (t : Tables) (contentType : Option String) (sinceTs : DateTime) : List LikesRow :=
  t.likes.filter fun r => sinceTs.micros ≤ r.createdAt.micros ∧ OfType contentType r.item

/-- `COUNT(*)` over the rows of the item. -/
def countRows (rows : List LikesRow) (item : Item) : Except SqlxError I64 :=
  (I64.ofInt? (rows.countP fun r => r.item = item)).elim (.error .outOfRange) .ok

/-- `get_leaderboard` (repositories.rs:358–393), `plan` being the order in which the executor
    comes to the items; a negative `LIMIT` never occurs. -/
def getLeaderboard (t : Tables) (plan : List Item) (contentType : Option String)
    (since : Option DateTime) (limit : ℤ) : Except SqlxError (List (Item × I64)) :=
  match since with
  | some sinceTs =>
    -- time-windowed: one group for each item that has a row
    let rows := t.likesSince contentType sinceTs
    ((plan.filter fun item => ∃ r ∈ rows, r.item = item).mapM fun item =>
      (countRows rows item).map fun count => (item, count)).map
        (top (fun row => row.2.val) limit.toNat)
  | none =>
    -- all-time: the rows of `like_counts`
    .ok (top (fun row => row.2.val) limit.toNat ((plan.filter (OfType contentType)).filterMap
      fun item => (t.likeCounts item).map fun count => (item, count)))

/-! ## What the queries rank -/

/-- The count under which the item stands on a board. -/
def countSince (t : Tables) (since : Option DateTime) (item : Item) : ℤ :=
  match since with
  | some sinceTs => (t.likes.filter fun r => sinceTs.micros ≤ r.createdAt.micros).countP
      fun r => r.item = item
  | none => (t.totalCount item).val

/-- The item has a row that a board ranks. -/
def Ranked (t : Tables) (since : Option DateTime) (item : Item) : Prop :=
  match since with
  | some sinceTs => ∃ r ∈ t.likes, r.item = item ∧ sinceTs.micros ≤ r.createdAt.micros
  | none => t.likeCounts item ≠ none

theorem countP_likesSince {t : Tables} {contentType : Option String} {sinceTs : DateTime}
    {item : Item} (hitem : OfType contentType item) :
    (((t.likesSince contentType sinceTs).countP fun r => r.item = item : ℕ) : ℤ) =
      t.countSince (some sinceTs) item := by
  simp only [likesSince, countSince]
  rw [List.countP_filter, List.countP_filter]
  congr 1
  refine List.countP_congr fun r _ => ?_
  by_cases hr : r.item = item
  · rw [hr]
    simp [hitem]
  · simp [hr]

theorem mem_likesSince_item {t : Tables} {contentType : Option String} {sinceTs : DateTime}
    {item : Item} : (∃ r ∈ t.likesSince contentType sinceTs, r.item = item) ↔
      OfType contentType item ∧ t.Ranked (some sinceTs) item := by
  constructor
  · rintro ⟨r, hr, rfl⟩
    obtain ⟨hmem, hwhere⟩ := List.mem_filter.mp hr
    obtain ⟨hsince, htype⟩ := of_decide_eq_true hwhere
    exact ⟨htype, r, hmem, rfl, hsince⟩
  · rintro ⟨htype, r, hmem, rfl, hsince⟩
    exact ⟨r, List.mem_filter.mpr ⟨hmem, decide_eq_true ⟨hsince, htype⟩⟩, rfl⟩

theorem mapM_ok {α β ε : Type} {f : α → Except ε β} {g : α → β} {as : List α}
    (h : ∀ a ∈ as, f a = .ok (g a)) : as.mapM f = .ok (as.map g) := by
  induction as with
  | nil => rfl
  | cons a as ih =>
    rw [List.mapM_cons, h a List.mem_cons_self,
      ih fun b hb => h b (List.mem_cons_of_mem a hb)]
    rfl

theorem map_fst_filterMap_sublist {α β : Type} (f : α → Option β) (as : List α) :
    ((as.filterMap fun a => (f a).map fun b => (a, b)).map Prod.fst).Sublist as := by
  induction as with
  | nil => exact List.Sublist.slnil
  | cons a as ih =>
    cases hf : f a with
    | none =>
      rw [List.filterMap_cons, hf]
      exact ih.cons a
    | some b =>
      rw [List.filterMap_cons, hf]
      exact ih.cons_cons a

theorem countRows_ok {rows : List LikesRow} {item : Item} {n : ℤ}
    (hn : ((rows.countP fun r => r.item = item : ℕ) : ℤ) = n) (hlt : n < 2 ^ 63) :
    ∃ count, countRows rows item = .ok count ∧ count.val = n := by
  have hlow : -(2 ^ 63) ≤ n := by
    have hnonneg : 0 ≤ n := hn ▸ Int.natCast_nonneg _
    exact le_trans (by norm_num) hnonneg
  refine ⟨⟨n, hlow, hlt⟩, ?_, rfl⟩
  unfold countRows
  rw [hn, show I64.ofInt? n = some ⟨n, hlow, hlt⟩ from I64.ofInt?_eq_some.mpr rfl]
  rfl

/-- Both queries rank one row for each item that the board is about, with its count. -/
theorem getLeaderboard_eq {t : Tables} {plan : List Item} (hplan : t.Lists plan)
    (contentType : Option String) (since : Option DateTime)
    (hcount : ∀ item, t.countSince since item < 2 ^ 63) :
    ∃ rows : List (Item × I64), (rows.map Prod.fst).Nodup ∧
      (∀ item count, (item, count) ∈ rows ↔
        OfType contentType item ∧ t.Ranked since item ∧ count.val = t.countSince since item) ∧
      ∀ limit : ℤ, t.getLeaderboard plan contentType since limit =
        .ok (top (fun row => row.2.val) limit.toNat rows) := by
  cases since with
  | some sinceTs =>
    set rows := t.likesSince contentType sinceTs with hrows
    set items := plan.filter fun item => ∃ r ∈ rows, r.item = item with hitems
    have hofInt : ∀ item, OfType contentType item → ∃ count, countRows rows item = .ok count ∧
        count.val = t.countSince (some sinceTs) item := by
      intro item htype
      exact countRows_ok (countP_likesSince htype) (hcount item)
    have hmem : ∀ item, item ∈ items ↔ OfType contentType item ∧ t.Ranked (some sinceTs) item := by
      intro item
      rw [hitems, List.mem_filter, decide_eq_true_eq, mem_likesSince_item, and_iff_right_iff_imp]
      rintro ⟨-, r, hr, hitem, -⟩
      exact hplan.2 item (Or.inr ⟨r, hr, hitem⟩)
    set count : Item → I64 := fun item => (countRows rows item).toOption.getD 0 with hcounts
    have hok : ∀ item, OfType contentType item → countRows rows item = .ok (count item) ∧
        (count item).val = t.countSince (some sinceTs) item := by
      intro item htype
      obtain ⟨c, hc, hval⟩ := hofInt item htype
      have hcount : count item = c := by simp only [hcounts, hc]; rfl
      exact ⟨by rw [hc, hcount], by rw [hcount, hval]⟩
    refine ⟨items.map fun item => (item, count item), ?_, ?_, fun limit => ?_⟩
    · rw [List.map_map]
      exact (List.map_id items).symm ▸ hplan.1.filter _
    · intro item c
      constructor
      · intro h
        obtain ⟨item', hitem', heq⟩ := List.mem_map.mp h
        cases heq
        obtain ⟨htype, hranked⟩ := (hmem item).mp hitem'
        exact ⟨htype, hranked, (hok item htype).2⟩
      · rintro ⟨htype, hranked, hval⟩
        refine List.mem_map.mpr ⟨item, (hmem item).mpr ⟨htype, hranked⟩, ?_⟩
        rw [show count item = c from I64.ext ((hok item htype).2.trans hval.symm)]
    · show Except.map _ (items.mapM _) = _
      rw [mapM_ok (g := fun item => (item, count item)) fun item hitem => ?_]
      · rfl
      · rw [(hok item ((hmem item).mp hitem).1).1]
        rfl
  | none =>
    refine ⟨(plan.filter (OfType contentType)).filterMap
      fun item => (t.likeCounts item).map fun count => (item, count), ?_, ?_, fun limit => rfl⟩
    · exact (hplan.1.filter (OfType contentType)).sublist (map_fst_filterMap_sublist _ _)
    · intro item c
      rw [List.mem_filterMap]
      constructor
      · rintro ⟨item', hitem', heq⟩
        obtain ⟨c', hc', heq⟩ := Option.map_eq_some_iff.mp heq
        cases heq
        refine ⟨of_decide_eq_true (List.mem_filter.mp hitem').2, ?_, ?_⟩
        · show t.likeCounts item ≠ none
          rw [hc']
          exact Option.some_ne_none c
        · show c.val = ((t.likeCounts item).getD 0).val
          rw [hc']
          rfl
      · rintro ⟨htype, hranked, hval⟩
        obtain ⟨c', hc'⟩ := Option.ne_none_iff_exists'.mp hranked
        have hc : c = c' := by
          refine I64.ext (hval.trans ?_)
          show ((t.likeCounts item).getD 0).val = _
          rw [hc']
          rfl
        refine ⟨item, List.mem_filter.mpr ⟨hplan.2 item (Or.inl hranked), decide_eq_true htype⟩, ?_⟩
        rw [hc', hc]
        rfl

/-- A board has no more rows than asked for. -/
theorem length_getLeaderboard {t : Tables} {plan : List Item} {contentType : Option String}
    {since : Option DateTime} {limit : ℤ} {rows : List (Item × I64)}
    (h : t.getLeaderboard plan contentType since limit = .ok rows) : rows.length ≤ limit.toNat := by
  cases since with
  | none =>
    rw [← Except.ok.inj h, length_top]
    exact Nat.min_le_left _ _
  | some sinceTs =>
    have hmap : ∀ groups : Except SqlxError (List (Item × I64)),
        groups.map (top (fun row => row.2.val) limit.toNat) = .ok rows →
          rows.length ≤ limit.toNat := by
      rintro (e | groups) hgroups
      · cases hgroups
      · rw [← Except.ok.inj hgroups, length_top]
        exact Nat.min_le_left _ _
    exact hmap _ h

end Tables

end SocialApi.Postgres

namespace SocialApi.Repositories

open SocialApi.Concurrent SocialApi.Postgres SocialApi.Ranking

/-! ## The tables of a run can be listed -/

section Listed

variable {ι : Type} [DecidableEq ι]

/-- Finitely many items have a count. -/
def FewCounts (t : Tables) : Prop := {item | t.likeCounts item ≠ none}.Finite

theorem FewCounts.applyAll {t : Tables} (h : FewCounts t) (ws : List Write) :
    FewCounts (Store.applyAll layout ws t) := by
  unfold Store.applyAll
  induction ws generalizing t with
  | nil => exact h
  | cons w ws ih =>
    refine ih ?_
    cases w with
    | insertLike row => exact h
    | deleteLike key => exact h
    | setCount item count =>
      refine (h.insert item).subset fun item' hitem' => ?_
      by_cases hne : item' = item
      · exact Or.inl hne
      · refine Or.inr ?_
        have hitem' : Function.update t.likeCounts item (some count) item' ≠ none := hitem'
        rw [Function.update_of_ne hne] at hitem'
        exact hitem'

/-- Such tables can be listed. -/
theorem FewCounts.exists_lists {t : Tables} (h : FewCounts t) : ∃ plan, t.Lists plan := by
  refine ⟨(h.toFinset ∪ (t.likes.map LikesRow.item).toFinset).toList, Finset.nodup_toList _, ?_⟩
  rintro item (hcount | ⟨r, hr, hitem⟩)
  · exact Finset.mem_toList.mpr (Finset.mem_union_left _ (h.mem_toFinset.mpr hcount))
  · refine Finset.mem_toList.mpr (Finset.mem_union_right _ (List.mem_toFinset.mpr ?_))
    exact List.mem_map.mpr ⟨r, hr, hitem⟩

/-- A database with nothing in it. -/
def NoRows (s : DbState ι) : Prop := s.store = .ofTables ⟨[], fun _ => none⟩

theorem NoRows.init {s : DbState ι} (hs : NoRows s) :
    (writePath (ι := ι)).machine.init ⟨s, fun _ => .idle⟩ :=
  ⟨⟨_, consistent_empty, hs⟩, fun _ => rfl⟩

theorem newDatabase_noRows : NoRows newDatabase := rfl

/-- From an empty database on, the tables can be listed. -/
theorem lists_of_run {s : DbState ι} (hs : NoRows s) {acts : List (Act ι WriteCall DbChoice)}
    {c : WriteConfig ι} (hrun : writePath.machine.run ⟨s, fun _ => .idle⟩ acts = some c) :
    ∃ plan, c.shared.store.committed.Lists plan := by
  have hfew : FewCounts c.shared.store.committed := by
    refine Machine.run_keeps (I := fun c : WriteConfig ι => FewCounts c.shared.store.committed)
      (fun c a c' hc hstep => ?_) acts _ _ ?_ hrun
    · rcases Pool.act_cases hstep with ⟨i, k, s', -, -, hstart, rfl⟩ |
        ⟨i, x, k, e, f, s', r, -, -, hhandle, rfl⟩ | ⟨i, k, p, s', -, -, hdrop, rfl⟩ |
        ⟨x, s', -, henv, rfl⟩
      · cases hstart; exact hc
      · rcases committed_of_handle hhandle with hsame | ⟨-, hview⟩
        · show FewCounts s'.store.committed
          rw [hsame]
          exact hc
        · show FewCounts s'.store.committed
          rw [hview]
          exact hc.applyAll _
      · cases hdrop; exact hc
      · cases henv
    · show FewCounts s.store.committed
      rw [hs]
      simp [FewCounts, Store.ofTables]
  exact hfew.exists_lists

end Listed

/-! ## The two boards -/

/-- The two boards show the same counts, each that of the item's likes. -/
def BoardsAgree (t : Tables) (allTime windowed : List (Item × I64)) : Prop :=
  allTime.map Prod.snd = windowed.map Prod.snd ∧
    ∀ row ∈ allTime ++ windowed, row.2.val = (t.likesOf row.1).length

/-- The items of the type that are liked. -/
def likedItems (t : Tables) (contentType : Option String) : List Item :=
  ((t.likes.map LikesRow.item).filter (OfType contentType)).dedup

/-- No item of the type has a row with count 0, or the liked ones fill the board. -/
def ZerosHidden (t : Tables) (contentType : Option String) (limit : ℤ) : Prop :=
  (∀ item, OfType contentType item → t.likeCounts item ≠ some 0) ∨
    limit.toNat ≤ (likedItems t contentType).length

theorem countSince_of_all_after {t : Tables} {since : DateTime}
    (hsince : ∀ r ∈ t.likes, since.micros < r.createdAt.micros) (item : Item) :
    t.countSince (some since) item = (t.likesOf item).length := by
  have hall : (t.likes.filter fun r => since.micros ≤ r.createdAt.micros) = t.likes :=
    List.filter_eq_self.mpr fun r hr => decide_eq_true (hsince r hr).le
  simp only [Tables.countSince, hall, List.countP_eq_length_filter, Tables.likesOf]

/-- On consistent tables the boards agree exactly when no zeros show. -/
theorem boardsAgree_of_consistent {t : Tables} (ht : Consistent t) {plan plan' : List Item}
    (hplan : t.Lists plan) (hplan' : t.Lists plan') (contentType : Option String)
    {since : DateTime} (hsince : ∀ r ∈ t.likes, since.micros < r.createdAt.micros) (limit : ℤ) :
    ∃ allTime windowed, t.getLeaderboard plan contentType none limit = .ok allTime ∧
      t.getLeaderboard plan' contentType (some since) limit = .ok windowed ∧
      (BoardsAgree t allTime windowed ↔ ZerosHidden t contentType limit) := by
  have hcount : ∀ item, t.countSince (some since) item = (t.totalCount item).val := fun item => by
    rw [countSince_of_all_after hsince, ht.count]
  obtain ⟨rows, hnodup, hmem, hrows⟩ := Tables.getLeaderboard_eq hplan contentType none
    fun item => (t.totalCount item).upper
  obtain ⟨groups, hnodup', hmem', hgroups⟩ := Tables.getLeaderboard_eq hplan' contentType
    (some since) fun item => by rw [hcount]; exact (t.totalCount item).upper
  refine ⟨_, _, hrows limit, hgroups limit, ?_⟩
  set score : Item × I64 → ℤ := fun row => row.2.val with hscore
  have hval : ∀ row ∈ rows, score row = (t.likesOf row.1).length := fun row hrow =>
    ((hmem row.1 row.2).mp hrow).2.2.trans (ht.count row.1)
  have hval' : ∀ row ∈ groups, score row = (t.likesOf row.1).length := fun row hrow =>
    ((hmem' row.1 row.2).mp hrow).2.2.trans (countSince_of_all_after hsince row.1)
  have hliked : ∀ item, t.Ranked (some since) item ↔ 0 < (t.likesOf item).length := by
    intro item
    rw [List.length_pos_iff_exists_mem]
    constructor
    · rintro ⟨r, hr, hitem, -⟩
      exact ⟨r, List.mem_filter.mpr ⟨hr, decide_eq_true hitem⟩⟩
    · rintro ⟨r, hr⟩
      obtain ⟨hmem, hitem⟩ := List.mem_filter.mp hr
      exact ⟨r, hmem, of_decide_eq_true hitem, (hsince r hmem).le⟩
  -- the groups are the rows with a positive count
  have hperm : (rows.filter fun row => 0 < score row).Perm groups := by
    refine (List.perm_ext_iff_of_nodup ?_ ?_).mpr fun row => ?_
    · exact (List.Nodup.of_map _ hnodup).filter _
    · exact List.Nodup.of_map _ hnodup'
    · rw [List.mem_filter, decide_eq_true_eq, hmem row.1 row.2, hmem' row.1 row.2, hliked, hcount]
      constructor
      · rintro ⟨⟨htype, -, hrow⟩, hpos⟩
        refine ⟨htype, ?_, hrow⟩
        have htotal := ht.count row.1
        have hrow : score row = (t.totalCount row.1).val := hrow
        omega
      · rintro ⟨htype, hpos, hrow⟩
        have htotal := ht.count row.1
        have hpos' : 0 < (t.totalCount row.1).val := by omega
        refine ⟨⟨htype, ?_, hrow⟩, ?_⟩
        · intro hnone
          have hzero : (t.totalCount row.1).val = 0 := by
            show ((t.likeCounts row.1).getD 0).val = 0
            rw [hnone]
            rfl
          omega
        · show 0 < row.2.val
          rw [hrow]
          exact hpos'
  have hlength : (rows.filter fun row => 0 < score row).length =
      (likedItems t contentType).length := by
    rw [hperm.length_eq, ← (List.length_map Prod.fst : (groups.map _).length = _)]
    refine List.Perm.length_eq ((List.perm_ext_iff_of_nodup hnodup' (List.nodup_dedup _)).mpr ?_)
    intro item
    rw [List.mem_dedup, List.mem_filter, decide_eq_true_eq]
    constructor
    · intro h
      obtain ⟨row, hrow, rfl⟩ := List.mem_map.mp h
      obtain ⟨htype, ⟨r, hr, hitem, -⟩, -⟩ := (hmem' row.1 row.2).mp hrow
      exact ⟨List.mem_map.mpr ⟨r, hr, hitem⟩, htype⟩
    · rintro ⟨h, htype⟩
      obtain ⟨r, hr, hitem⟩ := List.mem_map.mp h
      refine List.mem_map.mpr ⟨(item, t.totalCount item), (hmem' item _).mpr ?_, rfl⟩
      exact ⟨htype, ⟨r, hr, hitem, (hsince r hr).le⟩, (hcount item).symm⟩
  have hzero : (∀ row ∈ rows, score row ≠ 0) ↔
      ∀ item, OfType contentType item → t.likeCounts item ≠ some 0 := by
    constructor
    · intro h item htype hzero
      refine h (item, 0) ((hmem item 0).mpr ⟨htype, ?_, ?_⟩) rfl
      · show t.likeCounts item ≠ none
        rw [hzero]
        exact Option.some_ne_none 0
      · show (0 : I64).val = ((t.likeCounts item).getD 0).val
        rw [hzero]
        rfl
    · intro h row hrow hzero
      obtain ⟨htype, hranked, hrowval⟩ := (hmem row.1 row.2).mp hrow
      obtain ⟨count, hcount⟩ := Option.ne_none_iff_exists'.mp hranked
      refine h row.1 htype (hcount.trans (congrArg some (I64.ext ?_)))
      have htotal : (t.totalCount row.1).val = count.val := by
        show ((t.likeCounts row.1).getD 0).val = count.val
        rw [hcount]
        rfl
      rw [← htotal, ← show row.2.val = (t.totalCount row.1).val from hrowval]
      exact hzero
  have hnonneg : ∀ row ∈ rows, 0 ≤ score row := fun row hrow => by rw [hval row hrow]; omega
  have hcounts : ∀ as bs : List (Item × I64),
      as.map Prod.snd = bs.map Prod.snd ↔ as.map score = bs.map score := by
    intro as bs
    have hinj : Function.Injective (List.map I64.val) := List.map_injective_iff.mpr fun _ _ => I64.ext
    rw [← hinj.eq_iff, List.map_map, List.map_map]
    rfl
  unfold BoardsAgree ZerosHidden
  rw [hcounts, ← hzero, ← hlength, ← scores_top_of_perm limit.toNat (hperm.map score),
    scores_top_positive hnonneg]
  refine and_iff_left fun row hrow => ?_
  rcases List.mem_append.mp hrow with hrow | hrow
  · exact hval row (mem_of_mem_top hrow)
  · exact hval' row (mem_of_mem_top hrow)

/-- After any committed likes and unlikes, starting from empty tables, the all-time board and
    the board of a window that covers every like agree exactly when no item of the type has
    been left with a count of 0 or the liked ones fill the board. -/
theorem boardsAgree_iff {ι : Type} [DecidableEq ι] {s : DbState ι} (hs : NoRows s)
    {acts : List (Act ι WriteCall DbChoice)} {c : WriteConfig ι}
    (hrun : writePath.machine.run ⟨s, fun _ => .idle⟩ acts = some c) {plan plan' : List Item}
    (hplan : c.shared.store.committed.Lists plan) (hplan' : c.shared.store.committed.Lists plan')
    (contentType : Option String) {since : DateTime}
    (hsince : ∀ r ∈ c.shared.store.committed.likes, since.micros < r.createdAt.micros)
    (limit : ℤ) :
    ∃ allTime windowed,
      c.shared.store.committed.getLeaderboard plan contentType none limit = .ok allTime ∧
      c.shared.store.committed.getLeaderboard plan' contentType (some since) limit =
        .ok windowed ∧
      (BoardsAgree c.shared.store.committed allTime windowed ↔
        ZerosHidden c.shared.store.committed contentType limit) := by
  obtain ⟨γ, hinv, -⟩ := writePath_sound.reachable (.run (.initial hs.init) hrun)
  exact boardsAgree_of_consistent hinv.consistent hplan hplan' contentType hsince limit

/-- One like. -/
def oneLike : List (Act ℕ WriteCall DbChoice) :=
  let go : DbChoice := .run .epoch []
  [.start 0 (.insertLike 1 ("post", 7)), .step 0 go, .step 0 go, .step 0 go, .step 0 go]

/-- The like and then the unlike of the same item. -/
def likeAndUnlike : List (Act ℕ WriteCall DbChoice) :=
  let go : DbChoice := .run .epoch []
  oneLike ++
    [.start 1 (.deleteLike 1 ("post", 7)), .step 1 go, .step 1 go, .step 1 go, .step 1 go]

/-- A moment before the epoch. -/
def beforeEpoch : DateTime := ⟨-1, by decide, by decide⟩

/-- One like each of two items. -/
def tiedLikes : List (Act ℕ WriteCall DbChoice) :=
  let go : DbChoice := .run .epoch []
  oneLike ++
    [.start 1 (.insertLike 2 ("post", 8)), .step 1 go, .step 1 go, .step 1 go, .step 1 go]

/-- The boards of one row agree, whichever of the two items each of them shows. -/
theorem boardsAgree_iff_tiedLikes :
    ∃ c : WriteConfig ℕ, writePath.machine.run ⟨newDatabase, fun _ => .idle⟩ tiedLikes = some c ∧
      c.shared.store.committed.totalCount ("post", 7) = 1 ∧
      c.shared.store.committed.totalCount ("post", 8) = 1 ∧
      ∃ plan allTime windowed, c.shared.store.committed.Lists plan ∧
        c.shared.store.committed.getLeaderboard plan none none 1 = .ok allTime ∧
        c.shared.store.committed.getLeaderboard plan.reverse none (some beforeEpoch) 1 =
          .ok windowed ∧
        BoardsAgree c.shared.store.committed allTime windowed := by
  have hview : (writePath.machine.run ⟨newDatabase, fun _ => .idle⟩ tiedLikes).map
      (fun c => (c.shared.store.committed.likes.map fun r => (r.item, r.createdAt),
        c.shared.store.committed.totalCount ("post", 7),
        c.shared.store.committed.totalCount ("post", 8))) =
      some ([(("post", 7), .epoch), (("post", 8), .epoch)], 1, 1) := by decide +kernel
  obtain ⟨c, hrun, hc⟩ := Option.map_eq_some_iff.mp hview
  obtain ⟨hlikes, hc⟩ := Prod.mk.inj hc
  obtain ⟨h₇, h₈⟩ := Prod.mk.inj hc
  obtain ⟨plan, hplan⟩ := lists_of_run newDatabase_noRows hrun
  have hreverse : c.shared.store.committed.Lists plan.reverse :=
    ⟨List.nodup_reverse.mpr hplan.1, fun item hitem => List.mem_reverse.mpr (hplan.2 item hitem)⟩
  have hsince : ∀ r ∈ c.shared.store.committed.likes, beforeEpoch.micros < r.createdAt.micros := by
    intro r hr
    have hat : (r.item, r.createdAt) ∈ [((("post", 7) : Item), DateTime.epoch), (("post", 8), .epoch)] :=
      hlikes ▸ List.mem_map_of_mem hr
    have hepoch : r.createdAt = .epoch := by
      rcases List.mem_pair.mp hat with h | h
      · exact (Prod.mk.inj h).2
      · exact (Prod.mk.inj h).2
    rw [hepoch]
    decide
  obtain ⟨allTime, windowed, hall, hwindow, hagree⟩ :=
    boardsAgree_iff newDatabase_noRows hrun hplan hreverse none hsince 1
  refine ⟨c, hrun, h₇, h₈, plan, allTime, windowed, hplan, hall, hwindow, hagree.mpr (Or.inr ?_)⟩
  have hitems : c.shared.store.committed.likes.map LikesRow.item = [("post", 7), ("post", 8)] := by
    have hfirst := congrArg (List.map Prod.fst) hlikes
    rwa [List.map_map] at hfirst
  unfold likedItems
  rw [hitems]
  decide

/-- After the like and the unlike the all-time board shows the item with count 0, which the
    other board does not. -/
theorem unliked_shown :
    ∃ c : WriteConfig ℕ,
      writePath.machine.run ⟨newDatabase, fun _ => .idle⟩ likeAndUnlike = some c ∧
      (∀ r ∈ c.shared.store.committed.likes, beforeEpoch.micros < r.createdAt.micros) ∧
      ∃ plan allTime windowed, c.shared.store.committed.Lists plan ∧
        c.shared.store.committed.getLeaderboard plan none none 1 = .ok allTime ∧
        c.shared.store.committed.getLeaderboard plan none (some beforeEpoch) 1 = .ok windowed ∧
        ¬ BoardsAgree c.shared.store.committed allTime windowed := by
  have htables : (writePath.machine.run ⟨newDatabase, fun _ => .idle⟩ likeAndUnlike).map
      (fun c => (c.shared.store.committed.likes, c.shared.store.committed.likeCounts ("post", 7))) =
      some ([], some 0) := by decide
  obtain ⟨c, hrun, htables⟩ := Option.map_eq_some_iff.mp htables
  obtain ⟨hlikes, hcount⟩ := Prod.mk.inj htables
  obtain ⟨plan, hplan⟩ := lists_of_run newDatabase_noRows hrun
  have hsince : ∀ r ∈ c.shared.store.committed.likes, beforeEpoch.micros < r.createdAt.micros := by
    rw [hlikes]
    exact fun r hr => absurd hr List.not_mem_nil
  obtain ⟨γ, hinv, -⟩ := writePath_sound.reachable (.run (.initial newDatabase_noRows.init) hrun)
  obtain ⟨allTime, windowed, hall, hwindow, hagree⟩ :=
    boardsAgree_of_consistent hinv.consistent hplan hplan none hsince 1
  refine ⟨c, hrun, hsince, plan, allTime, windowed, hplan, hall, hwindow, fun h => ?_⟩
  rcases hagree.mp h with hnone | hfull
  · exact hnone ("post", 7) (fun ct hct => by cases hct) hcount
  · unfold likedItems at hfull
    rw [hlikes] at hfull
    exact absurd hfull (by decide)

end SocialApi.Repositories
