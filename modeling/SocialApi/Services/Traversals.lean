import SocialApi.Keyset
import SocialApi.Repositories.SequenceIds
import SocialApi.Services.SequentialRuns

/-!
# Following `next_cursor`

The pages of a user's likes, the first without a cursor and each later one with the `next_cursor`
of the one before, in a run of calls one after another. Between two pages other calls may like and
unlike, entries may expire, and the limit may change.

* `isPage_keyset`: a keyset query gives a page in the order of `(created_at, id)`.
* `numbered_service`: the ids of the rows stay distinct in every run of the service.
* `Follows.traversal`: so the pages of a traversal, the cached first page included, are consecutive
  pages of the tables as they are when the pages are served.
* `paged_of_sequential`: no row comes twice, the rows come in strictly decreasing order, a row that
  stays is returned, and if no row comes or goes exactly the user's rows are returned, in no more
  pages than there are rows.
-/

namespace SocialApi.Services

open SocialApi.Concurrent SocialApi.Postgres SocialApi.Repositories SocialApi.Keyset

/-! ## The order of the rows -/

/-- `(created_at, id)`. -/
def rowKey (r : LikesRow) : ℤ ×ₗ ℤ := toLex (r.createdAt.micros, r.id.val)

/-- The key that a cursor stands for. -/
def cursorKey (c : DateTime × I64) : ℤ ×ₗ ℤ := toLex (c.1.micros, c.2.val)

section Order

variable {r r' : LikesRow} {t : Tables} {userId : Uuid} {contentTypeFilter : Option String}
  {cursor : Option (DateTime × I64)}

theorem micros_inj {ts ts' : DateTime} : ts = ts' ↔ ts.micros = ts'.micros := DateTime.ext_iff

theorem newer_iff : Newer r r' ↔ rowKey r' ≤ rowKey r := by
  unfold Newer rowKey
  rw [Prod.Lex.toLex_le_toLex, micros_inj]

theorem before_iff {c : DateTime × I64} : Before r c ↔ rowKey r < cursorKey c := by
  unfold Before rowKey cursorKey
  rw [Prod.Lex.toLex_lt_toLex, micros_inj]

theorem id_of_rowKey (h : rowKey r = rowKey r') : r.id = r'.id := by
  have hid : r.id.val = r'.id.val := congrArg (fun k => (ofLex k).2) h
  exact I64.ext hid

/-- The rows of the user that pass the filter. -/
def matching (t : Tables) (userId : Uuid) (contentTypeFilter : Option String) : List LikesRow :=
  t.likes.filter (Matches userId contentTypeFilter none)

theorem mem_matching : r ∈ matching t userId contentTypeFilter ↔
    r ∈ t.likes ∧ Matches userId contentTypeFilter none r := by
  unfold matching
  rw [List.mem_filter, decide_eq_true_iff]

theorem mem_sortedLikes : r ∈ sortedLikes t userId contentTypeFilter cursor ↔
    r ∈ matching t userId contentTypeFilter ∧ Beyond rowKey (cursor.map cursorKey) r := by
  unfold sortedLikes
  rw [List.mem_insertionSort, List.mem_filter, decide_eq_true_iff, mem_matching]
  have hafter : Beyond rowKey (cursor.map cursorKey) r ↔ ∀ c ∈ cursor, Before r c := by
    cases cursor with
    | none => simp [Beyond]
    | some c => simp [Beyond, before_iff]
  rw [hafter]
  unfold Matches
  simp [and_assoc]

theorem sortedLikes_decreasing (hids : (rowIds t).Nodup) :
    (sortedLikes t userId contentTypeFilter cursor).Pairwise fun r r' => rowKey r' < rowKey r := by
  have : Std.Total Newer := ⟨fun r r' => by
    rw [newer_iff, newer_iff]
    exact le_total _ _⟩
  have : IsTrans LikesRow Newer := ⟨fun r₁ r₂ r₃ h₁ h₂ => by
    rw [newer_iff] at *
    exact h₂.trans h₁⟩
  have hsorted := List.pairwise_insertionSort Newer
    (t.likes.filter (Matches userId contentTypeFilter cursor))
  have hperm := List.perm_insertionSort Newer
    (t.likes.filter (Matches userId contentTypeFilter cursor))
  have hnodup : (sortedLikes t userId contentTypeFilter cursor).Pairwise fun r r' => r.id ≠ r'.id := by
    refine List.pairwise_map.mp (?_ : (List.map LikesRow.id _).Nodup)
    exact (hperm.map _).nodup_iff.mpr (hids.sublist (List.filter_sublist.map _))
  refine hsorted.imp₂ (fun r r' hnewer hne => ?_) hnodup
  refine lt_of_le_of_ne (newer_iff.mp hnewer) fun he => hne ?_
  exact (id_of_rowKey he).symm

/-- The rows of a keyset query are a page. -/
theorem isPage_keyset (hids : (rowIds t).Nodup) {limit : ℕ} (hlimit : 1 ≤ limit) :
    IsPage rowKey (matching t userId contentTypeFilter) (cursor.map cursorKey)
      ((sortedLikes t userId contentTypeFilter cursor).take limit)
      (decide (limit < (sortedLikes t userId contentTypeFilter cursor).length)) :=
  .of_sorted hlimit (sortedLikes_decreasing hids) fun _ => mem_sortedLikes

end Order

/-! ## The ids in a run -/

section Ids

variable {ι : Type} [DecidableEq ι] {cfg : Config} {C : Codec}

/-- Every step of the service keeps the ids apart. -/
theorem numbered_service {c c' : ServiceConfig ι} {a : Act ι Request SvcChoice}
    (h : Numbered c.shared.db) (hstep : (service cfg C).machine.step c a = some c') :
    Numbered c'.shared.db := by
  rcases Pool.act_cases hstep with ⟨i, k, s, -, -, hs, rfl⟩ |
    ⟨i, x, k, o, f, s, r, -, -, hs, rfl⟩ | ⟨i, k, p, s, -, -, hs, rfl⟩ | ⟨x, s, -, hs, rfl⟩
  · cases hs
    exact h
  · show Numbered s.db
    by_cases ho : o.OffDb
    · rw [handle_offDb hs ho]
      exact h
    · cases o with
      | db q =>
        obtain ⟨y, db', -, hdb, rfl⟩ := handle_db hs
        exact numbered_handle h hdb
      | _ => exact absurd trivial ho
  · cases hs
    exact h.abort
  · cases x with
    | evict layer key =>
      cases hs
      exact h
    | _ => cases hs

end Ids

/-! ## Traversals in a run -/

/-- A page that has been served, with the tables at the time. -/
structure ServedPage where
  tables : Tables
  response : PaginatedResponse

section Runs

variable {ι : Type} [DecidableEq ι]

/-- In the run of `acts` from `c` the user is served the pages `pages`, the first of them from
    `cursor` on and each later one from the `next_cursor` of the one before, with any limits and
    with any other steps in between. -/
inductive Follows (cfg : Config) (C : Codec) (userId : Uuid) (contentTypeFilter : Option String) :
    ServiceConfig ι → List (Act ι Request SvcChoice) → Option String → List ServedPage → Prop
  | last {c c₁ c₂ : ServiceConfig ι} {before after : List (Act ι Request SvcChoice)}
      {a : Act ι Request SvcChoice} {cursor : Option String} {i : ι} {limit : I64}
      {response : PaginatedResponse}
      (hrun : (service cfg C).machine.run c before = some c₁)
      (hstep : (service cfg C).machine.step c₁ a = some c₂)
      (hanswer : Pool.Answers c₁ c₂ i (.getUserLikes userId contentTypeFilter cursor limit)
        (.ok (.page response))) :
      Follows cfg C userId contentTypeFilter c (before ++ a :: after) cursor
        [⟨c₂.shared.db.store.committed, response⟩]
  | next {c c₁ c₂ : ServiceConfig ι} {before after : List (Act ι Request SvcChoice)}
      {a : Act ι Request SvcChoice} {cursor : Option String} {i : ι} {limit : I64}
      {response : PaginatedResponse} {nextCursor : String} {pages : List ServedPage}
      (hrun : (service cfg C).machine.run c before = some c₁)
      (hstep : (service cfg C).machine.step c₁ a = some c₂)
      (hanswer : Pool.Answers c₁ c₂ i (.getUserLikes userId contentTypeFilter cursor limit)
        (.ok (.page response)))
      (hnext : response.nextCursor = some nextCursor)
      (rest : Follows cfg C userId contentTypeFilter c₂ after (some nextCursor) pages) :
      Follows cfg C userId contentTypeFilter c (before ++ a :: after) cursor
        (⟨c₂.shared.db.store.committed, response⟩ :: pages)

/-- The item of a page for a row. -/
def itemOf (r : LikesRow) : UserLikeItem := ⟨r.contentType, r.contentId, r.createdAt⟩

/-- The page shows the rows `cut.2` of the user's rows `cut.1`, and has a `next_cursor` exactly if
    it says that there are more. -/
structure Cut (userId : Uuid) (contentTypeFilter : Option String) (p : ServedPage)
    (cut : List LikesRow × List LikesRow) : Prop where
  ids : (rowIds p.tables).Nodup
  rows : cut.1 = matching p.tables userId contentTypeFilter
  items : p.response.items = cut.2.map itemOf
  cursor : p.response.nextCursor.isSome = p.response.hasMore

variable {cfg : Config} {C : Codec} {userId : Uuid} {contentTypeFilter : Option String}
  {t : Tables} {key : Option (DateTime × I64)} {limit : ℕ} {c : ServiceConfig ι}
  {acts : List (Act ι Request SvcChoice)} {cursor : Option String} {pages : List ServedPage}

/-- The rows that a keyset query with the limit gives. -/
def cutRows (t : Tables) (userId : Uuid) (contentTypeFilter : Option String)
    (key : Option (DateTime × I64)) (limit : ℕ) : List LikesRow :=
  (sortedLikes t userId contentTypeFilter key).take limit

theorem keysetPage_hasMore : (keysetPage C t userId contentTypeFilter key limit).hasMore =
    decide (limit < (sortedLikes t userId contentTypeFilter key).length) := by
  rw [keysetPage_eq]
  rfl

theorem keysetPage_items : (keysetPage C t userId contentTypeFilter key limit).items =
    (cutRows t userId contentTypeFilter key limit).map itemOf := by
  rw [keysetPage_eq]
  show ((List.map LikesRow.toLikeRow _).take limit).map _ = _
  rw [← List.map_take, List.map_map]
  rfl

theorem keysetPage_nextCursor : (keysetPage C t userId contentTypeFilter key limit).nextCursor =
    if (keysetPage C t userId contentTypeFilter key limit).hasMore then
      (cutRows t userId contentTypeFilter key limit).getLast?.map fun r =>
        Cursor.encode C ⟨r.createdAt, r.id⟩
    else none := by
  rw [keysetPage_hasMore, keysetPage_eq]
  unfold cutRows pageResponse
  dsimp only
  rw [← List.map_take, List.getLast?_map, Option.map_map]
  rfl

/-- A page that says that there are more rows shows one. -/
theorem cutRows_getLast (hlimit : 1 ≤ limit)
    (hmore : (keysetPage C t userId contentTypeFilter key limit).hasMore = true) :
    ∃ last, (cutRows t userId contentTypeFilter key limit).getLast? = some last := by
  rw [keysetPage_hasMore, decide_eq_true_iff] at hmore
  have hne : cutRows t userId contentTypeFilter key limit ≠ [] := by
    have hlength : (cutRows t userId contentTypeFilter key limit).length = limit := by
      unfold cutRows
      rw [List.length_take]
      omega
    intro he
    rw [he, List.length_nil] at hlength
    omega
  exact ⟨_, List.getLast?_eq_some_getLast hne⟩

theorem cut_keysetPage (hids : (rowIds t).Nodup) (hlimit : 1 ≤ limit) : Cut userId contentTypeFilter
    ⟨t, keysetPage C t userId contentTypeFilter key limit⟩
    (matching t userId contentTypeFilter, cutRows t userId contentTypeFilter key limit) := by
  refine ⟨hids, rfl, keysetPage_items, ?_⟩
  show (keysetPage C t userId contentTypeFilter key limit).nextCursor.isSome = _
  rw [keysetPage_nextCursor]
  split_ifs with hmore
  · obtain ⟨last, hlast⟩ := cutRows_getLast hlimit hmore
    rw [hlast, hmore]
    rfl
  · rw [Bool.not_eq_true] at hmore
    rw [hmore]
    rfl

/-- What a call for a page on its own answers. -/
theorem keysetPage_of_uncached (hC : C.RoundTrips) {limit : I64} {response : PaginatedResponse}
    (hcursor : cursor = key.map fun k => Cursor.encode C ⟨k.1, k.2⟩)
    (h : (Request.getUserLikes userId contentTypeFilter cursor limit).Uncached C t (.page response)) :
    response = keysetPage C t userId contentTypeFilter key (clampLimit limit) := by
  cases key with
  | none =>
    rw [hcursor] at h
    exact h
  | some k =>
    rw [hcursor] at h
    obtain ⟨c, hdecode, hresponse⟩ := h
    rw [Cursor.decode_encode hC] at hdecode
    obtain rfl := Option.some.inj hdecode
    exact hresponse

/-- Anywhere in a run of calls one after another: what the call in progress goes on to do, and the
    ids of the rows. -/
structure RunOrderly (cfg : Config) (C : Codec) (c : ServiceConfig ι) : Prop where
  between : Pool.Between (service cfg C) RedisWorks (Orderly C)
    (fun k s result => ∀ reply, result = .ok reply → k.Uncached C s.db.store.committed reply) c
  ids : Numbered c.shared.db

/-- The state after a page, and the page. -/
theorem RunOrderly.served (hC : C.RoundTrips) (h : RunOrderly cfg C c)
    {c₁ c₂ : ServiceConfig ι} {before after : List (Act ι Request SvcChoice)}
    {a : Act ι Request SvcChoice} {i : ι} {limit : I64} {response : PaginatedResponse}
    (hmeets : (service cfg C).machine.Meets (Pool.OneByOne RedisWorks Request.Named) c
      (before ++ a :: after))
    (hcursor : cursor = key.map fun k => Cursor.encode C ⟨k.1, k.2⟩)
    (hrun : (service cfg C).machine.run c before = some c₁)
    (hstep : (service cfg C).machine.step c₁ a = some c₂)
    (hanswer : Pool.Answers c₁ c₂ i (.getUserLikes userId contentTypeFilter cursor limit)
      (.ok (.page response))) :
    RunOrderly cfg C c₂ ∧ response =
      keysetPage C c₂.shared.db.store.committed userId contentTypeFilter key (clampLimit limit) := by
  obtain ⟨hbetween, hpost⟩ := (service_serves cfg hC).run h.between hmeets rfl hrun hstep
  have hids := Machine.run_keeps (I := fun c : ServiceConfig ι => Numbered c.shared.db)
    (fun c a c' hc hs => numbered_service hc hs) before c c₁ h.ids hrun
  refine ⟨⟨hbetween, numbered_service hids hstep⟩, ?_⟩
  exact keysetPage_of_uncached hC hcursor (hpost i _ _ hanswer _ rfl)

/-- Whatever happens between its pages, a traversal cuts consecutive pages from the tables as they
    are when the pages are served. -/
theorem Follows.traversal (hC : C.RoundTrips)
    (h : Follows cfg C userId contentTypeFilter c acts cursor pages) (hc : RunOrderly cfg C c)
    (hmeets : (service cfg C).machine.Meets (Pool.OneByOne RedisWorks Request.Named) c acts)
    (hcursor : cursor = key.map fun k => Cursor.encode C ⟨k.1, k.2⟩) :
    ∃ cuts more, Traversal rowKey (key.map cursorKey) cuts more ∧
      List.Forall₂ (Cut userId contentTypeFilter) pages cuts ∧
      pages.getLast?.map (fun p => p.response.hasMore) = some more := by
  induction h generalizing key with
  | @last c c₁ c₂ before after a cursor i limit response hrun hstep hanswer =>
    obtain ⟨hc₂, rfl⟩ := hc.served hC hmeets hcursor hrun hstep hanswer
    obtain ⟨hlimit, -⟩ := clampLimit_bounds limit
    refine ⟨[_], _, .last (isPage_keyset hc₂.ids.nodup hlimit),
      .cons (cut_keysetPage hc₂.ids.nodup hlimit) .nil, ?_⟩
    exact congrArg some keysetPage_hasMore
  | @next c c₁ c₂ before after a cursor i limit response nextCursor pages hrun hstep hanswer hnext
      rest ih =>
    obtain ⟨hc₂, rfl⟩ := hc.served hC hmeets hcursor hrun hstep hanswer
    obtain ⟨hlimit, -⟩ := clampLimit_bounds limit
    -- the next page starts after the last row of this one
    rw [keysetPage_nextCursor] at hnext
    split_ifs at hnext with hmore
    obtain ⟨last, hlast⟩ := cutRows_getLast hlimit hmore
    rw [hlast] at hnext
    obtain ⟨cuts, more, htraversal, hcuts, hend⟩ := @ih (some (last.createdAt, last.id)) hc₂
      ((hmeets.append hrun).2 _ hstep) hnext.symm
    have hpage : IsPage rowKey _ (key.map cursorKey)
        ((sortedLikes _ userId contentTypeFilter key).take _) _ :=
      isPage_keyset hc₂.ids.nodup hlimit
    rw [← keysetPage_hasMore (C := C), hmore] at hpage
    refine ⟨_ :: cuts, more, .next hpage hlast htraversal,
      .cons (cut_keysetPage hc₂.ids.nodup hlimit) hcuts, ?_⟩
    obtain ⟨p, hp, hmore'⟩ := Option.map_eq_some_iff.mp hend
    rw [List.getLast?_cons, hp, Option.map_some]
    exact congrArg some hmore'

/-! ## What following `next_cursor` gives -/

/-- The rows shown on the pages of a traversal. -/
structure Paged (userId : Uuid) (contentTypeFilter : Option String) (pages : List ServedPage)
    (shown : List (List LikesRow)) : Prop where
  items : List.Forall₂ (fun p rows => p.response.items = rows.map itemOf) pages shown
  cursors : ∀ p ∈ pages, p.response.nextCursor.isSome = p.response.hasMore
  decreasing : shown.flatten.Pairwise fun r r' => rowKey r' < rowKey r
  nodup : shown.flatten.Nodup
  matching : ∀ r ∈ shown.flatten, ∃ p ∈ pages, r ∈ matching p.tables userId contentTypeFilter
  complete : pages.getLast?.map (fun p => p.response.hasMore) = some false →
    ∀ r, (∀ p ∈ pages, r ∈ Services.matching p.tables userId contentTypeFilter) → r ∈ shown.flatten
  exact : pages.getLast?.map (fun p => p.response.hasMore) = some false →
    ∀ t, (∀ p ∈ pages, p.tables = t) → shown.flatten = sortedLikes t userId contentTypeFilter none
  ends : ∀ t, (∀ p ∈ pages, p.tables = t) →
    pages.length ≤ max 1 (Services.matching t userId contentTypeFilter).length

/-- Every cut is one of a page, and every page has one. -/
theorem exists_page {cuts : List (List LikesRow × List LikesRow)}
    (hcuts : List.Forall₂ (Cut userId contentTypeFilter) pages cuts)
    {cut : List LikesRow × List LikesRow} (hmem : cut ∈ cuts) :
    ∃ p ∈ pages, Cut userId contentTypeFilter p cut := by
  induction hcuts with
  | nil => simp at hmem
  | @cons p cut' pages cuts hcut _ ih =>
    rcases List.mem_cons.mp hmem with rfl | hmem
    · exact ⟨p, List.mem_cons_self, hcut⟩
    · obtain ⟨p', hp', hcut'⟩ := ih hmem
      exact ⟨p', List.mem_cons_of_mem _ hp', hcut'⟩

theorem exists_cut {cuts : List (List LikesRow × List LikesRow)}
    (hcuts : List.Forall₂ (Cut userId contentTypeFilter) pages cuts) {p : ServedPage}
    (hmem : p ∈ pages) : ∃ cut, Cut userId contentTypeFilter p cut := by
  induction hcuts with
  | nil => simp at hmem
  | @cons p' cut pages cuts hcut _ ih =>
    rcases List.mem_cons.mp hmem with rfl | hmem
    · exact ⟨cut, hcut⟩
    · exact ih hmem

/-- In every run of calls one after another in which no call filters on the content type `_`: the
    rows that a user is shown by following `next_cursor` from the first page on come in strictly
    decreasing `(created_at, id)` and so never twice; when the last page says that there are no
    more, every row that was there at each page has been shown; and if the tables have been the same
    at each page, exactly the user's rows have been shown, in no more pages than there are rows
    (in one page when there are none). -/
theorem paged_of_sequential (cfg : Config) (C : Codec) (hC : C.RoundTrips) {init : ServiceConfig ι}
    (hinit : (service cfg C).machine.init init) (hflights : init.shared.flights = .empty)
    (hnodup : (rowIds init.shared.db.store.committed).Nodup)
    (hbelow : ∀ id ∈ rowIds init.shared.db.store.committed, id.val < init.shared.db.nextId)
    (hmeets : (service cfg C).machine.Meets (Pool.OneByOne RedisWorks Request.Named) init acts)
    (hfollows : Follows cfg C userId contentTypeFilter init acts none pages) :
    ∃ shown, Paged userId contentTypeFilter pages shown := by
  have hids : Numbered init.shared.db := by
    obtain ⟨⟨⟨t, -, hstore⟩, -⟩, -⟩ := hinit
    have hcommitted : init.shared.db.store.committed = t := by
      rw [hstore]
      rfl
    rw [hcommitted] at hnodup hbelow
    exact numbered_ofTables hstore hnodup hbelow
  have hidle : ∀ i, ¬ (init.calls i).Active := by
    intro i
    rw [hinit.2 i]
    exact id
  have hfirst : (none : Option String) =
      (none : Option (DateTime × I64)).map fun k => Cursor.encode C ⟨k.1, k.2⟩ := rfl
  obtain ⟨cuts, more, htraversal, hcuts, hend⟩ := hfollows.traversal hC
    ⟨Or.inl ⟨hidle, orderly_init hinit hflights⟩, hids⟩ hmeets hfirst
  have hshown : (cuts.map Prod.snd).flatten = allShown cuts := rfl
  have hsame : ∀ t, (∀ p ∈ pages, p.tables = t) →
      ∀ cut ∈ cuts, cut.1 = matching t userId contentTypeFilter := by
    intro t ht cut hmem
    obtain ⟨p, hp, hcut⟩ := exists_page hcuts hmem
    rw [hcut.rows, ht p hp]
  refine ⟨cuts.map Prod.snd, ?_, ?_, ?_, ?_, ?_, ?_, ?_, ?_⟩
  · exact List.forall₂_map_right_iff.mpr (hcuts.imp fun p cut hcut => hcut.items)
  · intro p hp
    obtain ⟨cut, hcut⟩ := exists_cut hcuts hp
    exact hcut.cursor
  · rw [hshown]
    exact htraversal.decreasing
  · rw [hshown]
    exact htraversal.nodup
  · intro r hr
    rw [hshown] at hr
    obtain ⟨cut, hcut, hmem⟩ := htraversal.mem hr
    obtain ⟨p, hp, hcutp⟩ := exists_page hcuts hcut
    rw [hcutp.rows] at hmem
    exact ⟨p, hp, hmem⟩
  · intro hlast r hr
    rw [hshown]
    refine htraversal.complete (Option.some.inj (hend.symm.trans hlast)) ?_ (by simp [Beyond])
    intro cut hmem
    obtain ⟨p, hp, hcut⟩ := exists_page hcuts hmem
    rw [hcut.rows]
    exact hr p hp
  · intro hlast t ht
    have hids : (rowIds t).Nodup := by
      obtain ⟨p, hp, -⟩ := Option.map_eq_some_iff.mp hend
      have hmem := List.mem_of_getLast? hp
      obtain ⟨cut, hcut⟩ := exists_cut hcuts hmem
      rw [← ht p hmem]
      exact hcut.ids
    rw [hshown]
    refine htraversal.exact (Option.some.inj (hend.symm.trans hlast)) (hsame t ht)
      (sortedLikes_decreasing hids) fun r => mem_sortedLikes
  · intro t ht
    have hlength : cuts.length ≤ max 1 (matching t userId contentTypeFilter).length :=
      htraversal.length_le (hsame t ht) fun r => by simp [Beyond]
    rw [hcuts.length_eq]
    exact hlength

end Runs

/-- Two likes of a user, of the same time. -/
def twoLikes : Tables where
  likes := [⟨1, 1, "post", 7, .epoch⟩, ⟨⟨2, by decide, by decide⟩, 1, "post", 8, .epoch⟩]
  likeCounts item := if item = ("post", 7) ∨ item = ("post", 8) then some 1 else none

theorem consistent_twoLikes : Consistent twoLikes := by
  constructor
  · intro item
    by_cases h₇ : item = ("post", 7)
    · rw [h₇]
      decide
    · by_cases h₈ : item = ("post", 8)
      · rw [h₈]
        decide
      · have hcount : twoLikes.likeCounts item = none := if_neg (not_or.mpr ⟨h₇, h₈⟩)
        have hrows : twoLikes.likesOf item = [] := by
          refine List.filter_eq_nil_iff.mpr fun r hr => ?_
          rw [decide_eq_true_iff]
          rcases List.mem_pair.mp hr with rfl | rfl
          · exact Ne.symm h₇
          · exact Ne.symm h₈
        rw [hrows, Tables.totalCount, hcount]
        rfl
  · intro key
    have hkeys : (twoLikes.likes.map LikesRow.key).Nodup := by decide
    have hcount := List.nodup_iff_count_le_one.mp hkeys key
    rw [List.count, List.countP_map, List.countP_eq_length_filter] at hcount
    have hfilter : ∀ r ∈ twoLikes.likes,
        decide (r.key = key) = ((fun key' => key' == key) ∘ LikesRow.key) r :=
      fun r _ => (beq_eq_decide r.key key).symm
    rw [List.filter_congr hfilter]
    exact hcount

/-- A process over the two likes. -/
def likedTwice : World Bool := { World.new with db := ⟨.ofTables twoLikes, fun _ => .epoch, 3⟩ }

/-- The cursor of the newer like. -/
def newerCursor : String := Cursor.encode Codec.plain ⟨.epoch, ⟨2, by decide, by decide⟩⟩

/-- The last operation of a call for a page that is not cached. -/
def pageStep (i : Bool) : Act Bool Request SvcChoice := .step i (.db (.run .epoch []))

/-- A first page of one row is asked for, and then the next one. -/
def firstOfTwo : List (Act Bool Request SvcChoice) :=
  .start false (.getUserLikes 1 none none 1) :: List.replicate 2 (.step false (.cache .ok))

def secondOfTwo : List (Act Bool Request SvcChoice) :=
  [.start true (.getUserLikes 1 none (some newerCursor) 1)]

theorem paged_of_sequential_twoPages : ∃ (c₁ c₂ : ServiceConfig Bool) (shown : List (List LikesRow)),
    (service Config.default Codec.plain).machine.run ⟨likedTwice, fun _ => .idle⟩
      (firstOfTwo ++ [pageStep false] ++ (secondOfTwo ++ [pageStep true])) = some c₂ ∧
    Paged 1 none
      [⟨c₁.shared.db.store.committed, ⟨[⟨"post", 8, .epoch⟩], some newerCursor, true⟩⟩,
        ⟨c₂.shared.db.store.committed, ⟨[⟨"post", 7, .epoch⟩], none, false⟩⟩] shown := by
  let init : ServiceConfig Bool := ⟨likedTwice, fun _ => .idle⟩
  have hfirst : ((service Config.default Codec.plain).machine.run init
      (firstOfTwo ++ [pageStep false])).map (fun c => (c.calls false).result) =
      some (some (.getUserLikes 1 none none 1,
        .ok (.page ⟨[⟨"post", 8, .epoch⟩], some newerCursor, true⟩))) := by
    decide +kernel
  have hfirstOpen : ((service Config.default Codec.plain).machine.run init firstOfTwo).map
      (fun c => (c.calls false).result.isSome) = some false := by
    decide +kernel
  have hsecond : ((service Config.default Codec.plain).machine.run init
      (firstOfTwo ++ [pageStep false] ++ (secondOfTwo ++ [pageStep true]))).map
        (fun c => (c.calls true).result) =
      some (some (.getUserLikes 1 none (some newerCursor) 1,
        .ok (.page ⟨[⟨"post", 7, .epoch⟩], none, false⟩))) := by
    decide +kernel
  have hsecondOpen : ((service Config.default Codec.plain).machine.run init
      (firstOfTwo ++ [pageStep false] ++ secondOfTwo)).map
        (fun c => (c.calls true).result.isSome) = some false := by
    decide +kernel
  have hchecks : (service Config.default Codec.plain).machine.meetsAll
      (fun c a => decide (Pool.OneByOne RedisWorks Request.Named c a)) init
      (firstOfTwo ++ pageStep false :: (secondOfTwo ++ [pageStep true])) = true := by
    decide +kernel
  obtain ⟨c₂, hrun₂, hresult₂⟩ := Option.map_eq_some_iff.mp hsecond
  obtain ⟨c₁, hrun₁, hrest⟩ := (Machine.run_append _).mp hrun₂
  rw [hrun₁] at hfirst
  obtain ⟨b₁, hb₁, hstep₁, hanswer₁⟩ :=
    Pool.answers_of_result hrun₁ hfirstOpen (Option.some.inj hfirst)
  -- the second call starts from the configuration after the first
  have hopen : ((service Config.default Codec.plain).machine.run c₁ secondOfTwo).map
      (fun c => (c.calls true).result.isSome) = some false := by
    obtain ⟨b, hb, hopen⟩ := Option.map_eq_some_iff.mp hsecondOpen
    obtain ⟨c, hc, hb⟩ := (Machine.run_append _).mp hb
    obtain rfl := Option.some.inj (hrun₁.symm.trans hc)
    rw [hb]
    exact congrArg some hopen
  obtain ⟨b₂, hb₂, hstep₂, hanswer₂⟩ := Pool.answers_of_result hrest hopen hresult₂
  have hinit : (service Config.default Codec.plain).machine.init init :=
    ⟨⟨⟨_, consistent_twoLikes, rfl⟩, rfl, rfl⟩, fun _ => rfl⟩
  obtain ⟨shown, hpaged⟩ : ∃ shown, Paged 1 none _ shown :=
    paged_of_sequential Config.default Codec.plain Codec.plain_roundTrips hinit rfl (by decide)
    (by decide)
    (Machine.meets_of_meetsAll (fun _ _ h => of_decide_eq_true h) hchecks)
    (.next hb₁ hstep₁ hanswer₁ rfl (.last hb₂ hstep₂ hanswer₂))
  exact ⟨c₁, c₂, shown, hrun₂, hpaged⟩

end SocialApi.Services
