import SocialApi.Concurrent.History
import SocialApi.Leaderboard.Refresh

/-!
# The calls on the filtered boards

Any number of calls of `refresh_all_windows` and `get_leaderboard`, interleaved operation by
operation, while like and unlike transactions commit and entries leave the caches. The task
writes each filtered board under the limit 50, the endpoint reads it under the limit of its
request.

* `refreshAllWindows_obeys`: the task stores, for every window and content type, the text of
  the rows that its own query returned.
* `getLeaderboard_obeys`: the endpoint returns the list whose text it has read, and queries
  the database only if it has read none.
-/

namespace SocialApi.Leaderboard

open SocialApi.Concurrent SocialApi.Postgres SocialApi.Ranking

/-! ## The pool -/

/-- The two calls. -/
inductive BoardCall where
  | refreshAllWindows
  | getLeaderboard (contentType : Option String) (window : TimeWindow) (limit : ℤ)
  deriving DecidableEq, Repr

/-- What the two calls return. -/
abbrev BoardResult := Except String Unit ⊕ Except AppError TopLikedResponse

/-- The program of a call. -/
def BoardCall.prog (L : BoardLibs) (ttl : ℕ) (contentTypes : List String) :
    BoardCall → BoardM BoardResult
  | refreshAllWindows => (Leaderboard.refreshAllWindows L ttl contentTypes).bind fun r => .ret (.inl r)
  | getLeaderboard contentType window limit =>
    (Leaderboard.getLeaderboard L contentType window limit).bind fun r => .ret (.inr r)

/-- What happens to the boards apart from the calls. -/
def environment (s : Boards) : BoardChoice → Option Boards
  | .expire layer key => some { s with cache := Cache.evict s.cache layer key }
  | .expireRange window start stop =>
    let entries := Function.update (s.l1Zsets window) start
      (Function.update (s.l1Zsets window start) stop none)
    some { s with l1Zsets := Function.update s.l1Zsets window entries }
  | .commit writes => some { s with tables := Store.applyAll layout writes s.tables }
  | _ => none

/-- The refresh task and the endpoint over the same boards; `contentTypes` are the keys of
    `content_api_urls`. -/
def boards {ι : Type} (L : BoardLibs) (ttl : ℕ) (contentTypes : List String) :
    Pool ι Boards BoardCall BoardOp BoardOp.Ans BoardResult BoardChoice where
  init _ := True
  prog := BoardCall.prog L ttl contentTypes
  start s _ _ := some s
  handle s _ o x := handle L s o x
  drop s _ := some s
  env := environment

/-! ## What the calls do to the filtered boards -/

/-- How far a call is. The task: what its last query for a content type returned, which keys
    it has written, whether a query has failed, or what it is about to write to Redis. The
    endpoint: what it has read under its key. -/
inductive BoardPhase where
  | refreshing (last : Option (String × Option DateTime × List (Item × I64)))
      (stored : List CacheKey) (failed : Bool)
  | storing (key : CacheKey) (json : String) (stored : List CacheKey) (failed : Bool)
  | reading (key : CacheKey)
  | missedL1 (key : CacheKey)
  | got (key : CacheKey) (text : String)
  | missed (key : CacheKey)
  | unfiltered

namespace BoardPhase

/-- Which operations a call performs next. -/
def asks (L : BoardLibs) : BoardPhase → BoardOp → Prop
  | refreshing _ _ _, .utcNow => True
  | refreshing _ _ _, .query _ _ limit => limit = leaderboardLimit
  | refreshing _ _ _, .l1ZsetInvalidate _ => True
  | refreshing _ _ _, .replace _ _ => True
  | refreshing _ _ _, .l1InvalidateFiltered => True
  | refreshing last _ _, .cache (.l1Insert key json) =>
    ∃ window ct now rows, last = some (ct, startOf window now, rows) ∧
      key = .lbf window ct leaderboardLimit.toNat ∧
      L.itemsToJson (rows.map toTopLikedItem) = some json
  | storing key json _ _, .cache (.redisSetEx key' json' _) => key' = key ∧ json' = json
  | reading key, .cache (.l1Get key') => key' = key
  | missedL1 key, .cache (.redisGet key') => key' = key
  | got key text, .cache (.l1Insert key' text') => key' = key ∧ text' = text
  | got _ text, .utcNow => L.itemsFromJson text = none
  | got _ text, .query _ _ _ => L.itemsFromJson text = none
  | missed _, .utcNow => True
  | missed _, .query _ _ _ => True
  | unfiltered, .l1ZsetGet _ _ _ => True
  | unfiltered, .zrevrange _ _ _ => True
  | unfiltered, .l1ZsetInsert _ _ _ _ => True
  | unfiltered, .utcNow => True
  | unfiltered, .query _ _ _ => True
  | _, _ => False

/-- The phase after an answer. -/
def next : BoardPhase → (o : BoardOp) → o.Ans → BoardPhase
  | refreshing _ stored failed, .query (some ct) since _, .ok rows =>
    refreshing (some (ct, since, rows)) stored failed
  | refreshing _ stored _, .query _ _ _, .error _ => refreshing none stored true
  | refreshing _ stored failed, .cache (.l1Insert key json), _ => storing key json stored failed
  | storing key _ stored failed, _, _ => refreshing none (key :: stored) failed
  | reading key, .cache (.l1Get _), some text => got key text
  | reading key, .cache (.l1Get _), none => missedL1 key
  | missedL1 key, .cache (.redisGet _), some text => got key text
  | missedL1 key, .cache (.redisGet _), none => missed key
  | g, _, _ => g

end BoardPhase

open BoardPhase

/-- The protocol of the phases. -/
def boardPhases (L : BoardLibs) : Protocol BoardOp BoardOp.Ans BoardPhase where
  asks := BoardPhase.asks L
  answers g o r g' := g' = g.next o r

variable {L : BoardLibs} {ttl : ℕ}

/-- The task has gone on: it has written the keys unless a query has failed. -/
def Written (stored : List CacheKey) (failed : Bool) (keys : List CacheKey) (g : BoardPhase) :
    Prop :=
  ∃ last' stored' failed', g = refreshing last' stored' failed' ∧ stored ⊆ stored' ∧
    (failed' = false → failed = false ∧ keys ⊆ stored')

/-- The keys of the filtered boards of a window. -/
def boardKeys (contentTypes : List String) (window : TimeWindow) : List CacheKey :=
  contentTypes.map fun ct => .lbf window ct leaderboardLimit.toNat

theorem windowStart_obeys {window : TimeWindow} {g : BoardPhase}
    (hg : g.asks L .utcNow) (hsame : ∀ now, g.next .utcNow now = g) :
    (boardPhases L).Obeys (fun g' since => g' = g ∧ ∃ now, since = startOf window now) g
      (windowStart window) := by
  unfold windowStart startOf
  cases window.durationSecs with
  | none => exact ⟨rfl, .epoch, rfl⟩
  | some secs =>
    refine ⟨hg, ?_⟩
    rintro now g' rfl
    exact ⟨hsame now, now, rfl⟩

theorem refreshFiltered_obeys (hL : L.Documented) (window : TimeWindow) (now : DateTime)
    (contentTypes : List String) (last : Option (String × Option DateTime × List (Item × I64)))
    (stored : List CacheKey) (failed : Bool) :
    (boardPhases L).Obeys (fun g _ => Written stored failed (boardKeys contentTypes window) g)
      (refreshing last stored failed)
      (refreshFiltered L ttl window (startOf window now) contentTypes) := by
  induction contentTypes generalizing last stored failed with
  | nil =>
    exact ⟨last, stored, failed, rfl, fun _ h => h, fun h => ⟨h, List.nil_subset _⟩⟩
  | cons ct contentTypes ih =>
    refine ⟨rfl, ?_⟩
    rintro (e | rows) g' rfl
    · -- the query has failed
      refine (ih none stored true).mono fun g _ h => ?_
      obtain ⟨last', stored', failed', rfl, hsub, hfailed⟩ := h
      exact ⟨last', stored', failed', rfl, hsub, fun hf => absurd (hfailed hf).1 (by simp)⟩
    · obtain ⟨json, hjson, -⟩ := hL.json (rows.map toTopLikedItem)
      have hstore : storeFiltered L ttl window ct (.ok rows) =
          cache (Cache.set (.lbf window ct leaderboardLimit.toNat) json ttl) := by
        simp only [storeFiltered, hjson]
      show (boardPhases L).Obeys _ (refreshing (some (ct, startOf window now, rows)) stored failed)
        ((storeFiltered L ttl window ct (.ok rows)).bind fun _ =>
          refreshFiltered L ttl window (startOf window now) contentTypes)
      rw [hstore]
      refine ⟨⟨window, ct, now, rows, rfl, rfl, hjson⟩, ?_⟩
      rintro - g' rfl
      refine ⟨⟨rfl, rfl⟩, ?_⟩
      rintro - g' rfl
      refine (ih none (.lbf window ct leaderboardLimit.toNat :: stored) failed).mono fun g _ h => ?_
      obtain ⟨last', stored', failed', rfl, hsub, hfailed⟩ := h
      refine ⟨last', stored', failed', rfl, fun key hkey => hsub (List.mem_cons_of_mem _ hkey),
        fun hf => ⟨(hfailed hf).1, ?_⟩⟩
      exact List.cons_subset.mpr ⟨hsub List.mem_cons_self, (hfailed hf).2⟩

theorem refreshWindow_obeys (hL : L.Documented) (contentTypes : List String) (window : TimeWindow)
    (last : Option (String × Option DateTime × List (Item × I64))) (stored : List CacheKey)
    (failed : Bool) :
    (boardPhases L).Obeys (fun g _ => Written stored failed (boardKeys contentTypes window) g)
      (refreshing last stored failed) (refreshWindow L ttl contentTypes window) := by
  unfold refreshWindow
  refine (windowStart_obeys (L := L) (g := refreshing last stored failed) trivial
    fun _ => rfl).bind ?_
  rintro g since ⟨rfl, now, rfl⟩
  refine ⟨rfl, ?_⟩
  rintro (e | rows) g' rfl
  · exact ⟨none, stored, true, rfl, fun _ h => h, fun h => absurd h (by simp)⟩
  · refine ⟨trivial, ?_⟩
    rintro - g' rfl
    refine ⟨trivial, ?_⟩
    rintro - g' rfl
    exact (refreshFiltered_obeys hL window now contentTypes _ stored failed).bind fun _ _ h => h

/-- The task has gone on over several windows. -/
theorem refreshWindows_obeys (hL : L.Documented) (contentTypes : List String)
    (ws : List TimeWindow) (last : Option (String × Option DateTime × List (Item × I64)))
    (stored : List CacheKey) (failed : Bool) :
    (boardPhases L).Obeys (fun g _ => Written stored failed (ws.flatMap (boardKeys contentTypes)) g)
      (refreshing last stored failed) (refreshWindows L ttl contentTypes ws) := by
  induction ws generalizing last stored failed with
  | nil => exact ⟨last, stored, failed, rfl, fun _ h => h, fun h => ⟨h, List.nil_subset _⟩⟩
  | cons window ws ih =>
    refine (refreshWindow_obeys hL contentTypes window last stored failed).bind ?_
    rintro g _ ⟨last', stored', failed', rfl, hsub, hfailed⟩
    refine (ih last' stored' failed').mono fun g _ h => ?_
    obtain ⟨last'', stored'', failed'', rfl, hsub', hfailed'⟩ := h
    refine ⟨last'', stored'', failed'', rfl, fun key hkey => hsub' (hsub hkey), fun hf => ?_⟩
    obtain ⟨hf', hkeys'⟩ := hfailed' hf
    obtain ⟨hf, hkeys⟩ := hfailed hf'
    refine ⟨hf, List.flatMap_cons ▸ List.append_subset.mpr ⟨fun key hkey => ?_, hkeys'⟩⟩
    exact hsub' (hkeys hkey)

/-- The task stores the boards of all windows and content types unless a query has failed. -/
theorem refreshAllWindows_obeys (hL : L.Documented) (contentTypes : List String) :
    (boardPhases L).Obeys
      (fun g _ => Written [] false (windows.flatMap (boardKeys contentTypes)) g)
      (refreshing none [] false) (refreshAllWindows L ttl contentTypes) := by
  refine (refreshWindows_obeys hL contentTypes windows none [] false).bind ?_
  rintro g _ ⟨last, stored, failed, rfl, h⟩
  refine ⟨trivial, ?_⟩
  rintro - g' rfl
  exact ⟨last, stored, failed, rfl, h⟩

/-- The fallback to the database, for a phase that allows it. -/
theorem boardFromDatabase_obeys {g : BoardPhase} (hnow : g.asks L .utcNow)
    (hquery : ∀ ct since limit, g.asks L (.query ct since limit))
    (hsame : ∀ now, g.next .utcNow now = g) (hsame' : ∀ ct since limit r,
      g.next (.query ct since limit) r = g) (contentType : Option String) (window : TimeWindow)
    (limit : ℤ) :
    (boardPhases L).Obeys (fun g' _ => g' = g) g (boardFromDatabase contentType window limit) := by
  unfold boardFromDatabase
  refine (windowStart_obeys hnow hsame).bind ?_
  rintro g' since ⟨rfl, -⟩
  refine ⟨hquery _ _ _, ?_⟩
  rintro (e | rows) g'' rfl
  · exact hsame' _ _ _ _
  · exact hsame' _ _ _ _

/-- The key of a filtered request. -/
def requestKey (ct : String) (window : TimeWindow) (limit : ℤ) : CacheKey :=
  .lbf window ct (max 1 (min limit 50)).toNat

/-- What a filtered request returns: the list whose text it has read, or what the database
    says. -/
def Answered (L : BoardLibs) (ct : String) (window : TimeWindow) (limit : ℤ) (g : BoardPhase)
    (result : Except AppError TopLikedResponse) : Prop :=
  (∃ text, g = got (requestKey ct window limit) text ∧ ∀ items, L.itemsFromJson text = some items →
    result = .ok ⟨window.asStr, some ct, items⟩) ∨ g = missed (requestKey ct window limit)

theorem getLeaderboard_obeys (ct : String) (window : TimeWindow) (limit : ℤ) :
    (boardPhases L).Obeys (Answered L ct window limit) (reading (requestKey ct window limit))
      (getLeaderboard L (some ct) window limit) := by
  -- what follows a text that was found
  have hgot : ∀ text (p : BoardM (Except AppError TopLikedResponse)),
      (∀ items, L.itemsFromJson text = some items →
        p = .ret (.ok ⟨window.asStr, some ct, items⟩)) →
      (L.itemsFromJson text = none →
        p = boardFromDatabase (some ct) window (max 1 (min limit 50))) →
      (boardPhases L).Obeys (Answered L ct window limit) (got (requestKey ct window limit) text)
        p := by
    intro text p hsome hnone
    cases hitems : L.itemsFromJson text with
    | some items =>
      rw [hsome items hitems]
      refine Or.inl ⟨text, rfl, fun items' hitems' => ?_⟩
      rw [hitems] at hitems'
      rw [Option.some.inj hitems']
    | none =>
      rw [hnone hitems]
      refine (boardFromDatabase_obeys (L := L) (g := got (requestKey ct window limit) text) hitems
        (fun _ _ _ => hitems) (fun _ => rfl) (fun _ _ _ _ => rfl) _ _ _).mono fun g result hg => ?_
      refine Or.inl ⟨text, hg, fun items' hitems' => ?_⟩
      rw [hitems] at hitems'
      cases hitems'
  refine ⟨rfl, ?_⟩
  rintro (_ | text) g rfl
  · refine ⟨rfl, ?_⟩
    rintro (_ | text) g rfl
    · exact (boardFromDatabase_obeys (L := L) (g := missed (requestKey ct window limit)) trivial
        (fun _ _ _ => trivial) (fun _ => rfl) (fun _ _ _ _ => rfl) _ _ _).mono
          fun g result hg => Or.inr hg
    · refine ⟨⟨rfl, rfl⟩, ?_⟩
      rintro - g rfl
      exact hgot text _ (fun items h => by simp [Prog.lift, h]) fun h => by simp [Prog.lift, h]
  · exact hgot text _ (fun items h => by simp [Prog.lift, h]) fun h => by simp [Prog.lift, h]

theorem getLeaderboard_none_obeys (window : TimeWindow) (limit : ℤ) :
    (boardPhases L).Obeys (fun g _ => g = unfiltered) unfiltered
      (getLeaderboard L none window limit) := by
  have hrest : ∀ cached : List (String × F64), (boardPhases L).Obeys (fun g _ => g = unfiltered)
      unfiltered (if cached ≠ [] then
        (.ret (.ok ⟨window.asStr, none, cached.filterMap fun pair =>
          parseLeaderboardMember L pair.1 pair.2⟩) : BoardM _)
      else boardFromDatabase none window (max 1 (min limit 50))) := by
    intro cached
    split_ifs
    · exact rfl
    · exact boardFromDatabase_obeys (L := L) (g := unfiltered) trivial (fun _ _ _ => trivial)
        (fun _ => rfl) (fun _ _ _ _ => rfl) _ _ _
  refine ⟨trivial, ?_⟩
  rintro (_ | cached) g rfl
  · refine ⟨trivial, ?_⟩
    rintro pairs g rfl
    show (boardPhases L).Obeys _ unfiltered (Prog.bind (Prog.bind
      (keepRange window 0 (max 1 (min limit 50) - 1) pairs) _) _)
    rw [Prog.bind_assoc]
    refine Protocol.Obeys.bind (Q := fun g _ => g = unfiltered) ?_ ?_
    · unfold keepRange
      split_ifs
      · refine ⟨trivial, ?_⟩
        rintro - g rfl
        exact rfl
      · exact rfl
    · rintro g - rfl
      exact hrest pairs
  · exact hrest cached

/-- The phase in which a call starts. -/
def BoardCall.first : BoardCall → BoardPhase
  | refreshAllWindows => refreshing none [] false
  | getLeaderboard (some ct) window limit => reading (requestKey ct window limit)
  | getLeaderboard none _ _ => unfiltered

/-- The phase in which a call ends, and its result. -/
def BoardCall.Ends (L : BoardLibs) (contentTypes : List String) :
    BoardCall → BoardPhase → BoardResult → Prop
  | refreshAllWindows, g, _ => Written [] false (windows.flatMap (boardKeys contentTypes)) g
  | getLeaderboard (some ct) window limit, g, result =>
    ∃ r, result = .inr r ∧ Answered L ct window limit g r
  | getLeaderboard none _ _, g, _ => g = unfiltered

theorem BoardCall.obeys (hL : L.Documented) (contentTypes : List String) (k : BoardCall) :
    (boardPhases L).Obeys (k.Ends L contentTypes) k.first (k.prog L ttl contentTypes) := by
  cases k with
  | refreshAllWindows => exact (refreshAllWindows_obeys hL contentTypes).bind fun _ _ h => h
  | getLeaderboard contentType window limit =>
    cases contentType with
    | none => exact (getLeaderboard_none_obeys window limit).bind fun _ _ h => h
    | some ct => exact (getLeaderboard_obeys ct window limit).bind fun _ r h => ⟨r, rfl, h⟩

end SocialApi.Leaderboard
