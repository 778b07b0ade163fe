import SocialApi.Leaderboard.StoredBoards

/-!
# The filtered boards after a refresh

After the task has returned, every request with limit 50 is answered from the lists it has stored,
without a query (`filteredBoards_of_meets`); a request with a smaller limit asks the database
(`smallBoards_queried`).
-/

namespace SocialApi.Leaderboard

open SocialApi.Concurrent SocialApi.Postgres SocialApi.Ranking BoardPhase

variable {L : BoardLibs}

/-! ## After the task -/

section Runs

variable {ι : Type}

/-- The caches hold the text under the key of call `i`, which has read nothing else and asked
    the database nothing. -/
structure Serving (i : ι) (key : CacheKey) (text : String) (s : Boards × Record ι)
    (γ : ι → Option BoardPhase) : Prop where
  fresh : Fresh s.1 key text
  own : ∀ g, γ i = some g → g = .reading key ∨ g = .missedL1 key ∨ g = .got key text
  noQuery : ∀ p ∈ s.2, p.call = i → ¬ IsQuery p.op

/-- What call `i` does with a text that can be read. -/
theorem Serving.next {i : ι} {key : CacheKey} {text : String} {s : Boards × Record ι}
    {γ : ι → Option BoardPhase} (h : Serving i key text s γ) {g : BoardPhase} (hγ : γ i = some g)
    {items : List TopLikedItem} (hitems : L.itemsFromJson text = some items) {o : BoardOp}
    {x : BoardChoice} {s' : Boards} {answer : o.Ans} (hask : g.asks L o)
    (hredis : ∀ key', o = .cache (.redisGet key') → x ≠ .cache .fail)
    (hs : handle L s.1 o x = some (s', answer)) :
    ¬ IsQuery o ∧ (g.next o answer = .reading key ∨ g.next o answer = .missedL1 key ∨
      g.next o answer = .got key text) := by
  rcases h.own g hγ with rfl | rfl | rfl
  · cases o with
    | cache o =>
      cases o with
      | l1Get key' =>
        obtain rfl : key' = key := hask
        refine ⟨id, ?_⟩
        cases answer with
        | none => exact Or.inr (Or.inl rfl)
        | some v =>
          have hv : s.1.cache.l1 key' = some v := by
            cases x with
            | cache x =>
              cases x with
              | ok => exact (Prod.mk.inj (Option.some.inj hs)).2
              | _ => cases hs
            | _ => cases hs
          rw [h.fresh.2 v hv]
          exact Or.inr (Or.inr rfl)
      | _ => exact hask.elim
    | _ => exact hask.elim
  · cases o with
    | cache o =>
      cases o with
      | redisGet key' =>
        obtain rfl : key' = key := hask
        have hv : answer = some text := by
          cases x with
          | cache x =>
            cases x with
            | ok => cases hs; exact h.fresh.1
            | fail => exact absurd rfl (hredis key' rfl)
            | _ => cases hs
          | _ => cases hs
        rw [hv]
        exact ⟨id, Or.inr (Or.inr rfl)⟩
      | _ => exact hask.elim
    | _ => exact hask.elim
  · cases o with
    | cache o =>
      cases o with
      | l1Insert key' text' => exact ⟨id, Or.inr (Or.inr rfl)⟩
      | _ => exact hask.elim
    | utcNow =>
      have hnone : L.itemsFromJson text = none := hask
      rw [hitems] at hnone
      cases hnone
    | query contentType since limit =>
      have hnone : L.itemsFromJson text = none := hask
      rw [hitems] at hnone
      cases hnone
    | _ => exact hask.elim

variable [DecidableEq ι]

/-- The steps keep `Serving` once the task is over. -/
theorem serving_keeps (hL : L.Documented) (ttl : ℕ) (contentTypes : List String) (r i : ι)
    {ct : String} {window : TimeWindow} {limit : ℤ} {text : String} {items : List TopLikedItem}
    (hitems : L.itemsFromJson text = some items) :
    Pool.Keeps (boards L ttl contentTypes).recorded (boardPhases L) (BoardCall.Ends L contentTypes)
      BoardCall.first (Serving i (requestKey ct window limit) text) fun c a =>
        (Undisturbed L r c a ∧ ¬ (c.calls r).Active) ∧
          ∀ k, a = .start i k → k = .getLeaderboard (some ct) window limit where
  prog := BoardCall.obeys hL contentTypes
  start c j k s γ ha h hγ hs := by
    have hs : some (c.shared.1, c.shared.2) = some s := hs
    cases hs
    refine ⟨h.fresh, fun g hg => ?_, h.noQuery⟩
    by_cases hji : j = i
    · subst hji
      rw [ha.2 k rfl, Function.update_self] at hg
      exact Or.inl (Option.some.inj hg).symm
    · rw [Function.update_of_ne (Ne.symm hji)] at hg
      exact h.own g hg
  handle c j x k o f s answer γ g ha h hF hj hγ hask hs := by
    obtain ⟨s', hs', rfl⟩ := Pool.recorded_handle hs
    refine ⟨_, rfl, ?_⟩
    have hjr : j ≠ r := by
      rintro rfl
      refine ha.1.2 ?_
      rw [hj]
      trivial
    have hguard := ha.1.1
    simp only [Undisturbed, hj] at hguard
    have hfresh : Fresh s' (requestKey ct window limit) text := by
      by_cases hinsert : ∃ key text', o = .cache (.l1Insert key text')
      · obtain ⟨key, text', rfl⟩ := hinsert
        obtain ⟨-, hredis⟩ := hguard.resolve_left hjr
        have hput : s'.cache = c.shared.1.cache.put .l1 key (some text') := by
          cases x with
          | cache x =>
            cases x with
            | ok => cases hs'; rfl
            | _ => cases hs'
          | _ => cases hs'
        refine ⟨by rw [hput]; exact h.fresh.1, fun v hv => ?_⟩
        rw [hput] at hv
        have hv : Function.update c.shared.1.cache.l1 key (some text') _ = some v := hv
        by_cases hkey : requestKey ct window limit = key
        · rw [hkey, Function.update_self] at hv
          rw [← hkey, h.fresh.1] at hredis
          exact (Option.some.inj hv).symm.trans (Option.some.inj hredis).symm
        · rw [Function.update_of_ne hkey] at hv
          exact h.fresh.2 v hv
      · have hset : ∀ key text' secs, o ≠ .cache (.redisSetEx key text' secs) := by
          rintro key text' secs rfl
          exact hjr hguard.1
        have hdel : ∀ key, o ≠ .cache (.redisDel key) := by
          rintro key rfl
          cases g <;> exact hask
        obtain ⟨hredis, hl1⟩ := handle_cache hs' (fun key text' ho => hinsert ⟨key, text', ho⟩)
          hset hdel
        exact ⟨by rw [hredis]; exact h.fresh.1, fun v hv => h.fresh.2 v (hl1 _ v hv)⟩
    by_cases hji : j = i
    · subst hji
      obtain ⟨hquery, hnext⟩ := h.next hγ hitems hask (by rintro key' rfl; exact hguard) hs'
      refine ⟨hfresh, fun g' hg' => ?_, fun p hp hcall => ?_⟩
      · rw [Function.update_self] at hg'
        cases hg'
        exact hnext
      · rcases List.mem_append.mp hp with hp | hp
        · exact h.noQuery p hp hcall
        · rw [List.mem_singleton.mp hp]
          exact hquery
    · refine ⟨hfresh, fun g' hg' => ?_, fun p hp hcall => ?_⟩
      · rw [Function.update_of_ne (Ne.symm hji)] at hg'
        exact h.own g' hg'
      · rcases List.mem_append.mp hp with hp | hp
        · exact h.noQuery p hp hcall
        · rw [List.mem_singleton.mp hp] at hcall
          exact absurd hcall hji
  ret s j k γ g a h hγ ha := by
    refine ⟨h.fresh, fun g' hg' => ?_, h.noQuery⟩
    by_cases hji : j = i
    · subst hji
      rw [Function.update_self] at hg'
      cases hg'
    · rw [Function.update_of_ne (Ne.symm hji)] at hg'
      exact h.own g' hg'
  drop c j k p s γ g ha h hF hj hγ hs := by
    have hs : some (c.shared.1, c.shared.2) = some s := hs
    cases hs
    refine ⟨h.fresh, fun g' hg' => ?_, h.noQuery⟩
    by_cases hji : j = i
    · subst hji
      rw [Function.update_self] at hg'
      cases hg'
    · rw [Function.update_of_ne (Ne.symm hji)] at hg'
      exact h.own g' hg'
  env c x s γ ha h hs := by
    obtain ⟨s', hs', rfl⟩ := Option.map_eq_some_iff.mp hs
    obtain ⟨hredis, hl1⟩ := environment_cache ha.1.1 hs'
    have hkey : Filtered (requestKey ct window limit) := trivial
    exact ⟨⟨(hredis _ hkey).trans h.fresh.1, fun v hv => h.fresh.2 v (hl1 _ v hv)⟩, h.own,
      h.noQuery⟩

/-- A request is answered with the first rows of a list, and no query. -/
def AnsweredFrom (c : BoardConfig ι) (i : ι) (ct : String) (window : TimeWindow) (limit : ℤ)
    (rows : List (Item × I64)) (result : BoardResult) : Prop :=
  result = .inr (.ok ⟨window.asStr, some ct,
    (rows.map toTopLikedItem).take (max 1 (min limit 50)).toNat⟩) ∧
  ∀ p ∈ c.shared.2, p.call = i → ¬ IsQuery p.op

/-- A request with limit 50 that is made after the task is answered from what the task has
    stored. -/
theorem answeredFrom_of_stored (hL : L.Documented) {ttl : ℕ} {contentTypes : List String} {r i : ι}
    {c₁ c₂ : BoardConfig ι} {acts : List (Act ι BoardCall BoardChoice)}
    (hreach : (boards L ttl contentTypes).recorded.machine.Reachable c₁)
    (hinv : Pool.Inv (boardPhases L) (BoardCall.Ends L contentTypes) (Holding L r) c₁)
    {result : BoardResult} (hdone : c₁.calls r = .returned .refreshAllWindows result)
    (hidle : c₁.calls i = .idle)
    (hrun : (boards L ttl contentTypes).recorded.machine.run c₁ acts = some c₂)
    (hmeets : (boards L ttl contentTypes).recorded.machine.Meets (Undisturbed L r) c₁ acts)
    {ct : String} {window : TimeWindow} {limit : ℤ} {answer : BoardResult}
    (hreturned : c₂.calls i = .returned (.getLeaderboard (some ct) window limit) answer)
    {rows : List (Item × I64)} {text : String}
    (hstored : storedBy c₁.shared.2 r (requestKey ct window limit) = some text)
    (htext : L.itemsToJson (rows.map toTopLikedItem) = some text) (hlength : rows.length ≤ 50)
    (hlimit : 50 ≤ limit) : AnsweredFrom c₂ i ct window limit rows answer := by
  obtain ⟨json, hjson, hitems⟩ := hL.json (rows.map toTopLikedItem)
  obtain rfl : json = text := Option.some.inj (hjson.symm.trans htext)
  obtain ⟨γ, hholding, hF⟩ := hinv
  have hFr := hF r
  rw [hdone] at hFr
  have hfresh : Fresh c₁.shared.1 (requestKey ct window limit) json :=
    hholding.fresh _ _ hstored fun _ _ _ => by rw [hFr.1]; exact nofun
  have hserving : Serving i (requestKey ct window limit) json c₁.shared γ := by
    refine ⟨hfresh, fun g hg => ?_, fun p hp hcall => ?_⟩
    · have hFi := hF i
      rw [hidle, hg] at hFi
      cases hFi
    · rw [← hcall] at hidle
      exact absurd hidle (Pool.not_idle_of_performed hreach p hp)
  have hover : (boards L ttl contentTypes).recorded.machine.Meets
      (fun c a => Undisturbed L r c a ∧ ¬ (c.calls r).Active) c₁ acts := by
    refine hmeets.of_keeps (I := fun c => ∃ result, c.calls r = .returned .refreshAllWindows result)
      (fun c a c' hc ha hstep => ?_) ⟨result, hdone⟩ hrun
    obtain ⟨result, hc⟩ := hc
    refine ⟨⟨result, Pool.returned_step hstep hc⟩, ha, ?_⟩
    rw [hc]
    exact id
  have hstart := Pool.meets_start_of_request hrun (i := i) (k := .getLeaderboard (some ct) window limit)
    (by rw [hreturned]; rfl)
  obtain ⟨⟨γ', hserving', -⟩, hreturns⟩ := (serving_keeps hL ttl contentTypes r i hitems).returns_of_inv
    (R := fun _ j k a => j = i → k = .getLeaderboard (some ct) window limit →
      a = .inr (.ok ⟨window.asStr, some ct, rows.map toTopLikedItem⟩))
    (by
      rintro s j k γ g a h hγ ha rfl rfl
      obtain ⟨result, rfl, ⟨text, rfl, hread⟩ | rfl⟩ := ha
      · rcases h.own _ hγ with heq | heq | heq
        · cases heq
        · cases heq
        · cases heq
          rw [hread _ hitems]
      · rcases h.own _ hγ with heq | heq | heq <;> cases heq)
    (fun c a c' _ _ j k b _ hR => hR)
    ⟨γ, hserving, hF⟩ (fun j k b hj hji => by rw [hji, hidle] at hj; cases hj)
    (hover.and hstart) hrun
  refine ⟨?_, hserving'.noQuery⟩
  rw [hreturns i _ _ hreturned rfl rfl, List.take_of_length_le]
  rw [List.length_map]
  omega

/-- In every run in which the task completes undisturbed, and for every registered content type
    and every window: two requests made afterwards, whatever has been liked and unliked in the
    meantime, are answered with the first rows of the list that the task has computed, the
    shorter answer is a prefix of the longer one, and neither asks the database, if the smaller
    limit is at least (and so, clamped, equal to) 50. -/
theorem filteredBoards_of_meets (hL : L.Documented) {ttl : ℕ} {contentTypes : List String}
    {r i j : ι} {c₀ c₁ c₂ : BoardConfig ι} {acts₁ acts₂ : List (Act ι BoardCall BoardChoice)}
    (hreach : (boards L ttl contentTypes).recorded.machine.Reachable c₀)
    (hidle : c₀.calls r = .idle)
    (hrun₁ : (boards L ttl contentTypes).recorded.machine.run c₀ acts₁ = some c₁)
    (hmeets₁ : (boards L ttl contentTypes).recorded.machine.Meets (Undisturbed L r) c₀ acts₁)
    {result : BoardResult} (hdone : c₁.calls r = .returned .refreshAllWindows result)
    (hi : c₁.calls i = .idle) (hj : c₁.calls j = .idle)
    (hrun₂ : (boards L ttl contentTypes).recorded.machine.run c₁ acts₂ = some c₂)
    (hmeets₂ : (boards L ttl contentTypes).recorded.machine.Meets (Undisturbed L r) c₁ acts₂)
    {ct : String} (hct : ct ∈ contentTypes) {window : TimeWindow} {l₁ l₂ : ℤ} (hle : l₁ ≤ l₂)
    {a₁ a₂ : BoardResult}
    (ha₁ : c₂.calls i = .returned (.getLeaderboard (some ct) window l₁) a₁)
    (ha₂ : c₂.calls j = .returned (.getLeaderboard (some ct) window l₂) a₂)
    (hlimit : leaderboardLimit ≤ l₁) :
    ∃ now rows, Asked c₁.shared.2 r ct (startOf window now) rows ∧
      AnsweredFrom c₂ i ct window l₁ rows a₁ ∧ AnsweredFrom c₂ j ct window l₂ rows a₂ ∧
      (rows.map toTopLikedItem).take (max 1 (min l₁ 50)).toNat <+:
        (rows.map toTopLikedItem).take (max 1 (min l₂ 50)).toNat := by
  obtain ⟨hinv, hstored⟩ := stored_of_returned hL hreach hidle hrun₁ hmeets₁ hdone
  obtain ⟨text, htext⟩ := Option.ne_none_iff_exists'.mp (hstored window ct hct)
  have hsource : Source L c₁.shared.2 r (.lbf window ct leaderboardLimit.toNat) text := by
    obtain ⟨γ, hholding, -⟩ := hinv
    exact hholding.source _ _ htext
  obtain ⟨window', ct', now, rows, hkey, hjson, hlength, hasked⟩ := hsource
  cases hkey
  have hrequest : ∀ l : ℤ, leaderboardLimit ≤ l →
      storedBy c₁.shared.2 r (requestKey ct window l) = some text := by
    intro l hl
    have hclamp : max 1 (min l 50) = leaderboardLimit := by
      rw [min_eq_right (show (50 : ℤ) ≤ l from hl)]
      rfl
    rw [requestKey, hclamp]
    exact htext
  have hreach₁ := hreach.run hrun₁
  refine ⟨now, rows, hasked, ?_, ?_, List.take_prefix_take_left (by omega)⟩
  · exact answeredFrom_of_stored hL hreach₁ hinv hdone hi hrun₂ hmeets₂ ha₁ (hrequest l₁ hlimit)
      hjson hlength hlimit
  · exact answeredFrom_of_stored hL hreach₁ hinv hdone hj hrun₂ hmeets₂ ha₂
      (hrequest l₂ (le_trans hlimit hle)) hjson hlength (le_trans hlimit hle)

end Runs

/-! ## Runs of three calls -/

/-- The outcomes of a refresh with one content type; the queries come to the items in the order of
    the plan. -/
def refreshOutcomes (plan : List Item) : List BoardChoice :=
  let window := [.rows plan, .removedRanges [], .ok, .rows plan, .cache .ok, .cache .ok]
  (.now .epoch :: window) ++ (.now .epoch :: window) ++ (.now .epoch :: window) ++ window ++
    [.removed []]

/-- The task runs to its end. -/
def refreshed (plan : List Item) : List (Act ℕ BoardCall BoardChoice) :=
  .start 0 .refreshAllWindows :: (refreshOutcomes plan).map (.step 0)

/-- A small number as a column of the database. -/
def small (n : Fin 128) : I64 where
  val := n.val
  lower := by omega
  upper := by omega

/-- A like of a post is committed, and its count. -/
def liked (id : I64) (user content : Uuid) (count : I64) : Act ℕ BoardCall BoardChoice :=
  .env (.commit [.insertLike ⟨id, user, "post", content, .epoch⟩,
    .setCount ("post", content) count])

/-- Empty tables and caches, and no call. -/
def newBoards : BoardConfig ℕ :=
  ⟨(⟨⟨[], fun _ => none⟩, .empty, fun _ => [], fun _ _ _ => none⟩, []), fun _ => .idle⟩

/-- The task has completed. -/
def completed (c : BoardConfig ℕ) : Bool :=
  match c.calls 0 with
  | .returned .refreshAllWindows (.inl (.ok ())) => true
  | _ => false

/-- The request and the items of a call that has been answered. -/
def answerOf (c : BoardConfig ℕ) (i : ℕ) : Option (BoardCall × List TopLikedItem) :=
  match c.calls i with
  | .returned k (.inr (.ok response)) => some (k, response.items)
  | _ => none

theorem returned_of_completed {c : BoardConfig ℕ} (h : completed c = true) :
    c.calls 0 = .returned .refreshAllWindows (.inl (.ok ())) := by
  unfold completed at h
  split at h
  · assumption
  · cases h

theorem returned_of_answerOf {c : BoardConfig ℕ} {i : ℕ} {k : BoardCall}
    {items : List TopLikedItem} (h : answerOf c i = some (k, items)) :
    ∃ window contentType, c.calls i = .returned k (.inr (.ok ⟨window, contentType, items⟩)) := by
  unfold answerOf at h
  split at h
  · rename_i k' response hi
    cases h
    exact ⟨response.window, response.contentType, hi⟩
  · cases h

theorem idle_of_request {c : BoardConfig ℕ} {i : ℕ} (h : (c.calls i).request = none) :
    c.calls i = .idle := by
  cases hi : c.calls i with
  | idle => rfl
  | _ => rw [hi] at h; cases h

/-- The pool of these runs. -/
abbrev postBoards : Pool ℕ Boards BoardCall BoardOp BoardOp.Ans BoardResult BoardChoice :=
  boards plainLibs 60 ["post"]

theorem reachable_newBoards : postBoards.recorded.machine.Reachable newBoards :=
  .initial ⟨⟨trivial, rfl⟩, fun _ => rfl⟩

/-- One like of post 7 and two of post 8, and then a refresh. -/
def likedAndRefreshed : List (Act ℕ BoardCall BoardChoice) :=
  [liked 1 1 7 1, liked (small 2) 1 8 1, liked (small 3) 2 8 (small 2)] ++
    refreshed [("post", 7), ("post", 8)]

/-- After two more likes of post 7, two requests for all posts are answered from L1. -/
def readTwice : List (Act ℕ BoardCall BoardChoice) :=
  [liked (small 4) 2 7 (small 2), liked (small 5) 3 7 (small 3),
    .start 1 (.getLeaderboard (some "post") .all 50), .step 1 (.cache .ok),
    .start 2 (.getLeaderboard (some "post") .all 60), .step 2 (.cache .ok)]

/-- Two requests with limits 50 and 60 show post 8, which led when the task ran. -/
theorem filteredBoards_of_meets_readTwice :
    ∃ (c₁ c₂ : BoardConfig ℕ) (window₁ window₂ : String) (ct₁ ct₂ : Option String),
      postBoards.recorded.machine.run newBoards likedAndRefreshed = some c₁ ∧
      postBoards.recorded.machine.run c₁ readTwice = some c₂ ∧
      c₂.calls 1 = .returned (.getLeaderboard (some "post") .all 50)
        (.inr (.ok ⟨window₁, ct₁, [⟨"post", 8, small 2⟩, ⟨"post", 7, 1⟩]⟩)) ∧
      c₂.calls 2 = .returned (.getLeaderboard (some "post") .all 60)
        (.inr (.ok ⟨window₂, ct₂, [⟨"post", 8, small 2⟩, ⟨"post", 7, 1⟩]⟩)) ∧
      ∃ now rows, Asked c₁.shared.2 0 "post" (startOf .all now) rows ∧
        AnsweredFrom c₂ 1 "post" .all 50 rows
          (.inr (.ok ⟨window₁, ct₁, [⟨"post", 8, small 2⟩, ⟨"post", 7, 1⟩]⟩)) ∧
        AnsweredFrom c₂ 2 "post" .all 60 rows
          (.inr (.ok ⟨window₂, ct₂, [⟨"post", 8, small 2⟩, ⟨"post", 7, 1⟩]⟩)) ∧
        (rows.map toTopLikedItem).take (max 1 (min (50 : ℤ) 50)).toNat <+:
          (rows.map toTopLikedItem).take (max 1 (min (60 : ℤ) 50)).toNat := by
  have hview : (postBoards.recorded.machine.run newBoards (likedAndRefreshed ++ readTwice)).map
      (fun c => (answerOf c 1, answerOf c 2)) =
      some (some (.getLeaderboard (some "post") .all 50, [⟨"post", 8, small 2⟩, ⟨"post", 7, 1⟩]),
        some (.getLeaderboard (some "post") .all 60, [⟨"post", 8, small 2⟩, ⟨"post", 7, 1⟩])) := by
    decide +kernel
  obtain ⟨c₂, hrun, hanswers⟩ := Option.map_eq_some_iff.mp hview
  obtain ⟨c₁, hrun₁, hrun₂⟩ := (Machine.run_append _).mp hrun
  have hdone : (postBoards.recorded.machine.run newBoards likedAndRefreshed).map
      (fun c => (completed c, (c.calls 1).request, (c.calls 2).request)) =
      some (true, none, none) := by decide +kernel
  rw [hrun₁] at hdone
  obtain ⟨hdone, hidle⟩ := Prod.mk.inj (Option.some.inj hdone)
  obtain ⟨hidle₁, hidle₂⟩ := Prod.mk.inj hidle
  obtain ⟨h₁, h₂⟩ := Prod.mk.inj hanswers
  obtain ⟨w₁, ct₁, ha₁⟩ := returned_of_answerOf h₁
  obtain ⟨w₂, ct₂, ha₂⟩ := returned_of_answerOf h₂
  have hchecks₁ : postBoards.recorded.machine.meetsAll (undisturbed plainLibs 0) newBoards
      likedAndRefreshed = true := by decide +kernel
  have hchecks : postBoards.recorded.machine.meetsAll (undisturbed plainLibs 0) newBoards
      (likedAndRefreshed ++ readTwice) = true := by decide +kernel
  have hmeets₁ := Machine.meets_of_meetsAll undisturbed_sound hchecks₁
  have hmeets := Machine.meets_of_meetsAll undisturbed_sound hchecks
  exact ⟨c₁, c₂, w₁, w₂, ct₁, ct₂, hrun₁, hrun₂, ha₁, ha₂,
    filteredBoards_of_meets plainLibs_documented reachable_newBoards rfl hrun₁
      hmeets₁ (returned_of_completed hdone) (idle_of_request hidle₁) (idle_of_request hidle₂) hrun₂
      (hmeets.append hrun₁)
      (List.mem_singleton_self _) (by norm_num) ha₁ ha₂ (le_refl _)⟩

/-- Between a like of post 7 and two likes of post 8 the top post is asked for, and then the two
    top posts. -/
def readBetween : List (Act ℕ BoardCall BoardChoice) :=
  [liked 1 1 7 1, .start 1 (.getLeaderboard (some "post") .all 1), .step 1 (.cache .ok),
    .step 1 (.cache .ok), .step 1 (.rows [("post", 7)]), liked (small 2) 1 8 1,
    liked (small 3) 2 8 (small 2),
    .start 2 (.getLeaderboard (some "post") .all 2), .step 2 (.cache .ok), .step 2 (.cache .ok),
    .step 2 (.rows [("post", 7), ("post", 8)])]

/-- Both requests ask the database: the first board is no prefix of the second, and neither is
    one of the empty board that the task has stored. -/
theorem smallBoards_queried :
    ∃ (c₁ c₂ : BoardConfig ℕ) (window₁ window₂ : String) (ct₁ ct₂ : Option String),
      postBoards.recorded.machine.run newBoards (refreshed []) = some c₁ ∧
      postBoards.recorded.machine.Meets (Undisturbed plainLibs 0) newBoards
        (refreshed [] ++ readBetween) ∧
      c₁.calls 0 = .returned .refreshAllWindows (.inl (.ok ())) ∧
      storedBy c₁.shared.2 0 (.lbf .all "post" leaderboardLimit.toNat) = some "[]" ∧
      postBoards.recorded.machine.run c₁ readBetween = some c₂ ∧
      c₂.calls 1 = .returned (.getLeaderboard (some "post") .all 1)
        (.inr (.ok ⟨window₁, ct₁, [⟨"post", 7, 1⟩]⟩)) ∧
      c₂.calls 2 = .returned (.getLeaderboard (some "post") .all 2)
        (.inr (.ok ⟨window₂, ct₂, [⟨"post", 8, small 2⟩, ⟨"post", 7, 1⟩]⟩)) ∧
      ¬ [(⟨"post", 7, 1⟩ : TopLikedItem)] <+: [⟨"post", 8, small 2⟩, ⟨"post", 7, 1⟩] ∧
      (∃ p ∈ c₂.shared.2, p.call = 1 ∧ IsQuery p.op) ∧
      ∃ p ∈ c₂.shared.2, p.call = 2 ∧ IsQuery p.op := by
  have hview : (postBoards.recorded.machine.run newBoards (refreshed [] ++ readBetween)).map
      (fun c => (answerOf c 1, answerOf c 2,
        decide (∃ p ∈ c.shared.2, p.call = 1 ∧ IsQuery p.op) &&
          decide (∃ p ∈ c.shared.2, p.call = 2 ∧ IsQuery p.op))) =
      some (some (.getLeaderboard (some "post") .all 1, [⟨"post", 7, 1⟩]),
        some (.getLeaderboard (some "post") .all 2, [⟨"post", 8, small 2⟩, ⟨"post", 7, 1⟩]), true) := by
    decide +kernel
  obtain ⟨c₂, hrun, hview⟩ := Option.map_eq_some_iff.mp hview
  obtain ⟨c₁, hrun₁, hrun₂⟩ := (Machine.run_append _).mp hrun
  obtain ⟨h₁, hview⟩ := Prod.mk.inj hview
  obtain ⟨h₂, hqueries⟩ := Prod.mk.inj hview
  obtain ⟨hquery₁, hquery₂⟩ := Bool.and_eq_true_iff.mp hqueries
  obtain ⟨w₁, ct₁, ha₁⟩ := returned_of_answerOf h₁
  obtain ⟨w₂, ct₂, ha₂⟩ := returned_of_answerOf h₂
  have hdone : (postBoards.recorded.machine.run newBoards (refreshed [])).map
      (fun c => (completed c, storedBy c.shared.2 0 (.lbf .all "post" leaderboardLimit.toNat))) =
      some (true, some "[]") := by decide +kernel
  rw [hrun₁] at hdone
  obtain ⟨hdone, hstored⟩ := Prod.mk.inj (Option.some.inj hdone)
  have hchecks : postBoards.recorded.machine.meetsAll (undisturbed plainLibs 0) newBoards
      (refreshed [] ++ readBetween) = true := by decide +kernel
  exact ⟨c₁, c₂, w₁, w₂, ct₁, ct₂, hrun₁, Machine.meets_of_meetsAll undisturbed_sound hchecks,
    returned_of_completed hdone, hstored, hrun₂, ha₁, ha₂, by decide, of_decide_eq_true hquery₁,
    of_decide_eq_true hquery₂⟩

end SocialApi.Leaderboard
