import SocialApi.Concurrent.Tracked
import SocialApi.Middleware.OneProcess

/-!
# The wait that a denied call is told

A denied call answers with `reset_secs`, which becomes `Retry-After`: the script takes the
time until its oldest entry leaves the window, and the code rounds it up to seconds and
clamps it to `1..=window_secs`. A full window holds exactly `limit` entries, so there is
room as soon as the oldest of them is gone, and none before.

* `resetSecs_bounds`: the wait in seconds covers the wait in milliseconds and is less than a
  second longer.
* `retryAfter_of_meets`: the next call on the key is allowed once the wait is over, and
  denied a second before that.
-/

namespace SocialApi.RateLimit

open SocialApi.Concurrent SocialApi.SlidingWindow

variable {ι : Type} {key : String} {q : Quota}

/-! ## Specification -/

/-- What a denied call is told is between one second and the window; the call after it, if
    there is none on the key in between, is allowed once that time is over and denied a second
    before. -/
structure RetryAfterExact (key : String) (q : Quota) (c : LimiterConfig ι Unit) : Prop where
  within : ∀ (i : ι) (r : Request) (result : RateLimitResult),
    c.calls i = .returned r result → r.key = key → result.allowed = false →
    1 ≤ result.resetSecs ∧ result.resetSecs ≤ q.windowSecs
  enough : ∀ (i j : ι) (r r' : Request) (result result' : RateLimitResult)
    (before after : List (Execution ι)) (d e : Execution ι),
    c.calls i = .returned r result → r.key = key → result.allowed = false →
    c.calls j = .returned r' result' → c.shared.log key = before ++ d :: e :: after →
    d.caller = i → e.caller = j → d.now + 1000 * result.resetSecs ≤ e.now →
      result'.allowed = true
  needed : ∀ (i j : ι) (r r' : Request) (result result' : RateLimitResult)
    (before after : List (Execution ι)) (d e : Execution ι),
    c.calls i = .returned r result → r.key = key → result.allowed = false →
    c.calls j = .returned r' result' → c.shared.log key = before ++ d :: e :: after →
    d.caller = i → e.caller = j → 2 ≤ result.resetSecs →
    e.now = d.now + 1000 * (result.resetSecs - 1) → result'.allowed = false

/-! ## Rounding -/

/-- The wait in seconds covers the wait in milliseconds, and one second less does not. -/
theorem resetSecs_bounds {windowSecs : ℕ} {resetMs : ℤ} (hpos : 1 ≤ resetMs)
    (hle : resetMs ≤ windowSecs * 1000) (hfits : windowSecs * 1000 < 2 ^ 64) :
    1 ≤ resetSecs windowSecs resetMs ∧ resetSecs windowSecs resetMs ≤ windowSecs ∧
      resetMs ≤ 1000 * resetSecs windowSecs resetMs ∧
      1000 * ((resetSecs windowSecs resetMs : ℤ) - 1) < resetMs := by
  have hmod : resetMs % 2 ^ 64 = resetMs := Int.emod_eq_of_lt (by omega) (by omega)
  unfold resetSecs
  rw [hmod]
  omega

/-! ## The window of the next call -/

/-- Of the calls before a denied one, a later window holds those that have not left it. -/
theorem inWindow_later {before : List (Execution ι)} {now later : ℤ}
    (hpast : ∀ e ∈ before, e.now ≤ now) (hle : now ≤ later) :
    inWindow q before later =
      (inWindow q before now).filter fun e => later - q.windowMs < e.now := by
  unfold inWindow
  rw [List.filter_filter]
  refine List.filter_congr fun e he => ?_
  have hnow := hpast e he
  rw [← Bool.decide_and, decide_eq_decide]
  constructor
  · rintro ⟨hallowed, hlow, -⟩
    exact ⟨hlow, hallowed, by omega, hnow⟩
  · rintro ⟨hlow, hallowed, -, -⟩
    exact ⟨hallowed, hlow, by omega⟩

/-- A full window has exactly `limit` calls. -/
theorem length_inWindow_of_denied {before after : List (Execution ι)} {d : Execution ι}
    (hjudged : Judged q before d) (hdenied : d.allowed = false)
    (hwindows : ∀ t, (inInterval q (before ++ d :: after) t).length ≤ q.limit) :
    (inWindow q before d.now).length = q.limit := by
  have hfull : ¬ (inWindow q before d.now).length < q.limit := by
    intro hroom
    rw [hjudged.allowed.mpr hroom] at hdenied
    cases hdenied
  have hinterval := hwindows (d.now - q.windowMs)
  have hsame : inInterval q before (d.now - q.windowMs) = inWindow q before d.now := by
    unfold inInterval inWindow
    refine List.filter_congr fun e _ => ?_
    rw [decide_eq_decide, sub_add_cancel]
  unfold inInterval at hinterval hsame
  rw [List.filter_append, List.length_append, hsame] at hinterval
  omega

/-- The oldest of the allowed calls in a window. -/
def Oldest (q : Quota) (before : List (Execution ι)) (now : ℤ) (o : Execution ι) : Prop :=
  o ∈ inWindow q before now ∧ ∀ e ∈ inWindow q before now, o.now ≤ e.now

/-- After a denied call the next one is allowed exactly when the oldest has left. -/
theorem allowed_after_denied {before after : List (Execution ι)} {d e o : Execution ι}
    (hordered : Ordered Execution.now (before ++ d :: e :: after))
    (hd : Judged q before d) (he : Judged q (before ++ [d]) e) (hdenied : d.allowed = false)
    (hwindows : ∀ t, (inInterval q (before ++ d :: e :: after) t).length ≤ q.limit)
    (ho : Oldest q before d.now o) : e.allowed = true ↔ o.now + q.windowMs ≤ e.now := by
  have hlength := length_inWindow_of_denied hd hdenied hwindows
  obtain ⟨-, hlater, hcross⟩ := List.pairwise_append.mp hordered
  have hpast : ∀ b ∈ before, b.now ≤ d.now := fun b hb => hcross b hb d List.mem_cons_self
  have hle : d.now ≤ e.now := (List.pairwise_cons.mp hlater).1 e List.mem_cons_self
  -- the denied call is in no window
  have hsame : inWindow q (before ++ [d]) e.now = inWindow q before e.now := by
    unfold inWindow
    rw [List.filter_append]
    simp [hdenied]
  rw [he.allowed, hsame, inWindow_later hpast hle, ← hlength, List.length_filter_lt_length_iff_exists]
  constructor
  · intro hgone
    obtain ⟨b, hb, hgone⟩ := hgone
    have hold := ho.2 b hb
    have hgone := of_decide_eq_false (Bool.eq_false_iff.mpr hgone)
    omega
  · intro hgone
    refine ⟨o, ho.1, ?_⟩
    rw [decide_eq_true_eq]
    omega

/-! ## What the script replies to a denied call -/

/-- What a reply says of its execution: the decision, and for a denied call the time until the
    oldest call leaves the window. -/
structure Tells (q : Quota) (before : List (Execution ι)) (d : Execution ι) (reply : List ℤ) :
    Prop where
  allowed : (resultOf q (some reply)).allowed = d.allowed
  wait : d.allowed = false → ∃ o, Oldest q before d.now o ∧
    (resultOf q (some reply)).resetSecs = resetSecs q.windowSecs (o.now + q.windowMs - d.now)

section Reply

variable {s : Shared ι Unit}

/-- The reply of an execution in time. -/
theorem Summary.tells (h : Summary key q s) (hlimit : 1 ≤ q.limit) (i : ι) {now : ℕ}
    {member : Member} (hnow : s.time key ≤ now) (hfresh : s.FreshMember key q now member) :
    let reply := (script (s.keys key) now q.windowMs q.limit member).2
    Tells q (s.log key) (executionOf i now member reply) reply := by
  obtain ⟨-, hjudged, -⟩ := h.decided i hnow hfresh
  have hat : (executionOf i now member
      (script (s.keys key) now q.windowMs q.limit member).2).now = now := rfl
  refine ⟨(resultOf_reply q i (s.keys key) now q.windowMs q.limit member).1, fun hdenied => ?_⟩
  have hfull : q.limit ≤ (inWindow q (s.log key) now).length := by
    by_contra hroom
    rw [hjudged.allowed.mpr (by rw [hat]; omega)] at hdenied
    cases hdenied
  have hpruned := h.pruned hnow
  have hscores : ((inWindow q (s.log key) now).map Execution.entry).map Prod.snd =
      (inWindow q (s.log key) now).map Execution.now := by
    rw [List.map_map]
    rfl
  -- the window is not empty, and the script finds its minimum
  cases hmin : ((inWindow q (s.log key) now).map Execution.now).min? with
  | none =>
    rw [List.min?_eq_none_iff, List.map_eq_nil_iff] at hmin
    rw [hmin, List.length_nil] at hfull
    omega
  | some m =>
    obtain ⟨hmem, hleast⟩ := List.min?_eq_some_iff.mp hmin
    obtain ⟨o, ho, rfl⟩ := List.mem_map.mp hmem
    refine ⟨o, ⟨ho, fun e he => hleast e.now (List.mem_map_of_mem he)⟩, ?_⟩
    have hyoung : (now : ℤ) - q.windowMs < o.now := by
      have hwindow := (List.mem_filter.mp ho).2
      rw [decide_eq_true_eq] at hwindow
      exact hwindow.2.1
    have hreset : resetMs ((inWindow q (s.log key) now).map Execution.entry) now q.windowMs 0 =
        o.now + q.windowMs - now := by
      unfold resetMs oldest
      rw [hscores, hmin]
      exact if_neg (by omega)
    have hlen : ((inWindow q (s.log key) now).map Execution.entry).length ≥ (q.limit : ℤ) := by
      rw [List.length_map]
      exact_mod_cast hfull
    unfold script
    simp only [hpruned, if_pos hlen, hreset]
    rfl

end Reply

/-! ## Interleaved calls -/

section Runs

variable {γ : ι → Option Stage} {s s' : Shared ι Unit} {i : ι}

/-- Every execution on the key is that of one call, which has been told of it. -/
structure Told (key : String) (q : Quota) (s : Shared ι Unit) (γ : ι → Option Stage) : Prop where
  told : ∀ before d after, s.log key = before ++ d :: after → ∃ r reply,
    γ d.caller = some (.done r (some reply)) ∧ r.key = key ∧ Tells q before d reply
  apart : ((s.log key).map Execution.caller).Nodup
  logged : ∀ i r reply, γ i = some (.done r reply) → r.key = key →
    ∃ d ∈ s.log key, d.caller = i

theorem told_new : Told key q (Shared.new : Shared ι Unit) fun _ => none where
  told before d after h := by simp [Shared.new] at h
  apart := List.nodup_nil
  logged i r reply h := by cases h

/-- A call that has not run the script is not in the history. -/
theorem Told.not_mem (h : Told key q s γ) (hγ : ∀ r reply, γ i ≠ some (.done r reply)) :
    ∀ d ∈ s.log key, d.caller ≠ i := by
  rintro d hd rfl
  obtain ⟨before, after, hsplit⟩ := List.append_of_mem hd
  obtain ⟨r, reply, hdone, -⟩ := h.told before d after hsplit
  exact hγ r (some reply) hdone

variable [DecidableEq ι]

/-- A step that runs no script on the key. -/
theorem Told.keep (h : Told key q s γ) (hlog : s'.log key = s.log key)
    (hγ : ∀ r reply, γ i ≠ some (.done r reply)) {g' : Stage}
    (hg' : ∀ r reply, g' = .done r reply → r.key ≠ key) :
    Told key q s' (Function.update γ i (some g')) := by
  refine ⟨fun before d after hsplit => ?_, ?_, fun j r reply hj hkey => ?_⟩
  · rw [hlog] at hsplit
    have hne := h.not_mem hγ d (by rw [hsplit]; simp)
    rw [Function.update_of_ne hne]
    exact h.told before d after hsplit
  · rw [hlog]
    exact h.apart
  · rw [hlog]
    by_cases hji : j = i
    · subst hji
      rw [Function.update_self] at hj
      exact absurd hkey (hg' r reply (Option.some.inj hj))
    · rw [Function.update_of_ne hji] at hj
      exact h.logged j r reply hj hkey

/-- A step that runs the script on the key. -/
theorem Told.snoc (h : Told key q s γ) {d : Execution ι}
    (hlog : s'.log key = s.log key ++ [d]) (hγ : ∀ r reply, γ d.caller ≠ some (.done r reply))
    {r : Request} {reply : List ℤ} (hkey : r.key = key) (htells : Tells q (s.log key) d reply) :
    Told key q s' (Function.update γ d.caller (some (.done r (some reply)))) := by
  have hnot := h.not_mem hγ
  refine ⟨fun before e after hsplit => ?_, ?_, fun j r' reply' hj hkey' => ?_⟩
  · rw [hlog] at hsplit
    rcases List.eq_nil_or_concat after with rfl | ⟨after, last, rfl⟩
    · obtain ⟨rfl, hlast⟩ := List.append_inj' hsplit rfl
      obtain ⟨rfl, -⟩ := List.cons_eq_cons.mp hlast
      exact ⟨r, reply, Function.update_self _ _ _, hkey, htells⟩
    · have hsplit : s.log key ++ [d] = (before ++ e :: after) ++ [last] := by simpa using hsplit
      obtain ⟨hold, -⟩ := List.append_inj' hsplit rfl
      rw [Function.update_of_ne (hnot e (by rw [hold]; simp))]
      exact h.told before e after hold
  · rw [hlog, List.map_append, List.nodup_append]
    refine ⟨h.apart, List.nodup_singleton _, fun a ha b hb => ?_⟩
    obtain ⟨e, he, rfl⟩ := List.mem_map.mp ha
    rw [List.mem_singleton.mp hb]
    exact hnot e he
  · rw [hlog]
    by_cases hji : j = d.caller
    · subst hji
      exact ⟨d, by simp, rfl⟩
    · rw [Function.update_of_ne hji] at hj
      obtain ⟨e, he, hcaller⟩ := h.logged j r' reply' hj hkey'
      exact ⟨e, List.mem_append_left _ he, hcaller⟩

/-- An answer leaves the request as it is. -/
theorem request_of_answers {g g' : Stage} {e : Op} {reply : e.Ans}
    (h : stages.answers g e reply g') : g'.request = g.request := by
  cases g with
  | clock r =>
    cases e with
    | clock => obtain rfl : g' = .fetch r reply := h; rfl
    | fetchAdd => exact h.elim
    | invokeScript key now window limit member => exact h.elim
  | fetch r now =>
    cases e with
    | clock => exact h.elim
    | fetchAdd => obtain rfl : g' = .script r now reply := h; rfl
    | invokeScript key now window limit member => exact h.elim
  | script r now seq =>
    cases e with
    | clock => exact h.elim
    | fetchAdd => exact h.elim
    | invokeScript key now window limit member => obtain rfl : g' = .done r reply := h; rfl
  | done r answer => exact h.elim

/-- The invariant of one process, with what its calls have been told. -/
def ToldInv (key : String) (q : Quota) (s : Shared ι Unit) (γ : ι → Option Stage) : Prop :=
  ProcessInv key q s γ ∧ Told key q s γ

/-- One operation of a call in time. -/
theorem ToldInv.handle (h : ToldInv key q s γ) (hlimit : 1 ≤ q.limit) {c : LimiterConfig ι Unit}
    (hc : c.shared = s) {x : Choice} {r : Request} {e : Op}
    {f : e.Ans → Prog Op Op.Ans RateLimitResult} {reply : e.Ans} {g : Stage}
    (hontime : OnTime key q c (.step i x)) (hcounter : CounterFresh c (.step i x))
    (hi : c.calls i = .running r (.op e f)) (hg : γ i = some g) (hasks : stages.asks g e)
    (hs : RateLimit.handle (fun _ => ()) s i e x = some (s', reply)) :
    ∃ g', stages.answers g e reply g' ∧ ToldInv key q s' (Function.update γ i (some g')) := by
  obtain ⟨hprocess, htold⟩ := h
  obtain ⟨g', hanswers, hprocess'⟩ := hprocess.handle hc hontime hcounter hi hg hasks hs
  refine ⟨g', hanswers, hprocess', ?_⟩
  cases g with
  | clock r' =>
    obtain rfl : e = .clock := hasks
    obtain rfl := handle_clock hs
    obtain rfl : g' = .fetch r' reply := hanswers
    exact htold.keep rfl (by simp [hg]) (by simp)
  | fetch r' now' =>
    obtain rfl : e = .fetchAdd := hasks
    obtain ⟨-, rfl⟩ := handle_fetchAdd hs
    obtain rfl : g' = .script r' now' reply := hanswers
    refine htold.keep ?_ ?_ ?_
    · rfl
    · simp [hg]
    · simp
  | script r' now' seq =>
    obtain rfl : e = .invokeScript r'.key now' r'.quota.windowMs r'.quota.limit ⟨now', seq⟩ := hasks
    obtain rfl : g' = .done r' reply := hanswers
    by_cases hkey : r'.key = key
    · subst hc
      have hquota : r'.quota = q := hprocess.1.quota i _ hg hkey
      obtain ⟨hup, hnow⟩ :=
        hontime.script i x r now' r'.quota.windowMs r'.quota.limit ⟨now', seq⟩
          (hkey ▸ f) rfl (by subst hkey; exact hi)
      have hsummary := hprocess.1.summary
      have hfresh := freshMember_of_numbered hprocess.2 hsummary hg hnow
      have htells := hsummary.tells hlimit i hnow hfresh
      rcases handle_script hs with ⟨-, rfl, rfl⟩ | ⟨hdown, -, -⟩
      · subst hkey hquota
        refine htold.snoc (d := executionOf i now' ⟨now', seq⟩ _) (Function.update_self _ _ _) ?_
          rfl htells
        intro r'' reply'' hdone
        rw [show (executionOf i now' _ _).caller = i from rfl, hg] at hdone
        cases hdone
      · rw [hup] at hdown
        cases hdown
    · refine htold.keep ?_ (by simp [hg]) fun r'' reply'' hdone => ?_
      · rcases handle_script hs with ⟨-, rfl, -⟩ | ⟨-, rfl, -⟩
        · exact Function.update_of_ne (Ne.symm hkey) _ _
        · rfl
      · cases hdone
        exact hkey
  | done r' answer => exact hasks.elim

/-- The calls of one process, in time. -/
theorem told_records (key : String) (q : Quota) (hlimit : 1 ≤ q.limit) :
    Pool.Records (limiter fun _ : ι => ()) stages (fun r g => g.request = r)
      (fun g result => Ended g.request g result) (fun _ => True) Stage.clock (ToldInv key q)
      (fun c a => OnTime key q c a ∧ CounterFresh c a) where
  prog r := by
    refine (checkRateLimitInner_obeys r).mono fun g result hended => ?_
    obtain ⟨reply, rfl, hresult⟩ := hended
    exact ⟨reply, rfl, hresult⟩
  typed r := rfl
  start c i r s γ hguard hJ hγ hs := by
    cases hs
    obtain ⟨hprocess, htold⟩ := hJ
    refine ⟨⟨hprocess.1.stage hprocess.1.summary ?_, hprocess.2.other (by simp)⟩, ?_⟩
    · intro g hg
      obtain rfl := Option.some.inj hg
      exact hguard.1.quota i r rfl
    · exact htold.keep rfl (by simp [hγ]) (by simp)
  handle c i x r e f s reply γ g hguard hJ _ hi hg htyped hasks hs := by
    obtain ⟨g', hanswers, hJ'⟩ := hJ.handle hlimit rfl hguard.1 hguard.2 hi hg hasks hs
    exact ⟨g', hanswers, (request_of_answers hanswers).trans htyped, hJ'⟩
  drop c i s γ g _ hJ _ hs := by
    cases hs
    exact ⟨hJ, trivial⟩
  env c x s γ hguard hJ hs := by
    obtain ⟨hprocess, htold⟩ := hJ
    have hprocess' := (process_keeps key q).env c x s γ hguard hprocess hs
    obtain ⟨key', time, rfl, rfl⟩ := env_expire hs
    exact ⟨hprocess', htold.told, htold.apart, htold.logged⟩

omit [DecidableEq ι] in
/-- What a call on the key has been told, by its place in the history. -/
theorem told_of_returned {c : LimiterConfig ι Unit} {r : Request} {result : RateLimitResult}
    (hJ : ToldInv key q c.shared γ)
    (hT : ∀ j, Pool.Tracked stages (fun r g => g.request = r)
      (fun g result => Ended g.request g result) (fun _ => True) (γ j) (c.calls j))
    (hi : c.calls i = .returned r result) {before after : List (Execution ι)} {d : Execution ι}
    (hlog : c.shared.log key = before ++ d :: after) (hd : d.caller = i) :
    ∃ reply, result = resultOf q (some reply) ∧ Tells q before d reply := by
  obtain ⟨r', reply, hdone, hkey, htells⟩ := hJ.2.told before d after hlog
  have hcall := hT i
  rw [hi] at hcall
  obtain ⟨g, hg, -, hended⟩ := hcall
  rw [hd, hg] at hdone
  obtain rfl := Option.some.inj hdone
  obtain ⟨reply', hsame, rfl⟩ := hended
  obtain ⟨-, rfl⟩ := Stage.done.inj hsame
  have hquota : r'.quota = q := hJ.1.1.quota i _ hg hkey
  exact ⟨reply, by rw [← hquota]; rfl, htells⟩

/-- Calls of one process on a key with a fixed quota: the wait that a denied call is told is
    enough, and not a second too long. -/
theorem retryAfter_of_meets (key : String) (q : Quota) (hlimit : 1 ≤ q.limit)
    (init c : LimiterConfig ι Unit) (acts : List (Act ι Request Choice))
    (hinit : (limiter fun _ : ι => ()).machine.init init)
    (hrun : (limiter fun _ : ι => ()).machine.run init acts = some c)
    (hmeets : (limiter fun _ : ι => ()).machine.Meets
      (fun c a => OnTime key q c a ∧ CounterFresh c a) init acts) : RetryAfterExact key q c := by
  obtain ⟨hnew, hidle⟩ := hinit
  have hnew : init.shared = .new := hnew
  have hJ₀ : ToldInv key q init.shared fun _ => none := by
    rw [hnew]
    exact ⟨⟨⟨summary_new key q, fun i g hg => by cases hg⟩, numbered_new⟩, told_new⟩
  obtain ⟨γ, hJ, hT⟩ := (told_records key q hlimit).record_of_meets
    (Pool.record_init hJ₀ hidle) hmeets hrun
  have hsummary := hJ.1.1.summary
  -- what a denied call has been told, by its place in the history
  have hdenied : ∀ (i : ι) (r : Request) (result : RateLimitResult) before d after,
      c.calls i = .returned r result → result.allowed = false →
      c.shared.log key = before ++ d :: after → d.caller = i → d.allowed = false ∧
      ∃ o, Oldest q before d.now o ∧
        result.resetSecs = resetSecs q.windowSecs (o.now + q.windowMs - d.now) := by
    intro i r result before d after hi hresult hlog hd
    obtain ⟨reply, rfl, htells⟩ := told_of_returned hJ hT hi hlog hd
    have hd' : d.allowed = false := htells.allowed ▸ hresult
    exact ⟨hd', htells.wait hd'⟩
  have hwithin : ∀ before d after (o : Execution ι), c.shared.log key = before ++ d :: after →
      Oldest q before d.now o → 1 ≤ o.now + q.windowMs - d.now ∧
        o.now + q.windowMs - d.now ≤ q.windowSecs * 1000 := by
    intro before d after o hlog ho
    obtain ⟨-, hyoung, hpast⟩ := of_decide_eq_true (List.mem_filter.mp ho.1).2
    unfold Quota.windowMs at *
    push_cast at *
    omega
  -- the call after a denied one is allowed when the oldest call has left
  have hnext : ∀ before d e after (o : Execution ι) (j : ι) (r' : Request)
      (result' : RateLimitResult), c.shared.log key = before ++ d :: e :: after →
      d.allowed = false → Oldest q before d.now o → c.calls j = .returned r' result' →
      e.caller = j → (result'.allowed = true ↔ o.now + q.windowMs ≤ e.now) := by
    intro before d e after o j r' result' hlog hd ho hj he
    have hsplit : c.shared.log key = (before ++ [d]) ++ e :: after := by simpa using hlog
    obtain ⟨reply, rfl, htells⟩ := told_of_returned hJ hT hj hsplit he
    rw [htells.allowed]
    refine allowed_after_denied (hlog ▸ hsummary.ordered) (hsummary.judged _ _ _ hlog)
      (hsummary.judged _ _ _ hsplit) hd ?_ ho
    rw [← hlog]
    exact hsummary.windows
  refine ⟨fun i r result hi hr hresult => ?_, fun i j r r' result result' before after d e
    hi hr hresult hj hlog hd he hlater => ?_, fun i j r r' result result' before after d e
    hi hr hresult hj hlog hd he htwo hearly => ?_⟩
  · have hcall := hT i
    rw [hi] at hcall
    obtain ⟨g, hg, hrequest, reply, hdone, -⟩ := hcall
    rw [hrequest] at hdone
    subst hdone
    obtain ⟨d, hmem, hd⟩ := hJ.2.logged i r reply hg hr
    obtain ⟨before, after, hlog⟩ := List.append_of_mem hmem
    obtain ⟨-, o, ho, hsecs⟩ := hdenied i r result before d after hi hresult hlog hd
    obtain ⟨hpos, hle⟩ := hwithin before d after o hlog ho
    obtain ⟨h₁, h₂, -⟩ := resetSecs_bounds hpos hle q.fits
    rw [hsecs]
    exact ⟨h₁, h₂⟩
  · obtain ⟨hd', o, ho, hsecs⟩ := hdenied i r result before d _ hi hresult hlog hd
    obtain ⟨hpos, hle⟩ := hwithin before d _ o hlog ho
    obtain ⟨-, -, hcover, -⟩ := resetSecs_bounds hpos hle q.fits
    refine (hnext before d e after o j r' result' hlog hd' ho hj he).mpr ?_
    rw [hsecs] at hlater
    omega
  · obtain ⟨hd', o, ho, hsecs⟩ := hdenied i r result before d _ hi hresult hlog hd
    obtain ⟨hpos, hle⟩ := hwithin before d _ o hlog ho
    obtain ⟨-, -, -, hshort⟩ := resetSecs_bounds hpos hle q.fits
    by_contra hallowed
    have hgone := (hnext before d e after o j r' result' hlog hd' ho hj he).mp
      (Bool.eq_true_of_not_eq_false hallowed)
    rw [hsecs] at hearly
    omega

end Runs

/-- One call in three seconds. -/
def oneInThree : Request := ⟨"rl:user:write:1", ⟨1, 3, by omega, by norm_num⟩⟩

/-- An allowed call; one that is denied 1.5 seconds later and told to wait 2 seconds; one that
    comes a second early; and one at the end of the wait that this one is told. -/
def waitedOut : List (Act ℕ Request Choice) :=
  callAt 0 oneInThree 1000 ++ callAt 1 oneInThree 2500 ++ callAt 2 oneInThree 3500 ++
    callAt 3 oneInThree 4500

theorem retryAfter_of_meets_waitedOut :
    ∃ c : LimiterConfig ℕ Unit,
      (limiter fun _ : ℕ => ()).machine.run ⟨.new, fun _ => .idle⟩ waitedOut = some c ∧
      c.calls 1 = .returned oneInThree ⟨false, 1, 1, 2⟩ ∧
      c.calls 2 = .returned oneInThree ⟨false, 1, 1, 1⟩ ∧
      (c.shared.log oneInThree.key).map (fun e => (e.now, e.allowed)) =
        [(1000, true), (2500, false), (3500, false), (4500, true)] ∧
      RetryAfterExact oneInThree.key oneInThree.quota c := by
  have hview : ((limiter fun _ : ℕ => ()).machine.run ⟨.new, fun _ => .idle⟩ waitedOut).map
      (fun c : LimiterConfig ℕ Unit => ((c.calls 1).result, (c.calls 2).result,
        (c.shared.log oneInThree.key).map fun e => (e.now, e.allowed))) =
      some (some (oneInThree, ⟨false, 1, 1, 2⟩), some (oneInThree, ⟨false, 1, 1, 1⟩),
        [(1000, true), (2500, false), (3500, false), (4500, true)]) := by
    decide +kernel
  obtain ⟨c, hrun, hseen⟩ := Option.map_eq_some_iff.mp hview
  obtain ⟨h₁, hseen⟩ := Prod.mk.inj hseen
  obtain ⟨h₂, hlog⟩ := Prod.mk.inj hseen
  refine ⟨c, hrun, CallState.returned_of_result h₁, CallState.returned_of_result h₂, hlog, ?_⟩
  have hchecks : (limiter fun _ : ℕ => ()).machine.meetsAll
      (fun c a => onTime oneInThree.key oneInThree.quota c a && counterFresh c a)
      ⟨.new, fun _ => .idle⟩ waitedOut = true := by
    decide +kernel
  apply retryAfter_of_meets oneInThree.key oneInThree.quota (by decide)
    (⟨.new, fun _ => .idle⟩ : LimiterConfig ℕ Unit) c waitedOut ⟨rfl, fun _ => rfl⟩ hrun
  apply Machine.meets_of_meetsAll _ hchecks
  intro c a h
  obtain ⟨hontime, hcounter⟩ := Bool.and_eq_true_iff.mp h
  exact ⟨onTime_sound c a hontime, counterFresh_sound c a hcounter⟩

end SocialApi.RateLimit
