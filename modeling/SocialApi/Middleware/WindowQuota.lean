import SocialApi.Middleware.RateLimit

/-!
# The sliding window of the rate limiter

The sorted set is an exact summary of the history of a key: as long as no allowed call
finds its member in the set, its entries are the allowed calls from some time on that
no later call looks behind.

* `Summary.execute`, `Summary.expire`: an execution and an expiry keep the summary.
* `Summary.left_of_kept`: a key that Redis keeps for its time to live expires late enough.
* `Summary.windows`: no half-open interval of a window's length has more allowed calls
  than the limit.
* `QuotaInv.handle`, `Returned.step`: interleaved calls keep the summary, and each
  returns what its execution decided.
-/

namespace SocialApi.RateLimit

open SocialApi.Concurrent SocialApi.SlidingWindow

variable {ι ρ : Type}

/-! ## Specification -/

/-- The allowed calls. -/
def allowedCalls (log : List (Execution ι)) : List (Execution ι) := log.filter fun e => e.allowed

/-- The allowed calls with a timestamp in `(now - window, now]`. -/
def inWindow (q : Quota) (log : List (Execution ι)) (now : ℤ) : List (Execution ι) :=
  log.filter fun e => e.allowed ∧ now - q.windowMs < e.now ∧ e.now ≤ now

/-- An execution after `before`: allowed when fewer than the limit are in the window, and
    told their number, itself included when allowed. -/
structure Judged (q : Quota) (before : List (Execution ι)) (e : Execution ι) : Prop where
  allowed : e.allowed = true ↔ (inWindow q before e.now).length < q.limit
  current : e.current = (inWindow q before e.now).length + if e.allowed then 1 else 0

/-- The allowed calls with a timestamp in `(t, t + window]`. -/
def inInterval (q : Quota) (log : List (Execution ι)) (t : ℤ) : List (Execution ι) :=
  log.filter fun e => e.allowed ∧ t < e.now ∧ e.now ≤ t + q.windowMs

/-- No interval of a window's length has more allowed calls than the limit. -/
def WindowsBounded (key : String) (q : Quota) (c : LimiterConfig ι ρ) : Prop :=
  ∀ t, (inInterval q (c.shared.log key) t).length ≤ q.limit

/-- Every call on the key is judged exactly, and returns what it was judged. -/
structure WindowExact (key : String) (q : Quota) (c : LimiterConfig ι ρ) : Prop where
  judged : ∀ before e after, c.shared.log key = before ++ e :: after → Judged q before e
  returned : ∀ i r result, c.calls i = .returned r result → r.key = key →
    ∃ e ∈ c.shared.log key, e.caller = i ∧ result.allowed = e.allowed ∧
      result.current = e.current
  windows : WindowsBounded key q c

/-! ## The sorted set as a summary -/

/-- The entry of an allowed call. -/
def Execution.entry (e : Execution ι) : Entry := (e.member, e.now)

/-- What the sorted set of a key knows of its history. -/
structure Summary (key : String) (q : Quota) (s : Shared ι ρ) : Prop where
  nonneg : ∀ e ∈ s.log key, 0 ≤ e.now
  past : ∀ e ∈ s.log key, e.now ≤ s.time key
  ordered : Ordered Execution.now (s.log key)
  entries : ∃ cutoff ≤ s.time key - q.windowMs + 1,
    (s.keys key).entries =
      (recent Execution.now cutoff (allowedCalls (s.log key))).map Execution.entry
  ttl : (s.keys key).entries ≠ [] → q.windowMs + 10000 ≤ 1000 * (s.keys key).ttlSecs
  judged : ∀ before e after, s.log key = before ++ e :: after → Judged q before e

theorem summary_new (key : String) (q : Quota) : Summary key q (Shared.new : Shared ι ρ) where
  nonneg e he := by simp [Shared.new] at he
  past e he := by simp [Shared.new] at he
  ordered := List.Pairwise.nil
  entries := ⟨_, le_refl _, rfl⟩
  ttl h := absurd rfl h
  judged before e after h := by simp [Shared.new] at h

/-- Without timestamps after `now`, the window ends at the last of them. -/
theorem inWindow_eq {q : Quota} {log : List (Execution ι)} {now : ℤ}
    (h : ∀ e ∈ log, e.now ≤ now) :
    inWindow q log now = recent Execution.now (now - q.windowMs + 1) (allowedCalls log) := by
  unfold inWindow recent allowedCalls
  rw [List.filter_filter]
  apply List.filter_congr
  intro e he
  have hle := h e he
  rw [Bool.eq_iff_iff]
  simp only [Bool.decide_and, Bool.decide_eq_true, Bool.and_eq_true, decide_eq_true_eq]
  constructor
  · rintro ⟨hallowed, hlow, -⟩
    exact ⟨by omega, hallowed⟩
  · rintro ⟨hlow, hallowed⟩
    exact ⟨hallowed, by omega, hle⟩

/-- Pruning the entries of a history prunes the history. -/
theorem zremrangebyscore_entries {now window : ℤ} {log : List (Execution ι)}
    (h : ∀ e ∈ log, 0 ≤ e.now) :
    zremrangebyscore (log.map Execution.entry) 0 (now - window) =
      (recent Execution.now (now - window + 1) log).map Execution.entry := by
  unfold zremrangebyscore recent
  rw [List.filter_map]
  congr 1
  apply List.filter_congr
  intro e he
  have hnonneg := h e he
  rw [Function.comp_apply, decide_eq_decide]
  show ¬(0 ≤ e.now ∧ e.now ≤ now - window) ↔ now - window + 1 ≤ e.now
  omega

section Script

variable {key : ZKey} {now : ℕ} {window limit : ℤ} {member : Member} {entries : List Entry}

/-- No room: pruning is all that happens. -/
theorem script_of_full (hpruned : zremrangebyscore key.entries 0 (now - window) = entries)
    (h : limit ≤ entries.length) (i : ι) :
    (script key now window limit member).1.entries = entries ∧
      executionOf i now member (script key now window limit member).2 =
        ⟨i, now, member, false, entries.length⟩ := by
  unfold script
  simp only [hpruned, ge_iff_le]
  rw [if_pos h]
  exact ⟨rfl, rfl⟩

/-- Room: the member is added, if it is not there already. -/
theorem script_of_room (hpruned : zremrangebyscore key.entries 0 (now - window) = entries)
    (h : entries.length < limit) (hmember : member ∉ entries.map Prod.fst) (i : ι) :
    (script key now window limit member).1.entries = entries ++ [(member, (now : ℤ))] ∧
      executionOf i now member (script key now window limit member).2 =
        ⟨i, now, member, true, entries.length + 1⟩ := by
  unfold script
  simp only [hpruned, ge_iff_le]
  rw [if_neg (not_le.mpr h), zadd, if_neg hmember]
  exact ⟨rfl, rfl⟩

end Script

variable {key : String} {q : Quota} {s : Shared ι ρ}

/-- What pruning leaves is the window that ends now. -/
theorem Summary.pruned (h : Summary key q s) {now : ℤ} (hnow : s.time key ≤ now) :
    zremrangebyscore (s.keys key).entries 0 (now - q.windowMs) =
      (inWindow q (s.log key) now).map Execution.entry := by
  obtain ⟨cutoff, hcutoff, hentries⟩ := h.entries
  have hpast : ∀ e ∈ s.log key, e.now ≤ now := fun e he => (h.past e he).trans hnow
  have hnonneg : ∀ e ∈ recent Execution.now cutoff (allowedCalls (s.log key)), 0 ≤ e.now := by
    intro e he
    exact h.nonneg e (List.mem_of_mem_filter (mem_recent.mp he).1)
  rw [hentries, zremrangebyscore_entries hnonneg, recent_recent (by omega), inWindow_eq hpast]

/-- Judging one more execution. -/
theorem judged_snoc {log : List (Execution ι)} {e : Execution ι}
    (h : ∀ before e after, log = before ++ e :: after → Judged q before e) (he : Judged q log e) :
    ∀ before e' after, log ++ [e] = before ++ e' :: after → Judged q before e' := by
  intro before e' after hsplit
  rcases List.eq_nil_or_concat after with rfl | ⟨after, last, rfl⟩
  · obtain ⟨rfl, hlast⟩ := List.append_inj' hsplit rfl
    obtain ⟨rfl, -⟩ := List.cons_eq_cons.mp hlast
    exact he
  · have hsplit : log ++ [e] = (before ++ e' :: after) ++ [last] := by simpa using hsplit
    obtain ⟨hlog, -⟩ := List.append_inj' hsplit rfl
    exact h before e' after hlog

/-- The member of an allowed call is not in the set yet. -/
def Shared.FreshMember (s : Shared ι ρ) (key : String) (q : Quota) (now : ℕ) (member : Member) :
    Prop :=
  let entries := zremrangebyscore (s.keys key).entries 0 (now - q.windowMs)
  entries.length < q.limit → member ∉ entries.map Prod.fst

theorem windowMs_pos (q : Quota) : 0 < q.windowMs := Nat.mul_pos q.positive (by omega)

/-- What an execution decides, and what it leaves in the set. -/
theorem Summary.decided (h : Summary key q s) (i : ι) {now : ℕ} {member : Member}
    (hnow : s.time key ≤ now) (hfresh : s.FreshMember key q now member) :
    let e := executionOf i now member (script (s.keys key) now q.windowMs q.limit member).2
    e.now = now ∧ Judged q (s.log key) e ∧
      (script (s.keys key) now q.windowMs q.limit member).1.entries =
        (recent Execution.now (now - q.windowMs + 1)
          (allowedCalls (s.log key ++ [e]))).map Execution.entry := by
  have hpruned := h.pruned hnow
  have hwindow := inWindow_eq (q := q) fun e he => (h.past e he).trans hnow
  by_cases hroom : (inWindow q (s.log key) now).length < q.limit
  · have hmember : member ∉ ((inWindow q (s.log key) now).map Execution.entry).map Prod.fst := by
      unfold Shared.FreshMember at hfresh
      simp only [hpruned, List.length_map] at hfresh
      exact hfresh hroom
    have hlen : (((inWindow q (s.log key) now).map Execution.entry).length : ℤ) < q.limit := by
      rw [List.length_map]
      exact_mod_cast hroom
    obtain ⟨hentries, he⟩ := script_of_room hpruned hlen hmember i
    have hlast : allowedCalls (s.log key ++ [(⟨i, now, member, true, (inWindow q (s.log key)
        now).length + 1⟩ : Execution ι)]) = allowedCalls (s.log key) ++ [⟨i, now, member, true,
          (inWindow q (s.log key) now).length + 1⟩] := by
      simp [allowedCalls]
    have hpos := windowMs_pos q
    simp only [he, List.length_map]
    refine ⟨trivial, ⟨by simpa using hroom, by simp⟩, ?_⟩
    rw [hentries, hlast, recent_append, recent_singleton (by simp; omega), ← hwindow]
    simp [Execution.entry]
  · obtain ⟨hentries, he⟩ : (script (s.keys key) now q.windowMs q.limit member).1.entries = _ ∧
        executionOf i now member (script (s.keys key) now q.windowMs q.limit member).2 = _ :=
      script_of_full hpruned (by rw [List.length_map]; exact_mod_cast not_lt.mp hroom) i
    have hlast : allowedCalls (s.log key ++ [(⟨i, now, member, false, (inWindow q (s.log key)
        now).length⟩ : Execution ι)]) = allowedCalls (s.log key) := by
      simp [allowedCalls]
    simp only [he, List.length_map]
    refine ⟨trivial, ⟨by simpa using hroom, by simp⟩, ?_⟩
    rw [hentries, hlast, ← hwindow]

/-- A key that has entries after an execution lives for ten seconds more than the window. -/
theorem script_ttl {key : ZKey} {now window limit : ℤ} {member : Member}
    (h : key.entries ≠ [] → window + 10000 ≤ 1000 * key.ttlSecs) :
    (script key now window limit member).1.entries ≠ [] →
      window + 10000 ≤ 1000 * (script key now window limit member).1.ttlSecs := by
  unfold script
  simp only
  split_ifs with hfull
  · intro hne
    refine h fun hnil => hne ?_
    show zremrangebyscore key.entries 0 (now - window) = []
    rw [hnil]
    rfl
  · intro _
    show window + 10000 ≤ 1000 * ((window + 999) / 1000 + 10)
    omega

/-- One more execution, judged exactly, with the entries its window leaves. -/
theorem Summary.snoc (h : Summary key q s) {s' : Shared ι ρ} {e : Execution ι}
    (hnow : s.time key ≤ e.now) (hnonneg : 0 ≤ e.now) (hjudged : Judged q (s.log key) e)
    (hlog : s'.log key = s.log key ++ [e]) (htime : s'.time key = e.now)
    (httl : (s'.keys key).entries ≠ [] → q.windowMs + 10000 ≤ 1000 * (s'.keys key).ttlSecs)
    (hentries : (s'.keys key).entries =
      (recent Execution.now (e.now - q.windowMs + 1)
        (allowedCalls (s.log key ++ [e]))).map Execution.entry) : Summary key q s' := by
  have hpast : ∀ d ∈ s.log key, d.now ≤ e.now := fun d hd => (h.past d hd).trans hnow
  refine ⟨fun d hd => ?_, fun d hd => ?_, ?_, ⟨e.now - q.windowMs + 1, htime ▸ le_refl _, ?_⟩, httl,
    ?_⟩
  · rw [hlog, List.mem_append, List.mem_singleton] at hd
    rcases hd with hd | rfl
    · exact h.nonneg d hd
    · exact hnonneg
  · rw [hlog, List.mem_append, List.mem_singleton] at hd
    rw [htime]
    rcases hd with hd | rfl
    · exact hpast d hd
    · exact le_refl _
  · rw [hlog]
    exact h.ordered.append_singleton hpast
  · rw [hentries, hlog]
  · rw [hlog]
    exact judged_snoc h.judged hjudged

/-- An execution in time, whose member is not in the set if there is room for it. -/
theorem Summary.execute (h : Summary key q s) (i : ι) {now : ℕ} {member : Member}
    (hnow : s.time key ≤ now) (hfresh : s.FreshMember key q now member) :
    Summary key q (s.execute i key now q.windowMs q.limit member).1 := by
  obtain ⟨hat, hjudged, hentries⟩ := h.decided i hnow hfresh
  have hkey : (s.execute i key now q.windowMs q.limit member).1.keys key =
      (script (s.keys key) now q.windowMs q.limit member).1 := Function.update_self _ _ _
  refine h.snoc (hat ▸ hnow) (by omega) hjudged ?_ ?_ ?_ ?_
  · exact Function.update_self _ _ _
  · exact (Function.update_self _ _ _).trans hat.symm
  · rw [hkey]
    exact script_ttl h.ttl
  · rw [hat, ← hentries, hkey]

/-- An expiry when no allowed call is younger than the window. -/
theorem Summary.expire (h : Summary key q s) {time : ℤ} (htime : s.time key ≤ time)
    (hold : ∀ e ∈ s.log key, e.allowed → e.now + q.windowMs ≤ time) :
    Summary key q (s.expire key time) := by
  refine ⟨h.nonneg, fun e he => ?_, h.ordered, ⟨time - q.windowMs + 1, ?_, ?_⟩, fun hne => ?_,
    h.judged⟩
  · show e.now ≤ Function.update s.time key time key
    rw [Function.update_self]
    exact (h.past e he).trans htime
  · show _ ≤ Function.update s.time key time key - _ + 1
    rw [Function.update_self]
  · have hnone : recent Execution.now (time - q.windowMs + 1) (allowedCalls (s.log key)) = [] := by
      unfold recent
      rw [List.filter_eq_nil_iff]
      intro e he
      obtain ⟨hmem, hallowed⟩ := List.mem_filter.mp he
      have := hold e hmem hallowed
      simp only [decide_eq_true_eq]
      omega
    show (Function.update s.keys key ZKey.absent key).entries =
      (recent Execution.now _ (allowedCalls (s.log key))).map _
    rw [Function.update_self, hnone]
    rfl
  · refine absurd ?_ hne
    show (Function.update s.keys key ZKey.absent key).entries = []
    rw [Function.update_self]
    rfl

/-- Redis has kept the key, up to the given time, for the seconds that its last `EXPIRE` gave it:
    each entry was added at its score or later. -/
def Shared.KeptUntil (s : Shared ι ρ) (key : String) (time : ℤ) : Prop :=
  ∀ e ∈ (s.keys key).entries, e.2 + 1000 * (s.keys key).ttlSecs ≤ time

/-- Ten seconds before a key that was kept expires, every allowed call has left the window. -/
theorem Summary.left_of_kept (h : Summary key q s) {time : ℤ} (htime : s.time key ≤ time)
    (hkept : s.KeptUntil key (time + 10000)) :
    ∀ e ∈ s.log key, e.allowed → e.now + q.windowMs ≤ time := by
  intro e he hallowed
  obtain ⟨cutoff, hcutoff, hentries⟩ := h.entries
  by_cases hrecent : cutoff ≤ e.now
  · have hmem : e.entry ∈ (s.keys key).entries := by
      rw [hentries]
      exact List.mem_map_of_mem (mem_recent.mpr ⟨List.mem_filter.mpr ⟨he, hallowed⟩, hrecent⟩)
    have httl := h.ttl (List.ne_nil_of_mem hmem)
    have hlived : e.now + 1000 * (s.keys key).ttlSecs ≤ time + 10000 := hkept _ hmem
    omega
  · omega

/-- What happens to other keys does not matter. -/
theorem Summary.frame (h : Summary key q s) {s' : Shared ι ρ} (hkeys : s'.keys key = s.keys key)
    (hlog : s'.log key = s.log key) (htime : s'.time key = s.time key) : Summary key q s' where
  nonneg := by rw [hlog]; exact h.nonneg
  past := by rw [hlog, htime]; exact h.past
  ordered := by rw [hlog]; exact h.ordered
  entries := by rw [hkeys, hlog, htime]; exact h.entries
  ttl := by rw [hkeys]; exact h.ttl
  judged := by rw [hlog]; exact h.judged

/-- No interval of a window's length has more allowed calls than the limit. -/
theorem Summary.windows (h : Summary key q s) (t : ℤ) :
    (inInterval q (s.log key) t).length ≤ q.limit := by
  have hinterval : inInterval q (s.log key) t =
      (allowedCalls (s.log key)).filter fun e => t < e.now ∧ e.now ≤ t + q.windowMs := by
    unfold inInterval allowedCalls
    rw [List.filter_filter]
    apply List.filter_congr
    intro e _
    simp only [Bool.decide_and, Bool.decide_eq_true]
    rw [Bool.and_comm]
  rw [hinterval]
  apply length_between_le
  intro before e after hsplit
  -- the allowed calls before `e` are those of the executions before it
  obtain ⟨log, rest, hlog, rfl, hrest⟩ := List.filter_eq_append_iff.mp hsplit
  obtain ⟨denied, after', rfl, hdenied, hallowed, -⟩ := List.filter_eq_cons_iff.mp hrest
  have hbefore : allowedCalls (log ++ denied) = log.filter fun e => e.allowed := by
    unfold allowedCalls
    rw [List.filter_append, List.filter_eq_nil_iff.mpr hdenied, List.append_nil]
  have hsplit' : s.log key = (log ++ denied) ++ e :: after' := by
    rw [hlog, List.append_assoc]
  have hpast : ∀ d ∈ log ++ denied, d.now ≤ e.now := by
    intro d hd
    have hord := h.ordered
    rw [hsplit'] at hord
    exact (List.pairwise_append.mp hord).2.2 d hd e List.mem_cons_self
  have hjudged := (h.judged _ _ _ hsplit').allowed.mp hallowed
  rwa [inWindow_eq hpast, hbefore] at hjudged

/-! ## The order of a call's operations -/

/-- How far a call is. -/
inductive Stage where
  | clock (r : Request)
  | fetch (r : Request) (now : ℕ)
  | script (r : Request) (now seq : ℕ)
  | done (r : Request) (reply : Option (List ℤ))
  deriving DecidableEq, Repr

/-- The request of a call. -/
def Stage.request : Stage → Request
  | clock r => r
  | fetch r _ => r
  | script r _ _ => r
  | done r _ => r

/-- What a call does next at each stage. -/
def stages : Protocol Op Op.Ans Stage where
  asks
    | .clock _, o => o = .clock
    | .fetch _ _, o => o = .fetchAdd
    | .script r now seq, o =>
      o = .invokeScript r.key now r.quota.windowMs r.quota.limit ⟨now, seq⟩
    | .done _ _, _ => False
  answers
    | .clock r, .clock, now, g' => g' = .fetch r now
    | .fetch r now, .fetchAdd, seq, g' => g' = .script r now seq
    | .script r _ _, .invokeScript _ _ _ _ _, reply, g' => g' = .done r reply
    | _, _, _, _ => False

/-- A call ends with the result of the reply it got. -/
def Ended (r : Request) (g : Stage) (result : RateLimitResult) : Prop :=
  ∃ reply, g = .done r reply ∧ result = resultOf r.quota reply

theorem checkRateLimitInner_obeys (r : Request) :
    stages.Obeys (Ended r) (.clock r) (checkRateLimitInner r) := by
  refine ⟨rfl, ?_⟩
  intro now g hg
  subst hg
  refine ⟨rfl, ?_⟩
  intro seq g hg
  subst hg
  refine ⟨rfl, ?_⟩
  intro reply g hg
  exact ⟨reply, hg, rfl⟩

/-- The reply of the script, as an execution and as a result. -/
theorem resultOf_reply (r : Quota) (i : ι) (key : ZKey) (now : ℕ) (window limit : ℤ)
    (member : Member) :
    (resultOf r (some (script key now window limit member).2)).allowed =
        (executionOf i now member (script key now window limit member).2).allowed ∧
      (resultOf r (some (script key now window limit member).2)).current =
        (executionOf i now member (script key now window limit member).2).current := by
  unfold script
  dsimp only
  split
  · exact ⟨rfl, rfl⟩
  · exact ⟨rfl, rfl⟩

/-! ## Interleaved calls -/

section Runs

variable {home : ι → ρ} {γ : ι → Option Stage}

/-- The calls on the key have the quota `q`, Redis answers them, and timestamps on the key do not
    decrease: none is older than an execution or an expiry of the key before it. -/
structure Orderly (key : String) (q : Quota) (c : LimiterConfig ι ρ)
    (a : Act ι Request Choice) : Prop where
  quota : ∀ i r, a = .start i r → r.key = key → r.quota = q
  script : ∀ i x r now window limit member f, a = .step i x →
    c.calls i = .running r (.op (.invokeScript key now window limit member) f) →
      x = .any ∧ c.shared.time key ≤ now

/-- `Orderly`, and the key expires no earlier than a window after its last `ZADD`. -/
structure OnTime (key : String) (q : Quota) (c : LimiterConfig ι ρ)
    (a : Act ι Request Choice) : Prop extends Orderly key q c a where
  expiry : ∀ time, a = .env (.expire key time) → c.shared.time key ≤ time ∧
    ∀ e ∈ c.shared.log key, e.allowed → e.now + q.windowMs ≤ time

/-- `Orderly`, and Redis keeps the key for its time to live, which is ten seconds more than the
    window. An expiry is entered ten seconds early: no script after it has a timestamp more than
    ten seconds older than the expiry. -/
structure Kept (key : String) (q : Quota) (c : LimiterConfig ι ρ)
    (a : Act ι Request Choice) : Prop extends Orderly key q c a where
  expiry : ∀ time, a = .env (.expire key time) →
    c.shared.time key ≤ time ∧ c.shared.KeptUntil key (time + 10000)

theorem Kept.onTime {c : LimiterConfig ι ρ} {a : Act ι Request Choice} (h : Kept key q c a)
    (hsummary : Summary key q c.shared) : OnTime key q c a where
  toOrderly := h.toOrderly
  expiry time ha := by
    obtain ⟨htime, hkept⟩ := h.expiry time ha
    exact ⟨htime, hsummary.left_of_kept htime hkept⟩

/-- `Orderly`, computed. -/
def orderly (key : String) (q : Quota) (c : LimiterConfig ι ρ) : Act ι Request Choice → Bool
  | .start _ r => decide (r.key = key → r.quota = q)
  | .step i x =>
    match c.calls i with
    | .running _ (.op (.invokeScript key' now _ _ _) _) =>
      decide (key' = key → x = .any ∧ c.shared.time key ≤ now)
    | _ => true
  | _ => true

/-- `OnTime`, computed. -/
def onTime (key : String) (q : Quota) (c : LimiterConfig ι ρ) (a : Act ι Request Choice) : Bool :=
  orderly key q c a && match a with
    | .env (.expire key' time) => decide (key' = key → c.shared.time key ≤ time ∧
        ∀ e ∈ c.shared.log key, e.allowed → e.now + q.windowMs ≤ time)
    | _ => true

/-- `Kept`, computed. -/
def kept (key : String) (q : Quota) (c : LimiterConfig ι ρ) (a : Act ι Request Choice) : Bool :=
  orderly key q c a && match a with
    | .env (.expire key' time) => decide (key' = key → c.shared.time key ≤ time ∧
        ∀ e ∈ (c.shared.keys key).entries,
          e.2 + 1000 * (c.shared.keys key).ttlSecs ≤ time + 10000)
    | _ => true

theorem orderly_sound (c : LimiterConfig ι ρ) (a : Act ι Request Choice)
    (h : orderly key q c a = true) : Orderly key q c a := by
  constructor
  · rintro i r rfl
    exact of_decide_eq_true h
  · rintro i x r now window limit member f rfl hi
    simp only [orderly, hi] at h
    exact of_decide_eq_true h trivial

theorem onTime_sound (c : LimiterConfig ι ρ) (a : Act ι Request Choice)
    (h : onTime key q c a = true) : OnTime key q c a := by
  obtain ⟨horderly, hexpiry⟩ := Bool.and_eq_true_iff.mp h
  refine ⟨orderly_sound c a horderly, ?_⟩
  rintro time rfl
  exact of_decide_eq_true hexpiry rfl

theorem kept_sound (c : LimiterConfig ι ρ) (a : Act ι Request Choice)
    (h : kept key q c a = true) : Kept key q c a := by
  obtain ⟨horderly, hexpiry⟩ := Bool.and_eq_true_iff.mp h
  refine ⟨orderly_sound c a horderly, ?_⟩
  rintro time rfl
  exact of_decide_eq_true hexpiry rfl

/-- The set is a summary of the key's history, and its calls have its quota. -/
structure QuotaInv (key : String) (q : Quota) (s : Shared ι ρ) (γ : ι → Option Stage) :
    Prop where
  summary : Summary key q s
  quota : ∀ i g, γ i = some g → g.request.key = key → g.request.quota = q

theorem QuotaInv.stage [DecidableEq ι] (h : QuotaInv key q s γ) {i : ι} {γ' : Option Stage}
    {s' : Shared ι ρ}
    (hs' : Summary key q s') (hγ' : ∀ g, γ' = some g → g.request.key = key → g.request.quota = q) :
    QuotaInv key q s' (Function.update γ i γ') := by
  refine ⟨hs', fun j g hg => ?_⟩
  by_cases hji : j = i
  · subst hji
    rw [Function.update_self] at hg
    exact hγ' g hg
  · rw [Function.update_of_ne hji] at hg
    exact h.quota j g hg

/-- What a step in time does to an execution on the key. -/
theorem QuotaInv.handle [DecidableEq ι] [DecidableEq ρ] (h : QuotaInv key q s γ) {i : ι}
    {x : Choice} {e : Op} {s' : Shared ι ρ}
    {reply : e.Ans} {g : Stage} (hg : γ i = some g) (hasks : stages.asks g e)
    (hscript : ∀ now window limit member, e = .invokeScript key now window limit member →
      s.time key ≤ now ∧ s.FreshMember key q now member)
    (hs : RateLimit.handle home s i e x = some (s', reply)) :
    ∃ g', stages.answers g e reply g' ∧ QuotaInv key q s' (Function.update γ i (some g')) := by
  have hquota := h.quota i g hg
  have hkeep : ∀ g' : Stage, g'.request = g.request →
      ∀ g'', some g' = some g'' → g''.request.key = key → g''.request.quota = q := by
    intro g' hreq g'' hg'' hkey
    obtain rfl := Option.some.inj hg''
    rw [hreq] at hkey ⊢
    exact hquota hkey
  cases g with
  | clock r =>
    obtain rfl : e = .clock := hasks
    obtain rfl := handle_clock hs
    exact ⟨.fetch r reply, rfl, h.stage h.summary (hkeep _ rfl)⟩
  | fetch r now =>
    obtain rfl : e = .fetchAdd := hasks
    obtain ⟨-, rfl⟩ := handle_fetchAdd hs
    exact ⟨.script r now reply, rfl, h.stage (h.summary.frame rfl rfl rfl) (hkeep _ rfl)⟩
  | script r now seq =>
    obtain rfl : e = .invokeScript r.key now r.quota.windowMs r.quota.limit ⟨now, seq⟩ := hasks
    refine ⟨.done r reply, rfl, h.stage ?_ (hkeep _ rfl)⟩
    rcases handle_script hs with ⟨rfl, rfl, rfl⟩ | ⟨rfl, rfl, rfl⟩
    · by_cases hkey : r.key = key
      · obtain ⟨hnow, hfresh⟩ := hscript now _ _ _ (by rw [hkey])
        have hq : r.quota = q := hquota hkey
        rw [hkey, hq]
        exact h.summary.execute i hnow hfresh
      · -- the script runs on another key
        exact h.summary.frame (Function.update_of_ne (Ne.symm hkey) _ _)
          (Function.update_of_ne (Ne.symm hkey) _ _) (Function.update_of_ne (Ne.symm hkey) _ _)
    · exact h.summary
  | done r answer => exact hasks.elim

/-- An expiry in time. -/
theorem QuotaInv.expire (h : QuotaInv key q s γ) {c : LimiterConfig ι ρ} {x : Choice}
    {s' : Shared ι ρ} (hc : c.shared = s) (hontime : OnTime key q c (.env x))
    (hs : env s x = some s') : QuotaInv key q s' γ := by
  obtain ⟨key', time, rfl, rfl⟩ := env_expire hs
  refine ⟨?_, h.quota⟩
  by_cases hkey : key' = key
  · subst hkey hc
    obtain ⟨htime, hold⟩ := hontime.expiry time rfl
    exact h.summary.expire htime hold
  · exact h.summary.frame (Function.update_of_ne (Ne.symm hkey) _ _) rfl
      (Function.update_of_ne (Ne.symm hkey) _ _)

/-! ### Results -/

/-- Every result that was returned was read off an execution. -/
def Returned (key : String) (c : LimiterConfig ι ρ) : Prop :=
  ∀ i r result, c.calls i = .returned r result → r.key = key →
    ∃ e ∈ c.shared.log key, e.caller = i ∧ result.allowed = e.allowed ∧ result.current = e.current

variable [DecidableEq ρ]

/-- An operation only adds to the history of a key. -/
theorem handle_log {s s' : Shared ι ρ} {i : ι} {e : Op} {x : Choice} {reply : e.Ans}
    (hs : RateLimit.handle home s i e x = some (s', reply)) : s.log key ⊆ s'.log key := by
  cases e with
  | clock =>
    obtain rfl := handle_clock hs
    exact List.Subset.refl _
  | fetchAdd =>
    obtain ⟨-, rfl⟩ := handle_fetchAdd hs
    exact List.Subset.refl _
  | invokeScript key' now window limit member =>
    rcases handle_script hs with ⟨-, rfl, -⟩ | ⟨-, rfl, -⟩
    · by_cases hkey : key' = key
      · subst hkey
        show _ ⊆ Function.update s.log key' _ key'
        rw [Function.update_self]
        exact List.subset_append_left _ _
      · show _ ⊆ Function.update s.log key' _ key
        rw [Function.update_of_ne (Ne.symm hkey)]
        exact List.Subset.refl _
    · exact List.Subset.refl _

/-- A call that returns has just run the script. -/
theorem executed_of_ret {s s' : Shared ι ρ} {i : ι} {r : Request} {g : Stage} {e : Op} {x : Choice}
    {f : e.Ans → Prog Op Op.Ans RateLimitResult} {reply : e.Ans} {result : RateLimitResult}
    (hobeys : stages.Obeys (Ended r) g (.op e f)) (hret : f reply = .ret result)
    (hup : ∀ now window limit member, e = .invokeScript r.key now window limit member → x = .any)
    (hs : RateLimit.handle home s i e x = some (s', reply)) :
    ∃ d ∈ s'.log r.key, d.caller = i ∧ result.allowed = d.allowed ∧
      result.current = d.current := by
  obtain ⟨hasks, hnext⟩ := hobeys
  cases g with
  | clock r' =>
    obtain rfl : e = .clock := hasks
    have hend := hnext reply _ rfl
    rw [hret] at hend
    obtain ⟨answer, hdone, -⟩ := hend
    cases hdone
  | fetch r' now =>
    obtain rfl : e = .fetchAdd := hasks
    have hend := hnext reply _ rfl
    rw [hret] at hend
    obtain ⟨answer, hdone, -⟩ := hend
    cases hdone
  | script r' now seq =>
    obtain rfl : e = .invokeScript r'.key now r'.quota.windowMs r'.quota.limit ⟨now, seq⟩ := hasks
    have hend := hnext reply _ rfl
    rw [hret] at hend
    obtain ⟨answer, hdone, rfl⟩ := hend
    obtain ⟨rfl, rfl⟩ := Stage.done.inj hdone
    rcases handle_script hs with ⟨-, rfl, rfl⟩ | ⟨hdown, -, -⟩
    · refine ⟨executionOf i now ⟨now, seq⟩ _, ?_, rfl, resultOf_reply _ _ _ _ _ _ _⟩
      show _ ∈ Function.update s.log r'.key _ r'.key
      rw [Function.update_self]
      exact List.mem_append_right _ (List.mem_singleton_self _)
    · have hany := hup _ _ _ _ rfl
      rw [hdown] at hany
      cases hany
  | done r' answer => exact hasks.elim

variable [DecidableEq ι]

/-- Every step in time keeps the results true to the executions. -/
theorem Returned.step {c c' : LimiterConfig ι ρ} {a : Act ι Request Choice}
    (h : Returned key c) (hF : ∀ j, Pool.Follows stages Ended (γ j) (c.calls j))
    (hontime : OnTime key q c a) (hs : (limiter home).machine.step c a = some c') :
    Returned key c' := by
  intro j r result hj hr
  rcases Pool.act_cases hs with ⟨i, k, s', rfl, hi, hstart, rfl⟩ |
    ⟨i, x, k, e, f, s', reply, rfl, hi, hh, rfl⟩ | ⟨i, k, p, s', rfl, hi, hdrop, rfl⟩ |
    ⟨x, s', rfl, henv, rfl⟩
  · cases hstart
    by_cases hji : j = i
    · subst hji
      simp only [Function.update_self] at hj
      cases hj
    · simp only [Function.update_of_ne hji] at hj
      exact h j r result hj hr
  · by_cases hji : j = i
    · subst hji
      simp only [Function.update_self] at hj
      generalize hp : f reply = p at hj
      cases p with
      | op e' f' => cases hj
      | ret a =>
        obtain ⟨rfl, rfl⟩ := CallState.returned.inj hj
        have hfollows := hF j
        rw [hi] at hfollows
        obtain ⟨g, -, hobeys⟩ := hfollows
        rw [← hr]
        refine executed_of_ret hobeys hp (fun now window limit member he => ?_) hh
        subst he
        exact (hontime.script j x k now window limit member f rfl (hr ▸ hi)).1
    · simp only [Function.update_of_ne hji] at hj
      obtain ⟨e', hmem, hrest⟩ := h j r result hj hr
      exact ⟨e', handle_log hh hmem, hrest⟩
  · cases hdrop
    by_cases hji : j = i
    · subst hji
      simp only [Function.update_self] at hj
      cases hj
    · simp only [Function.update_of_ne hji] at hj
      exact h j r result hj hr
  · obtain ⟨key', time, rfl, rfl⟩ := env_expire henv
    exact h j r result hj hr

end Runs

end SocialApi.RateLimit
