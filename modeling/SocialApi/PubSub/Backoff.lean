import SocialApi.PubSub

/-!
# The reconnects of a bridge

`run_bridge_with_reconnect` counts in `attempt` how often `run_single_connection` has ended
in an error. A connection that could not be made and one that worked for weeks and then
lost its stream end in the same error, and nothing ever sets `attempt` back.

Here the bridge runs against a script: with receivers present and no shutdown, one
outcome for each call of `run_single_connection`.

* `bridgeLog_eq`: what the bridge does for every script.
* `backsOff_iff`: every delay is the backoff of the failures since the last successful
  connection, and the bridge gives up only after more than `MAX_RECONNECT_ATTEMPTS` failed
  attempts in a row, exactly when of the first eleven attempts only the very first
  succeeds, if any, and not even that one if the bridge gives up.
* `elevenDisconnects`: a bridge that gives up though every attempt to connect worked.
-/

namespace SocialApi.PubSub

open SocialApi.Concurrent

/-- What one call of `run_single_connection` meets: it cannot connect or subscribe, or it is
    served the messages and idle time-outs (`none`) of a connection whose stream then ends. -/
inductive Outcome where
  | refused
  | served (items : List (Option String))
  deriving DecidableEq, Repr

/-- How often the message loop goes round before the stream ends. -/
def Outcome.rounds : Outcome → ℕ
  | refused => 0
  | served items => items.length

/-- What can be seen of a bridge. -/
inductive BridgeEvent where
  | refused
  | connected
  | streamEnded
  | delay (millis : ℕ)
  | gaveUp
  deriving DecidableEq, Repr

/-- What is still to come for a bridge: the outcomes of its connections, and what the present
    connection delivers. There are receivers whenever it looks. -/
structure Line where
  receivers : ℕ → ℕ
  present : ∀ n, 0 < receivers n
  /-- How often the bridge has looked. -/
  looks : ℕ
  outcomes : List Outcome
  items : List (Option String)

variable {ι : Type}

namespace Line

/-- The answer to an operation of the bridge; a bridge whose script is over waits. -/
def answer (l : Line) : (o : Op ι) → Option (Line × o.Ans)
  | .isCancelled => some (l, false)
  | .receiverCount _ => some ({ l with looks := l.looks + 1 }, l.receivers l.looks)
  | .connect _ =>
    match l.outcomes with
    | [] => none
    | .refused :: outcomes => some ({ l with outcomes := outcomes }, false)
    | .served items :: outcomes => some ({ l with outcomes := outcomes, items := items }, true)
  | .next =>
    match l.items with
    | [] => some (l, .ended)
    | none :: items => some ({ l with items := items }, .idle)
    | some payload :: items => some ({ l with items := items }, .message payload)
  | .send _ _ => some (l, true)
  | .backoff _ => some (l, false)
  | _ => none

end Line

/-- What can be seen of an operation and its answer. -/
def seen : (o : Op ι) → o.Ans → List BridgeEvent
  | .connect _, true => [.connected]
  | .connect _, false => [.refused]
  | .next, .ended => [.streamEnded]
  | .backoff millis, _ => [.delay millis]
  | _, _ => []

/-- The program against the script: what can be seen, and the end if it is reached. -/
def observe {α : Type} (l : Line) : PubSubM ι α → List BridgeEvent × Option (Line × α)
  | .ret a => ([], some (l, a))
  | .op o f =>
    match l.answer o with
    | none => ([], none)
    | some (l', r) =>
      let rest := observe l' (f r)
      (seen o r ++ rest.1, rest.2)

/-- Everything that can be seen of a bridge. -/
def bridgeLog (fuel : ℕ) (name : String) (id : ChanId ι) (l : Line) : List BridgeEvent :=
  let r := observe l (runBridgeWithReconnect fuel name id maxReconnectAttempts)
  r.1 ++ if r.2.isSome then [.gaveUp] else []

/-! ## The rule for the delays and for giving up -/

/-- The consecutive failures since the last successful connection: attempts that failed, and
    the end of that connection. -/
def failures (log : List BridgeEvent) : ℕ :=
  log.foldl (fun k e => match e with
    | .refused => k + 1
    | .connected => 0
    | .streamEnded => k + 1
    | _ => k) 0

/-- The consecutive failed attempts to connect, with no successful one among them. -/
def refusals (log : List BridgeEvent) : ℕ :=
  log.foldl (fun r e => match e with
    | .refused => r + 1
    | .connected => 0
    | _ => r) 0

/-- What the rule says of an event: a delay is `min(500 ms * 2^(k-1), 30 s)` after `k`
    consecutive failures, and the bridge gives up only after more than
    `MAX_RECONNECT_ATTEMPTS` failed attempts in a row. -/
def InTurn (before : List BridgeEvent) : BridgeEvent → Prop
  | .delay millis => millis = min (500 * 2 ^ (failures before - 1)) 30000
  | .gaveUp => maxReconnectAttempts < refusals before
  | _ => True

/-- The rule holds of every event of a log. -/
def BacksOff (log : List BridgeEvent) : Prop :=
  ∀ before e after, log = before ++ e :: after → InTurn before e

/-- Of the first eleven attempts only the very first may succeed, and if there are eleven, it
    may not. -/
structure FirstOnly (outcomes : List Outcome) : Prop where
  later : ∀ o ∈ (outcomes.drop 1).take maxReconnectAttempts, o = .refused
  first : maxReconnectAttempts < outcomes.length → outcomes.head? = some .refused

/-- The rule holds of every event that follows `before`. -/
def BacksOffFrom (before : List BridgeEvent) : List BridgeEvent → Prop
  | [] => True
  | e :: log => InTurn before e ∧ BacksOffFrom (before ++ [e]) log

theorem backsOffFrom_iff (before log : List BridgeEvent) : BacksOffFrom before log ↔
    ∀ middle e after, log = middle ++ e :: after → InTurn (before ++ middle) e := by
  induction log generalizing before with
  | nil => simp [BacksOffFrom]
  | cons e log ih =>
    unfold BacksOffFrom
    rw [ih]
    constructor
    · rintro ⟨hfirst, hrest⟩ (_ | ⟨e', middle⟩) d after hlog
      · obtain ⟨rfl, -⟩ := List.cons_eq_cons.mp hlog
        rwa [List.append_nil]
      · obtain ⟨rfl, htail⟩ := List.cons_eq_cons.mp hlog
        simpa using hrest middle d after htail
    · intro h
      refine ⟨by simpa using h [] e log rfl, fun middle d after hlog => ?_⟩
      simpa using h (e :: middle) d after (by rw [hlog]; rfl)

theorem backsOff_iff_from (log : List BridgeEvent) : BacksOff log ↔ BacksOffFrom [] log := by
  rw [backsOffFrom_iff]
  rfl

/-! ## What the bridge does -/

/-- The events of one connection. -/
def Outcome.events : Outcome → List BridgeEvent
  | refused => [.refused]
  | served _ => [.connected, .streamEnded]

/-- The log of a bridge with `left` reconnects left. -/
def logFrom : ℕ → List Outcome → List BridgeEvent
  | _, [] => []
  | 0, o :: _ => o.events ++ [.gaveUp]
  | left + 1, o :: outcomes =>
    o.events ++ .delay (backoffMillis (maxReconnectAttempts - left)) :: logFrom left outcomes

section Observe

variable {α β : Type} {l : Line} {fuel : ℕ} {name : String} {id : ChanId ι}

theorem observe_ret (l : Line) (a : α) : observe l (.ret a : PubSubM ι α) = ([], some (l, a)) := rfl

theorem observe_op {o : Op ι} {r : o.Ans} {l' : Line} (h : l.answer o = some (l', r))
    (f : o.Ans → PubSubM ι α) : observe l (.op o f) =
      (seen o r ++ (observe l' (f r)).1, (observe l' (f r)).2) := by
  rw [observe, h]

theorem observe_stuck {o : Op ι} (h : l.answer o = none) (f : o.Ans → PubSubM ι α) :
    observe l (.op o f) = ([], none) := by
  rw [observe, h]

/-- An operation of which nothing can be seen. -/
theorem observe_unseen {o : Op ι} {r : o.Ans} {l' : Line} (h : l.answer o = some (l', r))
    (hseen : seen o r = []) (f : o.Ans → PubSubM ι α) :
    observe l (.op o f) = observe l' (f r) := by
  rw [observe_op h, hseen, List.nil_append]

theorem observe_bind (l : Line) (p : PubSubM ι α) (f : α → PubSubM ι β) :
    observe l (p.bind f) = match observe l p with
      | (log, none) => (log, none)
      | (log, some (l', a)) => (log ++ (observe l' (f a)).1, (observe l' (f a)).2) := by
  induction p generalizing l with
  | ret a => simp [observe_ret]
  | op o k ih =>
    rw [Prog.op_bind]
    cases h : l.answer o with
    | none => rw [observe_stuck h, observe_stuck h]
    | some x =>
      obtain ⟨l', r⟩ := x
      rw [observe_op h, observe_op h, ih]
      rcases observe l' (k r) with ⟨log, _ | ⟨l'', a⟩⟩
      · rfl
      · simp only [List.append_assoc]

/-- The message loop after it has seen a receiver. -/
def forwardNext (id : ChanId ι) (fuel : ℕ) : PubSubM ι BridgeExit := do
  match ← perform .next with
  | .cancelled => return .shutdown
  | .message payload =>
    if ← perform (.send id payload) then forwardLoop id fuel else return .noReceivers
  | .ended => return .redisError
  | .idle => forwardLoop id fuel

theorem observe_look (l : Line) (id : ChanId ι) (fuel : ℕ) :
    observe l (forwardLoop id (fuel + 1)) =
      observe { l with looks := l.looks + 1 } (forwardNext id fuel) := by
  have hloop : forwardLoop id (fuel + 1) = .op (.receiverCount id) fun count =>
      if count = 0 then .ret .noReceivers else forwardNext id fuel := rfl
  rw [hloop, observe_unseen rfl rfl, if_neg (l.present l.looks).ne']

theorem observe_item {item : StreamItem} {l' : Line}
    (h : l.answer (.next : Op ι) = some (l', item)) (hitem : seen (.next : Op ι) item = [])
    (hgoes : item = .idle ∨ ∃ payload, item = .message payload) :
    observe l (forwardNext id fuel) = observe l' (forwardLoop id fuel) := by
  unfold forwardNext
  rw [Prog.bind_eq, perform, Prog.perform, Prog.op_bind, observe_unseen h hitem]
  rcases hgoes with rfl | ⟨payload, rfl⟩
  · rfl
  · rfl

/-- The message loop goes on until the stream ends. -/
theorem observe_forwardLoop (hfuel : l.items.length < fuel) :
    ∃ l', observe l (forwardLoop id fuel) = ([.streamEnded], some (l', .redisError)) ∧
      l'.outcomes = l.outcomes := by
  induction fuel generalizing l with
  | zero => omega
  | succ fuel ih =>
    obtain ⟨receivers, present, looks, outcomes, items⟩ := l
    rw [observe_look]
    cases items with
    | nil => exact ⟨_, rfl, rfl⟩
    | cons item items =>
      rw [List.length_cons] at hfuel
      obtain ⟨l', hobserve, houtcomes⟩ :=
        ih (l := ⟨receivers, present, looks + 1, outcomes, items⟩) (by simpa using hfuel)
      refine ⟨l', ?_, houtcomes⟩
      rw [← hobserve]
      cases item with
      | none => exact observe_item rfl rfl (Or.inl rfl)
      | some payload => exact observe_item rfl rfl (Or.inr ⟨payload, rfl⟩)

/-- One connection: whatever it was, it ends in the same error. -/
theorem observe_runSingleConnection {o : Outcome} {outcomes : List Outcome}
    (houtcomes : l.outcomes = o :: outcomes) (hfuel : o.rounds < fuel) :
    ∃ l', observe l (runSingleConnection fuel name id) = (o.events, some (l', .redisError)) ∧
      l'.outcomes = outcomes := by
  obtain ⟨receivers, present, looks, script, items⟩ := l
  obtain rfl : script = o :: outcomes := houtcomes
  cases o with
  | refused => exact ⟨⟨receivers, present, looks, outcomes, items⟩, rfl, rfl⟩
  | served items =>
    obtain ⟨l', hobserve, hrest⟩ := observe_forwardLoop
      (l := ⟨receivers, present, looks, outcomes, items⟩) hfuel
    refine ⟨l', ?_, hrest⟩
    have hconnect : runSingleConnection fuel name id = .op (.connect name) fun connected =>
        if connected then forwardLoop id fuel else .ret .redisError := rfl
    rw [hconnect, observe_op rfl, if_pos rfl, hobserve]
    rfl

/-- A bridge that has nothing left to connect to waits. -/
theorem observe_waiting (houtcomes : l.outcomes = []) :
    observe l (runSingleConnection fuel name id) = ([], none) := by
  obtain ⟨receivers, present, looks, script, items⟩ := l
  obtain rfl : script = [] := houtcomes
  rfl

/-- What the bridge does when a connection has ended. -/
def afterConnection (fuel : ℕ) (name : String) (id : ChanId ι) (left : ℕ) :
    BridgeExit → PubSubM ι Unit
  | .shutdown => return ()
  | .noReceivers => return ()
  | .redisError =>
    match left with
    | 0 => return ()
    | left + 1 => do
      if ← perform (.backoff (backoffMillis (maxReconnectAttempts - left))) then return ()
      else
        let count ← perform (.receiverCount id)
        if count = 0 then return () else runBridgeWithReconnect fuel name id left

theorem observe_runBridge (l : Line) (fuel : ℕ) (name : String) (id : ChanId ι) (left : ℕ) :
    observe l (runBridgeWithReconnect fuel name id left) =
      observe { l with looks := l.looks + 1 }
        ((runSingleConnection fuel name id).bind (afterConnection fuel name id left)) := by
  have hbridge : runBridgeWithReconnect fuel name id left =
      .op .isCancelled fun cancelled => if cancelled then .ret () else
        .op (.receiverCount id) fun count => if count = 0 then .ret () else
          (runSingleConnection fuel name id).bind (afterConnection fuel name id left) := by
    cases left with
    | zero =>
      rw [runBridgeWithReconnect]
      rfl
    | succ left =>
      rw [runBridgeWithReconnect]
      rfl
  rw [hbridge, observe_unseen rfl rfl, if_neg Bool.false_ne_true, observe_unseen rfl rfl,
    if_neg (l.present l.looks).ne']

/-- After an error the bridge backs off and connects again. -/
theorem observe_afterConnection (l : Line) (fuel : ℕ) (name : String) (id : ChanId ι) (left : ℕ) :
    observe l (afterConnection fuel name id (left + 1) .redisError) =
      (.delay (backoffMillis (maxReconnectAttempts - left)) ::
          (observe { l with looks := l.looks + 1 } (runBridgeWithReconnect fuel name id left)).1,
        (observe { l with looks := l.looks + 1 } (runBridgeWithReconnect fuel name id left)).2) := by
  have hafter : afterConnection fuel name id (left + 1) .redisError =
      .op (.backoff (backoffMillis (maxReconnectAttempts - left))) fun cancelled =>
        if cancelled then .ret () else .op (.receiverCount id) fun count =>
          if count = 0 then .ret () else runBridgeWithReconnect fuel name id left := rfl
  rw [hafter, observe_op rfl, if_neg Bool.false_ne_true, observe_unseen rfl rfl,
    if_neg (l.present l.looks).ne']
  rfl

/-- The log of the bridge with `left` reconnects left, for every script. -/
theorem log_runBridge (left : ℕ) (hfuel : ∀ o ∈ l.outcomes, o.rounds < fuel) :
    (observe l (runBridgeWithReconnect fuel name id left)).1 ++
      (if (observe l (runBridgeWithReconnect fuel name id left)).2.isSome then [.gaveUp] else []) =
      logFrom left l.outcomes := by
  induction left generalizing l with
  | zero =>
    obtain ⟨receivers, present, looks, script, items⟩ := l
    rw [observe_runBridge, observe_bind]
    cases script with
    | nil =>
      rw [observe_waiting rfl]
      rfl
    | cons o outcomes =>
      obtain ⟨l', hconnection, -⟩ := observe_runSingleConnection
        (l := ⟨receivers, present, looks + 1, o :: outcomes, items⟩) rfl
        (hfuel o List.mem_cons_self)
      rw [hconnection]
      simp [afterConnection, observe_ret, logFrom]
  | succ left ih =>
    obtain ⟨receivers, present, looks, script, items⟩ := l
    rw [observe_runBridge, observe_bind]
    cases script with
    | nil =>
      rw [observe_waiting rfl]
      rfl
    | cons o outcomes =>
      obtain ⟨l', hconnection, rfl⟩ := observe_runSingleConnection
        (l := ⟨receivers, present, looks + 1, o :: outcomes, items⟩) rfl
        (hfuel o List.mem_cons_self)
      have hlog := ih (l := { l' with looks := l'.looks + 1 }) fun o' ho' =>
        hfuel o' (List.mem_cons_of_mem _ ho')
      rw [hconnection]
      simp only [observe_afterConnection, List.append_assoc, List.cons_append, hlog]
      rfl

/-- What can be seen of a bridge, for every script. -/
theorem bridgeLog_eq (hfuel : ∀ o ∈ l.outcomes, o.rounds < fuel) :
    bridgeLog fuel name id l = logFrom maxReconnectAttempts l.outcomes :=
  log_runBridge maxReconnectAttempts hfuel

end Observe

/-! ## When the rule is kept -/

section Rule

variable {before : List BridgeEvent} {left : ℕ} {o : Outcome} {outcomes : List Outcome}

theorem failures_append (before log : List BridgeEvent) : failures (before ++ log) =
    log.foldl (fun k e => match e with
      | .refused => k + 1
      | .connected => 0
      | .streamEnded => k + 1
      | _ => k) (failures before) := List.foldl_append

theorem refusals_append (before log : List BridgeEvent) : refusals (before ++ log) =
    log.foldl (fun r e => match e with
      | .refused => r + 1
      | .connected => 0
      | _ => r) (refusals before) := List.foldl_append

/-- From the second reconnect on the backoff is longer than the first one. -/
theorem backoffMillis_ne {attempt : ℕ} (h : 2 ≤ attempt) : backoffMillis attempt ≠ 500 := by
  have hpow : 2 ^ 1 ≤ 2 ^ (attempt - 1) := Nat.pow_le_pow_right (by norm_num) (by omega)
  unfold backoffMillis
  omega

/-- A refused attempt counts on. -/
theorem backsOffFrom_refused (before log : List BridgeEvent) :
    BacksOffFrom before (Outcome.refused.events ++ log) ↔ BacksOffFrom (before ++ [.refused]) log := by
  simp [Outcome.events, BacksOffFrom, InTurn]

/-- A successful connection starts the counts anew. -/
theorem backsOffFrom_served (before log : List BridgeEvent) (items : List (Option String)) :
    BacksOffFrom before ((Outcome.served items).events ++ log) ↔
      BacksOffFrom (before ++ [.connected, .streamEnded]) log := by
  simp [Outcome.events, BacksOffFrom, InTurn]

theorem backsOffFrom_gaveUp (before : List BridgeEvent) :
    BacksOffFrom before [.gaveUp] ↔ maxReconnectAttempts < refusals before := by
  simp [BacksOffFrom, InTurn]

theorem backsOffFrom_delay (before log : List BridgeEvent) (attempt : ℕ) :
    BacksOffFrom before (.delay (backoffMillis attempt) :: log) ↔
      backoffMillis attempt = backoffMillis (failures before) ∧
        BacksOffFrom (before ++ [.delay (backoffMillis attempt)]) log := Iff.rfl

/-- After a first attempt: the rule is kept as long as every further attempt fails. -/
theorem backsOffFrom_logFrom (hleft : left < maxReconnectAttempts)
    (hk : failures before = maxReconnectAttempts - left)
    (hr : refusals before ≤ maxReconnectAttempts - left) :
    BacksOffFrom before (logFrom left outcomes) ↔
      (∀ o ∈ outcomes.take (left + 1), o = .refused) ∧
        (left < outcomes.length → refusals before = maxReconnectAttempts - left) := by
  induction left generalizing before outcomes with
  | zero =>
    cases outcomes with
    | nil => simp [logFrom, BacksOffFrom]
    | cons o outcomes =>
      rw [logFrom]
      cases o with
      | refused =>
        rw [backsOffFrom_refused, backsOffFrom_gaveUp, refusals_append]
        simp
        omega
      | served items =>
        rw [backsOffFrom_served, backsOffFrom_gaveUp, refusals_append]
        simp
  | succ left ih =>
    cases outcomes with
    | nil => simp [logFrom, BacksOffFrom]
    | cons o outcomes =>
      rw [logFrom]
      cases o with
      | refused =>
        have hfailures : failures (before ++ [.refused]) = maxReconnectAttempts - left := by
          rw [failures_append]
          simp
          omega
        have hrefusals : refusals (before ++ [.refused]) = refusals before + 1 := by
          rw [refusals_append]
          rfl
        rw [backsOffFrom_refused, backsOffFrom_delay, hfailures, ih (by omega)]
        · rw [refusals_append, hrefusals]
          simp
          omega
        · rw [failures_append, hfailures]
          rfl
        · rw [refusals_append, hrefusals]
          simp
          omega
      | served items =>
        have hfailures : failures (before ++ [.connected, .streamEnded]) = 1 := by
          rw [failures_append]
          rfl
        rw [backsOffFrom_served, backsOffFrom_delay, hfailures]
        constructor
        · intro h
          exact absurd h.1 (backoffMillis_ne (by omega))
        · intro h
          simp at h

/-- The first attempt. -/
theorem backsOff_logFrom (outcomes : List Outcome) :
    BacksOff (logFrom maxReconnectAttempts outcomes) ↔ FirstOnly outcomes := by
  rw [backsOff_iff_from]
  cases outcomes with
  | nil =>
    refine ⟨fun _ => ⟨fun o ho => by simp at ho, fun h => by simp at h⟩, fun _ => trivial⟩
  | cons o outcomes =>
    have hlog : logFrom maxReconnectAttempts (o :: outcomes) =
        o.events ++ .delay (backoffMillis 1) :: logFrom 9 outcomes := rfl
    have hrest : ∀ before, failures before = 1 → refusals before ≤ 1 →
        (BacksOffFrom before (logFrom 9 outcomes) ↔
          (∀ o ∈ outcomes.take maxReconnectAttempts, o = .refused) ∧
            (9 < outcomes.length → refusals before = 1)) := fun before hk hr =>
      backsOffFrom_logFrom (by decide) hk hr
    have hfirst : FirstOnly (o :: outcomes) ↔
        (∀ o ∈ outcomes.take maxReconnectAttempts, o = .refused) ∧
          (9 < outcomes.length → o = .refused) := by
      constructor
      · intro h
        exact ⟨h.later, fun hlength => Option.some.inj (h.first (Nat.succ_lt_succ hlength))⟩
      · intro h
        exact ⟨h.1, fun hlength => congrArg some (h.2 (Nat.lt_of_succ_lt_succ hlength))⟩
    rw [hlog, hfirst]
    cases o with
    | refused =>
      rw [backsOffFrom_refused, backsOffFrom_delay, hrest _ rfl (le_refl _)]
      simp [failures, refusals]
    | served items =>
      rw [backsOffFrom_served, backsOffFrom_delay, hrest _ rfl (Nat.zero_le _)]
      simp [failures, refusals]

end Rule

/-- For every script: every delay is the backoff of the failures since the last successful
    connection, and the bridge gives up only after more than ten failed attempts in a row,
    exactly when of the first eleven attempts only the very first succeeds, if any, and not
    even that one if there are eleven. -/
theorem backsOff_iff (fuel : ℕ) (name : String) (id : ChanId ι) (l : Line)
    (hfuel : ∀ o ∈ l.outcomes, o.rounds < fuel) :
    BacksOff (bridgeLog fuel name id l) ↔ FirstOnly l.outcomes := by
  rw [bridgeLog_eq hfuel, backsOff_logFrom]

/-- A script, with one receiver throughout. -/
def scripted (outcomes : List Outcome) : Line where
  receivers _ := 1
  present _ := Nat.one_pos
  looks := 0
  outcomes := outcomes
  items := []

/-- `backsOff_iff` for a connection that works, delivers a message and is lost, and two failed
    attempts after it. -/
theorem backsOff_iff_scripted :
    BacksOff (bridgeLog 5 "likes" ((0, 0) : ChanId ℕ)
      (scripted [.served [some "liked"], .refused, .refused])) := by
  refine (backsOff_iff 5 "likes" (0, 0) _ ?_).mpr ⟨?_, ?_⟩
  · decide
  · decide
  · intro h
    exact absurd h (by decide)

/-- Eleven connections that work, each losing its stream in the end, are all it takes for the
    bridge to give up, and the delays have grown to the maximum by then. -/
theorem elevenDisconnects : ¬ BacksOff (bridgeLog 5 "likes" ((0, 0) : ChanId ℕ)
    (scripted (List.replicate 11 (.served [some "liked"])))) := by
  have hlog : bridgeLog 5 "likes" ((0, 0) : ChanId ℕ)
      (scripted (List.replicate 11 (.served [some "liked"]))) =
      (bridgeLog 5 "likes" ((0, 0) : ChanId ℕ)
        (scripted (List.replicate 11 (.served [some "liked"])))).dropLast ++ .gaveUp :: [] := by
    decide +kernel
  intro h
  have hmany := h _ _ _ hlog
  revert hmany
  unfold InTurn
  decide +kernel

end SocialApi.PubSub
