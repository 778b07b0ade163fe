import SocialApi.Concurrent.Embedding
import SocialApi.Server.Vouched

/-!
# The service inside the server

The requests to the server make calls of the service, and between these calls they ask who is
asking and whether the limit is reached, and read and refresh the leaderboards. None of this
touches what the service works on, so the server does to the tables, the pending fetches, the
breaker, the events and the entries of the service what some run of the service does.

* `service_of_reachable`: every reachable state of the server goes with a reachable state of the
  service, request by request.
-/

namespace SocialApi.Server

open SocialApi.Concurrent SocialApi.Clients SocialApi.Services SocialApi.Handlers
open SocialApi.Streams (Status appErrorToStatus)

/-! ## What the service sees -/

/-- The service sees what it works on: all of it but entries that are not its own. -/
structure Sees {ι : Type} (s : State ι) (w : World ι) : Prop where
  db : s.world.db = w.db
  flights : s.world.flights = w.flights
  breaker : s.world.breaker = w.breaker
  published : s.world.published = w.published
  dbErrors : s.world.dbErrors = w.dbErrors
  cache : Cache.SameOn ServiceKey s.world.cache w.cache

section Sees

variable {ι : Type} {s t : State ι} {w : World ι}

theorem sees_self (s : State ι) : Sees s s.world where
  db := rfl
  flights := rfl
  breaker := rfl
  published := rfl
  dbErrors := rfl
  cache _ _ _ := rfl

theorem Sees.eq (h : Sees s w) : w = { s.world with cache := w.cache } := by
  simp only [h.db, h.flights, h.breaker, h.published, h.dbErrors]

/-- What leaves the world alone, or only changes entries that are not the service's. -/
theorem Sees.aside (h : Sees s w) {c : Cache.CacheState}
    (ht : t.world = { s.world with cache := c }) (hc : Cache.SameOn ServiceKey c w.cache) :
    Sees t w where
  db := by rw [ht]; exact h.db
  flights := by rw [ht]; exact h.flights
  breaker := by rw [ht]; exact h.breaker
  published := by rw [ht]; exact h.published
  dbErrors := by rw [ht]; exact h.dbErrors
  cache := by rw [ht]; exact hc

theorem Sees.same (h : Sees s w) (ht : t.world = s.world) : Sees t w :=
  h.aside ht h.cache

variable {S : Setup} {i : ι}

/-- What expires in the server expires in the service, if it is there. -/
theorem Sees.expire (h : Sees s w) {x : Choice} (hs : expire s x = some t) :
    Sees t w ∨ ∃ x' w', Services.evict w x' = some w' ∧ Sees t w' := by
  cases x with
  | svc x =>
    obtain ⟨m, hm, rfl⟩ := Option.map_eq_some_iff.mp hs
    cases x with
    | evict layer key =>
      cases hm
      refine Or.inr ⟨.evict layer key, _, rfl, ⟨h.db, h.flights, h.breaker, h.published,
        h.dbErrors, h.cache.put layer key none⟩⟩
    | _ => cases hm
  | limit x =>
    obtain ⟨l, -, rfl⟩ := Option.map_eq_some_iff.mp hs
    exact Or.inl (h.same rfl)
  | board x =>
    cases x with
    | expireRange window start stop =>
      cases hs
      exact Or.inl (h.same rfl)
    | _ => cases hs
  | auth x => cases hs

variable [DecidableEq ι]

/-- Only the operations on the cache look at the cache. -/
theorem handle_withCache {cfg : Services.Config} {w w' : World ι} {o : SvcOp} {x : SvcChoice}
    {r : o.Ans} (h : Services.handle cfg w i o x = some (w', r)) (ho : ∀ o', o ≠ .cache o')
    (c : Cache.CacheState) : w'.cache = w.cache ∧
      Services.handle cfg { w with cache := c } i o x = some ({ w' with cache := c }, r) := by
  cases o with
  | cache o => exact absurd rfl (ho o)
  | db q =>
    obtain ⟨y, db', rfl, hdb, rfl⟩ := Services.handle_db h
    refine ⟨rfl, ?_⟩
    simp [Services.handle, hdb]
  | flight o =>
    obtain ⟨y, f, rfl, hf, rfl⟩ := Services.handle_flight h
    refine ⟨rfl, ?_⟩
    simp [Services.handle, hf]
  | publish event item =>
    cases x with
    | published delivered => cases h; cases delivered <;> exact ⟨rfl, rfl⟩
    | _ => cases h
  | _ => cases x <;> cases h; exact ⟨rfl, rfl⟩

/-- An operation of the service goes in the service as in the server. -/
theorem Sees.svc (h : Sees s w) {o : SvcOp} {x : Choice} {r : o.Ans} (ho : OwnKeys o)
    (hs : handle S s i (.svc o) x = some (t, r)) :
    ∃ x' w', Services.handle S.service w i o x' = some (w', r) ∧ Sees t w' := by
  cases x with
  | svc x =>
    obtain ⟨⟨m, r'⟩, hm, heq⟩ := Option.map_eq_some_iff.mp hs
    cases heq
    cases o with
    | cache o =>
      obtain ⟨y, c, rfl, hc, rfl⟩ := Services.handle_cache hm
      obtain ⟨c', hc', hsame⟩ := Cache.handle_sameOn ho h.cache hc
      refine ⟨.cache y, { w with cache := c' }, ?_, ⟨h.db, h.flights, h.breaker, h.published,
        h.dbErrors, hsame⟩⟩
      simp [Services.handle, hc']
    | _ =>
      obtain ⟨hcache, hw⟩ := handle_withCache hm (by intro o' hcache; cases hcache) w.cache
      rw [← h.eq] at hw
      refine ⟨x, _, hw, ⟨rfl, rfl, rfl, rfl, rfl, ?_⟩⟩
      show Cache.SameOn ServiceKey m.cache w.cache
      rw [hcache]
      exact h.cache
  | _ => cases hs

/-- What a request does before and beside its call of the service. -/
def Apart : Op → Prop
  | .auth (.cache o) => o.Within fun key => ¬ ServiceKey key
  | .auth _ => True
  | .limit _ => True
  | .svc _ => False
  | .board o => AtBoards o

theorem not_serviceKey_of_filtered {key : CacheKey} (h : Leaderboard.Filtered key) :
    ¬ ServiceKey key := by
  cases key with
  | lbf window contentType limit => exact id
  | _ => exact h.elim

/-- The service does not see it. -/
theorem Sees.apart (h : Sees s w) {o : Op} {x : Choice} {r : o.Ans} (ho : Apart o)
    (hs : handle S s i o x = some (t, r)) : Sees t w := by
  cases o with
  | auth o =>
    cases x with
    | auth x =>
      obtain ⟨⟨a, r'⟩, ha, heq⟩ := Option.map_eq_some_iff.mp hs
      cases heq
      refine h.aside rfl ?_
      cases o with
      | cache o =>
        cases x with
        | cache x =>
          obtain ⟨⟨c, r'⟩, hc, heq⟩ := Option.map_eq_some_iff.mp ha
          cases heq
          exact Cache.handle_frame ho hc h.cache
        | _ => cases ha
      | _ => cases x <;> cases ha; exact h.cache
    | _ => cases hs
  | limit o =>
    cases x with
    | limit x =>
      obtain ⟨⟨l, r'⟩, -, heq⟩ := Option.map_eq_some_iff.mp hs
      cases heq
      exact h.same rfl
    | _ => cases hs
  | svc o => exact ho.elim
  | board o =>
    cases x with
    | board x =>
      obtain ⟨⟨b, r'⟩, hb, heq⟩ := Option.map_eq_some_iff.mp hs
      cases heq
      refine h.aside rfl ?_
      cases o with
      | cache o =>
        cases x with
        | cache x =>
          obtain ⟨⟨c, r'⟩, hc, heq⟩ := Option.map_eq_some_iff.mp hb
          cases heq
          exact Cache.handle_frame (ho.mono fun _ => not_serviceKey_of_filtered) hc h.cache
        | _ => cases hb
      | l1InvalidateFiltered =>
        cases x with
        | removed keys =>
          cases hb
          intro layer key hkey
          rw [← h.cache layer key hkey]
          cases layer with
          | redis => rfl
          | l1 =>
            show (if Leaderboard.Filtered key ∧ key ∈ keys then none else _) = _
            rw [if_neg fun hremoved => not_serviceKey_of_filtered hremoved.1 hkey]
            rfl
        | _ => cases hb
      | _ => cases x <;> cases hb <;> exact h.cache
    | _ => cases hs

/-- A call that is dropped. -/
theorem Sees.drop (h : Sees s w) (i : ι) :
    Sees { s with world := dropCall s.world i } (dropCall w i) where
  db := by simp only [dropCall, h.db]
  flights := by simp only [dropCall, h.flights]
  breaker := h.breaker
  published := h.published
  dbErrors := h.dbErrors
  cache := h.cache

end Sees

/-! ## The calls that are made -/

/-- The request that a call makes of the service; the leaderboards are not the service's. -/
def serviceRequest : ServiceCall → Option Services.Request
  | .like userId item => some (.mutation (.like userId item))
  | .unlike userId item => some (.mutation (.unlike userId item))
  | .getCount item => some (.getCount item)
  | .getStatus userId item => some (.getStatus userId item)
  | .getUserLikes userId contentTypeFilter cursor limit =>
    some (.getUserLikes userId contentTypeFilter cursor limit)
  | .batchCounts items => some (.batchCounts items)
  | .batchStatuses userId items => some (.batchStatuses userId items)
  | .getLeaderboard _ _ _ => none

/-- The handler makes the call of the service for the request. -/
def Request.Makes (S : Setup) (k : Request) (k' : Services.Request) : Prop :=
  ∃ who call, k.call S who = some call ∧ serviceRequest call = some k'

/-- What a request is answered if the service returns `result`. -/
def Request.answer : Request → Except AppError Reply → Answer
  | http _ _, result => .http ((result.map .reply).mapError .app)
  | grpc _ _, result => .grpc ((result.map .reply).mapError appErrorToStatus)
  | refresh _ _, _ => .refreshed

/-- The reply in an answer. -/
def Answer.reply : Answer → Option Reply
  | http (.ok (.reply r)) => some r
  | grpc (.ok (.reply r)) => some r
  | _ => none

section Programs

variable {S : Setup} {α β ε : Type}

/-- The program is a call of the service, with what is made of its result. -/
def Goes (S : Setup) (made : Services.Request → Except AppError Reply → α → Prop)
    (p : ServerM α) : Prop :=
  ∃ (k : Services.Request) (f : Except AppError Reply → α),
    p = (svc (k.prog S.service S.codec)).bind (fun b => .ret (f b)) ∧ ∀ b, made k b (f b)

theorem Goes.map {made : Services.Request → Except AppError Reply → α → Prop}
    {made' : Services.Request → Except AppError Reply → β → Prop} {p : ServerM α} {g : α → β}
    (h : Goes S made p) (hg : ∀ k b a, made k b a → made' k b (g a)) :
    Goes S made' (p.bind fun a => .ret (g a)) := by
  obtain ⟨k, f, rfl, hf⟩ := h
  refine ⟨k, fun b => g (f b), ?_, fun b => hg k b _ (hf b)⟩
  rw [Prog.bind_assoc]
  rfl

/-- The result is no reply. -/
def NoReply (result : Except ε Response) : Prop := ∀ r, result ≠ .ok (.reply r)

theorem serve_until (S : Setup) (call : ServiceCall) :
    (serve S call).Until Apart NoReply (Goes S fun k b result =>
      serviceRequest call = some k ∧ result = b.map .reply) := by
  cases call with
  | getLeaderboard contentType window limit =>
    refine Prog.Until.map (T := fun _ => True) (C := fun _ => False) ?_ (fun result _ r => ?_)
      fun _ hq => hq.elim
    · refine Prog.until_of_all (Prog.All.lift ?_) (Prog.ends_of_forall (fun _ => trivial) _)
      exact getLeaderboard_atBoards S.boards contentType window limit.val
    · cases result <;> exact nofun
  | _ => exact Prog.until_of_goes ⟨_, _, rfl, fun b => ⟨rfl, rfl⟩⟩

/-- The rule for `?`. -/
theorem attempt_until {C : ServerM (Except ε Response) → Prop} {p : ServerM (Except ε α)}
    {f : α → ServerM (Except ε Response)} (hp : p.All Apart)
    (hf : ∀ a, (f a).Until Apart NoReply C) : (attempt p f).Until Apart NoReply C := by
  refine Prog.Until.bind hp fun result => ?_
  cases result with
  | ok a => exact hf a
  | error e => exact Or.inl fun r => nofun

theorem handler_until {caller : ServerM (Except ε (Option AuthenticatedUser))}
    {extract : Except ε Unit} {within : Option AuthenticatedUser → ServerM (Except ε Unit)}
    {call : Option AuthenticatedUser → Except ε ServiceCall} {ofError : AppError → ε}
    (hcaller : caller.All Apart) (hwithin : ∀ who, (within who).All OfLimiter) :
    (handler S caller extract within call ofError).Until Apart NoReply
      (Goes S fun k b result => ∃ who sc, call who = .ok sc ∧ serviceRequest sc = some k ∧
        result = (b.map .reply).mapError ofError) := by
  refine attempt_until hcaller fun who => ?_
  refine attempt_until trivial fun _ => ?_
  refine attempt_until ((hwithin who).mono fun o ho => ?_) fun _ => ?_
  · cases o with
    | limit o => trivial
    | _ => exact ho.elim
  -- the call is known now, unless the handler refuses the request
  cases hcall : call who with
  | error e => exact Or.inl fun r => nofun
  | ok sc =>
    refine Prog.Until.map (serve_until S sc) (fun result hresult r => ?_) fun q hq => ?_
    · cases result with
      | ok response =>
        intro heq
        exact hresult r (congrArg Except.ok (Except.ok.inj heq))
      | error e => exact nofun
    · refine hq.map ?_
      rintro k b result ⟨hk, rfl⟩
      exact ⟨who, sc, hcall, hk, rfl⟩

/-- Who is asking is none of the service's business. -/
theorem callerOf_apart (failed : Auth.AuthFailure → ε) (env : Envelope) :
    (callerOf S failed env).All Apart := by
  unfold callerOf
  split
  · trivial
  · refine Prog.All.bind (Prog.All.lift ?_) fun _ => trivial
    refine Prog.All.bind (p := AuthOp.perform .allowRequest) ⟨trivial, fun _ => trivial⟩
      fun admitted => ?_
    cases admitted with
    | false => trivial
    | true =>
      refine Prog.All.bind ((validateToken_atToken S.users _ _).mono fun o ho => ?_)
        fun outcome => ?_
      · cases o with
        | cache o =>
          refine ho.mono fun key hkey => ?_
          rw [hkey]
          exact id
        | _ => trivial
      · unfold Auth.recordOutcome
        split
        all_goals first | trivial | exact ⟨trivial, fun _ => trivial⟩

/-- What a transport makes of the results of its handlers. -/
theorem request_until_of_handler {k : Request} {p : ServerM (Except ε Response)}
    {call : Option AuthenticatedUser → Except ε ServiceCall} {ofError : AppError → ε}
    {f : Except ε Response → Answer}
    (hp : p.Until Apart NoReply (Goes S fun k' b result => ∃ who sc, call who = .ok sc ∧
      serviceRequest sc = some k' ∧ result = (b.map .reply).mapError ofError))
    (hcall : ∀ who, k.call S who = (call who).toOption)
    (hf : ∀ result, NoReply result → (f result).reply = none)
    (hanswer : ∀ b, f ((b.map .reply).mapError ofError) = k.answer b) :
    (p.bind fun result => .ret (f result)).Until Apart (fun a => a.reply = none)
      (Goes S fun k' b a => k.Makes S k' ∧ a = k.answer b) := by
  refine Prog.Until.map hp hf fun q hq => hq.map ?_
  rintro k' b result ⟨who, sc, hsc, hk', rfl⟩
  refine ⟨⟨who, sc, ?_, hk'⟩, hanswer b⟩
  rw [hcall, hsc]
  rfl

/-- A request makes at most one call of the service, and answers with what the service
    returns. -/
theorem request_until (S : Setup) (k : Request) :
    (k.prog S).Until Apart (fun a => a.reply = none) (Goes S fun k' b a =>
      k.Makes S k' ∧ a = k.answer b) := by
  cases k with
  | http env k =>
    refine request_until_of_handler (p := http S env k) ?_ (fun who => rfl) ?_ fun b => rfl
    · refine http_handler k (Or.inl fun r => nofun) ?_
      intro caller extract within hcaller hwithin
      refine handler_until ?_ hwithin.ofLimiter
      rcases hcaller with rfl | rfl
      · exact callerOf_apart _ env
      · trivial
    · intro result hresult
      rcases result with e | response | board
      · rfl
      · exact absurd rfl (hresult response)
      · rfl
  | grpc env k =>
    refine request_until_of_handler (p := grpc S env k) ?_ (fun who => rfl) ?_ fun b => rfl
    · refine grpc_handler k ?_
      intro caller within hcaller hwithin
      refine handler_until ?_ hwithin.ofLimiter
      rcases hcaller with rfl | rfl
      · exact callerOf_apart _ env
      · trivial
    · intro result hresult
      rcases result with e | response | board
      · rfl
      · exact absurd rfl (hresult response)
      · rfl
  | refresh ttl contentTypes =>
    refine Prog.until_of_all ?_ ?_
    · refine Prog.All.bind (Prog.All.lift ?_) fun _ => trivial
      exact refreshAllWindows_atBoards S.boards ttl contentTypes
    · have hdone : ∀ r : Except String Unit,
          (Prog.ret .refreshed : ServerM Answer).Ends fun a => a.reply = none := fun _ => rfl
      exact Prog.Ends.bind hdone _

end Programs

/-! ## The refinement -/

section Refinement

variable {ι : Type} [DecidableEq ι]

/-- The requests to the server make calls of the service. -/
def embedding (S : Setup) :
    Embedding (server (ι := ι) S) (service (ι := ι) S.service S.codec) where
  inj := .svc
  back _ r := r
  agree := Sees
  apart := Apart
  inside := OwnKeys
  alone _ a := a.reply = none
  answer k k' b a := k.Makes S k' ∧ a = k.answer b
  idler := ⟨.getCount ("", 0), _, _, rfl⟩
  prog := request_until S
  prog_inside := request_ownKeys
  init s hs := ⟨s.world, hs.1, sees_self s⟩
  start s w i k t hsees hs := by
    cases hs
    exact hsees
  enter s w i k hsees := ⟨w, rfl, hsees⟩
  handle_apart s w i o x t r hsees ho hs := hsees.apart ho hs
  handle_inside s w i o x t r hsees ho hs := hsees.svc ho hs
  drop s w i t hsees hs := by
    cases hs
    exact ⟨_, rfl, hsees.drop i⟩
  env s w x t hsees hs := hsees.expire hs

/-- Every reachable state of the server goes with a reachable state of the service alone: the
    tables, pending fetches, breaker, events and the service's entries are the same, every request
    is as far in its call as this call is there, and whoever has been told a reply by the server
    has been returned it by the service, in the call that the handler makes for the request. -/
theorem service_of_reachable {S : Setup}
    {c : Configuration ι (State ι) Request Op Op.Ans Answer}
    (h : (server S).machine.Reachable c) :
    ∃ c' : ServiceConfig ι, (service S.service S.codec).machine.Reachable c' ∧
      Sees c.shared c'.shared ∧ (∀ i, (embedding (ι := ι) S).Tracks (c.calls i) (c'.calls i)) ∧
      ∀ i k a r, c.calls i = .returned k a → a.reply = some r →
        ∃ k', k.Makes S k' ∧ c'.calls i = .returned k' (.ok r) := by
  obtain ⟨c', hc', hsees, htracks⟩ := (embedding S).reachable h
  refine ⟨c', hc', hsees, htracks, fun i k a r hi hreply => ?_⟩
  have htracked := htracks i
  rw [hi] at htracked
  generalize c'.calls i = inner at htracked
  cases htracked with
  | answered _ k' b _ hanswer =>
    obtain ⟨hmakes, rfl⟩ := hanswer
    refine ⟨k', hmakes, ?_⟩
    have hb : b = .ok r := by
      cases k with
      | http env k =>
        cases b with
        | ok r' => rw [Option.some.inj hreply]
        | error e => exact absurd hreply nofun
      | grpc env k =>
        cases b with
        | ok r' => rw [Option.some.inj hreply]
        | error e => exact absurd hreply nofun
      | refresh ttl contentTypes => exact absurd hreply nofun
    rw [hb]
  | alone _ _ halone =>
    have halone : a.reply = none := halone
    rw [halone] at hreply
    exact absurd hreply nofun

end Refinement

/-! ### One answer -/

/-- The like of `likedPost` up to its answer. -/
def answeredLike : List (Act ℕ Request Choice) :=
  likedPost ++
    [.step 0 (.svc (.db (.run .epoch []))), .step 0 (.svc (.db (.run .epoch []))),
      .step 0 (.svc (.cache .ok)), .step 0 (.svc (.cache .ok)), .step 0 (.svc (.cache .ok)),
      .step 0 (.svc (.cache .ok)), .step 0 (.svc (.cache (.removed []))),
      .step 0 (.svc (.cache .ok)), .step 0 (.svc (.cache .ok)), .step 0 (.svc (.cache .ok)),
      .step 0 (.svc (.cache .ok)), .step 0 (.svc (.published true))]

/-- The reply to a request that has returned. -/
def replied {E : Type} {Ans : E → Type} (cs : CallState Request E Ans Answer) : Option Reply :=
  cs.result.bind fun e => e.2.reply

/-- The service returned what the client is told. -/
theorem service_of_reachable_answeredLike :
    ∃ c : Configuration ℕ (State ℕ) Request Op Op.Ans Answer,
      (server postsSetup).machine.run ⟨starting, fun _ => .idle⟩ answeredLike = some c ∧
      replied (c.calls 0) = some (.action ⟨true, some false, none, 1, some .epoch⟩) ∧
      ∃ c' : ServiceConfig ℕ, (service postsSetup.service postsSetup.codec).machine.Reachable c' ∧
        Sees c.shared c'.shared ∧ ∃ k',
          c'.calls 0 = .returned k' (.ok (.action ⟨true, some false, none, 1, some .epoch⟩)) := by
  have hview : ((server postsSetup).machine.run
      (⟨starting, fun _ => .idle⟩ : Configuration ℕ (State ℕ) Request Op Op.Ans Answer)
        answeredLike).map (fun c => replied (c.calls 0)) =
      some (some (.action ⟨true, some false, none, 1, some .epoch⟩)) := by
    decide +kernel
  obtain ⟨c, hrun, hreplied⟩ := Option.map_eq_some_iff.mp hview
  obtain ⟨⟨k, a⟩, hresult, hreply⟩ := Option.bind_eq_some_iff.mp hreplied
  have hinit : (server postsSetup).machine.init
      (⟨starting, fun _ => .idle⟩ : Configuration ℕ (State ℕ) Request Op Op.Ans Answer) :=
    ⟨⟨⟨⟨_, Repositories.consistent_empty, rfl⟩, rfl, rfl⟩, rfl, rfl⟩, fun _ => rfl⟩
  obtain ⟨c', hc', hsees, -, hreplies⟩ := service_of_reachable ⟨_, _, hinit, hrun⟩
  obtain ⟨k', -, hk'⟩ := hreplies 0 k a _ (CallState.returned_of_result hresult) hreply
  exact ⟨c, hrun, hreplied, c', hc', hsees, k', hk'⟩

end SocialApi.Server
