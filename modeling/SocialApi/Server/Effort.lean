import SocialApi.Server.Refinement
import SocialApi.Server.Tariffs

/-!
# What a request asks of others

* `effort_of_reachable`: in every run and at any time, a request has sent Postgres no more
  statements than `Request.credit` and one for each count it has waited for in vain, whatever the
  size of its batch, and has asked the Profile API, the Content API and the rate limit script at
  most once each. Only likes and unlikes ask the Content API.
-/

namespace SocialApi.Server

open SocialApi.Concurrent SocialApi.Clients SocialApi.Services SocialApi.Handlers

/-! ## Leaderboards -/

section Boards

variable {L : Leaderboard.BoardLibs} {n : ℕ}

theorem windowStart_pays (window : TimeWindow) :
    boardTariff.Pays (fun _ => n) n (Leaderboard.windowStart window) := by
  refine Tariff.pays_of_free ?_
  unfold Leaderboard.windowStart
  split
  · exact ⟨rfl, fun _ => trivial⟩
  · trivial

theorem boardFromDatabase_pays (contentType : Option String) (window : TimeWindow) (limit : ℤ) :
    boardTariff.Pays (fun _ => 0) 1 (Leaderboard.boardFromDatabase contentType window limit) := by
  refine (windowStart_pays window).bind fun since => ⟨le_rfl, fun rows => ?_⟩
  cases rows <;> exact Nat.zero_le _

theorem zrevrangeWithScores_free (window : TimeWindow) (start stop : ℤ) :
    (Leaderboard.zrevrangeWithScores window start stop).All fun o => boardTariff.cost o = 0 := by
  refine ⟨rfl, fun cached => ?_⟩
  cases cached with
  | some cached => trivial
  | none =>
    refine ⟨rfl, fun pairs => ?_⟩
    show Prog.All _ ((Leaderboard.keepRange window start stop pairs).bind fun _ => .ret pairs)
    refine Prog.All.bind ?_ fun _ => trivial
    unfold Leaderboard.keepRange
    split_ifs
    · exact ⟨rfl, fun _ => trivial⟩
    · trivial

theorem boardCache_pays {α : Type} (p : Cache.CacheM α) :
    boardTariff.Pays (fun _ => n) n (Leaderboard.cache p) :=
  Tariff.pays_of_free (Prog.All.lift (Prog.all_of_forall (fun _ => rfl) p))

theorem getLeaderboard_pays (contentType : Option String) (window : TimeWindow) (limit : ℤ) :
    boardTariff.Pays (fun _ => 0) 1 (Leaderboard.getLeaderboard L contentType window limit) := by
  cases contentType with
  | none =>
    refine (Tariff.pays_of_free (zrevrangeWithScores_free window 0 _)).bind fun cached => ?_
    dsimp only
    split_ifs
    · exact Nat.zero_le 1
    · exact boardFromDatabase_pays _ _ _
  | some contentType =>
    refine (boardCache_pays _).bind fun cached => ?_
    split
    · exact Nat.zero_le 1
    · exact boardFromDatabase_pays _ _ _

theorem storeFiltered_pays (ttl : ℕ) (window : TimeWindow) (contentType : String)
    (rows : Except Postgres.SqlxError (List (Item × I64))) :
    boardTariff.Pays (fun _ => n) n (Leaderboard.storeFiltered L ttl window contentType rows) := by
  cases rows with
  | error e => exact le_rfl
  | ok rows =>
    unfold Leaderboard.storeFiltered
    dsimp only
    split
    · exact boardCache_pays _
    · exact le_rfl

/-- One query for each content type. -/
theorem refreshFiltered_pays (ttl : ℕ) (window : TimeWindow) (since : Option DateTime)
    (contentTypes : List String) : boardTariff.Pays (fun _ => n) (n + contentTypes.length)
      (Leaderboard.refreshFiltered L ttl window since contentTypes) := by
  induction contentTypes with
  | nil => exact le_rfl
  | cons contentType contentTypes ih =>
    refine ⟨?_, fun rows => ?_⟩
    · show 1 ≤ n + (contentTypes.length + 1)
      omega
    · exact (storeFiltered_pays ttl window contentType rows).bind fun _ => ih

theorem refreshWindow_pays (ttl : ℕ) (contentTypes : List String) (window : TimeWindow) :
    boardTariff.Pays (fun _ => n) (n + (1 + contentTypes.length))
      (Leaderboard.refreshWindow L ttl contentTypes window) := by
  refine (windowStart_pays window).bind fun since => ⟨?_, fun rows => ?_⟩
  · show 1 ≤ n + (1 + contentTypes.length)
    omega
  · have hleft : n + (1 + contentTypes.length) - 1 = n + contentTypes.length := by omega
    show Tariff.Pays _ _ (n + (1 + contentTypes.length) - 1) _
    rw [hleft]
    cases rows with
    | error e => exact Nat.le_add_right n _
    | ok rows =>
      refine ⟨Nat.zero_le _, fun _ => ⟨Nat.zero_le _, fun _ => ?_⟩⟩
      exact (refreshFiltered_pays ttl window since contentTypes).bind fun _ => le_rfl

theorem refreshAllWindows_pays (ttl : ℕ) (contentTypes : List String) :
    boardTariff.Pays (fun _ => 0) (4 * (1 + contentTypes.length))
      (Leaderboard.refreshAllWindows L ttl contentTypes) := by
  have hwindows : ∀ windows : List TimeWindow, boardTariff.Pays (fun _ => 0)
      (windows.length * (1 + contentTypes.length))
      (Leaderboard.refreshWindows L ttl contentTypes windows) := by
    intro windows
    induction windows with
    | nil => exact Nat.zero_le _
    | cons window windows ih =>
      rw [List.length_cons, Nat.succ_mul]
      exact (refreshWindow_pays ttl contentTypes window).bind fun _ => ih
  exact (hwindows Leaderboard.windows).bind fun _ => ⟨le_rfl, fun _ => le_rfl⟩

end Boards

/-! ## Requests -/

section Requests

variable {S : Setup} {α ε : Type} {t : Tariff Op Op.Ans} {n m l : ℕ}

/-- The rule for `?`. -/
theorem attempt_pays {β : Type} {p : ServerM (Except ε α)} {f : α → ServerM (Except ε β)}
    (hp : t.Pays (fun _ => m) n p) (hf : ∀ a, t.Pays (fun _ => 0) m (f a)) :
    t.Pays (fun _ => 0) n (attempt p f) := by
  refine hp.bind fun result => ?_
  cases result with
  | ok a => exact hf a
  | error e => exact Nat.zero_le m

/-- The rule for a handler. -/
theorem handler_pays {caller : ServerM (Except ε (Option AuthenticatedUser))}
    {extract : Except ε Unit} {within : Option AuthenticatedUser → ServerM (Except ε Unit)}
    {call : Option AuthenticatedUser → Except ε ServiceCall} {ofError : AppError → ε}
    (hcaller : t.Pays (fun _ => m) n caller) (hwithin : ∀ who, t.Pays (fun _ => l) m (within who))
    (hserve : ∀ who sc, call who = .ok sc → t.Pays (fun _ => 0) l (serve S sc)) :
    t.Pays (fun _ => 0) n (handler S caller extract within call ofError) := by
  refine attempt_pays hcaller fun who => ?_
  refine attempt_pays (m := m) le_rfl fun _ => ?_
  refine attempt_pays (hwithin who) fun _ => ?_
  cases hcall : call who with
  | error e => exact Nat.zero_le l
  | ok sc => exact (hserve who sc hcall).bind fun _ => le_rfl

/-! ### Calls of the service -/

variable {price : Dependency → ℕ}

/-- What a call may cost. -/
def callBill (price : Dependency → ℕ) : ServiceCall → ℕ
  | .like _ _ => 5 + price .contentApi
  | .unlike _ _ => 5 + price .contentApi
  | _ => 1

theorem svc_pays {p : Svc α} (h : (svcTariff (price .contentApi)).Pays (fun _ => 0) n p) :
    (priced price).Pays (fun _ => 0) n (svc p) :=
  Tariff.pays_lift h (fun _ => rfl) fun _ _ => rfl

theorem board_pays {p : Leaderboard.BoardM α} (h : boardTariff.Pays (fun _ => 0) n p) :
    (priced price).Pays (fun _ => 0) n (board p) :=
  Tariff.pays_lift h (fun _ => rfl) fun _ _ => rfl

theorem serve_pays (call : ServiceCall) :
    (priced price).Pays (fun _ => 0) (callBill price call) (serve S call) := by
  cases call with
  | like userId item =>
    refine (svc_pays ?_).bind fun _ => le_rfl
    exact (like_pays userId item).bind fun _ => le_rfl
  | unlike userId item =>
    refine (svc_pays ?_).bind fun _ => le_rfl
    exact (unlike_pays userId item).bind fun _ => le_rfl
  | getCount item =>
    refine (svc_pays ?_).bind fun _ => le_rfl
    exact (svc_attempt_pays (getCountValue_pays item) fun _ => le_rfl).bind fun _ => le_rfl
  | getStatus userId item =>
    refine (svc_pays ?_).bind fun _ => le_rfl
    exact (getStatus_pays userId item).bind fun _ => le_rfl
  | getUserLikes userId contentTypeFilter cursor limit =>
    refine (svc_pays ?_).bind fun _ => le_rfl
    exact (getUserLikes_pays userId contentTypeFilter cursor limit).bind fun _ => le_rfl
  | batchCounts items =>
    refine (svc_pays ?_).bind fun _ => le_rfl
    exact (batchCounts_pays items).bind fun _ => le_rfl
  | batchStatuses userId items =>
    refine (svc_pays ?_).bind fun _ => le_rfl
    exact (batchStatuses_pays userId items).bind fun _ => le_rfl
  | getLeaderboard contentType window limit =>
    refine (board_pays ?_).bind fun _ => le_rfl
    exact getLeaderboard_pays contentType window limit.val

theorem callBill_of_reads {call : ServiceCall} (h : writer call = none) :
    callBill price call = 1 := by
  cases call with
  | like userId item => cases h
  | unlike userId item => cases h
  | _ => rfl

theorem callBill_le (call : ServiceCall) : callBill price call ≤ 5 + price .contentApi := by
  cases call with
  | like userId item => exact le_rfl
  | unlike userId item => exact le_rfl
  | _ =>
    show 1 ≤ 5 + price .contentApi
    omega

/-! ### Who is asking, and the limit -/

theorem authCache_pays {w : ℕ} (p : Cache.CacheM α) :
    (authTariff w).Pays (fun _ => n) n (authCache p) :=
  Tariff.pays_of_free (Prog.All.lift (Prog.all_of_forall (fun _ => rfl) p))

theorem storeUser_pays {w : ℕ} (U : UserCodec) (ttlSecs : ℕ) (token : String)
    (user : AuthenticatedUser) : (authTariff w).Pays (fun _ => n) n
      (storeUser U ttlSecs token user) := by
  unfold storeUser
  split
  · exact (authCache_pays _).bind fun _ => le_rfl
  · exact le_rfl

theorem httpValidate_pays {w : ℕ} (U : UserCodec) (ttlSecs : ℕ) (token : String) :
    (authTariff w).Pays (fun _ => n) (n + w) (httpValidate U ttlSecs token) := by
  refine ⟨Nat.le_add_left w n, fun status => ?_⟩
  show Tariff.Pays _ _ (n + w - w) _
  rw [Nat.add_sub_cancel]
  cases status with
  | none => exact le_rfl
  | some status =>
    dsimp only [Prog.bind]
    split_ifs
    · exact Nat.le_refl n
    · refine ⟨Nat.zero_le n, fun body => ?_⟩
      cases body with
      | error e => exact le_rfl
      | ok body =>
        dsimp only [Prog.bind]
        split
        · exact le_rfl
        · exact storeUser_pays U ttlSecs token _
    · exact Nat.le_refl n

theorem grpcValidate_pays {w : ℕ} (U : UserCodec) (ttlSecs : ℕ) (token : String) :
    (authTariff w).Pays (fun _ => n) (n + w) (grpcValidate U ttlSecs token) := by
  refine ⟨Nat.le_add_left w n, fun outcome => ?_⟩
  show Tariff.Pays _ _ (n + w - w) _
  rw [Nat.add_sub_cancel]
  cases outcome with
  | response resp =>
    show Tariff.Pays _ _ n (if _ then _ else _)
    split_ifs
    · split
      · exact le_rfl
      · exact storeUser_pays U ttlSecs token _
    · exact le_rfl
  | status unauthenticated => cases unauthenticated <;> exact le_rfl
  | timedOut => exact le_rfl

theorem recordOutcome_pays {w : ℕ} (outcome : Except AppError AuthenticatedUser) :
    (authTariff w).Pays (fun _ => n) n (Auth.recordOutcome outcome) := by
  refine Tariff.pays_of_free ?_
  cases outcome with
  | ok user => exact ⟨rfl, fun _ => trivial⟩
  | error e => cases e <;> first | exact ⟨rfl, fun _ => trivial⟩ | trivial

theorem validateToken_pays {w : ℕ} (U : UserCodec) (ttlSecs : ℕ) (transport : Transport)
    (token : String) : (authTariff w).Pays (fun _ => n) (n + w)
      (validateToken U ttlSecs transport token) := by
  refine (authCache_pays _).bind fun cached => ?_
  split
  · exact Nat.le_add_right n w
  · cases transport with
    | http => exact httpValidate_pays U ttlSecs token
    | grpc => exact grpcValidate_pays U ttlSecs token

theorem authenticateToken_pays {w : ℕ} (U : UserCodec) (ttlSecs : ℕ) (transport : Transport)
    (token : String) : (authTariff w).Pays (fun _ => n) (n + w)
      (Auth.authenticateToken U ttlSecs transport token) := by
  refine ⟨Nat.zero_le _, fun admitted => ?_⟩
  cases admitted with
  | false => exact Nat.le_add_right n w
  | true => exact (validateToken_pays U ttlSecs transport token).bind recordOutcome_pays

theorem auth_pays {p : Authn α} (h : (authTariff (price .profileApi)).Pays (fun _ => n) m p) :
    (priced price).Pays (fun _ => n) m (auth p) :=
  Tariff.pays_lift h (fun _ => rfl) fun _ _ => rfl

theorem callerOf_pays (failed : Auth.AuthFailure → ε) (env : Envelope) :
    (priced price).Pays (fun _ => n) (n + price .profileApi) (callerOf S failed env) := by
  unfold callerOf
  split
  · exact Nat.le_add_right n _
  · refine (auth_pays (n := n) ?_).bind fun _ => le_rfl
    exact authenticateToken_pays _ _ _ _

theorem checkRateLimitInner_pays {w : ℕ} (r : RateLimit.Request) :
    (limitTariff w).Pays (fun _ => n) (n + w) (RateLimit.checkRateLimitInner r) := by
  refine ⟨Nat.zero_le _, fun now => ⟨Nat.zero_le _, fun seq => ⟨Nat.le_add_left w n, ?_⟩⟩⟩
  intro reply
  show n ≤ n + w - w
  omega

theorem limit_pays {p : Prog RateLimit.Op RateLimit.Op.Ans α}
    (h : (limitTariff (price .rateLimit)).Pays (fun _ => n) m p) :
    (priced price).Pays (fun _ => n) m (limit p) :=
  Tariff.pays_lift h (fun _ => rfl) fun _ _ => rfl

theorem HttpLimit.pays {env : Envelope}
    {within : Option AuthenticatedUser → ServerM (Except Rejection Unit)}
    (h : HttpLimit S env within) (who : Option AuthenticatedUser) :
    (priced price).Pays (fun _ => n) (n + price .rateLimit) (within who) := by
  cases h with
  | user quota =>
    cases who with
    | none => exact Nat.le_add_right n _
    | some user => exact (limit_pays (checkRateLimitInner_pays _)).bind fun _ => le_rfl
  | publicRead =>
    refine (limit_pays (n := n) ?_).bind fun admission => ?_
    · refine (checkRateLimitInner_pays _).bind fun result => ?_
      split_ifs <;> exact le_rfl
    · cases admission <;> exact le_rfl

theorem GrpcLimit.pays {env : Envelope}
    {within : Option AuthenticatedUser → ServerM (Except Streams.Status Unit)}
    (h : GrpcLimit S env within) (who : Option AuthenticatedUser) :
    (priced price).Pays (fun _ => n) (n + price .rateLimit) (within who) := by
  cases h with
  | user quota =>
    cases who with
    | none => exact Nat.le_add_right n _
    | some user =>
      refine (limit_pays (n := n) ?_).bind fun _ => le_rfl
      refine (checkRateLimitInner_pays _).bind fun result => ?_
      split_ifs <;> exact le_rfl
  | publicRead =>
    refine (limit_pays (n := n) ?_).bind fun _ => le_rfl
    refine (checkRateLimitInner_pays _).bind fun result => ?_
    split_ifs <;> exact le_rfl

/-! ### Requests -/

theorem caller_pays {caller : ServerM (Except ε (Option AuthenticatedUser))}
    {failed : Auth.AuthFailure → ε} {env : Envelope}
    (h : caller = callerOf S failed env ∨ caller = anyone) :
    (priced price).Pays (fun _ => n) (n + price .profileApi) caller := by
  rcases h with rfl | rfl
  · exact callerOf_pays failed env
  · exact Nat.le_add_right n _

/-- A handler that asks the Profile API, the limit and the service pays for all of them. -/
theorem asking_pays {k : Request} {caller : ServerM (Except ε (Option AuthenticatedUser))}
    {extract : Except ε Unit} {within : Option AuthenticatedUser → ServerM (Except ε Unit)}
    {call : Option AuthenticatedUser → Except ε ServiceCall} {ofError : AppError → ε}
    (hprofile : k.quota .profileApi = 1) (hlimit : k.quota .rateLimit = 1)
    (hcaller : ∀ n, (priced price).Pays (fun _ => n) (n + price .profileApi) caller)
    (hwithin : ∀ n who, (priced price).Pays (fun _ => n) (n + price .rateLimit) (within who))
    (hcall : ∀ who sc, call who = .ok sc → k.credit = 5 ∧ k.quota .contentApi = 1 ∨
      1 ≤ k.credit ∧ writer sc = none) :
    (priced price).Pays (fun _ => 0) (k.bill price)
      (handler S caller extract within call ofError) := by
  have hbill : k.bill price = k.credit + k.quota .contentApi * price .contentApi +
      price .rateLimit + price .profileApi := by
    rw [Request.bill, hprofile, hlimit, one_mul, one_mul]
  rw [hbill]
  refine handler_pays (hcaller _) (hwithin _) ?_
  intro who sc hsc
  refine (serve_pays sc).mono ?_ fun _ => le_rfl
  rcases hcall who sc hsc with ⟨hcredit, hcontent⟩ | ⟨hcredit, hreads⟩
  · rw [hcredit, hcontent, one_mul]
    exact callBill_le sc
  · rw [callBill_of_reads hreads]
    exact Nat.le_add_right_of_le hcredit

theorem http_pays (env : Envelope) (k : HttpCall) :
    (priced price).Pays (fun _ => 0) ((Request.http env k).bill price) (http S env k) := by
  refine http_handler k (Nat.zero_le _) ?_
  intro caller extract within hcaller hwithin
  refine asking_pays (by simp [Request.quota]) (by simp [Request.quota])
    (fun n => caller_pays hcaller) (fun n => hwithin.pays) ?_
  intro who sc hsc
  by_cases hk : k.IsWrite
  · refine Or.inl ?_
    cases k <;> first | exact ⟨rfl, rfl⟩ | exact hk.elim
  · refine Or.inr ⟨?_, http_reads hk sc hsc⟩
    cases k <;> simp [Request.credit]

theorem grpc_pays (env : Envelope) (k : GrpcCall) :
    (priced price).Pays (fun _ => 0) ((Request.grpc env k).bill price) (grpc S env k) := by
  refine grpc_handler k ?_
  intro caller within hcaller hwithin
  refine asking_pays (by simp [Request.quota]) (by simp [Request.quota])
    (fun n => caller_pays hcaller) (fun n => hwithin.pays) ?_
  intro who sc hsc
  by_cases hk : k.IsWrite
  · refine Or.inl ?_
    cases k <;> first | exact ⟨rfl, rfl⟩ | exact hk.elim
  · refine Or.inr ⟨?_, grpc_reads hk sc hsc⟩
    cases k <;> simp [Request.credit]

/-- Every request pays for what it does. -/
theorem request_pays (k : Request) :
    (priced price).Pays (fun _ => 0) (k.bill price) (k.prog S) := by
  cases k with
  | http env k => exact (http_pays env k).bind fun _ => le_rfl
  | grpc env k => exact (grpc_pays env k).bind fun _ => le_rfl
  | refresh ttl contentTypes =>
    refine (board_pays ?_).bind fun _ => le_rfl
    refine (refreshAllWindows_pays ttl contentTypes).mono ?_ fun _ => le_rfl
    simp [Request.bill, Request.quota, Request.credit]

end Requests

/-! ## Runs -/

section Runs

variable {ι : Type} [DecidableEq ι] {S : Setup} {c : ServerConfig ι} {i : ι} {k : Request}

theorem cost_calls_le {d : Dependency} {w : ℕ} (o : Op) :
    w * (calls d).cost o ≤ (priced fun d' => if d' = d then w else 0).cost o := by
  show w * (if o.asks = some d then 1 else 0) ≤ _
  split_ifs with ho
  · rw [mul_one]
    cases o with
    | auth o => cases o <;> first | cases ho; exact le_rfl | cases ho
    | limit o => cases o <;> first | cases ho; exact le_rfl | cases ho
    | svc o => cases o <;> first | cases ho; exact le_rfl | cases ho
    | board o => cases ho
  · exact Nat.zero_le _

/-- With a price high enough, a bill that is paid bounds the calls. -/
theorem le_of_paid {w asked quota rest : ℕ} (hw : rest < w)
    (h : w * asked ≤ quota * w + rest) : asked ≤ quota := by
  refine Nat.le_of_lt_succ (Nat.lt_of_mul_lt_mul_left (a := w) ?_)
  rw [Nat.mul_succ, Nat.mul_comm w quota]
  omega

theorem bill_single {d : Dependency} {w : ℕ} :
    k.bill (fun d' => if d' = d then w else 0) = k.quota d * w + k.credit := by
  cases d <;> simp [Request.bill, Nat.add_comm]

/-- At any time a request has sent Postgres no more than its statements and one more for each wait
    in vain, and has asked nobody more often than it may. -/
theorem effort_of_reachable (h : (server S).recorded.machine.Reachable c)
    (hk : (c.calls i).request = some k) :
    statements.spent c.shared.2 i ≤ k.credit + statements.refunded c.shared.2 i ∧
      ∀ d, (calls d).spent c.shared.2 i ≤ k.quota d := by
  have hspent : ∀ price : Dependency → ℕ, (priced price).spent c.shared.2 i ≤
      k.bill price + statements.refunded c.shared.2 i := by
    intro price
    have hpays : ∀ k : Request, (priced price).Pays (fun _ => 0) (k.bill price)
        ((server (ι := ι) S).prog k) := request_pays
    exact Tariff.spent_le hpays h hk
  refine ⟨?_, fun d => ?_⟩
  · have hzero : k.bill (fun _ => 0) = k.credit := by simp [Request.bill]
    have hfree : statements.spent c.shared.2 i ≤ (priced fun _ => 0).spent c.shared.2 i := by
      have hcost : ∀ o, 1 * statements.cost o ≤ (priced fun _ => 0).cost o := by
        intro o
        rw [one_mul]
        cases o <;> first | exact le_rfl | exact Nat.zero_le _
      simpa using Tariff.spent_mul_le hcost
    exact hfree.trans (hzero ▸ hspent fun _ => 0)
  · obtain ⟨w, hw⟩ : ∃ w, k.credit + statements.refunded c.shared.2 i < w :=
      ⟨_, Nat.lt_succ_self _⟩
    have hpaid := (Tariff.spent_mul_le cost_calls_le).trans
      (hspent fun d' => if d' = d then w else 0)
    rw [bill_single, Nat.add_assoc] at hpaid
    exact le_of_paid hw hpaid

end Runs

/-! ### One like -/

/-- Four of five statements. -/
theorem effort_of_reachable_answeredLike : ∃ c : ServerConfig ℕ,
    (server postsSetup).recorded.machine.run ⟨(starting, []), fun _ => .idle⟩ answeredLike =
      some c ∧
    statements.spent c.shared.2 0 = 4 ∧ (calls .contentApi).spent c.shared.2 0 = 1 ∧
    ∃ k, (c.calls 0).request = some k ∧
      statements.spent c.shared.2 0 ≤ k.credit + statements.refunded c.shared.2 0 ∧
      ∀ d, (calls d).spent c.shared.2 0 ≤ k.quota d := by
  have hview : ((server postsSetup).recorded.machine.run
      (⟨(starting, []), fun _ => .idle⟩ : ServerConfig ℕ) answeredLike).map (fun c =>
        (statements.spent c.shared.2 0, (calls .contentApi).spent c.shared.2 0,
          (c.calls 0).request.isSome)) = some (4, 1, true) := by
    decide +kernel
  obtain ⟨c, hrun, hc⟩ := Option.map_eq_some_iff.mp hview
  simp only [Prod.mk.injEq] at hc
  obtain ⟨hsent, hasked, hrequest⟩ := hc
  obtain ⟨k, hk⟩ := Option.isSome_iff_exists.mp hrequest
  have hinit : (server postsSetup).recorded.machine.init
      (⟨(starting, []), fun _ => .idle⟩ : ServerConfig ℕ) :=
    ⟨⟨⟨⟨⟨_, Repositories.consistent_empty, rfl⟩, rfl, rfl⟩, rfl, rfl⟩, rfl⟩, fun _ => rfl⟩
  exact ⟨c, hrun, hsent, hasked, k, hk, effort_of_reachable ⟨_, _, hinit, hrun⟩ hk⟩

end SocialApi.Server
