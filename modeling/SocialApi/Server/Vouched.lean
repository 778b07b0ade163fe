import SocialApi.Concurrent.History
import SocialApi.Concurrent.OneByOne
import SocialApi.Concurrent.Tracked
import SocialApi.Server.Calls

/-!
# Who a request acts for

The whole way from the header `authorization` to the tables: a request asks for its own token, the
validators answer it from the cache or from the Profile API, and the handler makes its call for
the user in the answer. Other requests run in between, over either transport, and all of them
share one cache with the services and the leaderboards.

* `actsFor_reachable`: an operation of the service is part of the call that the request's handler
  makes, for nobody or for a user whom the Profile API has named, before that operation, in answer
  to a token with the hash of the request's own.
-/

namespace SocialApi.Server

open SocialApi.Concurrent SocialApi.Clients SocialApi.Services SocialApi.Handlers

/-! ## What the Profile API has said -/

/-- The user that the Profile API names in an answer. -/
def Op.told (U : UserCodec) : (o : Op) → o.Ans → Option AuthenticatedUser
  | .auth o, r => answeredUser U o r
  | _, _ => none

/-- The token that is sent to the Profile API. -/
def Op.sends : Op → Option String
  | .auth (.send token) => some token
  | .auth (.validateToken token) => some token
  | _ => none

/-- All that has been done so far. -/
abbrev Log (ι : Type) := List (Performed ι (State ι) Op Op.Ans)

section Said

variable {ι : Type}

/-- The request has sent the token. -/
def Sent (log : Log ι) (i : ι) (token : String) : Prop :=
  ∃ q ∈ log, q.call = i ∧ q.op.sends = some token

/-- The Profile API has named the user to a request that has sent the token. -/
def Answered (U : UserCodec) (log : Log ι) (token : String) (user : AuthenticatedUser) : Prop :=
  ∃ p ∈ log, p.op.told U p.answer = some user ∧ Sent log p.call token

/-- The Profile API has named the user for a token that is cached under the same key. -/
def Vouched (U : UserCodec) (log : Log ι) (token : String) (user : AuthenticatedUser) : Prop :=
  ∃ token', tokenCacheKey token' = tokenCacheKey token ∧ Answered U log token' user

/-- The operation is part of the call that the handler of the request makes, and if the call is for
    a user, the Profile API has vouched for him. -/
def ActsFor (S : Setup) (log : Log ι) (k : Request) (o : SvcOp) : Prop :=
  ∃ who call, k.call S who = some call ∧ Performs call o ∧
    ∀ user, who = some user → ∃ token, k.bearer = some token ∧ Vouched S.users log token user

variable {U : UserCodec} {log : Log ι} {i : ι} {token : String} {user : AuthenticatedUser}

theorem Sent.append (h : Sent log i token) (more : Log ι) : Sent (log ++ more) i token := by
  obtain ⟨q, hq, hcall, hsends⟩ := h
  exact ⟨q, List.mem_append_left _ hq, hcall, hsends⟩

theorem Answered.append (h : Answered U log token user) (more : Log ι) :
    Answered U (log ++ more) token user := by
  obtain ⟨p, hp, htold, hsent⟩ := h
  exact ⟨p, List.mem_append_left _ hp, htold, hsent.append more⟩

/-- An answer to a request that has sent the token. -/
theorem answered_append (p : Performed ι (State ι) Op Op.Ans)
    (htold : p.op.told U p.answer = some user) (hsent : Sent (log ++ [p]) p.call token) :
    Answered U (log ++ [p]) token user :=
  ⟨p, List.mem_append_right _ List.mem_cons_self, htold, hsent⟩

end Said

/-! ## What a request knows -/

/-- A request, and what there is for its token. -/
structure Bearer where
  request : Request
  held : TokenGhost

namespace Bearer

/-- A request that has not done anything. -/
def new (k : Request) : Bearer := ⟨k, ⟨k.bearer.getD "", .looking⟩⟩

/-- The user in what there is for the token. -/
def Holds (U : UserCodec) (g : Bearer) (user : AuthenticatedUser) : Prop :=
  g.request.bearer = some g.held.token ∧ (g.held.stage = .told user ∨
    ∃ text, g.held.stage = .found text ∧ U.userFromJson text = some user)

/-- An operation on the profile breaker. -/
def OfBreaker : AuthOp → Prop
  | .allowRequest => True
  | .recordSuccess => True
  | .recordFailure => True
  | _ => False

/-- The operation stores nothing but under the key of the token. -/
def AtToken (token : String) : AuthOp → Prop
  | .cache o => o.Within fun key => key = tokenCacheKey token
  | _ => True

/-- The operations allowed. -/
def asks (S : Setup) (g : Bearer) : Op → Prop
  | .auth o => OfBreaker o ∨ (tokenProtocol S.users).asks g.held o ∧ AtToken g.held.token o
  | .limit _ => True
  | .svc o => OwnKeys o ∧ ∃ who call, g.request.call S who = some call ∧ Performs call o ∧
      ∀ user, who = some user → g.Holds S.users user
  | .board o => AtBoards o

/-- What there is after the answer to an operation. -/
def next (U : UserCodec) (g : Bearer) : (o : Op) → o.Ans → Bearer
  | .auth o, r => ⟨g.request, g.held.next U o r⟩
  | _, _ => g

end Bearer

/-- Authentication first, then the call for the user. -/
def bearing (S : Setup) : Protocol Op Op.Ans Bearer where
  asks := Bearer.asks S
  answers g o r g' := g' = g.next S.users o r

section Programs

variable {S : Setup} {k : Request} {token : String}

/-! ### Authentication -/

theorem storeUser_atToken (U : UserCodec) (ttlSecs : ℕ) (user : AuthenticatedUser) :
    (storeUser U ttlSecs token user).All (Bearer.AtToken token) := by
  unfold storeUser
  split
  · refine Prog.All.bind (Prog.All.lift ?_) fun _ => trivial
    exact Cache.set_within (P := fun key => key = tokenCacheKey token) rfl _ _
  · trivial

theorem httpValidate_atToken (U : UserCodec) (ttlSecs : ℕ) :
    (httpValidate U ttlSecs token).All (Bearer.AtToken token) := by
  refine ⟨trivial, fun status => ?_⟩
  cases status with
  | none => trivial
  | some status =>
    show Prog.All _ (if _ then _ else _)
    split_ifs
    · trivial
    · refine ⟨trivial, fun result => ?_⟩
      cases result with
      | error e => trivial
      | ok body =>
        simp only [Prog.ret_bind]
        split
        · trivial
        · exact storeUser_atToken U ttlSecs _
    · trivial

theorem grpcValidate_atToken (U : UserCodec) (ttlSecs : ℕ) :
    (grpcValidate U ttlSecs token).All (Bearer.AtToken token) := by
  refine ⟨trivial, fun outcome => ?_⟩
  cases outcome with
  | response resp =>
    show Prog.All _ (if resp.valid then _ else _)
    split_ifs
    · split
      · trivial
      · exact storeUser_atToken U ttlSecs _
    · trivial
  | status unauthenticated =>
    show Prog.All _ (if unauthenticated then _ else _)
    split_ifs <;> trivial
  | timedOut => trivial

theorem validateToken_atToken (U : UserCodec) (ttlSecs : ℕ) (transport : Transport) :
    (validateToken U ttlSecs transport token).All (Bearer.AtToken token) := by
  refine Prog.All.bind (Prog.All.lift (Cache.get_within rfl)) fun cached => ?_
  split
  · trivial
  · cases transport with
    | http => exact httpValidate_atToken U ttlSecs
    | grpc => exact grpcValidate_atToken U ttlSecs

/-- The request is the same, and a user is one it holds. -/
def Knows (S : Setup) (k : Request) (g : Bearer) (who : Option AuthenticatedUser) : Prop :=
  g.request = k ∧ ∀ user, who = some user → g.Holds S.users user

/-- What is known of who is asking. -/
def Known {ε : Type} (S : Setup) (k : Request) (g : Bearer)
    (result : Except ε (Option AuthenticatedUser)) : Prop :=
  ∀ who, result = .ok who → Knows S k g who

/-- What there is is for the same token. -/
theorem token_next (U : UserCodec) (held : TokenGhost) (o : AuthOp) (r : o.Ans) :
    (held.next U o r).token = held.token := by
  unfold TokenGhost.next
  split <;> rfl

/-- An operation on the breaker changes nothing of what is held. -/
theorem breaker_keeps {g g' : Bearer} {o : AuthOp} (ho : Bearer.OfBreaker o) {r : o.Ans}
    (h : (bearing S).answers g (.auth o) r g') : g' = g := by
  rw [show g' = ⟨g.request, g.held.next S.users o r⟩ from h]
  cases o <;> first | rfl | exact ho.elim

theorem validateToken_bearing (hk : k.bearer = some token) (ttlSecs : ℕ) (transport : Transport) :
    ((bearing S).comap .auth fun _ r => r).Obeys (fun g outcome => g.request = k ∧
        ∀ user, outcome = .ok user → g.Holds S.users user)
      (Bearer.new k) (validateToken S.users ttlSecs transport token) := by
  have hnew : Bearer.new k = ⟨k, ⟨token, .looking⟩⟩ := by
    rw [Bearer.new, hk, Option.getD_some]
  refine (Protocol.Obeys.simulate (R := fun (g : Bearer) held => g.request = k ∧ g.held = held ∧
    held.token = token) ?_ ?_ (validateToken_atToken S.users ttlSecs transport) ?_
    (validateToken_token S.users ttlSecs transport token)).mono ?_
  · rintro g held o ⟨-, rfl, rfl⟩ hat hasks
    exact Or.inr ⟨hasks, hat⟩
  · rintro g held o r g' ⟨hreq, rfl, htoken⟩ - - ⟨_, rfl, rfl⟩
    refine ⟨_, rfl, hreq, rfl, ?_⟩
    rw [token_next]
    exact htoken
  · rw [hnew]
    exact ⟨rfl, rfl, rfl⟩
  · rintro g outcome ⟨held, ⟨-, houtcome⟩, hreq, rfl, htoken⟩
    refine ⟨hreq, fun user huser => ⟨?_, houtcome user huser⟩⟩
    rw [hreq, hk, htoken]

/-- The outcome is recorded; a user in the answer is the one in the outcome. -/
theorem recordOutcome_bearing {g : Bearer} {outcome : Except AppError AuthenticatedUser}
    (hg : g.request = k ∧ ∀ user, outcome = .ok user → g.Holds S.users user) :
    ((bearing S).comap .auth fun _ r => r).Obeys (fun g answer => g.request = k ∧
      ∀ user, answer = .ok user → g.Holds S.users user) g (Auth.recordOutcome outcome) := by
  have herror : ∀ failure : Auth.AuthFailure, g.request = k ∧
      ∀ user, (Except.error failure : Except Auth.AuthFailure AuthenticatedUser) = .ok user →
        g.Holds S.users user :=
    fun failure => ⟨hg.1, fun user => nofun⟩
  -- one operation on the breaker, and the answer
  have hrecord : ∀ (o : AuthOp) (answer : Except Auth.AuthFailure AuthenticatedUser),
      Bearer.OfBreaker o → (g.request = k ∧ ∀ user, answer = .ok user → g.Holds S.users user) →
      ((bearing S).comap .auth fun _ r => r).Obeys (fun g answer => g.request = k ∧
        ∀ user, answer = .ok user → g.Holds S.users user) g (.op o fun _ => .ret answer) := by
    intro o answer ho hanswer
    refine ⟨Or.inl ho, ?_⟩
    rintro r g' ⟨_, -, hr⟩
    rw [breaker_keeps ho hr]
    exact hanswer
  cases outcome with
  | ok user =>
    refine hrecord .recordSuccess (.ok user) trivial ⟨hg.1, fun user' huser => ?_⟩
    exact hg.2 user' (congrArg Except.ok (Except.ok.inj huser))
  | error error =>
    cases error with
    | unauthorized m => exact hrecord .recordSuccess _ trivial (herror _)
    | dependencyUnavailable m => exact hrecord .recordFailure _ trivial (herror _)
    | internal m => exact hrecord .recordFailure _ trivial (herror _)
    | _ => exact herror _

theorem authenticateToken_bearing (hk : k.bearer = some token) :
    (bearing S).Obeys (fun g answer => g.request = k ∧
      ∀ user, answer = .ok user → g.Holds S.users user) (Bearer.new k)
      (authenticateToken S token) := by
  refine Protocol.obeys_lift.mpr ⟨Or.inl trivial, ?_⟩
  rintro _ g ⟨admitted, rfl, hr⟩
  rw [breaker_keeps (o := .allowRequest) trivial hr]
  cases admitted with
  | true =>
    refine (validateToken_bearing hk S.cacheTtlUserStatusSecs S.internalTransport).bind ?_
    intro g outcome houtcome
    exact recordOutcome_bearing houtcome
  | false => exact ⟨rfl, fun user => nofun⟩

theorem callerOf_bearing {ε : Type} {failed : Auth.AuthFailure → ε} {env : Envelope}
    (hk : k.bearer = env.bearer.toOption) :
    (bearing S).Obeys (Known S k) (Bearer.new k) (callerOf S failed env) := by
  unfold callerOf
  cases hbearer : env.bearer with
  | error failure => exact fun who => nofun
  | ok token =>
    have hk : k.bearer = some token := by
      rw [hk, hbearer]
      rfl
    refine (authenticateToken_bearing hk).bind fun g result hresult => ?_
    intro who hwho
    refine ⟨hresult.1, fun user huser => hresult.2 user ?_⟩
    cases result with
    | error failure => exact absurd hwho nofun
    | ok user' =>
      have hwho : some user' = who := Except.ok.inj hwho
      rw [← hwho] at huser
      rw [Option.some.inj huser]

theorem anyone_bearing {ε : Type} :
    (bearing S).Obeys (Known (ε := ε) S k) (Bearer.new k) anyone := by
  intro who hwho
  obtain rfl : none = who := Except.ok.inj hwho
  exact ⟨rfl, fun user => nofun⟩

/-! ### Handlers -/

/-- The call for whoever is asking. -/
theorem serve_bearing {g : Bearer} {who : Option AuthenticatedUser} {call : ServiceCall}
    (hwho : Knows S k g who) (hcall : k.call S who = some call) :
    (bearing S).Obeys (fun _ _ => True) g (serve S call) := by
  refine Protocol.obeys_of_all (fun o ho => ?_) (serve_allowed S call) fun _ => trivial
  cases o with
  | auth o => exact ho.elim
  | limit o => exact ho.elim
  | svc o =>
    refine ⟨⟨ho.2, who, call, ?_, ho.1, hwho.2⟩, fun r g' hr => hr⟩
    rw [hwho.1]
    exact hcall
  | board o => exact ⟨ho, fun r g' hr => hr⟩

theorem handler_bearing {ε : Type} {caller : ServerM (Except ε (Option AuthenticatedUser))}
    {extract : Except ε Unit} {within : Option AuthenticatedUser → ServerM (Except ε Unit)}
    {call : Option AuthenticatedUser → Except ε ServiceCall} {ofError : AppError → ε}
    (hcaller : (bearing S).Obeys (Known S k) (Bearer.new k) caller)
    (hwithin : ∀ who, (within who).All OfLimiter)
    (hcall : ∀ who, k.call S who = (call who).toOption) :
    (bearing S).Obeys (fun _ _ => True) (Bearer.new k)
      (handler S caller extract within call ofError) := by
  refine handler_obeys (W := Knows S k) hcaller (fun g who hwho => ?_) fun g who sc hwho hsc => ?_
  · refine Protocol.obeys_of_all (fun o ho => ?_) (hwithin who) fun _ _ => hwho
    cases o with
    | limit o => exact ⟨trivial, fun r g' hr => hr⟩
    | _ => exact ho.elim
  · refine serve_bearing hwho ?_
    rw [hcall, hsc]
    rfl

/-! ### Every request -/

theorem http_bearing (env : Envelope) (c : HttpCall) :
    (bearing S).Obeys (fun _ _ => True) (Bearer.new (.http env c)) (http S env c) := by
  refine http_handler c trivial ?_
  intro caller extract within hcaller hwithin
  refine handler_bearing ?_ hwithin.ofLimiter fun who => rfl
  rcases hcaller with rfl | rfl
  · exact callerOf_bearing rfl
  · exact anyone_bearing

theorem grpc_bearing (env : Envelope) (c : GrpcCall) :
    (bearing S).Obeys (fun _ _ => True) (Bearer.new (.grpc env c)) (grpc S env c) := by
  refine grpc_handler c ?_
  intro caller within hcaller hwithin
  refine handler_bearing ?_ hwithin.ofLimiter fun who => rfl
  rcases hcaller with rfl | rfl
  · exact callerOf_bearing rfl
  · exact anyone_bearing

theorem request_bearing (k : Request) :
    (bearing S).Obeys (fun _ _ => True) (Bearer.new k) (k.prog S) := by
  cases k with
  | http env c => exact (http_bearing env c).bind fun _ _ _ => trivial
  | grpc env c => exact (grpc_bearing env c).bind fun _ _ _ => trivial
  | refresh ttl contentTypes =>
    refine Protocol.obeys_of_all (S := fun o => ∃ o', o = .board o' ∧ AtBoards o')
      ?_ ?_ fun _ => trivial
    · rintro _ ⟨o, rfl, ho⟩
      exact ⟨ho, fun r g' hr => hr⟩
    · refine Prog.All.bind (Prog.All.lift ?_) fun _ => trivial
      exact (refreshAllWindows_atBoards S.boards ttl contentTypes).mono fun o ho => ⟨o, rfl, ho⟩

end Programs

/-! ## What all requests keep -/

section Requests

variable {ι : Type} {S : Setup}

/-- What the log has for a request. -/
def Stands (U : UserCodec) (log : Log ι) (i : ι) (held : TokenGhost) : Prop :=
  match held.stage with
  | .looking => True
  | .found text => ∃ token user, tokenCacheKey token = tokenCacheKey held.token ∧
      U.userToJson user = some text ∧ Answered U log token user
  | .asked => Sent log i held.token
  | .told user => Answered U log held.token user

theorem Stands.append {U : UserCodec} {log : Log ι} {i : ι} {held : TokenGhost}
    (h : Stands U log i held) (more : Log ι) : Stands U (log ++ more) i held := by
  unfold Stands at h ⊢
  split at h
  · trivial
  · obtain ⟨token, user, hkey, hjson, hanswered⟩ := h
    exact ⟨token, user, hkey, hjson, hanswered.append more⟩
  · exact Sent.append h more
  · exact Answered.append h more

/-- Every text under the key of a token is a user's whom the Profile API has named for such a
    token. -/
def VouchedEntries (U : UserCodec) (cache : Cache.CacheState) (log : Log ι) : Prop :=
  ∀ layer token text, cache.lookup layer (tokenCacheKey token) = some text →
    ∃ token' user, tokenCacheKey token' = tokenCacheKey token ∧ U.userToJson user = some text ∧
      Answered U log token' user

/-- What holds of the shared state and of all requests. -/
structure Vouches (S : Setup) (s : State ι × Log ι) (γ : ι → Option Bearer) : Prop where
  entries : VouchedEntries S.users s.1.world.cache s.2
  stands : ∀ i g, γ i = some g → Stands S.users s.2 i g.held
  acts : Pool.Throughout (fun before p => ∀ o, p.op = .svc o →
    ∃ g, γ p.call = some g ∧ ActsFor S before g.request o) s.2

/-- A user that a request holds has been vouched for. -/
theorem vouched_of_holds
    (hjson : ∀ user json, S.users.userToJson user = some json →
      S.users.userFromJson json = some user)
    {log : Log ι} {i : ι} {g : Bearer} {user : AuthenticatedUser}
    (hstands : Stands S.users log i g.held) (h : g.Holds S.users user) :
    ∃ token, g.request.bearer = some token ∧ Vouched S.users log token user := by
  refine ⟨g.held.token, h.1, ?_⟩
  unfold Stands at hstands
  rcases h.2 with hstage | ⟨text, hstage, htext⟩
  · rw [hstage] at hstands
    exact ⟨g.held.token, rfl, hstands⟩
  · rw [hstage] at hstands
    obtain ⟨token, user', hkey, hstored, hanswered⟩ := hstands
    rw [hjson user' text hstored] at htext
    rw [← Option.some.inj htext]
    exact ⟨token, hkey, hanswered⟩

variable {s t : State ι} {log : Log ι} {i : ι} {g : Bearer}

/-- A text that a validator finds is in the cache. -/
theorem auth_shows [DecidableEq ι] {o : Cache.Op} {x : Choice} {r : o.Ans}
    (h : handle S s i (.auth (.cache o)) x = some (t, r)) {layer : Cache.Layer} {key : CacheKey}
    {text : String} (hshows : o.Shows r layer key text) :
    s.world.cache.lookup layer key = some text := by
  cases x with
  | auth x =>
    obtain ⟨⟨a, r'⟩, ha, heq⟩ := Option.map_eq_some_iff.mp h
    cases heq
    cases x with
    | cache x =>
      obtain ⟨⟨c, r'⟩, hc, heq⟩ := Option.map_eq_some_iff.mp ha
      cases heq
      exact Cache.handle_shows hc hshows
    | _ => cases ha
  | _ => cases h

/-- What a validator has after an operation is in the log. -/
theorem stands_next [DecidableEq ι] {o : AuthOp} {x : Choice} {r : o.Ans}
    (hentries : VouchedEntries S.users s.world.cache log)
    (hstands : Stands S.users log i g.held) (hasks : (tokenProtocol S.users).asks g.held o)
    (h : handle S s i (.auth o) x = some (t, r)) :
    Stands S.users (log ++ [⟨i, .auth o, r, s, t⟩]) i (g.held.next S.users o r) := by
  have hold := hstands.append [⟨i, .auth o, r, s, t⟩]
  have hsent : ∀ token, (Op.auth o).sends = some token →
      Sent (log ++ [⟨i, .auth o, r, s, t⟩]) i token :=
    fun token hsends => ⟨_, List.mem_append_right _ List.mem_cons_self, rfl, hsends⟩
  -- an answer of the Profile API to a request that has sent the token
  have hheard : ∀ user : Option AuthenticatedUser, answeredUser S.users o r = user →
      Sent (log ++ [⟨i, .auth o, r, s, t⟩]) i g.held.token →
      Stands S.users (log ++ [⟨i, .auth o, r, s, t⟩]) i ⟨g.held.token, TokenGhost.heard user⟩ := by
    intro user huser hsent
    cases user with
    | none => exact hsent
    | some user => exact answered_append _ huser hsent
  have hfound : ∀ layer key text, key = tokenCacheKey g.held.token →
      s.world.cache.lookup layer key = some text →
      Stands S.users (log ++ [⟨i, .auth o, r, s, t⟩]) i ⟨g.held.token, .found text⟩ := by
    rintro layer _ text rfl hlookup
    obtain ⟨token, user, hkey, hjson, hanswered⟩ := hentries layer g.held.token text hlookup
    exact ⟨token, user, hkey, hjson, hanswered.append _⟩
  cases o with
  | cache o =>
    cases o with
    | l1Get key =>
      cases r with
      | none => exact hold
      | some text => exact hfound .l1 key text hasks.2 (auth_shows h ⟨rfl, rfl, rfl⟩)
    | redisGet key =>
      cases r with
      | none => exact hold
      | some text => exact hfound .redis key text hasks.2 (auth_shows h ⟨rfl, rfl, rfl⟩)
    | _ => exact hold
  | send token =>
    obtain rfl : token = g.held.token := hasks
    exact hsent g.held.token rfl
  | json =>
    refine hheard _ rfl ?_
    have hasked : g.held.stage = .asked := hasks
    unfold Stands at hold
    rw [hasked] at hold
    exact hold
  | validateToken token =>
    obtain rfl : token = g.held.token := hasks
    exact hheard _ rfl (hsent g.held.token rfl)
  | _ => exact hold

/-- A validator stores the user that the Profile API has named, or what it has found. -/
theorem stored_vouched {o : AuthOp} (hstands : Stands S.users log i g.held)
    (hasks : (tokenProtocol S.users).asks g.held o) (hat : Bearer.AtToken g.held.token o)
    {layer : Cache.Layer} {token : String} {text : String}
    (hstore : (Op.auth o).store = some (layer, tokenCacheKey token, text)) :
    ∃ token' user, tokenCacheKey token' = tokenCacheKey token ∧
      S.users.userToJson user = some text ∧ Answered S.users log token' user := by
  cases o with
  | cache o =>
    have hkey : tokenCacheKey token = tokenCacheKey g.held.token := hat.storesIn _ hstore
    rw [hkey]
    have htold : (∃ user, g.held.stage = .told user ∧ S.users.userToJson user = some text) →
        ∃ token' user, tokenCacheKey token' = tokenCacheKey g.held.token ∧
          S.users.userToJson user = some text ∧ Answered S.users log token' user := by
      rintro ⟨user, hstage, hjson⟩
      unfold Stands at hstands
      rw [hstage] at hstands
      exact ⟨g.held.token, user, rfl, hjson, hstands⟩
    cases o with
    | l1Insert key text' =>
      obtain ⟨-, rfl, rfl⟩ : Cache.Layer.l1 = layer ∧ key = tokenCacheKey token ∧ text' = text := by
        simpa [Op.store, Cache.Op.store] using hstore
      rcases hasks.2 with hfound | hasks
      · unfold Stands at hstands
        rw [hfound] at hstands
        exact hstands
      · exact htold hasks
    | redisSetEx key text' ttlSecs =>
      obtain ⟨-, rfl, rfl⟩ : Cache.Layer.redis = layer ∧ key = tokenCacheKey token ∧
          text' = text := by
        simpa [Op.store, Cache.Op.store] using hstore
      exact htold hasks.2
    | _ => exact absurd hstore nofun
  | _ => exact absurd hstore nofun

variable [DecidableEq ι]

/-- What is told to a request, and what it stores. -/
theorem asked_next {o : Op} {x : Choice} {r : o.Ans}
    (hentries : VouchedEntries S.users s.world.cache log)
    (hstands : Stands S.users log i g.held) (hasks : g.asks S o)
    (h : handle S s i o x = some (t, r)) :
    Stands S.users (log ++ [⟨i, o, r, s, t⟩]) i (g.next S.users o r).held ∧
      ∀ layer token text, o.store = some (layer, tokenCacheKey token, text) →
        ∃ token' user, tokenCacheKey token' = tokenCacheKey token ∧
          S.users.userToJson user = some text ∧ Answered S.users log token' user := by
  cases o with
  | auth o =>
    rcases hasks with hbreaker | ⟨hasks, hat⟩
    · have hold := hstands.append [⟨i, .auth o, r, s, t⟩]
      cases o <;> first | exact ⟨hold, fun layer token text => nofun⟩ | exact hbreaker.elim
    · exact ⟨stands_next hentries hstands hasks h, fun layer token text hstore =>
        stored_vouched hstands hasks hat hstore⟩
  | limit o => exact ⟨hstands.append _, fun layer token text => nofun⟩
  | svc o =>
    refine ⟨hstands.append _, fun layer token text hstore => ?_⟩
    cases o with
    | cache o => exact (hasks.1.storesIn _ hstore).elim
    | _ => exact absurd hstore nofun
  | board o =>
    refine ⟨hstands.append _, fun layer token text hstore => ?_⟩
    cases o with
    | cache o => exact (hasks.storesIn _ hstore).elim
    | _ => exact absurd hstore nofun

theorem next_request (U : UserCodec) (g : Bearer) (o : Op) (r : o.Ans) :
    (g.next U o r).request = g.request := by
  cases o <;> rfl

/-- One operation keeps what holds of all requests. -/
theorem Vouches.handle
    (hjson : ∀ user json, S.users.userToJson user = some json →
      S.users.userFromJson json = some user)
    {γ : ι → Option Bearer} (hJ : Vouches S (s, log) γ) (hγ : γ i = some g) {o : Op} {x : Choice}
    {r : o.Ans} (hasks : g.asks S o) (h : Server.handle S s i o x = some (t, r)) :
    Vouches S (t, log ++ [⟨i, o, r, s, t⟩])
      (Function.update γ i (some (g.next S.users o r))) := by
  obtain ⟨hstands, hstored⟩ := asked_next hJ.entries (hJ.stands i g hγ) hasks h
  refine ⟨fun layer token text hlookup => ?_, fun j g' hj => ?_, Pool.Throughout.append ?_ ?_⟩
  · have hbefore : ∃ token' user, tokenCacheKey token' = tokenCacheKey token ∧
        S.users.userToJson user = some text ∧ Answered S.users log token' user := by
      rcases handle_lookup h hlookup with hold | hstore
      · exact hJ.entries layer token text hold
      · exact hstored layer token text hstore
    obtain ⟨token', user, hkey, htext, hanswered⟩ := hbefore
    exact ⟨token', user, hkey, htext, hanswered.append _⟩
  · by_cases hji : j = i
    · subst hji
      rw [Function.update_self] at hj
      rw [← Option.some.inj hj]
      exact hstands
    · rw [Function.update_of_ne hji] at hj
      exact (hJ.stands j g' hj).append _
  · -- the operations before this one: the request of a call stays the same
    refine hJ.acts.mono fun before p hp o' ho' => ?_
    obtain ⟨g', hg', hacts⟩ := hp o' ho'
    by_cases hpi : p.call = i
    · rw [hpi] at hg' ⊢
      obtain rfl : g = g' := Option.some.inj (hγ.symm.trans hg')
      refine ⟨_, Function.update_self .., ?_⟩
      rw [next_request]
      exact hacts
    · exact ⟨g', by rw [Function.update_of_ne hpi]; exact hg', hacts⟩
  · intro o' ho'
    obtain rfl : o = .svc o' := ho'
    refine ⟨_, Function.update_self .., ?_⟩
    rw [next_request]
    obtain ⟨-, who, call, hcall, hperforms, hholds⟩ := hasks
    exact ⟨who, call, hcall, hperforms, fun user huser =>
      vouched_of_holds hjson (hJ.stands i g hγ) (hholds user huser)⟩

theorem vouches_records
    (hjson : ∀ user json, S.users.userToJson user = some json →
      S.users.userFromJson json = some user) :
    Pool.Records (server (ι := ι) S).recorded (bearing S) (fun k g => g.request = k)
      (fun _ _ => True) (fun _ => True) Bearer.new (Vouches S) (fun _ _ => True) where
  prog := request_bearing
  typed _ := rfl
  start c i k s γ _ hJ hγ hs := by
    cases hs
    refine ⟨hJ.entries, fun j g hj => ?_, hJ.acts.mono fun before p hp o ho => ?_⟩
    · by_cases hji : j = i
      · subst hji
        rw [Function.update_self] at hj
        rw [← Option.some.inj hj]
        trivial
      · rw [Function.update_of_ne hji] at hj
        exact hJ.stands j g hj
    · obtain ⟨g, hg, hacts⟩ := hp o ho
      have hpi : p.call ≠ i := by
        intro hpi
        rw [hpi, hγ] at hg
        exact absurd hg nofun
      exact ⟨g, by rw [Function.update_of_ne hpi]; exact hg, hacts⟩
  handle c i x k o f s r γ g _ hJ _ _ hγ htyped hasks hs := by
    obtain ⟨t, ht, rfl⟩ := Pool.recorded_handle hs
    exact ⟨_, rfl, (next_request S.users g o r).trans htyped, hJ.handle hjson hγ hasks ht⟩
  drop c i s γ g _ hJ _ hs := by
    cases hs
    exact ⟨⟨hJ.entries, hJ.stands, hJ.acts⟩, trivial⟩
  env c x s γ _ hJ hs := by
    obtain ⟨t, ht, rfl⟩ := Option.map_eq_some_iff.mp hs
    exact ⟨fun layer token text hlookup => hJ.entries layer token text (expire_lookup ht hlookup),
      hJ.stands, hJ.acts⟩

end Requests

/-- A configuration of the server, with all that has been done. -/
abbrev ServerConfig (ι : Type) :=
  Configuration ι (State ι × Log ι) Request Op Op.Ans Answer

/-- In every run of the server, whatever the other requests do and whatever fails or expires: an
    operation of the service is part of the call that the handler of its request makes, and if
    this is a call for a user, the request carries a bearer token and the Profile API had named
    the user, before the operation, in answer to a token with the same hash. -/
theorem actsFor_reachable {ι : Type} [DecidableEq ι] {S : Setup}
    (hjson : ∀ user json, S.users.userToJson user = some json →
      S.users.userFromJson json = some user)
    {init c : ServerConfig ι} {acts : List (Act ι Request Choice)}
    (hinit : (server S).recorded.machine.init init)
    (hrun : (server S).recorded.machine.run init acts = some c) {before after : Log ι}
    {p : Performed ι (State ι) Op Op.Ans} (hp : c.shared.2 = before ++ p :: after) {o : SvcOp}
    (ho : p.op = .svc o) :
    ∃ k, (c.calls p.call).request = some k ∧ ActsFor S before k o := by
  obtain ⟨⟨hstart, hempty⟩, hidle⟩ := hinit
  have hrecord : Pool.Record (bearing S) (fun k g => g.request = k) (fun _ _ => True)
      (fun _ => True) (Vouches S) init := by
    refine Pool.record_init ⟨fun layer token text hlookup => ?_, fun i g => nofun, ?_⟩ hidle
    · rw [hstart.1.2.1, Cache.CacheState.lookup_empty] at hlookup
      exact absurd hlookup nofun
    · rw [hempty]
      exact Pool.throughout_nil
  obtain ⟨γ, hJ, hT⟩ := (vouches_records hjson).record_of_meets hrecord
    (Machine.meets_of_forall (fun _ _ => trivial) _ _) hrun
  obtain ⟨g, hg, hacts⟩ := hJ.acts before p after hp o ho
  have hcall := hT p.call
  rw [hg] at hcall
  obtain ⟨k, hk, hgk⟩ := hcall.request
  have hgk : g.request = k := hgk
  rw [hgk] at hacts
  exact ⟨k, hk, hacts⟩

/-! ### One like -/

/-- A service with posts and the default settings. -/
def postsSetup : Setup where
  service := .default
  app := Grpc.posts
  codec := .plain
  users := .plain
  boards := Leaderboard.plainLibs
  profile := Auth.defaultBreaker
  cacheTtlUserStatusSecs := 300
  internalTransport := .http
  rateLimitWritePerMinute := 30
  rateLimitReadPerMinute := 1000

/-- A process that has just started. -/
def starting {ι : Type} : State ι :=
  ⟨.new, CircuitBreaker.new, .new, fun _ => [], fun _ _ _ => none⟩

/-- A request with a token. -/
def withToken (token : String) : Envelope :=
  ⟨some ("Bearer " ++ token).toUTF8.data.toList, ⟨none, none⟩, none⟩

/-- A like of a post. -/
def likePost : Request :=
  .http (withToken "tok_user_1") (.likeContent ⟨"post", "731b0395-4888-4822-b516-05b4b7bf2089"⟩)

/-- Request 0 likes a post, up to the insertion of the row: the token is not cached, the Profile
    API knows it as user 1's, the limit is not reached, and there is such a post. -/
def likedPost : List (Act ℕ Request Choice) :=
  [.start 0 likePost, .step 0 (.auth (.clock 0 0)), .step 0 (.auth (.cache .ok)),
    .step 0 (.auth (.cache .ok)), .step 0 (.auth (.sent (some 200))),
    .step 0 (.auth (.body (.ok ⟨some true, some "usr_550e8400-e29b-41d4-a716-446655440001",
      some "Test User 1"⟩))), .step 0 (.auth (.cache .ok)), .step 0 (.auth (.cache .ok)),
    .step 0 (.auth (.clock 0 0)), .step 0 (.limit (.clock 1000)), .step 0 (.limit .any),
    .step 0 (.limit .any), .step 0 (.svc (.clock 0 0)),
    .step 0 (.svc (.validated (.ok (.remote true)))), .step 0 (.svc (.clock 0 0)),
    .step 0 (.svc (.db (.run .epoch []))), .step 0 (.svc (.db (.run .epoch [])))]

/-- The row that an operation inserts. -/
def insertedRow : Op → Option (Uuid × Item)
  | .svc (.db (.insertLike userId item)) => some (userId, item)
  | _ => none

theorem svc_of_insertedRow {o : Op} {row : Uuid × Item} (h : insertedRow o = some row) :
    ∃ o', o = .svc o' := by
  unfold insertedRow at h
  split at h
  · exact ⟨_, rfl⟩
  · exact absurd h nofun

/-- User 1's row. -/
theorem actsFor_reachable_likedPost : ∃ c : ServerConfig ℕ,
    (server postsSetup).recorded.machine.run ⟨(starting, []), fun _ => .idle⟩ likedPost = some c ∧
    ∃ before p o, c.shared.2 = before ++ [p] ∧ p.op = .svc o ∧
      insertedRow p.op = some (0x550e8400e29b41d4a716446655440001#128,
        ("post", 0x731b039548884822b51605b4b7bf2089#128)) ∧
      ∃ k, (c.calls p.call).request = some k ∧ ActsFor postsSetup before k o := by
  have hview : ((server postsSetup).recorded.machine.run
      (⟨(starting, []), fun _ => .idle⟩ : ServerConfig ℕ) likedPost).map
        (fun c => c.shared.2.getLast?.map fun p => insertedRow p.op) =
      some (some (some (0x550e8400e29b41d4a716446655440001#128,
        ("post", 0x731b039548884822b51605b4b7bf2089#128)))) := by
    decide +kernel
  obtain ⟨c, hrun, hlast⟩ := Option.map_eq_some_iff.mp hview
  obtain ⟨p, hp, hrow⟩ := Option.map_eq_some_iff.mp hlast
  obtain ⟨before, hlog⟩ := List.getLast?_eq_some_iff.mp hp
  obtain ⟨o, ho⟩ := svc_of_insertedRow hrow
  have hinit : (server postsSetup).recorded.machine.init
      (⟨(starting, []), fun _ => .idle⟩ : ServerConfig ℕ) := by
    exact ⟨⟨⟨⟨⟨_, Repositories.consistent_empty, rfl⟩, rfl, rfl⟩, rfl, rfl⟩, rfl⟩, fun _ => rfl⟩
  exact ⟨c, hrun, before, p, o, hlog, ho, hrow,
    actsFor_reachable plain_userJson hinit hrun hlog ho⟩

end SocialApi.Server
