import SocialApi.Server.Vouched

/-!
# Charges

A write is charged to the user in the token before the handler makes its call. Each request
charges once at most, and writes only after it has been allowed (`request_charging`).
-/

namespace SocialApi.Server

open SocialApi.Concurrent SocialApi.Clients SocialApi.Services SocialApi.Handlers
open SocialApi.RateLimit (Quota checkRateLimitInner)

/-! ## Writes -/

/-- The operation inserts or deletes a row of the user, or publishes an event about the user. -/
def Writes (userId : Uuid) : SvcOp → Prop
  | .db (.insertLike userId' _) => userId' = userId
  | .db (.deleteLike userId' _) => userId' = userId
  | .publish event _ => eventUser event = userId
  | _ => False

/-- The user a call writes for. -/
def writer : ServiceCall → Option Uuid
  | .like userId _ => some userId
  | .unlike userId _ => some userId
  | _ => none

/-- Only `like` and `unlike` write, and only for their user. -/
theorem writer_of_writes {call : ServiceCall} {o : SvcOp} {userId : Uuid}
    (hperforms : Performs call o) (h : Writes userId o) : writer call = some userId := by
  have hconcerns : ∀ userId' item, Concerns userId' item o → userId' = userId := by
    intro userId' item hconcerns
    unfold Writes at h
    split at h
    · exact hconcerns.1.symm.trans h
    · exact hconcerns.1.symm.trans h
    · exact hconcerns.1.symm.trans h
    · exact h.elim
  have hprivate : ∀ userId', ¬ Private userId' o := by
    intro userId' hprivate
    unfold Writes at h
    split at h
    · exact hprivate
    · exact hprivate
    · exact hprivate
    · exact h
  have hreading : ¬ Reading o := by
    intro hreading
    unfold Writes at h
    split at h
    · exact hreading
    · exact hreading
    · exact hreading
    · exact h
  cases call with
  | like userId' item => exact congrArg some (hconcerns userId' item hperforms)
  | unlike userId' item => exact congrArg some (hconcerns userId' item hperforms)
  | getStatus userId' item => exact absurd hperforms (hprivate userId')
  | batchStatuses userId' items => exact absurd hperforms (hprivate userId')
  | getUserLikes userId' contentTypeFilter cursor limit => exact absurd hperforms (hprivate userId')
  | getCount item => exact absurd hperforms hreading
  | batchCounts items => exact absurd hperforms hreading
  | getLeaderboard contentType window limit => exact absurd hperforms hreading

/-! ### The calls of the handlers -/

/-- Every value of the result is in `P`. -/
def Yields {ε α : Type} (P : α → Prop) (result : Except ε α) : Prop := ∀ a, result = .ok a → P a

section Yields

variable {ε α β : Type} {P : β → Prop} {x : Except ε α} {f : α → Except ε β}

theorem yields_pure {b : β} (h : P b) : Yields P (pure b : Except ε β) := by
  intro a ha
  rw [← Except.ok.inj ha]
  exact h

theorem yields_bind (h : ∀ a, x = .ok a → Yields P (f a)) : Yields P (x >>= f) := by
  intro b hb
  obtain ⟨a, ha, hb⟩ := Grpc.bind_eq_ok.mp hb
  exact h a ha b hb

end Yields

section Handlers

variable {S : Setup} {who : Option AuthenticatedUser}

/-- The call writes for whoever is asking, if it writes. -/
def ForCaller (who : Option AuthenticatedUser) (call : ServiceCall) : Prop :=
  ∀ userId, writer call = some userId → ∃ user, who = some user ∧ user.userId = userId

theorem forCaller_of_writer {user : AuthenticatedUser} {call : ServiceCall}
    (h : writer call = some user.userId) : ForCaller (some user) call := by
  intro userId hwriter
  exact ⟨user, rfl, Option.some.inj (h.symm.trans hwriter)⟩

theorem likeContent_forCaller (body : BodyItem) :
    Yields (ForCaller who) (HttpCall.call S (.likeContent body) who) := by
  cases who with
  | none => exact fun call => nofun
  | some user =>
    refine yields_bind fun user' huser => yields_bind fun item _ => yields_bind fun _ _ =>
      yields_bind fun _ _ => yields_pure (forCaller_of_writer ?_)
    rw [show user = user' from Except.ok.inj huser]
    rfl

theorem unlikeContent_forCaller (contentType contentId : String) :
    Yields (ForCaller who) (HttpCall.call S (.unlikeContent contentType contentId) who) := by
  show Yields (ForCaller who) (Handlers.unlikeContent S.app _ true contentType contentId)
  unfold Handlers.unlikeContent
  cases deleteRouted contentType contentId with
  | false => exact fun call => nofun
  | true =>
    cases who with
    | none => exact fun call => nofun
    | some user =>
      refine yields_bind fun user' huser => yields_bind fun item _ => yields_bind fun _ _ =>
        yields_pure (forCaller_of_writer ?_)
      rw [show user = user' from Except.ok.inj huser]
      rfl

/-- A request that writes. -/
def HttpCall.IsWrite : HttpCall → Prop
  | .likeContent _ => True
  | .unlikeContent _ _ => True
  | _ => False

/-- The other handlers make calls that read. -/
theorem http_reads {k : HttpCall} (hk : ¬ k.IsWrite) :
    Yields (fun call => writer call = none) (k.call S who) := by
  cases k with
  | likeContent body => exact absurd trivial hk
  | unlikeContent contentType contentId => exact absurd trivial hk
  | getCount contentType contentId =>
    exact yields_bind fun _ _ => yields_bind fun _ _ => yields_pure rfl
  | getStatus contentType contentId =>
    exact yields_bind fun _ _ => yields_bind fun _ _ => yields_bind fun _ _ => yields_pure rfl
  | getUserLikes params =>
    exact yields_bind fun _ _ => yields_bind fun _ _ => yields_bind fun _ _ => yields_pure rfl
  | batchCounts body =>
    exact yields_bind fun _ _ => yields_bind fun _ _ => yields_bind fun _ _ => yields_pure rfl
  | batchStatuses body =>
    exact yields_bind fun _ _ => yields_bind fun _ _ => yields_bind fun _ _ =>
      yields_bind fun _ _ => yields_pure rfl
  | getLeaderboard params =>
    refine yields_bind fun _ _ => yields_bind fun _ _ => ?_
    intro call hcall
    dsimp only at hcall
    split at hcall
    · exact absurd hcall nofun
    · rw [← Except.ok.inj hcall]
      rfl

/-- A method that writes. -/
def GrpcCall.IsWrite : GrpcCall → Prop
  | .like _ => True
  | .unlike _ => True
  | _ => False

theorem grpc_forCaller {k : GrpcCall} (hk : k.IsWrite) : Yields (ForCaller who) (k.call S who) := by
  cases who with
  | none =>
    cases k with
    | like inner => exact fun call => nofun
    | unlike inner => exact fun call => nofun
    | _ => exact hk.elim
  | some user =>
    cases k with
    | like inner =>
      refine yields_bind fun user' huser => yields_bind fun _ _ => yields_bind fun _ _ =>
        yields_bind fun contentId _ => yields_pure (forCaller_of_writer ?_)
      rw [show user = user' from Except.ok.inj huser]
      rfl
    | unlike inner =>
      refine yields_bind fun user' huser => yields_bind fun _ _ => yields_bind fun _ _ =>
        yields_bind fun contentId _ => yields_pure (forCaller_of_writer ?_)
      rw [show user = user' from Except.ok.inj huser]
      rfl
    | _ => exact hk.elim

theorem grpc_reads {k : GrpcCall} (hk : ¬ k.IsWrite) :
    Yields (fun call => writer call = none) (k.call S who) := by
  cases k with
  | like inner => exact absurd trivial hk
  | unlike inner => exact absurd trivial hk
  | getCount inner =>
    exact yields_bind fun _ _ => yields_bind fun _ _ => yields_bind fun _ _ => yields_pure rfl
  | getStatus inner =>
    exact yields_bind fun _ _ => yields_bind fun _ _ => yields_bind fun _ _ =>
      yields_bind fun _ _ => yields_pure rfl
  | batchCounts items =>
    exact yields_bind fun _ _ => yields_bind fun _ _ => yields_bind fun _ _ => yields_pure rfl
  | batchStatuses items =>
    exact yields_bind fun _ _ => yields_bind fun _ _ => yields_bind fun _ _ =>
      yields_bind fun _ _ => yields_pure rfl
  | getUserLikes inner =>
    refine yields_bind fun _ _ => yields_bind fun _ _ => yields_bind fun _ _ => ?_
    intro call hcall
    rw [← Except.ok.inj hcall]
    split <;> rfl
  | getLeaderboard inner =>
    exact yields_bind fun _ _ => yields_bind fun _ _ => yields_bind fun _ _ => yields_pure rfl

end Handlers

/-! ## Charges -/

/-- How far the charge of a request is. -/
inductive Charge where
  | fresh
  | clocked (now : ℕ)
  | drawn (now seq : ℕ)
  | charged (key : String) (reply : Option (List ℤ))

namespace Charge

variable (S : Setup)

/-- The request has been charged for a write of the user, and is within the limit. -/
def Paid (userId : Uuid) (g : Charge) : Prop :=
  ∃ reply, g = .charged (userWrite S userId).key reply ∧
    (RateLimit.resultOf (userWrite S userId).quota reply).allowed = true

/-- The operations allowed. -/
def asks (g : Charge) : Op → Prop
  | .limit .clock => g = .fresh
  | .limit .fetchAdd => ∃ now, g = .clocked now
  | .limit (.invokeScript key now window limit member) => ∃ seq, g = .drawn now seq ∧
      member = ⟨now, seq⟩ ∧ ∀ userId, key = (userWrite S userId).key →
        window = (userWrite S userId).quota.windowMs ∧ limit = (userWrite S userId).quota.limit
  | .svc o => ∀ userId, Writes userId o → g.Paid S userId
  | _ => True

/-- What comes of an operation. -/
def next : Charge → (o : Op) → o.Ans → Charge
  | _, .limit .clock, now => .clocked now
  | .clocked now, .limit .fetchAdd, seq => .drawn now seq
  | _, .limit (.invokeScript key _ _ _ _), reply => .charged key reply
  | g, _, _ => g

end Charge

/-- One charge at most, and the writes after it. -/
def charging (S : Setup) : Protocol Op Op.Ans Charge where
  asks := Charge.asks S
  answers g o r g' := g' = g.next o r

section Programs

variable {S : Setup}

/-- What is known after a charge. -/
def Charged (r : RateLimit.Request) (g : Charge) (result : RateLimit.RateLimitResult) : Prop :=
  ∃ reply, g = .charged r.key reply ∧ result = RateLimit.resultOf r.quota reply

/-- A charge, to a user or to a key that is no user's. -/
theorem checkRateLimitInner_charging {r : RateLimit.Request}
    (hr : ∀ userId, r.key = (userWrite S userId).key → r.quota = (userWrite S userId).quota) :
    ((charging S).comap .limit fun _ r => r).Obeys (Charged r) .fresh (checkRateLimitInner r) := by
  refine ⟨rfl, ?_⟩
  rintro _ _ ⟨now, rfl, rfl⟩
  refine ⟨⟨now, rfl⟩, ?_⟩
  rintro _ _ ⟨seq, rfl, rfl⟩
  refine ⟨⟨seq, rfl, rfl, fun userId hkey => ?_⟩, ?_⟩
  · rw [hr userId hkey]
    exact ⟨rfl, rfl⟩
  · rintro _ _ ⟨reply, rfl, rfl⟩
    exact ⟨reply, rfl, rfl⟩

theorem userWrite_quota (userId : Uuid) : ∀ userId', (userWrite S userId).key =
    (userWrite S userId').key → (userWrite S userId).quota = (userWrite S userId').quota :=
  fun _ _ => rfl

/-- A minute. -/
theorem userWrite_windowMs (S : Setup) (userId : Uuid) :
    ((userWrite S userId).quota.windowMs : ℤ) = 60000 := by
  norm_num [userWrite, RateLimit.Quota.windowMs]

/-- The keys of reads are not those of writes. -/
theorem userRead_apart (userId : Uuid) : ∀ userId', (userRead S userId).key =
    (userWrite S userId').key → (userRead S userId).quota = (userWrite S userId').quota := by
  intro userId' h
  have h := congrArg String.toList h
  simp [userRead, userWrite, String.toList_append] at h

theorem ipRead_apart (ip : String) (quota : Quota) : ∀ userId,
    "rl:ip:read:" ++ toString (fnv1aHash ip).toNat = (userWrite S userId).key →
      quota = (userWrite S userId).quota := by
  intro userId h
  have h := congrArg String.toList h
  simp [userWrite, String.toList_append] at h

/-- Whoever is asking has paid, if anyone is. -/
def PaidBy (S : Setup) (g : Charge) (who : Option AuthenticatedUser) : Prop :=
  ∀ user, who = some user → g.Paid S user.userId

theorem paid_of_charged {userId : Uuid} {g : Charge} {result : RateLimit.RateLimitResult}
    (h : Charged (userWrite S userId) g result) (hallowed : result.allowed = true) :
    g.Paid S userId := by
  obtain ⟨reply, hg, rfl⟩ := h
  exact ⟨reply, hg, hallowed⟩

theorem userLimit_charging (who : Option AuthenticatedUser) :
    (charging S).Obeys (fun g result => result = .ok () → PaidBy S g who) .fresh
      (userLimit (userWrite S) who) := by
  cases who with
  | none => exact fun _ user => nofun
  | some user =>
    refine Protocol.Obeys.bind (Protocol.obeys_lift.mpr
      (checkRateLimitInner_charging (userWrite_quota user.userId))) fun g result hcharged => ?_
    intro hok user' huser
    obtain rfl := Option.some.inj huser
    refine paid_of_charged hcharged ?_
    by_contra hdenied
    rw [withinLimit, if_neg hdenied] at hok
    exact absurd hok nofun

theorem checkUserLimit_charging (who : Option AuthenticatedUser) :
    (charging S).Obeys (fun g result => result = .ok () → PaidBy S g who) .fresh
      (checkUserLimit (userWrite S) who) := by
  cases who with
  | none => exact fun _ user => nofun
  | some user =>
    have henforce : ((charging S).comap .limit fun _ r => r).Obeys
        (fun g result => result = .ok () → g.Paid S user.userId) .fresh
        (enforce (userWrite S user.userId)) := by
      refine (checkRateLimitInner_charging (userWrite_quota user.userId)).bind ?_
      intro g result hcharged
      show Protocol.Obeys _ _ g (if result.allowed then _ else _)
      split_ifs with hallowed
      · exact fun _ => paid_of_charged hcharged hallowed
      · exact fun hok => absurd hok nofun
    refine (Protocol.obeys_lift.mpr henforce).bind fun g result hpaid hok user' huser => ?_
    obtain rfl := Option.some.inj huser
    refine hpaid ?_
    cases result with
    | ok u => rfl
    | error e => exact absurd hok nofun

theorem userRead_charging (who : Option AuthenticatedUser) :
    (charging S).Obeys (fun _ _ => True) .fresh (userLimit (userRead S) who) := by
  cases who with
  | none => trivial
  | some user =>
    exact Protocol.Obeys.bind (Protocol.obeys_lift.mpr
      (checkRateLimitInner_charging (userRead_apart user.userId))) fun _ _ _ => trivial

theorem checkUserRead_charging (who : Option AuthenticatedUser) :
    (charging S).Obeys (fun _ _ => True) .fresh (checkUserLimit (userRead S) who) := by
  cases who with
  | none => trivial
  | some user =>
    have henforce : ((charging S).comap .limit fun _ r => r).Obeys (fun _ _ => True) .fresh
        (enforce (userRead S user.userId)) := by
      refine (checkRateLimitInner_charging (userRead_apart user.userId)).bind ?_
      intro g result _
      show Protocol.Obeys _ _ g (if result.allowed then _ else _)
      split_ifs <;> trivial
    exact (Protocol.obeys_lift.mpr henforce).bind fun _ _ _ => trivial

theorem readRateLimit_charging (env : Envelope) (who : Option AuthenticatedUser) :
    (charging S).Obeys (fun _ _ => True) .fresh (readRateLimit S env who) := by
  have hread : ((charging S).comap .limit fun _ r => r).Obeys (fun _ _ => True) .fresh
      (RateLimit.readRateLimit S.rateLimitReadPerMinute env.client) := by
    refine (checkRateLimitInner_charging (ipRead_apart _ _)).bind fun g result _ => ?_
    show Protocol.Obeys _ _ g (if result.allowed then _ else _)
    split_ifs <;> trivial
  refine (Protocol.obeys_lift.mpr hread).bind fun g outcome _ => ?_
  cases outcome <;> trivial

theorem checkPublicReadLimit_charging (env : Envelope) (who : Option AuthenticatedUser) :
    (charging S).Obeys (fun _ _ => True) .fresh (checkPublicReadLimit S env who) := by
  have hread : ((charging S).comap .limit fun _ r => r).Obeys (fun _ _ => True) .fresh
      (RateLimit.checkPublicReadLimit S.rateLimitWritePerMinute S.rateLimitReadPerMinute
        env.client env.peer) := by
    refine (checkRateLimitInner_charging (ipRead_apart _ _)).bind fun g result _ => ?_
    show Protocol.Obeys _ _ g (if result.allowed then _ else _)
    split_ifs <;> trivial
  exact (Protocol.obeys_lift.mpr hread).bind fun _ _ _ => trivial

/-! ### Every request -/

/-- An operation of an authentication. -/
def OfAuth : Op → Prop
  | .auth _ => True
  | _ => False

theorem callerOf_ofAuth {ε : Type} (failed : Auth.AuthFailure → ε) (env : Envelope) :
    (callerOf S failed env).All OfAuth := by
  unfold callerOf
  split
  · trivial
  · refine Prog.All.bind (Prog.All.lift ?_) fun _ => trivial
    exact Prog.all_of_forall (fun _ => trivial) _

/-- The call, if it writes for no one but who has paid. -/
theorem serve_charging {g : Charge} {call : ServiceCall}
    (hpaid : ∀ userId, writer call = some userId → g.Paid S userId) :
    (charging S).Obeys (fun _ _ => True) g (serve S call) := by
  refine Protocol.obeys_of_all (fun o ho => ?_) (serve_allowed S call) fun _ => trivial
  cases o with
  | auth o => exact ho.elim
  | limit o => exact ho.elim
  | svc o =>
    refine ⟨fun userId hwrites => hpaid userId (writer_of_writes ho.1 hwrites), fun r g' hr => ?_⟩
    rw [show g' = g.next (.svc o) r from hr]
    cases g <;> rfl
  | board o =>
    refine ⟨trivial, fun r g' hr => ?_⟩
    rw [show g' = g.next (.board o) r from hr]
    cases g <;> rfl

theorem handler_charging {ε : Type} {caller : ServerM (Except ε (Option AuthenticatedUser))}
    {extract : Except ε Unit} {within : Option AuthenticatedUser → ServerM (Except ε Unit)}
    {call : Option AuthenticatedUser → Except ε ServiceCall} {ofError : AppError → ε}
    {W : Charge → Option AuthenticatedUser → Prop} (hcaller : caller.All OfAuth)
    (hwithin : ∀ who, (charging S).Obeys (fun g result => result = .ok () → W g who) .fresh
      (within who))
    (hcall : ∀ g who, W g who → Yields (fun call => ∀ userId, writer call = some userId →
      g.Paid S userId) (call who)) :
    (charging S).Obeys (fun _ _ => True) .fresh
      (handler S caller extract within call ofError) := by
  have hfresh : (charging S).Obeys (fun g _ => g = .fresh) .fresh caller := by
    refine Protocol.obeys_of_all (fun o ho => ?_) hcaller fun _ => rfl
    cases o with
    | auth o => exact ⟨trivial, fun r g' hr => hr⟩
    | _ => exact ho.elim
  refine handler_obeys (A := fun g _ => g = .fresh) (hfresh.mono fun g _ hg who _ => hg)
    (fun g who hg => ?_) fun g who sc hw hsc => serve_charging (hcall g who hw sc hsc)
  rw [hg]
  exact hwithin who

/-- A handler that makes calls that read. -/
theorem reading_charging {ε : Type} {caller : ServerM (Except ε (Option AuthenticatedUser))}
    {extract : Except ε Unit} {within : Option AuthenticatedUser → ServerM (Except ε Unit)}
    {call : Option AuthenticatedUser → Except ε ServiceCall} {ofError : AppError → ε}
    (hcaller : caller.All OfAuth)
    (hwithin : ∀ who, (charging S).Obeys (fun _ _ => True) .fresh (within who))
    (hcall : ∀ who, Yields (fun call => writer call = none) (call who)) :
    (charging S).Obeys (fun _ _ => True) .fresh
      (handler S caller extract within call ofError) := by
  refine handler_charging (W := fun _ _ => True) hcaller
    (fun who => (hwithin who).mono fun _ _ _ _ => trivial) fun g who _ sc hsc userId hwriter => ?_
  rw [hcall who sc hsc] at hwriter
  exact absurd hwriter nofun

/-- A handler that writes for a caller who has paid. -/
theorem writing_charging {ε : Type} {caller : ServerM (Except ε (Option AuthenticatedUser))}
    {extract : Except ε Unit} {within : Option AuthenticatedUser → ServerM (Except ε Unit)}
    {call : Option AuthenticatedUser → Except ε ServiceCall} {ofError : AppError → ε}
    (hcaller : caller.All OfAuth)
    (hwithin : ∀ who, (charging S).Obeys (fun g result => result = .ok () → PaidBy S g who) .fresh
      (within who))
    (hcall : ∀ who, Yields (ForCaller who) (call who)) :
    (charging S).Obeys (fun _ _ => True) .fresh
      (handler S caller extract within call ofError) := by
  refine handler_charging hcaller hwithin fun g who hpaid sc hsc userId hwriter => ?_
  obtain ⟨user, hwho, rfl⟩ := hcall who sc hsc userId hwriter
  exact hpaid user hwho

variable {env : Envelope}

theorem http_charging (k : HttpCall) :
    (charging S).Obeys (fun _ _ => True) .fresh (http S env k) := by
  have huser : (authUser S env).All OfAuth := callerOf_ofAuth _ env
  have hanyone : (anyone : ServerM (Except Rejection (Option AuthenticatedUser))).All OfAuth :=
    trivial
  unfold http
  split_ifs
  · cases k with
    | likeContent body =>
      exact writing_charging huser userLimit_charging fun who => likeContent_forCaller body
    | unlikeContent contentType contentId =>
      exact writing_charging huser userLimit_charging fun who =>
        unlikeContent_forCaller contentType contentId
    | getCount contentType contentId =>
      exact reading_charging hanyone (readRateLimit_charging env) fun who => http_reads id
    | getStatus contentType contentId =>
      exact reading_charging huser userRead_charging fun who => http_reads id
    | getUserLikes params =>
      exact reading_charging huser userRead_charging fun who => http_reads id
    | batchCounts body =>
      exact reading_charging hanyone (readRateLimit_charging env) fun who => http_reads id
    | batchStatuses body =>
      exact reading_charging huser userRead_charging fun who => http_reads id
    | getLeaderboard params =>
      exact reading_charging hanyone (readRateLimit_charging env) fun who => http_reads id
  · trivial

theorem grpc_charging (k : GrpcCall) :
    (charging S).Obeys (fun _ _ => True) .fresh (grpc S env k) := by
  have huser : (authenticate S env).All OfAuth := callerOf_ofAuth _ env
  have hanyone : (anyone : ServerM (Except Streams.Status (Option AuthenticatedUser))).All OfAuth :=
    trivial
  have hwrite : k.IsWrite → (charging S).Obeys (fun _ _ => True) .fresh (grpcWrite S env k) :=
    fun hk => writing_charging huser checkUserLimit_charging fun who => grpc_forCaller hk
  have hread : ¬ k.IsWrite → (charging S).Obeys (fun _ _ => True) .fresh (grpcRead S env k) :=
    fun hk => reading_charging huser checkUserRead_charging fun who => grpc_reads hk
  have hpublic : ¬ k.IsWrite → (charging S).Obeys (fun _ _ => True) .fresh (grpcPublic S env k) :=
    fun hk => reading_charging hanyone (checkPublicReadLimit_charging env) fun who =>
      grpc_reads hk
  cases k with
  | like inner => exact hwrite trivial
  | unlike inner => exact hwrite trivial
  | getCount inner => exact hpublic id
  | getStatus inner => exact hread id
  | batchCounts items => exact hpublic id
  | batchStatuses items => exact hread id
  | getUserLikes inner => exact hread id
  | getLeaderboard inner => exact hpublic id

theorem request_charging (k : Request) :
    (charging S).Obeys (fun _ _ => True) .fresh (k.prog S) := by
  cases k with
  | http env k => exact (http_charging k).bind fun _ _ _ => trivial
  | grpc env k => exact (grpc_charging k).bind fun _ _ _ => trivial
  | refresh ttl contentTypes =>
    refine Protocol.obeys_of_all (S := fun o => ∃ o', o = .board o') ?_ ?_ fun _ => trivial
    · rintro _ ⟨o, rfl⟩
      exact ⟨trivial, fun r g' hr => hr⟩
    · refine Prog.All.bind (Prog.All.lift ?_) fun _ => trivial
      exact Prog.all_of_forall (fun o => ⟨o, rfl⟩) _

end Programs

end SocialApi.Server
