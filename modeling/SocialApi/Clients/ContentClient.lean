import SocialApi.Concurrent.LookAside
import SocialApi.Cache.Entries
import SocialApi.Clients.ProfileClient
import SocialApi.Cluster

/-!
# The content validators

`HttpContentValidator` (clients/content_client.rs) and `GrpcContentValidator`
(clients/grpc_content_client.rs) as programs: look the item up in the cache, ask the Content
API, store its verdict. A positive verdict is kept for `cache_ttl_content_validation_secs`, a
negative one for 60 seconds; a failure of the Content API is not stored.

The validators of all replicas share Redis, each replica has its own L1, and there is a global
clock, in nanoseconds.

* `verdicts_recent`: a verdict that a validator gives is one that the Content API has given for
  the same item, not longer ago than the verdict's TTL, `local_cache_ttl_ms` and three times the
  longest duration of a call.
-/

namespace SocialApi.Clients

open SocialApi.Concurrent SocialApi.Services

/-! ## The validators -/

/-- The settings of a validator. -/
structure ContentSettings where
  contentApiUrls : String → Option String
  cacheTtlContentValidationSecs : ℕ
  localCacheTtlMs : ℕ

/-- The requests to the Content API. -/
inductive ContentRequest where
  /-- `GET {base_url}/v1/{content_type}/{content_id}`. -/
  | get (baseUrl contentType : String) (contentId : Uuid)
  /-- `client.validate(…)` with its time-out. -/
  | validate (contentType : String) (contentId : Uuid)

/-- How the RPC ends (grpc_content_client.rs:81–126). -/
inductive ContentRpc where
  | response (doesExist : Bool)
  | status
  | timedOut
  deriving DecidableEq, Repr

/-- The answers; a request that cannot be sent, or times out, has no status. -/
@[reducible] def ContentRequest.Ans : ContentRequest → Type
  | get _ _ _ => Option ℕ
  | validate _ _ => ContentRpc

/-- A method over the cache and the Content API. -/
abbrev ContentM (α : Type) :=
  Prog (LookOp String String ContentRequest) (LookOp.Ans ContentRequest.Ans) α

def ContentRequest.perform (r : ContentRequest) : ContentM r.Ans := Prog.perform (LookOp.ask r)

/-- `cache_key` (content_client.rs:63–65 and grpc_content_client.rs:42–44). -/
def contentCacheKey (item : Item) : String := "cv:" ++ item.1 ++ ":" ++ item.2.toString

/-- `StatusCode::is_success`. -/
def isSuccess (status : ℕ) : Bool := 200 ≤ status ∧ status < 300

/-- `StatusCode::is_server_error`. -/
def isServerError (status : ℕ) : Bool := 500 ≤ status ∧ status < 600

/-- `HttpContentValidator::validate` (content_client.rs:70–160). -/
def HttpContentValidator.validate (S : ContentSettings) (item : Item) :
    ContentM (Except AppError ValidationOutcome) := do
  match S.contentApiUrls item.1 with
  | none => return .error (.contentTypeUnknown item.1)
  | some baseUrl =>
    match ← LookAside.get (contentCacheKey item) with
    | some cached => return .ok (.cached (cached = "1"))
    | none =>
      match ← ContentRequest.perform (.get baseUrl item.1 item.2) with
      | none => return .error (.dependencyUnavailable "content_api")
      | some status =>
        if isSuccess status then
          LookAside.set (contentCacheKey item) "1" (seconds S.cacheTtlContentValidationSecs)
          return .ok (.remote true)
        else if isServerError status then return .error (.dependencyUnavailable "content_api")
        else
          LookAside.set (contentCacheKey item) "0" (seconds 60)
          return .ok (.remote false)

/-- `GrpcContentValidator::validate` (grpc_content_client.rs:48–128). -/
def GrpcContentValidator.validate (S : ContentSettings) (item : Item) :
    ContentM (Except AppError ValidationOutcome) := do
  match ← LookAside.get (contentCacheKey item) with
  | some cached => return .ok (.cached (cached = "1"))
  | none =>
    match ← ContentRequest.perform (.validate item.1 item.2) with
    | .response valid =>
      LookAside.set (contentCacheKey item) (if valid then "1" else "0")
        (seconds (if valid then S.cacheTtlContentValidationSecs else 60))
      return .ok (.remote valid)
    | .status => return .error (.dependencyUnavailable "content_api")
    | .timedOut => return .error (.dependencyUnavailable "content_api")

/-- `ContentValidator::validate`, over either transport. -/
def validateContentItem (S : ContentSettings) (k : Transport × Item) :
    ContentM (Except AppError ValidationOutcome) :=
  match k.1 with
  | .http => HttpContentValidator.validate S k.2
  | .grpc => GrpcContentValidator.validate S k.2

theorem contentCacheKey_injective : Function.Injective contentCacheKey := by
  intro item item' h
  obtain ⟨hct, hcid⟩ : item.1 = item'.1 ∧ item.2 = item'.2 :=
    Entries.Entry.contentValidation_injective h
  exact Prod.ext hct hcid

/-! ## The verdicts of the Content API -/

/-- The verdict in an answer of the Content API, if it is one. -/
def verdict : (r : ContentRequest) → r.Ans → Option Bool
  | .get _ _ _, some status =>
    if isSuccess status then some true else if isServerError status then none else some false
  | .validate _ _, .response valid => some valid
  | _, _ => none

/-- `cache_ttl_content_validation_secs` for a positive verdict, 60 for a negative one. -/
def verdictTtl (S : ContentSettings) (valid : Bool) : ℕ :=
  seconds (if valid then S.cacheTtlContentValidationSecs else 60)

/-- The validators as clients of the Content API. -/
def contentLookAside (S : ContentSettings) :
    LookAside (Transport × Item) String String Bool ContentRequest ContentRequest.Ans where
  key k := contentCacheKey k.2
  text valid := some (if valid then "1" else "0")
  life text := verdictTtl S (text = "1")
  nearLife := millis S.localCacheTtlMs
  meaning _ := verdict

/-- What a validator gives back is what it has. -/
def Outcome (k : Transport × Item) (g : LookAside.Lookup (Transport × Item) String Bool)
    (result : Except AppError ValidationOutcome) : Prop :=
  g.request = k ∧ match result with
    | .ok (.cached valid) => ∃ text, valid = decide (text = "1") ∧
        (g.stage = .near text ∨ g.stage = .far text)
    | .ok (.remote valid) => g.stage = .told valid
    | .error _ => True

section Programs

variable (S : ContentSettings) (item : Item)

/-- A verdict is stored with its own TTL. -/
theorem set_verdict (transport : Transport) (valid : Bool) :
    (contentLookAside S).protocol.Obeys (fun g (_ : Unit) => g = ⟨(transport, item), .told valid⟩)
      ⟨(transport, item), .told valid⟩
      (LookAside.set (contentCacheKey item) (if valid then "1" else "0") (verdictTtl S valid)) := by
  have hset := (contentLookAside S).set_obeys (transport, item) (m := valid)
    (v := if valid then "1" else "0") rfl
  cases valid <;> exact hset

theorem httpValidate_outcome : (contentLookAside S).protocol.Obeys (Outcome (.http, item))
    ⟨(.http, item), .looking⟩ (HttpContentValidator.validate S item) := by
  unfold HttpContentValidator.validate
  cases S.contentApiUrls item.1 with
  | none => exact ⟨rfl, trivial⟩
  | some baseUrl =>
    refine ((contentLookAside S).get_obeys (.http, item)).bind ?_
    rintro ⟨k, stage⟩ (_ | cached) ⟨hk, hstage⟩
    · simp only at hk hstage
      subst hk hstage
      refine ⟨trivial, ?_⟩
      rintro (_ | status) g rfl
      · exact ⟨rfl, trivial⟩
      · simp only [LookAside.Lookup.next, contentLookAside, verdict]
        show (contentLookAside S).protocol.Obeys _ _ (ite _ _ _)
        split_ifs
        · exact (set_verdict S item .http true).bind fun g _ hg => ⟨by rw [hg], by rw [hg]⟩
        · exact ⟨rfl, trivial⟩
        · exact (set_verdict S item .http false).bind fun g _ hg => ⟨by rw [hg], by rw [hg]⟩
    · exact ⟨hk, cached, rfl, hstage⟩

theorem grpcValidate_outcome : (contentLookAside S).protocol.Obeys (Outcome (.grpc, item))
    ⟨(.grpc, item), .looking⟩ (GrpcContentValidator.validate S item) := by
  unfold GrpcContentValidator.validate
  refine ((contentLookAside S).get_obeys (.grpc, item)).bind ?_
  rintro ⟨k, stage⟩ (_ | cached) ⟨hk, hstage⟩
  · simp only at hk hstage
    subst hk hstage
    refine ⟨trivial, ?_⟩
    rintro (valid | _ | _) g rfl
    · exact (set_verdict S item .grpc valid).bind fun g _ hg => ⟨by rw [hg], by rw [hg]⟩
    · exact ⟨rfl, trivial⟩
    · exact ⟨rfl, trivial⟩
  · exact ⟨hk, cached, rfl, hstage⟩

theorem validateContentItem_outcome (k : Transport × Item) :
    (contentLookAside S).protocol.Obeys (Outcome k) ⟨k, .looking⟩ (validateContentItem S k) := by
  obtain ⟨transport, item⟩ := k
  cases transport with
  | http => exact httpValidate_outcome S item
  | grpc => exact grpcValidate_outcome S item

end Programs

/-! ## How old a verdict is -/

/-- `ValidationOutcome::is_valid` (content_client.rs:24–28). -/
def isValid : ValidationOutcome → Bool
  | .cached valid => valid
  | .remote valid => valid

/-- How long before the end of a call its verdict may have been asked for, when a call takes `D` at
    most. -/
def verdictAge (S : ContentSettings) (D : ℕ) : ValidationOutcome → ℕ
  | .cached valid => 3 * D + verdictTtl S valid + millis S.localCacheTtlMs
  | .remote _ => D

/-- A configuration of validations. -/
abbrev ContentConfig (ι ρ : Type) :=
  Configuration ι (LookState ι ρ (Transport × Item) String String Bool) (Transport × Item)
    (LookOp String String ContentRequest) (LookOp.Ans ContentRequest.Ans)
    (Except AppError ValidationOutcome)

variable {ι ρ : Type}

/-- Any number of validations on any number of replicas, each over its transport. -/
def contentValidations [DecidableEq ι] [DecidableEq ρ] (S : ContentSettings) (replica : ι → ρ) :
    Pool ι (LookState ι ρ (Transport × Item) String String Bool) (Transport × Item)
      (LookOp String String ContentRequest) (LookOp.Ans ContentRequest.Ans)
      (Except AppError ValidationOutcome) (LookChoice ρ String ContentRequest ContentRequest.Ans) :=
  (contentLookAside S).clients replica (validateContentItem S)

section Verdicts

variable {S : ContentSettings} {D : ℕ} {s : LookState ι ρ (Transport × Item) String String Bool}
  {i : ι} {k : Transport × Item}

/-- A text that was stored for the key of an item is a verdict on that item. -/
theorem told_verdict {item : Item} {text : String} {t : ℕ}
    (h : (contentLookAside S).Told s (contentCacheKey item) text t) :
    ∃ j k', (j, k', decide (text = "1"), t) ∈ s.told ∧ k'.2 = item := by
  obtain ⟨j, k', valid, hmem, hkey, htext⟩ := h
  refine ⟨j, k', ?_, contentCacheKey_injective hkey⟩
  have hvalid : decide (text = "1") = valid := by
    rw [← Option.some.inj htext]
    cases valid <;> decide
  rwa [hvalid]

/-- What a validator had when it ended, as a verdict. -/
theorem verdict_of_ended {g : LookAside.Lookup (Transport × Item) String Bool}
    {outcome : ValidationOutcome} (hg : Outcome k g (.ok outcome))
    (h : (contentLookAside S).Ended D s i g) :
    ∃ j k' t, (j, k', isValid outcome, t) ∈ s.told ∧ k'.2 = k.2 ∧
      s.stepped i ≤ t + verdictAge S D outcome ∧ ∀ valid, outcome = .remote valid → j = i := by
  obtain ⟨rfl, hg⟩ := hg
  unfold LookAside.Ended at h
  cases outcome with
  | cached valid =>
    obtain ⟨text, rfl, hstage | hstage⟩ := hg
    · rw [hstage] at h
      obtain ⟨t, ht, hle⟩ := h
      obtain ⟨j, k', hmem, hitem⟩ := told_verdict ht
      exact ⟨j, k', t, hmem, hitem, hle, fun valid hv => by cases hv⟩
    · rw [hstage] at h
      obtain ⟨t, ht, hle⟩ := h
      obtain ⟨j, k', hmem, hitem⟩ := told_verdict ht
      refine ⟨j, k', t, hmem, hitem, hle.trans ?_, fun valid hv => by cases hv⟩
      show t + (2 * D + verdictTtl S (text = "1")) ≤
        t + (3 * D + verdictTtl S (text = "1") + millis S.localCacheTtlMs)
      omega
  | remote valid =>
    rw [show g.stage = .told valid from hg] at h
    obtain ⟨t, hmem, hle⟩ := h
    exact ⟨i, g.request, t, hmem, rfl, hle, fun _ _ => rfl⟩

end Verdicts

variable [DecidableEq ι] [DecidableEq ρ]

/-- In every run of validations on any number of replicas, each of which is done within `D`: a
    verdict that a call gives has been given by the Content API for the same item, to this call
    if it asked, otherwise to one that had not started longer ago than the TTL of the verdict,
    the TTL of L1 and three times `D`. -/
theorem verdicts_recent (S : ContentSettings) (replica : ι → ρ) (D : ℕ)
    {init c : ContentConfig ι ρ}
    {acts : List (Act ι (Transport × Item) (LookChoice ρ String ContentRequest ContentRequest.Ans))}
    (hinit : (contentValidations S replica).machine.init init)
    (hrun : (contentValidations S replica).machine.run init acts = some c)
    (htimely : (contentValidations S replica).machine.Meets (LookAside.Timely D) init acts)
    {i : ι} {k : Transport × Item} {outcome : ValidationOutcome}
    (hi : c.calls i = .returned k (.ok outcome)) :
    ∃ j k' t, (j, k', isValid outcome, t) ∈ c.shared.told ∧ k'.2 = k.2 ∧
      c.shared.stepped i ≤ t + verdictAge S D outcome ∧ ∀ valid, outcome = .remote valid → j = i := by
  obtain ⟨g, hg, hended⟩ :=
    LookAside.ended_of_meets (validateContentItem_outcome S) hinit hrun htimely hi
  exact verdict_of_ended hg hended

/-- Posts, with the default TTLs. -/
def postSettings : ContentSettings where
  contentApiUrls contentType := if contentType = "post" then some "http://localhost:8081" else none
  cacheTtlContentValidationSecs := 3600
  localCacheTtlMs := 200

/-- The Content API knows the item. -/
def itemFound : (r : ContentRequest) → r.Ans
  | .get _ _ _ => some 200
  | .validate _ _ => .response true

/-- Call 0 asks the Content API; an hour later call 1, on another replica, finds the verdict in
    Redis, and call 2 finds it in the L1 of that replica. -/
def threeValidations (item : Item) :
    List (Act ℕ (Transport × Item) (LookChoice ℕ String ContentRequest ContentRequest.Ans)) :=
  [.start 0 (.http, item), .step 0 (.layer true), .step 0 (.layer true), .step 0 (.answered itemFound),
    .step 0 (.layer true), .step 0 (.layer true), .env (.tick (seconds 3600)),
    .start 1 (.grpc, item), .step 1 (.layer true), .step 1 (.layer true), .step 1 (.layer true),
    .env (.tick (seconds 3600 + millis 200)), .start 2 (.http, item), .step 2 (.layer true)]

/-- The outcome of a call that has one. -/
def returnedOutcome (cs : CallState (Transport × Item) (LookOp String String ContentRequest)
    (LookOp.Ans ContentRequest.Ans) (Except AppError ValidationOutcome)) :
    Option ((Transport × Item) × ValidationOutcome) :=
  match cs with
  | .returned k (.ok outcome) => some (k, outcome)
  | _ => none

theorem returned_of_returnedOutcome {cs : CallState (Transport × Item)
    (LookOp String String ContentRequest) (LookOp.Ans ContentRequest.Ans)
    (Except AppError ValidationOutcome)} {k : Transport × Item} {outcome : ValidationOutcome}
    (h : returnedOutcome cs = some (k, outcome)) : cs = .returned k (.ok outcome) := by
  unfold returnedOutcome at h
  split at h
  · cases h
    rfl
  · cases h

/-- Where the verdict of call 2 is from. -/
theorem verdicts_recent_threeValidations : ∃ c : ContentConfig ℕ ℕ,
    (contentValidations postSettings fun i => min i 1).machine.run
      ⟨LookAside.new, fun _ => .idle⟩ (threeValidations ("post", 1)) = some c ∧
    c.calls 2 = .returned (.http, ("post", 1)) (.ok (.cached true)) ∧
    ∃ j k' t, (j, k', true, t) ∈ c.shared.told ∧ k'.2 = ("post", 1) ∧
      c.shared.stepped 2 ≤ t + (3 * seconds 5 + seconds 3600 + millis 200) := by
  have hview : ((contentValidations postSettings fun i => min i 1).machine.run
      (⟨LookAside.new, fun _ => .idle⟩ : ContentConfig ℕ ℕ) (threeValidations ("post", 1))).map
        (fun c => returnedOutcome (c.calls 2)) = some (some ((.http, ("post", 1)), .cached true)) := by
    decide +kernel
  have htimely : (contentValidations postSettings fun i => min i 1).machine.meetsAll
      (LookAside.isTimely (seconds 5)) (⟨LookAside.new, fun _ => .idle⟩ : ContentConfig ℕ ℕ)
      (threeValidations ("post", 1)) = true := by
    decide +kernel
  obtain ⟨c, hrun, hc⟩ := Option.map_eq_some_iff.mp hview
  have hi := returned_of_returnedOutcome hc
  have hinit : (contentValidations postSettings fun i => min i 1).machine.init
      (⟨LookAside.new, fun _ => .idle⟩ : ContentConfig ℕ ℕ) := ⟨rfl, fun _ => rfl⟩
  obtain ⟨j, k', t, hmem, hitem, hle, -⟩ := verdicts_recent postSettings (fun i => min i 1) (seconds 5)
    hinit hrun (Machine.meets_of_meetsAll (LookAside.timely_of_isTimely (seconds 5)) htimely) hi
  exact ⟨c, hrun, hi, j, k', t, hmem, hitem, hle⟩

end SocialApi.Clients
