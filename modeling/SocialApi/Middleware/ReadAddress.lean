import SocialApi.Middleware.RateLimit
import SocialApi.Clients.ProfileClient

/-!
# The address a read is charged to

Public reads are limited by client address. `read_rate_limit` (rate_limit.rs:240–265) and
`check_public_read_limit` (likes_service.rs:95–131) read it from the same two headers and
charge the same kind of key, `rl:ip:read:` and the address's hash. They fall back
differently: over HTTP a header that is there is final, whatever it holds, and each
header is read as a list; over gRPC a blank first address falls through to the next
source, and `x-real-ip` is taken whole.

* `charges_readRateLimit`, `charges_checkPublicReadLimit`: the key each transport charges.
* `sameBucket_iff`: for every request whose headers name an address, the two transports
  charge one key exactly when the headers are read alike, or the two texts they read
  happen to have the same hash.
* `blankForwarded_apart`: a blank `x-forwarded-for` before an `x-real-ip`.
-/

namespace SocialApi.RateLimit

open SocialApi.Concurrent SocialApi.Clients

/-! ## Headers -/

/-- A header value: its bytes. -/
abbrev HeaderValue := List UInt8

/-- `HeaderValue::to_str`: only tabs, blanks and visible ASCII characters make a text. -/
def toStr (v : HeaderValue) : Option String :=
  if v.all fun b => b = 9 || 32 ≤ b && b < 127 then
    some (String.ofList (v.map fun b => Char.ofNat b.toNat))
  else none

/-- The two headers of a request that name its client; `get` returns the first value. -/
structure Headers where
  xForwardedFor : Option HeaderValue
  xRealIp : Option HeaderValue
  deriving DecidableEq, Repr

/-- `x-forwarded-for`, if it is there and is a text. -/
def Headers.forwardedFor (h : Headers) : Option String := h.xForwardedFor.bind toStr

/-- `x-real-ip`, if it is there and is a text. -/
def Headers.realIp (h : Headers) : Option String := h.xRealIp.bind toStr

/-- `str::trim`, on the characters that `to_str` lets through. -/
def trim (s : String) : String :=
  String.ofList
    ((s.toList.dropWhile Char.isWhitespace).reverse.dropWhile Char.isWhitespace).reverse

/-- What stands before the first comma, trimmed. -/
def firstAddress (headerValue : String) : String :=
  trim (String.ofList (headerValue.toList.takeWhile (· ≠ ',')))

/-- `extract_real_ip` (rate_limit.rs:231–238). -/
def extractRealIp (headerValue : String) : String :=
  if firstAddress headerValue = "" then "unknown" else firstAddress headerValue

/-! ## HTTP -/

/-- The address `read_rate_limit` charges (rate_limit.rs:247–259). -/
def clientIp (h : Headers) : String :=
  extractRealIp ((h.forwardedFor.or h.realIp).getD "unknown")

/-- `add_rate_limit_headers` (rate_limit.rs:149–162). -/
def rateLimitHeaders (result : RateLimitResult) : List (String × String) :=
  [("X-RateLimit-Limit", toString result.limit),
    ("X-RateLimit-Remaining", toString (max (result.limit - result.current) 0)),
    ("X-RateLimit-Reset", toString result.resetSecs)]

/-- The outcome of the middleware: a 429 response with its headers, or the headers it adds to
    the response of the handler. -/
inductive ReadOutcome where
  | tooManyRequests (headers : List (String × String))
  | next (headers : List (String × String))
  deriving DecidableEq, Repr

/-- `read_rate_limit` (rate_limit.rs:240–270). -/
def readRateLimit (readPerMinute : ℕ) (h : Headers) : Prog Op Op.Ans ReadOutcome := do
  let key := "rl:ip:read:" ++ toString (fnv1aHash (clientIp h)).toNat
  let result ← checkRateLimitInner ⟨key, ⟨readPerMinute, 60, sixty_pos, sixty_fits⟩⟩
  if result.allowed then return .next (rateLimitHeaders result)
  else
    return .tooManyRequests
      (rateLimitHeaders result ++ [("Retry-After", toString result.resetSecs)])

/-! ## gRPC -/

/-- The address `extract_client_ip` falls back to (likes_service.rs:119–130): `peer` is the
    socket's address. -/
def fallbackIp (h : Headers) (peer : Option String) : String :=
  match h.realIp with
  | some val => if trim val ≠ "" then trim val else peer.getD "unknown"
  | none => peer.getD "unknown"

/-- `extract_client_ip` (likes_service.rs:108–131). -/
def extractClientIp (h : Headers) (peer : Option String) : String :=
  match h.forwardedFor with
  | some val => if extractRealIp val ≠ "unknown" then extractRealIp val else fallbackIp h peer
  | none => fallbackIp h peer

/-- `check_grpc_rate_limit` (interceptors/rate_limit.rs:23–46). -/
def checkGrpcRateLimit (identifier : String) (isWrite : Bool) (writeLimit readLimit : ℕ) :
    Prog Op Op.Ans (Except String Unit) := do
  let (prefixText, limit) :=
    if isWrite then ("rl:user:write", writeLimit) else ("rl:ip:read", readLimit)
  let key := prefixText ++ ":" ++ toString (fnv1aHash identifier).toNat
  let result ← checkRateLimitInner ⟨key, ⟨limit, 60, sixty_pos, sixty_fits⟩⟩
  if result.allowed then return .ok ()
  else
    return .error ("Rate limit exceeded. Retry after " ++ toString result.resetSecs ++ "s")

/-- `check_public_read_limit` (likes_service.rs:95–105). -/
def checkPublicReadLimit (writePerMinute readPerMinute : ℕ) (h : Headers)
    (peer : Option String) : Prog Op Op.Ans (Except String Unit) :=
  checkGrpcRateLimit (extractClientIp h peer) false writePerMinute readPerMinute

/-! ## The key a request is charged to -/

/-- On every path the first script that the program runs is on `key`. -/
def Charges (key : String) {α : Type} : Prog Op Op.Ans α → Prop
  | .ret _ => False
  | .op (.invokeScript key' _ _ _ _) _ => key' = key
  | .op .clock f => ∀ now, Charges key (f now)
  | .op .fetchAdd f => ∀ seq, Charges key (f seq)

/-- Both transports charge the request to one key. -/
def SameBucket (writePerMinute readPerMinute : ℕ) (h : Headers) (peer : Option String) : Prop :=
  ∃ key, Charges key (readRateLimit readPerMinute h) ∧
    Charges key (checkPublicReadLimit writePerMinute readPerMinute h peer)

/-- At least one of the two headers names a non-blank first address. -/
def NamesAddress (h : Headers) : Prop :=
  (∃ val, h.forwardedFor = some val ∧ firstAddress val ≠ "") ∨
    ∃ val, h.realIp = some val ∧ firstAddress val ≠ ""

/-- The headers are read alike: `x-forwarded-for` names an address other than `unknown`; or
    it is absent, and `x-real-ip` is no list; or it names none, or `unknown`, and what gRPC
    falls back to is `unknown` as well. -/
inductive ReadAlike (h : Headers) (peer : Option String) : Prop where
  | forwarded (val : String) (hval : h.forwardedFor = some val) (hfirst : firstAddress val ≠ "")
      (hknown : firstAddress val ≠ "unknown")
  | single (val : String) (habsent : h.forwardedFor = none) (hval : h.realIp = some val)
      (hcomma : ',' ∉ val.toList)
  | unknown (val : String) (hval : h.forwardedFor = some val)
      (hfirst : firstAddress val = "" ∨ firstAddress val = "unknown")
      (hfallback : fallbackIp h peer = "unknown")

/-- The transports read different texts that have the same hash. -/
def Collide (h : Headers) (peer : Option String) : Prop :=
  clientIp h ≠ extractClientIp h peer ∧
    fnv1aHash (clientIp h) = fnv1aHash (extractClientIp h peer)

section Lemmas

variable {h : Headers} {peer : Option String} {readPerMinute writePerMinute : ℕ} {key : String}

theorem charges_check {α : Type} (r : Request) (f : RateLimitResult → Prog Op Op.Ans α) :
    Charges key ((checkRateLimitInner r).bind f) ↔ r.key = key := by
  constructor
  · intro hcharges
    exact hcharges 0 0
  · intro hkey _ _
    exact hkey

theorem charges_readRateLimit : Charges key (readRateLimit readPerMinute h) ↔
    "rl:ip:read:" ++ toString (fnv1aHash (clientIp h)).toNat = key :=
  charges_check _ _

theorem charges_checkPublicReadLimit :
    Charges key (checkPublicReadLimit writePerMinute readPerMinute h peer) ↔
      "rl:ip:read:" ++ toString (fnv1aHash (extractClientIp h peer)).toNat = key :=
  charges_check _ _

theorem sameBucket_iff_hash : SameBucket writePerMinute readPerMinute h peer ↔
    fnv1aHash (clientIp h) = fnv1aHash (extractClientIp h peer) := by
  unfold SameBucket
  simp only [charges_readRateLimit, charges_checkPublicReadLimit]
  constructor
  · rintro ⟨key, hkey, hkey'⟩
    have htext := (String.append_right_inj _).mp (hkey.trans hkey'.symm)
    exact BitVec.eq_of_toNat_eq (Nat.repr_injective htext)
  · intro hhash
    exact ⟨_, rfl, by rw [hhash]⟩

/-- Trimming removes no character but white space. -/
theorem mem_trim {c : Char} (hc : c.isWhitespace = false) {s : String} :
    c ∈ (trim s).toList ↔ c ∈ s.toList := by
  have hdrop : ∀ cs : List Char, c ∈ cs.dropWhile Char.isWhitespace ↔ c ∈ cs := by
    intro cs
    constructor
    · exact fun hmem => (List.dropWhile_sublist _).subset hmem
    · intro hmem
      rw [← List.takeWhile_append_dropWhile (p := Char.isWhitespace) (l := cs)] at hmem
      rcases List.mem_append.mp hmem with hmem | hmem
      · cases hc.symm.trans (List.mem_takeWhile_imp hmem)
      · exact hmem
  unfold trim
  rw [String.toList_ofList, List.mem_reverse, hdrop, List.mem_reverse, hdrop]

theorem comma_notMem_firstAddress (val : String) : ',' ∉ (firstAddress val).toList := by
  unfold firstAddress
  rw [mem_trim (by decide), String.toList_ofList]
  intro hmem
  simpa using List.mem_takeWhile_imp hmem

/-- A text without a comma is its own first address. -/
theorem firstAddress_of_single {val : String} (hcomma : ',' ∉ val.toList) :
    firstAddress val = trim val := by
  unfold firstAddress
  rw [List.takeWhile_eq_self_iff.mpr, String.ofList_toList]
  intro c hc
  exact decide_eq_true fun he => hcomma (he ▸ hc)

theorem extractRealIp_eq_unknown {val : String} :
    extractRealIp val = "unknown" ↔ firstAddress val = "" ∨ firstAddress val = "unknown" := by
  unfold extractRealIp
  split_ifs with hblank
  · exact ⟨fun _ => Or.inl hblank, fun _ => rfl⟩
  · exact ⟨Or.inr, fun hfirst => hfirst.resolve_left hblank⟩

/-- The transports read the same address exactly when the headers are read alike. -/
theorem clientIp_eq_iff (hnames : NamesAddress h) :
    clientIp h = extractClientIp h peer ↔ ReadAlike h peer := by
  cases hforwarded : h.forwardedFor with
  | some val =>
    have hhttp : clientIp h = extractRealIp val := by rw [clientIp, hforwarded]; rfl
    by_cases hunknown : extractRealIp val = "unknown"
    · have hgrpc : extractClientIp h peer = fallbackIp h peer := by
        simp only [extractClientIp, hforwarded, ne_eq, hunknown, not_true_eq_false, if_false]
      rw [hhttp, hgrpc, hunknown]
      constructor
      · exact fun he => .unknown val hforwarded (extractRealIp_eq_unknown.mp hunknown) he.symm
      · rintro (⟨val', hval, hfirst, hknown⟩ | ⟨val', habsent, -, -⟩ | ⟨-, -, -, hfallback⟩)
        · obtain rfl : val = val' := Option.some.inj (hforwarded.symm.trans hval)
          rcases extractRealIp_eq_unknown.mp hunknown with h | h
          · exact absurd h hfirst
          · exact absurd h hknown
        · cases hforwarded.symm.trans habsent
        · exact hfallback.symm
    · have hgrpc : extractClientIp h peer = extractRealIp val := by
        simp only [extractClientIp, hforwarded, ne_eq, hunknown, not_false_eq_true, if_true]
      obtain ⟨hfirst, hknown⟩ := not_or.mp (mt extractRealIp_eq_unknown.mpr hunknown)
      exact ⟨fun _ => .forwarded val hforwarded hfirst hknown, fun _ => hhttp.trans hgrpc.symm⟩
  | none =>
    obtain ⟨val, hval, hfirst⟩ : ∃ val, h.realIp = some val ∧ firstAddress val ≠ "" := by
      rcases hnames with ⟨val, hval, -⟩ | hnames
      · cases hforwarded.symm.trans hval
      · exact hnames
    have hhttp : clientIp h = firstAddress val := by
      simp only [clientIp, hforwarded, hval, Option.none_or, Option.getD_some, extractRealIp,
        if_neg hfirst]
    have hgrpc : extractClientIp h peer = if trim val ≠ "" then trim val else
        peer.getD "unknown" := by
      simp only [extractClientIp, fallbackIp, hforwarded, hval]
    have halike : ReadAlike h peer ↔ ',' ∉ val.toList := by
      constructor
      · rintro (⟨val', hval', -, -⟩ | ⟨val', -, hval', hcomma⟩ | ⟨val', hval', -, -⟩)
        · cases hforwarded.symm.trans hval'
        · obtain rfl : val = val' := Option.some.inj (hval.symm.trans hval')
          exact hcomma
        · cases hforwarded.symm.trans hval'
      · exact fun hcomma => .single val hforwarded hval hcomma
    rw [hhttp, hgrpc, halike]
    by_cases hcomma : ',' ∈ val.toList
    · -- `x-real-ip` is a list: gRPC takes all of it
      have hmem : ',' ∈ (trim val).toList := (mem_trim (by decide)).mpr hcomma
      have hne : trim val ≠ "" := fun he => by rw [he] at hmem; cases hmem
      rw [if_pos hne]
      exact ⟨fun he => absurd (he ▸ hmem) (comma_notMem_firstAddress val),
        fun hn => absurd hcomma hn⟩
    · have hsame := firstAddress_of_single hcomma
      rw [if_pos (hsame ▸ hfirst)]
      exact ⟨fun _ => hcomma, fun _ => hsame⟩

end Lemmas

/-- For every request whose headers name an address, the two transports charge one key exactly
    when the headers are read alike, or the texts they read collide. -/
theorem sameBucket_iff (writePerMinute readPerMinute : ℕ) (h : Headers) (peer : Option String)
    (hnames : NamesAddress h) :
    SameBucket writePerMinute readPerMinute h peer ↔ ReadAlike h peer ∨ Collide h peer := by
  rw [sameBucket_iff_hash, ← clientIp_eq_iff hnames]
  unfold Collide
  by_cases he : clientIp h = extractClientIp h peer
  · simp [he]
  · simp [he]

/-- A request by way of two proxies. -/
def proxied : Headers where
  xForwardedFor := some "203.0.113.7, 10.0.0.1".toUTF8.data.toList
  xRealIp := some "10.0.0.1".toUTF8.data.toList

/-- `sameBucket_iff` for the request `proxied`. -/
theorem sameBucket_iff_proxied : SameBucket 30 100 proxied none := by
  have hval : proxied.forwardedFor = some "203.0.113.7, 10.0.0.1" := by decide +kernel
  have hfirst : firstAddress "203.0.113.7, 10.0.0.1" = "203.0.113.7" := by decide +kernel
  refine (sameBucket_iff 30 100 proxied none (Or.inl ⟨_, hval, ?_⟩)).mpr (Or.inl ?_)
  · rw [hfirst]
    decide
  · refine .forwarded _ hval ?_ ?_
    · rw [hfirst]
      decide
    · rw [hfirst]
      decide

/-- A request with a blank `x-forwarded-for`. -/
def blankForwarded : Headers where
  xForwardedFor := some " ".toUTF8.data.toList
  xRealIp := some "203.0.113.7".toUTF8.data.toList

/-- Over HTTP it is pooled with all the clients of unknown address, over gRPC it has a bucket
    of its own. -/
theorem blankForwarded_apart :
    NamesAddress blankForwarded ∧ ¬ SameBucket 30 100 blankForwarded none := by
  have hval : blankForwarded.realIp = some "203.0.113.7" := by decide +kernel
  have hfirst : firstAddress "203.0.113.7" ≠ "" := by decide +kernel
  have hhash : fnv1aHash (clientIp blankForwarded) ≠
      fnv1aHash (extractClientIp blankForwarded none) := by decide +kernel
  exact ⟨Or.inr ⟨_, hval, hfirst⟩, fun hsame => hhash (sameBucket_iff_hash.mp hsame)⟩

end SocialApi.RateLimit
