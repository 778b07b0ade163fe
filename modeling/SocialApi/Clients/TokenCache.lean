import SocialApi.Clients.TokenGhosts
import SocialApi.Streams

/-!
# Whose user a cached token is

Both validators keep the user of a token under `tok:{hash}`, `hash` being the 64-bit
FNV-1a hash of the token, and the entry does not say which token it is for.

* `ownUser_of_tokensApart`: in a run in which no two of the tokens have one hash, a user is
  returned only for a token the Profile API has answered with that user.
* `otherUser_returned`: two tokens with one hash; the second is never validated and
  returns the user of the first.
-/

namespace SocialApi.Clients

open SocialApi.Concurrent

variable {ι : Type}

/-! ## The history -/

section History

variable {U : UserCodec} {ttlSecs : ℕ} {T : Set String}

/-- What the history has for a call. -/
def Stands (U : UserCodec) (s : Validations ι) (i : ι) (g : TokenGhost) : Prop :=
  match g.stage with
  | .looking => True
  | .found text => ∃ j user, s.found i = some j ∧ (j, g.token, user) ∈ s.answered ∧
      U.userToJson user = some text
  | .asked => s.found i = none ∧ s.asked i = some g.token
  | .told user => s.found i = none ∧ (i, g.token, user) ∈ s.answered

/-- Every entry is the answer to the call that it is put down to, under the key of that call's
    token. -/
def EntriesKnown (U : UserCodec) (s : Validations ι) : Prop :=
  ∀ layer key text, s.cache.lookup layer key = some text → ∃ j token user,
    key = tokenCacheKey token ∧ s.origin layer key = some j ∧ (j, token, user) ∈ s.answered ∧
      U.userToJson user = some text

/-- Entries are what they are put down to, every call has what it seems to have, and only
    tokens of `T` are validated. -/
structure TokenInv (U : UserCodec) (T : Set String) (s : Validations ι)
    (γ : ι → Option TokenGhost) : Prop where
  entries : EntriesKnown U s
  calls : ∀ i g, γ i = some g → Stands U s i g
  tokens : ∀ i g, γ i = some g → g.token ∈ T
  answered : ∀ e ∈ s.answered, e.2.1 ∈ T

/-- The history of a call grows while others act. -/
theorem Stands.mono {s s' : Validations ι} {i : ι} {g : TokenGhost} (h : Stands U s i g)
    (hfound : s'.found i = s.found i) (hasked : s'.asked i = s.asked i)
    (hanswered : ∀ e ∈ s.answered, e ∈ s'.answered) : Stands U s' i g := by
  unfold Stands at h ⊢
  cases hstage : g.stage with
  | looking => trivial
  | found text =>
    rw [hstage] at h
    obtain ⟨j, user, hj, hmem, hjson⟩ := h
    exact ⟨j, user, hfound.trans hj, hanswered _ hmem, hjson⟩
  | asked =>
    rw [hstage] at h
    exact ⟨hfound.trans h.1, hasked.trans h.2⟩
  | told user =>
    rw [hstage] at h
    exact ⟨hfound.trans h.1, hanswered _ h.2⟩

/-- An operation of one call leaves the others' history alone, and takes nothing back. -/
theorem handle_others [DecidableEq ι] {s s' : Validations ι} {i : ι} {o : AuthOp}
    {x : ValidateChoice} {r : o.Ans}
    (h : Validations.handle U s i o x = some (s', r)) :
    (∀ j, j ≠ i → s'.found j = s.found j ∧ s'.asked j = s.asked j) ∧
      ∀ e ∈ s.answered, e ∈ s'.answered := by
  have hask : ∀ token, (∀ j, j ≠ i → (s.ask i token).found j = s.found j ∧
      (s.ask i token).asked j = s.asked j) ∧ ∀ e ∈ s.answered, e ∈ (s.ask i token).answered :=
    fun token => ⟨fun j hj => ⟨Function.update_of_ne hj _ _, Function.update_of_ne hj _ _⟩,
      fun e he => he⟩
  have hanswer : ∀ (t : Validations ι) token user, (∀ j, (t.answer i token user).found j = t.found j ∧
      (t.answer i token user).asked j = t.asked j) ∧
      ∀ e ∈ t.answered, e ∈ (t.answer i token user).answered := by
    intro t token user
    unfold Validations.answer
    split
    · exact ⟨fun j => ⟨rfl, rfl⟩, fun e he => List.mem_cons_of_mem _ he⟩
    · exact ⟨fun j => ⟨rfl, rfl⟩, fun e he => he⟩
  cases o with
  | cache o =>
    cases x with
    | cache x =>
      obtain ⟨⟨cache, r'⟩, -, he⟩ := Option.map_eq_some_iff.mp h
      cases he
      unfold Validations.access
      split
      · split_ifs
        · exact ⟨fun j hj => ⟨Function.update_of_ne hj _ _, rfl⟩, fun e he => he⟩
        · exact ⟨fun j hj => ⟨rfl, rfl⟩, fun e he => he⟩
      · exact ⟨fun j hj => ⟨rfl, rfl⟩, fun e he => he⟩
      · exact ⟨fun j hj => ⟨rfl, rfl⟩, fun e he => he⟩
    | _ => cases h
  | send token =>
    cases x with
    | sent status => cases h; exact hask token
    | _ => cases h
  | json =>
    cases x with
    | body result =>
      cases h
      exact ⟨fun j _ => (hanswer s _ _).1 j, (hanswer s _ _).2⟩
    | _ => cases h
  | validateToken token =>
    cases x with
    | rpc outcome =>
      cases h
      have hafter := hanswer (s.ask i token) (some token) (r.user U)
      refine ⟨fun j hj => ?_, fun e he => hafter.2 e ((hask token).2 e he)⟩
      exact ⟨(hafter.1 j).1.trans ((hask token).1 j hj).1,
        (hafter.1 j).2.trans ((hask token).1 j hj).2⟩
    | _ => cases h
  | _ => cases x <;> cases h

/-- What the answer of the Profile API leaves in the history. -/
theorem stands_heard {s : Validations ι} {i : ι} {token : String}
    {user : Option AuthenticatedUser} (hfound : s.found i = none) (hasked : s.asked i = some token) :
    Stands U (s.answer i (some token) user) i ⟨token, TokenGhost.heard user⟩ := by
  cases user with
  | none => exact ⟨hfound, hasked⟩
  | some user => exact ⟨hfound, List.mem_cons_self⟩

/-- Entries that stay, or go, stay known. -/
theorem EntriesKnown.mono {s s' : Validations ι} (h : EntriesKnown U s)
    (hcache : ∀ layer key text, s'.cache.lookup layer key = some text →
      s.cache.lookup layer key = some text ∧ s'.origin layer key = s.origin layer key)
    (hanswered : ∀ e ∈ s.answered, e ∈ s'.answered) : EntriesKnown U s' := by
  intro layer key text hl
  obtain ⟨hl', horigin⟩ := hcache layer key text hl
  obtain ⟨j, token, user, hkey, hj, hmem, hjson⟩ := h layer key text hl'
  exact ⟨j, token, user, hkey, horigin.trans hj, hanswered _ hmem, hjson⟩

/-- What a call finds under the key of its token is for its token: no other token that has been
    validated has this hash. -/
theorem TokenInv.read [DecidableEq ι] {s : Validations ι} {γ : ι → Option TokenGhost} {i : ι}
    {g : TokenGhost}
    {layer : Cache.Layer} {key : CacheKey} (h : TokenInv U T s γ) (hapart : Set.InjOn fnv1aHash T)
    (hγ : γ i = some g) (hkey : key = tokenCacheKey g.token) {text : String}
    (hl : s.cache.lookup layer key = some text) :
    Stands U { s with found := Function.update s.found i (s.origin layer key) } i
      ⟨g.token, .found text⟩ := by
  obtain ⟨j, token, user, hkey', hj, hmem, hjson⟩ := h.entries layer key text hl
  have hhash : fnv1aHash token = fnv1aHash g.token := CacheKey.tok.inj (hkey'.symm.trans hkey)
  have htoken : token = g.token := hapart (h.answered _ hmem) (h.tokens i g hγ) hhash
  subst htoken
  exact ⟨j, user, (Function.update_self ..).trans hj, hmem, hjson⟩

/-- A call that stores its user, or what it has found, stores it as the answer it is. -/
theorem TokenInv.store {s : Validations ι} {γ : ι → Option TokenGhost} {i : ι} {g : TokenGhost}
    {text : String} (h : TokenInv U T s γ) (hγ : γ i = some g)
    (hasks : g.stage = .found text ∨ ∃ user, g.stage = .told user ∧ U.userToJson user = some text)
    (layer : Cache.Layer) {key : CacheKey} (hkey : key = tokenCacheKey g.token) :
    EntriesKnown U { s with
      cache := s.cache.put layer key (some text)
      origin := Function.update s.origin layer
        (Function.update (s.origin layer) key (some ((s.found i).getD i))) } := by
  intro layer' key' text' hl
  by_cases hcell : layer' = layer ∧ key' = key
  · obtain ⟨rfl, rfl⟩ := hcell
    have hl : (s.cache.put layer' key' (some text)).lookup layer' key' = some text' := hl
    rw [Cache.CacheState.lookup_put_self] at hl
    obtain rfl := Option.some.inj hl
    dsimp only
    rw [Function.update_self, Function.update_self]
    have hstands := h.calls i g hγ
    unfold Stands at hstands
    rcases hasks with hstage | ⟨user, hstage, hjson⟩
    · rw [hstage] at hstands
      obtain ⟨j, user, hj, hmem, hjson⟩ := hstands
      exact ⟨j, g.token, user, hkey, by rw [hj, Option.getD_some], hmem, hjson⟩
    · rw [hstage] at hstands
      exact ⟨i, g.token, user, hkey, by rw [hstands.1, Option.getD_none], hstands.2, hjson⟩
  · have hne : layer' ≠ layer ∨ key' ≠ key := by
      by_contra hn
      push Not at hn
      exact hcell hn
    have hl : (s.cache.put layer key (some text)).lookup layer' key' = some text' := hl
    rw [Cache.CacheState.lookup_put_ne _ _ hne] at hl
    obtain ⟨j, token, user, hkey', hj, hmem, hjson⟩ := h.entries layer' key' text' hl
    refine ⟨j, token, user, hkey', ?_, hmem, hjson⟩
    rw [← hj]
    dsimp only
    by_cases hlayer : layer' = layer
    · subst hlayer
      rw [Function.update_self, Function.update_of_ne (hne.resolve_left fun hn => hn rfl)]
    · rw [Function.update_of_ne hlayer]

variable [DecidableEq ι]

/-- An access to the cache that the call's stage allows. -/
theorem TokenInv.access {s : Validations ι} {γ : ι → Option TokenGhost} {i : ι} {g : TokenGhost}
    {o : Cache.Op} {x : Cache.Choice} {cache : Cache.CacheState} {r : o.Ans} (h : TokenInv U T s γ)
    (hapart : Set.InjOn fnv1aHash T) (hγ : γ i = some g) (hasks : g.asks U (.cache o))
    (hs : Cache.handle s.cache o x = some (cache, r)) :
    EntriesKnown U (s.access i o x cache) ∧
      Stands U (s.access i o x cache) i (g.next U (.cache o) r) := by
  cases o with
  | l1Get key =>
    cases x with
    | ok =>
      cases hs
      cases hl : s.cache.l1 key with
      | none =>
        have hsame : s.access i (.l1Get key) .ok s.cache = s := by
          simp [Validations.access, Validations.readOf, Cache.CacheState.lookup, hl]
        rw [hsame]
        refine ⟨h.entries, ?_⟩
        show Stands U s i g
        unfold Stands
        rw [hasks.1]
        trivial
      | some text =>
        have hread : Stands U { s with found := Function.update s.found i (s.origin .l1 key) } i
            ⟨g.token, .found text⟩ :=
          h.read hapart hγ hasks.2 hl
        have hsame : s.access i (.l1Get key) .ok s.cache =
            { s with found := Function.update s.found i (s.origin .l1 key) } := by
          simp [Validations.access, Validations.readOf, Cache.CacheState.lookup, hl]
        rw [hsame]
        exact ⟨h.entries, hread⟩
    | _ => cases hs
  | redisGet key =>
    have hmiss : Stands U s i g := by
      unfold Stands
      rw [hasks.1]
      trivial
    cases x with
    | ok =>
      cases hs
      cases hl : s.cache.redis key with
      | none =>
        have hsame : s.access i (.redisGet key) .ok s.cache = s := by
          simp [Validations.access, Validations.readOf, Cache.CacheState.lookup, hl]
        rw [hsame]
        exact ⟨h.entries, hmiss⟩
      | some text =>
        have hread : Stands U { s with found := Function.update s.found i (s.origin .redis key) }
            i ⟨g.token, .found text⟩ :=
          h.read hapart hγ hasks.2 hl
        have hsame : s.access i (.redisGet key) .ok s.cache =
            { s with found := Function.update s.found i (s.origin .redis key) } := by
          simp [Validations.access, Validations.readOf, Cache.CacheState.lookup, hl]
        rw [hsame]
        exact ⟨h.entries, hread⟩
    | fail =>
      cases hs
      exact ⟨h.entries, hmiss⟩
    | removed keys => cases hs
  | l1Insert key text =>
    cases x with
    | ok =>
      cases hs
      refine ⟨h.store hγ hasks.2 .l1 hasks.1, ?_⟩
      exact (h.calls i g hγ).mono rfl rfl fun e he => he
    | _ => cases hs
  | redisSetEx key text ttl =>
    cases x with
    | ok =>
      cases hs
      refine ⟨h.store hγ (Or.inr hasks.2) .redis hasks.1, ?_⟩
      exact (h.calls i g hγ).mono rfl rfl fun e he => he
    | fail =>
      cases hs
      exact ⟨h.entries, h.calls i g hγ⟩
    | removed keys => cases hs
  | _ => exact hasks.elim

/-- One operation of call `i` that its stage allows. -/
theorem TokenInv.handle {s s' : Validations ι} {γ : ι → Option TokenGhost} {i : ι} {g : TokenGhost}
    {o : AuthOp} {x : ValidateChoice} {r : o.Ans} (h : TokenInv U T s γ) (hapart : Set.InjOn fnv1aHash T)
    (hγ : γ i = some g) (hasks : g.asks U o) (hs : Validations.handle U s i o x = some (s', r)) :
    TokenInv U T s' (Function.update γ i (some (g.next U o r))) := by
  obtain ⟨hothers, hgrows⟩ := handle_others hs
  have htokens : ∀ j g', Function.update γ i (some (g.next U o r)) j = some g' → g'.token ∈ T := by
    intro j g' hj
    by_cases hji : j = i
    · subst hji
      rw [Function.update_self] at hj
      rw [← Option.some.inj hj, TokenGhost.next_token]
      exact h.tokens j g hγ
    · rw [Function.update_of_ne hji] at hj
      exact h.tokens j g' hj
  have hcalls : Stands U s' i (g.next U o r) →
      ∀ j g', Function.update γ i (some (g.next U o r)) j = some g' → Stands U s' j g' := by
    intro hi j g' hj
    by_cases hji : j = i
    · subst hji
      rw [Function.update_self] at hj
      rwa [← Option.some.inj hj]
    · rw [Function.update_of_ne hji] at hj
      exact (h.calls j g' hj).mono (hothers j hji).1 (hothers j hji).2 hgrows
  cases o with
  | cache o =>
    cases x with
    | cache x =>
      obtain ⟨⟨cache, r'⟩, hc, he⟩ := Option.map_eq_some_iff.mp hs
      cases he
      obtain ⟨hentries, hstands⟩ := h.access hapart hγ hasks hc
      refine ⟨hentries, hcalls hstands, htokens, fun e he => ?_⟩
      rw [Validations.access_answered] at he
      exact h.answered e he
    | _ => cases hs
  | send token =>
    cases x with
    | sent status =>
      cases hs
      refine ⟨h.entries.mono (fun _ _ _ hl => ⟨hl, rfl⟩) hgrows, hcalls ?_, htokens, h.answered⟩
      exact ⟨Function.update_self .., (Function.update_self ..).trans (congrArg some hasks)⟩
    | _ => cases hs
  | json =>
    cases x with
    | body result =>
      cases hs
      have hstands := h.calls i g hγ
      unfold Stands at hstands
      rw [show g.stage = .asked from hasks] at hstands
      obtain ⟨hfound, hasked⟩ := hstands
      refine ⟨h.entries.mono (fun layer key text hl => ?_) hgrows, hcalls ?_, htokens,
        fun e he => ?_⟩
      · rw [Validations.answer_cache] at hl
        exact ⟨hl, by rw [Validations.answer_origin]⟩
      · rw [hasked]
        exact stands_heard hfound hasked
      · rcases Validations.mem_answer he with hold | htoken
        · exact h.answered e hold
        · rw [hasked] at htoken
          rw [← Option.some.inj htoken]
          exact h.tokens i g hγ
    | _ => cases hs
  | validateToken token =>
    cases x with
    | rpc outcome =>
      cases hs
      have hfound : (s.ask i token).found i = none := Function.update_self ..
      have hasked : (s.ask i token).asked i = some token := Function.update_self ..
      refine ⟨h.entries.mono (fun layer key text hl => ?_) hgrows, hcalls ?_, htokens,
        fun e he => ?_⟩
      · rw [Validations.answer_cache] at hl
        exact ⟨hl, by rw [Validations.answer_origin]; rfl⟩
      · rw [show token = g.token from hasks] at hfound hasked ⊢
        exact stands_heard hfound hasked
      · rcases Validations.mem_answer he with hold | htoken
        · exact h.answered e hold
        · rw [← Option.some.inj htoken, show token = g.token from hasks]
          exact h.tokens i g hγ
    | _ => cases hs
  | _ => exact hasks.elim

/-- A call that is over needs nothing. -/
theorem TokenInv.forget {s : Validations ι} {γ : ι → Option TokenGhost} (h : TokenInv U T s γ)
    (i : ι) : TokenInv U T s (Function.update γ i none) := by
  have hold : ∀ j g, Function.update γ i none j = some g → γ j = some g := by
    intro j g hj
    by_cases hji : j = i
    · subst hji
      rw [Function.update_self] at hj
      cases hj
    · rwa [Function.update_of_ne hji] at hj
  exact ⟨h.entries, fun j g hj => h.calls j g (hold j g hj),
    fun j g hj => h.tokens j g (hold j g hj), h.answered⟩

/-- Validations of tokens of `T`, on which the hash is injective, keep the history. -/
theorem validations_keep (hapart : Set.InjOn fnv1aHash T) :
    Pool.Keeps (validations (ι := ι) U ttlSecs) (tokenProtocol U) (Tokened U)
      (fun k => ⟨k.2, .looking⟩) (TokenInv U T) fun _ a => ∀ i k, a = .start i k → k.2 ∈ T where
  prog k := validateToken_token U ttlSecs k.1 k.2
  start c i k s γ hk h hγ hs := by
    cases hs
    refine ⟨h.entries, fun j g hj => ?_, fun j g hj => ?_, h.answered⟩
    · by_cases hji : j = i
      · subst hji
        rw [Function.update_self] at hj
        cases hj
        trivial
      · rw [Function.update_of_ne hji] at hj
        exact h.calls j g hj
    · by_cases hji : j = i
      · subst hji
        rw [Function.update_self] at hj
        cases hj
        exact hk j k rfl
      · rw [Function.update_of_ne hji] at hj
        exact h.tokens j g hj
  handle c i x k o f s r γ g _ h _ _ hγ hasks hs := ⟨_, rfl, h.handle hapart hγ hasks hs⟩
  ret s i k γ g a h _ _ := h.forget i
  drop c i k p s γ g _ h _ _ _ hs := by
    cases hs
    exact h.forget i
  env c x s γ _ h hs := by
    cases x with
    | evict layer key =>
      cases hs
      refine ⟨h.entries.mono (fun layer' key' text hl => ⟨?_, rfl⟩) fun _ he => he,
        fun j g hj => ?_, h.tokens, h.answered⟩
      · have hl : (c.shared.cache.put layer key none).lookup layer' key' = some text := hl
        by_cases hcell : layer' = layer ∧ key' = key
        · obtain ⟨rfl, rfl⟩ := hcell
          rw [Cache.CacheState.lookup_put_self] at hl
          cases hl
        · rwa [Cache.CacheState.lookup_put_ne] at hl
          by_contra hn
          push Not at hn
          exact hcell hn
      · exact (h.calls j g hj).mono rfl rfl fun _ he => he
    | _ => cases hs

/-- A call that is over finds nothing more, and nothing is taken back. -/
theorem history_of_returned {c c' : ValidateConfig ι} {a : Act ι (Transport × String) ValidateChoice}
    (hstep : (validations U ttlSecs).machine.step c a = some c') {i : ι} {k : Transport × String}
    {b : Except AppError AuthenticatedUser} (hi : c.calls i = .returned k b) :
    c'.shared.found i = c.shared.found i ∧ ∀ e ∈ c.shared.answered, e ∈ c'.shared.answered := by
  rcases Pool.act_cases hstep with ⟨j, k', s, rfl, hj, hs, rfl⟩ |
    ⟨j, x, k', o, f, s, r, rfl, hj, hs, rfl⟩ | ⟨j, k', p, s, rfl, hj, hs, rfl⟩ | ⟨x, s, rfl, hs, rfl⟩
  · cases hs
    exact ⟨rfl, fun e he => he⟩
  · obtain ⟨hothers, hgrows⟩ := handle_others hs
    refine ⟨(hothers i fun hij => ?_).1, hgrows⟩
    subst hij
    rw [hi] at hj
    cases hj
  · cases hs
    exact ⟨rfl, fun e he => he⟩
  · cases x with
    | evict layer key =>
      cases hs
      exact ⟨rfl, fun e he => he⟩
    | _ => cases hs

end History

variable [DecidableEq ι]

/-- In every run of validations, over either transport, in which no two different tokens have one
    hash, a user is returned for a token only if the Profile API has answered a validation of
    that token with that user, this one or the one whose entry it has found. -/
theorem ownUser_of_tokensApart {U : UserCodec} {ttlSecs : ℕ} {init c : ValidateConfig ι}
    {acts : List (Act ι (Transport × String) ValidateChoice)}
    (hjson : ∀ user json, U.userToJson user = some json → U.userFromJson json = some user)
    (hinit : (validations U ttlSecs).machine.init init)
    (hrun : (validations U ttlSecs).machine.run init acts = some c)
    (hapart : TokensApart acts) : OwnUser c := by
  obtain ⟨hstart, hidle⟩ := hinit
  have hinv : TokenInv U (validatedTokens acts) init.shared fun _ => none := by
    rw [show init.shared = .new .empty from hstart]
    refine ⟨fun layer key text hl => ?_, fun i g hg => ?_, fun i g hg => ?_, fun e he => ?_⟩
    · have hl : Cache.CacheState.empty.lookup layer key = some text := hl
      rw [Cache.CacheState.lookup_empty] at hl
      cases hl
    · cases hg
    · cases hg
    · cases he
  have hmeets : (validations U ttlSecs).machine.Meets
      (fun _ a => ∀ i k, a = .start i k → k.2 ∈ validatedTokens acts) init acts := by
    refine Machine.meets_of_labels (fun a ha i k hk => ?_) init
    subst hk
    exact ⟨i, k.1, ha⟩
  have hret : ∀ (s : Validations ι) (i : ι) (k : Transport × String) γ g
      (a : Except AppError AuthenticatedUser), TokenInv U (validatedTokens acts) s γ → γ i = some g →
      Tokened U k g a →
      ∀ user, a = .ok user → ∃ j, (j = i ∨ s.found i = some j) ∧ (j, k.2, user) ∈ s.answered := by
    intro s i k γ g a h hγ ha user huser
    have hstands := h.calls i g hγ
    unfold Stands at hstands
    rw [← ha.1]
    rcases ha.2 user huser with hstage | ⟨text, hstage, htext⟩
    · rw [hstage] at hstands
      exact ⟨i, Or.inl rfl, hstands.2⟩
    · rw [hstage] at hstands
      obtain ⟨j, user', hj, hmem, hstored⟩ := hstands
      rw [hjson user' text hstored] at htext
      obtain rfl := Option.some.inj htext
      exact ⟨j, Or.inr hj, hmem⟩
  intro i k user hi
  refine ((validations_keep hapart).returns_of_meets hret ?_ hinv hidle hmeets hrun).2 i k _ hi
    user rfl
  intro c a c' _ hstep i k b hi hb user huser
  obtain ⟨hfound, hgrows⟩ := history_of_returned hstep hi
  obtain ⟨j, hj, hmem⟩ := hb user huser
  exact ⟨j, by rwa [hfound], hgrows _ hmem⟩

/-! ## Two runs -/

/-- The JSON text before the id of a user. -/
def userHead : List Char := "\x7b\"user_id\":\"".toList

/-- What is between the id and the name. -/
def nameHead : List Char := "\",\"display_name\":\"".toList

/-- What follows the name. -/
def userTail : List Char := "\"\x7d".toList

/-- The JSON text of a user whose name needs no escape. -/
def userText (user : AuthenticatedUser) : List Char :=
  userHead ++ (user.userId.toString.toList ++ (nameHead ++ (user.displayName.toList ++ userTail)))

/-- The user in such a text. -/
def userOfText (text : List Char) : Option AuthenticatedUser :=
  (Uuid.parseStr (String.ofList ((text.drop 12).take 36))).map fun userId =>
    ⟨userId, String.ofList ((text.drop 66).dropLast.dropLast)⟩

/-- `Uuid::parse_str`, and `serde_json` for the users whose names need no escape. -/
def UserCodec.plain : UserCodec where
  userToJson user :=
    if user.displayName.toList.all fun c => c ≠ '"' ∧ c ≠ '\\' ∧ ' ' ≤ c then
      some (String.ofList (userText user))
    else none
  userFromJson text := userOfText text.toList
  parseUuid := Uuid.parseStr

theorem userOfText_userText (user : AuthenticatedUser) : userOfText (userText user) = some user := by
  have hid : user.userId.toString.toList.length = 36 := by
    rw [Uuid.toString, String.toList_ofList, Uuid.length_toList]
  -- the places of the id and of the name, for any texts of these lengths around them
  have hplaces : ∀ head mid tail : List Char, head.length = 12 → mid.length = 18 →
      tail.length = 2 → ∀ id name : List Char, id.length = 36 →
      ((head ++ (id ++ (mid ++ (name ++ tail)))).drop 12).take 36 = id ∧
        ((head ++ (id ++ (mid ++ (name ++ tail)))).drop 66).dropLast.dropLast = name := by
    intro head mid tail hhead hmid htail id name hid
    refine ⟨by rw [List.drop_left' hhead, List.take_left' hid], ?_⟩
    have hrest : (head ++ (id ++ (mid ++ (name ++ tail)))).drop 66 = name ++ tail := by
      rw [← List.append_assoc, ← List.append_assoc, List.drop_left']
      rw [List.length_append, List.length_append, hhead, hid, hmid]
    obtain ⟨a, b, rfl⟩ := List.length_eq_two.mp htail
    rw [hrest]
    simp
  obtain ⟨htake, hdrop⟩ := hplaces userHead nameHead userTail (by decide +kernel)
    (by decide +kernel) (by decide +kernel) user.userId.toString.toList user.displayName.toList hid
  unfold userOfText userText
  rw [htake, hdrop, String.ofList_toList, String.ofList_toList, Uuid.parseStr_toString]
  rfl

/-- What `plain` writes it reads back. -/
theorem plain_userJson (user : AuthenticatedUser) (json : String)
    (h : UserCodec.plain.userToJson user = some json) :
    UserCodec.plain.userFromJson json = some user := by
  unfold UserCodec.plain at h ⊢
  dsimp only at h ⊢
  split_ifs at h
  rw [← Option.some.inj h, String.toList_ofList, userOfText_userText]

/-- Call `i` validates the token, over HTTP; the Profile API knows it as this user's. -/
def validatedToken (i : ℕ) (token userId displayName : String) :
    List (Act ℕ (Transport × String) ValidateChoice) :=
  [.start i (.http, token), .step i (.cache .ok), .step i (.cache .ok), .step i (.sent (some 200)),
    .step i (.body (.ok ⟨some true, some userId, some displayName⟩)), .step i (.cache .ok),
    .step i (.cache .ok)]

/-- Call `i` asks for the token and finds an entry in L1. -/
def cachedToken (i : ℕ) (token : String) : List (Act ℕ (Transport × String) ValidateChoice) :=
  [.start i (.grpc, token), .step i (.cache .ok)]

/-- A call that returned a user: its token and the user. -/
def returnedUser (cs : CallState (Transport × String) AuthOp AuthOp.Ans
    (Except AppError AuthenticatedUser)) : Option (String × AuthenticatedUser) :=
  match cs with
  | .returned k (.ok user) => some (k.2, user)
  | _ => none

theorem returned_of_returnedUser {cs : CallState (Transport × String) AuthOp AuthOp.Ans
    (Except AppError AuthenticatedUser)} {token : String} {user : AuthenticatedUser}
    (h : returnedUser cs = some (token, user)) : ∃ k, cs = .returned k (.ok user) ∧ k.2 = token := by
  unfold returnedUser at h
  split at h
  · rename_i k user'
    cases h
    exact ⟨k, rfl, rfl⟩
  · cases h

/-- Two tokens are validated, each as its own user's, and then found in the cache. -/
def twoTokens : List (Act ℕ (Transport × String) ValidateChoice) :=
  validatedToken 0 "tok_user_1" "usr_550e8400-e29b-41d4-a716-446655440001" "Test User 1" ++
    validatedToken 1 "tok_user_2" "usr_550e8400-e29b-41d4-a716-446655440002" "Test User 2" ++
    cachedToken 2 "tok_user_1" ++ cachedToken 3 "tok_user_2"

theorem twoTokens_apart : TokensApart twoTokens := by
  have htokens : ∀ token ∈ validatedTokens twoTokens,
      token = "tok_user_1" ∨ token = "tok_user_2" := by
    rintro token ⟨i, transport, hmem⟩
    simp only [twoTokens, validatedToken, cachedToken, List.mem_append, List.mem_cons,
      List.not_mem_nil, Act.start.injEq, Prod.mk.injEq, reduceCtorEq, or_false] at hmem
    tauto
  have hne : fnv1aHash "tok_user_1" ≠ fnv1aHash "tok_user_2" := by decide +kernel
  intro token htoken token' htoken' hhash
  rcases htokens token htoken with rfl | rfl <;> rcases htokens token' htoken' with rfl | rfl
  · rfl
  · exact absurd hhash hne
  · exact absurd hhash.symm hne
  · rfl

/-- Each of the two tokens gets its own user from the cache. -/
theorem ownUser_of_tokensApart_twoTokens : ∃ c : ValidateConfig ℕ,
    (validations .plain 300).machine.run ⟨.new .empty, fun _ => .idle⟩ twoTokens = some c ∧
    returnedUser (c.calls 2) = some ("tok_user_1", ⟨0x550e8400e29b41d4a716446655440001#128,
      "Test User 1"⟩) ∧
    returnedUser (c.calls 3) = some ("tok_user_2", ⟨0x550e8400e29b41d4a716446655440002#128,
      "Test User 2"⟩) ∧ OwnUser c := by
  have hview : ((validations .plain 300).machine.run
      (⟨.new .empty, fun _ => .idle⟩ : ValidateConfig ℕ) twoTokens).map (fun c =>
        (returnedUser (c.calls 2), returnedUser (c.calls 3))) = some
        (some ("tok_user_1", ⟨0x550e8400e29b41d4a716446655440001#128, "Test User 1"⟩),
          some ("tok_user_2", ⟨0x550e8400e29b41d4a716446655440002#128, "Test User 2"⟩)) := by
    decide +kernel
  obtain ⟨c, hrun, huser⟩ := Option.map_eq_some_iff.mp hview
  obtain ⟨huser₁, huser₂⟩ := Prod.mk.inj huser
  refine ⟨c, hrun, huser₁, huser₂, ownUser_of_tokensApart plain_userJson ?_ hrun twoTokens_apart⟩
  exact ⟨rfl, fun _ => rfl⟩

/-- Two tokens of twenty characters with one hash. -/
theorem fnv1aHash_collision :
    fnv1aHash "8yn0iYCKYHlIj4-BwPqk" = fnv1aHash "GReLUrM4wMqfg9yzV3KQ" := by
  decide +kernel

/-- The first of them is validated; the second, which the Profile API has never seen, then
    returns the user of the first. -/
theorem otherUser_returned : ∃ c : ValidateConfig ℕ,
    (validations .plain 300).machine.run ⟨.new .empty, fun _ => .idle⟩
      (validatedToken 0 "8yn0iYCKYHlIj4-BwPqk" "usr_550e8400-e29b-41d4-a716-446655440001"
        "Test User 1" ++ cachedToken 1 "GReLUrM4wMqfg9yzV3KQ") = some c ∧
    c.shared.answered.map (fun e => e.2.1) = ["8yn0iYCKYHlIj4-BwPqk"] ∧
    returnedUser (c.calls 1) = some ("GReLUrM4wMqfg9yzV3KQ",
      ⟨0x550e8400e29b41d4a716446655440001#128, "Test User 1"⟩) ∧ ¬ OwnUser c := by
  have hview : ((validations .plain 300).machine.run
      (⟨.new .empty, fun _ => .idle⟩ : ValidateConfig ℕ)
      (validatedToken 0 "8yn0iYCKYHlIj4-BwPqk" "usr_550e8400-e29b-41d4-a716-446655440001"
        "Test User 1" ++ cachedToken 1 "GReLUrM4wMqfg9yzV3KQ")).map
        (fun c => (c.shared.answered.map fun e => e.2.1, returnedUser (c.calls 1))) =
      some (["8yn0iYCKYHlIj4-BwPqk"], some ("GReLUrM4wMqfg9yzV3KQ",
        ⟨0x550e8400e29b41d4a716446655440001#128, "Test User 1"⟩)) := by
    decide +kernel
  obtain ⟨c, hrun, hc⟩ := Option.map_eq_some_iff.mp hview
  obtain ⟨hanswered, huser⟩ := Prod.mk.inj hc
  refine ⟨c, hrun, hanswered, huser, fun hown => ?_⟩
  obtain ⟨k, hreturned, htoken⟩ := returned_of_returnedUser huser
  obtain ⟨j, -, hmem⟩ := hown 1 k _ hreturned
  have hknown := List.mem_map_of_mem (f := fun e : ℕ × String × AuthenticatedUser => e.2.1) hmem
  rw [hanswered, htoken, List.mem_singleton] at hknown
  exact absurd hknown (show "GReLUrM4wMqfg9yzV3KQ" ≠ "8yn0iYCKYHlIj4-BwPqk" by decide)

end SocialApi.Clients
