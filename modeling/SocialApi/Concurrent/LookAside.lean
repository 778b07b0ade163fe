import SocialApi.Concurrent.Pool

/-!
# Look-aside caches

Any number of clients on any number of nodes ask an authority, through two layers of cache:
one near layer on each node, and a far layer that all share. A client looks into the near
layer, then into the far one, whose values it copies to the near one; when neither has a
value it asks the authority and stores what it is told. Every value is kept for a limited
time. Commands to the far layer may fail, values may be evicted, and clients may be dropped.

What a client gets can then be old: it was told to another client, waited to be stored, lived
in the far layer, waited to be copied, and lived in the near layer. No value is copied from
the near layer to the far one, so that no hop is taken twice.

* `Layers.Aged`: how old what the layers hold can be; one lemma for each operation.
* `LookAside.protocol`: what a client may do, given what it has; `get_obeys` and `set_obeys`.
* `LookAside.ended_of_meets`: what every client that has returned had, and how old it was.
-/

namespace SocialApi.Concurrent

/-! ## The layers -/

/-- The near layers and the far one. Each value is kept with the time until which it may be
    given out. -/
structure Layers (ρ K V : Type) where
  near : ρ → K → Option (V × ℕ)
  far : K → Option (V × ℕ)
  clock : ℕ

/-- The accesses to the layers. -/
inductive LayerOp (K V : Type) where
  | getNear (key : K)
  | putNear (key : K) (v : V)
  | getFar (key : K)
  | putFar (key : K) (v : V) (life : ℕ)

/-- Their answers; a failed access to the far layer is answered like a miss. -/
@[reducible] def LayerOp.Ans {K V : Type} : LayerOp K V → Type
  | getNear _ => Option V
  | putNear _ _ => Unit
  | getFar _ => Option V
  | putFar _ _ _ => Unit

namespace Layers

variable {ρ K V : Type}

/-- Layers that hold nothing. -/
def empty : Layers ρ K V := ⟨fun _ _ => none, fun _ => none, 0⟩

/-- The value, if it may still be given out. -/
def fresh (clock : ℕ) (entry : Option (V × ℕ)) : Option V :=
  entry.bind fun e => if clock ≤ e.2 then some e.1 else none

theorem fresh_eq_some {clock : ℕ} {entry : Option (V × ℕ)} {v : V} :
    fresh clock entry = some v ↔ ∃ til, entry = some (v, til) ∧ clock ≤ til := by
  unfold fresh
  constructor
  · intro h
    obtain ⟨⟨v', til⟩, he, hv⟩ := Option.bind_eq_some_iff.mp h
    simp only at hv
    split_ifs at hv with htime
    exact ⟨til, by rw [he, Option.some.inj hv], htime⟩
  · intro h
    obtain ⟨til, rfl, htime⟩ := h
    simp [htime]

section Accesses

variable [DecidableEq ρ] [DecidableEq K]

/-- A value stored on one node. -/
def putNear (s : Layers ρ K V) (r : ρ) (key : K) (entry : Option (V × ℕ)) : Layers ρ K V :=
  { s with near := Function.update s.near r (Function.update (s.near r) key entry) }

/-- A value stored in the far layer. -/
def putFar (s : Layers ρ K V) (key : K) (entry : Option (V × ℕ)) : Layers ρ K V :=
  { s with far := Function.update s.far key entry }

/-- What an access from node `r` does; those to the far layer may fail. -/
def handle (nearLife : ℕ) (s : Layers ρ K V) (r : ρ) (works : Bool) :
    (o : LayerOp K V) → Layers ρ K V × o.Ans
  | .getNear key => (s, fresh s.clock (s.near r key))
  | .putNear key v => (s.putNear r key (some (v, s.clock + nearLife)), ())
  | .getFar key => (s, if works then fresh s.clock (s.far key) else none)
  | .putFar key v life => (if works then s.putFar key (some (v, s.clock + life)) else s, ())

end Accesses

/-! ## How old the values are -/

/-- Every value that the layers hold is one that `Told` has from some time on, and is gone that
    much later at most. -/
structure Aged (Told : K → V → ℕ → Prop) (nearAge farAge : V → ℕ) (s : Layers ρ K V) : Prop where
  near : ∀ r key v til, s.near r key = some (v, til) →
    ∃ t, Told key v t ∧ til ≤ t + nearAge v
  far : ∀ key v til, s.far key = some (v, til) → ∃ t, Told key v t ∧ til ≤ t + farAge v

section Aged

variable {Told Told' : K → V → ℕ → Prop} {nearAge farAge : V → ℕ} {s : Layers ρ K V} {r : ρ} {key : K}
  {v : V}

theorem aged_empty : (empty : Layers ρ K V).Aged Told nearAge farAge where
  near r key v til h := by cases h
  far key v til h := by cases h

theorem Aged.mono (h : s.Aged Told nearAge farAge) (hT : ∀ key v t, Told key v t → Told' key v t) :
    s.Aged Told' nearAge farAge where
  near r key v til hs := by
    obtain ⟨t, ht, hle⟩ := h.near r key v til hs
    exact ⟨t, hT _ _ _ ht, hle⟩
  far key v til hs := by
    obtain ⟨t, ht, hle⟩ := h.far key v til hs
    exact ⟨t, hT _ _ _ ht, hle⟩

/-- A value given out by a near layer. -/
theorem Aged.getNear (h : s.Aged Told nearAge farAge) (hs : fresh s.clock (s.near r key) = some v) :
    ∃ t, Told key v t ∧ s.clock ≤ t + nearAge v := by
  obtain ⟨til, hentry, htime⟩ := fresh_eq_some.mp hs
  obtain ⟨t, ht, hle⟩ := h.near r key v til hentry
  exact ⟨t, ht, htime.trans hle⟩

/-- A value given out by the far layer. -/
theorem Aged.getFar (h : s.Aged Told nearAge farAge) (hs : fresh s.clock (s.far key) = some v) :
    ∃ t, Told key v t ∧ s.clock ≤ t + farAge v := by
  obtain ⟨til, hentry, htime⟩ := fresh_eq_some.mp hs
  obtain ⟨t, ht, hle⟩ := h.far key v til hentry
  exact ⟨t, ht, htime.trans hle⟩

variable [DecidableEq K]

/-- A value is stored on a node, or one there goes. -/
theorem Aged.putNear [DecidableEq ρ] (h : s.Aged Told nearAge farAge) {entry : Option (V × ℕ)}
    (hentry : ∀ v til, entry = some (v, til) → ∃ t, Told key v t ∧ til ≤ t + nearAge v) :
    (s.putNear r key entry).Aged Told nearAge farAge where
  near r' key' v til hs := by
    have hs : Function.update s.near r (Function.update (s.near r) key entry) r' key' =
        some (v, til) := hs
    by_cases hr : r' = r
    · subst hr
      rw [Function.update_self] at hs
      by_cases hkey : key' = key
      · subst hkey
        rw [Function.update_self] at hs
        exact hentry v til hs
      · rw [Function.update_of_ne hkey] at hs
        exact h.near r' key' v til hs
    · rw [Function.update_of_ne hr] at hs
      exact h.near r' key' v til hs
  far := h.far

/-- A value is stored in the far layer, or one there goes. -/
theorem Aged.putFar (h : s.Aged Told nearAge farAge) {entry : Option (V × ℕ)}
    (hentry : ∀ v til, entry = some (v, til) → ∃ t, Told key v t ∧ til ≤ t + farAge v) :
    (s.putFar key entry).Aged Told nearAge farAge where
  near := h.near
  far key' v til hs := by
    have hs : Function.update s.far key entry key' = some (v, til) := hs
    by_cases hkey : key' = key
    · subst hkey
      rw [Function.update_self] at hs
      exact hentry v til hs
    · rw [Function.update_of_ne hkey] at hs
      exact h.far key' v til hs

end Aged

end Layers

/-! ## Clients of an authority -/

/-- What the clients look up, and what the authority tells them: the key of a request, the value
    that is stored for what was told, how long it is kept, and what an answer of the authority
    tells the client with the request. -/
structure LookAside (κ K V M R : Type) (RAns : R → Type) where
  key : κ → K
  text : M → Option V
  life : V → ℕ
  /-- How long a near layer keeps a value. -/
  nearLife : ℕ
  meaning : κ → (r : R) → RAns r → Option M

/-- The operations of a client: those on the layers, and what it asks the authority. -/
inductive LookOp (K V R : Type) where
  | layer (o : LayerOp K V)
  | ask (r : R)

@[reducible] def LookOp.Ans {K V R : Type} (RAns : R → Type) : LookOp K V R → Type
  | layer o => o.Ans
  | ask r => RAns r

/-- What a step leaves open: whether the far layer works, what the authority answers, how late it
    gets, what is evicted. -/
inductive LookChoice (ρ K R : Type) (RAns : R → Type) where
  | layer (works : Bool)
  | answered (answer : ∀ r, RAns r)
  | tick (now : ℕ)
  | evictNear (r : ρ) (key : K)
  | evictFar (key : K)

/-- The layers, and what has happened so far; no outcome depends on anything but the layers. -/
structure LookState (ι ρ κ K V M : Type) where
  layers : Layers ρ K V
  /-- What a client has asked for, and when it started. -/
  opened : ι → Option (κ × ℕ)
  /-- What the authority has told: to which client, for which request, and when that client had
      started. -/
  told : List (ι × κ × M × ℕ)
  /-- When a client last did something. -/
  stepped : ι → ℕ

namespace LookAside

variable {ι ρ κ K V M R α : Type} {RAns : R → Type}

/-- Nothing is stored, nobody has asked. -/
def new : LookState ι ρ κ K V M := ⟨.empty, fun _ => none, [], fun _ => 0⟩

/-- The authority has answered client `i`. -/
def tell (L : LookAside κ K V M R RAns) (s : LookState ι ρ κ K V M) (i : ι) (r : R) (a : RAns r) :
    List (ι × κ × M × ℕ) :=
  match s.opened i with
  | some (k, t) =>
    match L.meaning k r a with
    | some m => (i, k, m, t) :: s.told
    | none => s.told
  | none => s.told

/-- What one operation of client `i` does. -/
def handle [DecidableEq ι] [DecidableEq ρ] [DecidableEq K] (L : LookAside κ K V M R RAns)
    (node : ι → ρ) (s : LookState ι ρ κ K V M) (i : ι) :
    (o : LookOp K V R) → LookChoice ρ K R RAns → Option (LookState ι ρ κ K V M × o.Ans RAns)
  | .layer o, .layer works =>
    let r := s.layers.handle L.nearLife (node i) works o
    some ({ s with layers := r.1, stepped := Function.update s.stepped i s.layers.clock }, r.2)
  | .ask r, .answered answer =>
    some ({ s with
      told := L.tell s i r (answer r)
      stepped := Function.update s.stepped i s.layers.clock }, answer r)
  | _, _ => none

/-- Time passes, or a value is evicted. -/
def env [DecidableEq ρ] [DecidableEq K] (s : LookState ι ρ κ K V M) : LookChoice ρ K R RAns → Option
    (LookState ι ρ κ K V M)
  | .tick now =>
    if s.layers.clock ≤ now then some { s with layers := { s.layers with clock := now } } else none
  | .evictNear r key => some { s with layers := s.layers.putNear r key none }
  | .evictFar key => some { s with layers := s.layers.putFar key none }
  | _ => none

/-- Client `i` starts. -/
def start [DecidableEq ι] (s : LookState ι ρ κ K V M) (i : ι) (k : κ) : LookState ι ρ κ K V M :=
  { s with
    opened := Function.update s.opened i (some (k, s.layers.clock))
    stepped := Function.update s.stepped i s.layers.clock }

/-- Any number of clients with the programs `prog`, each on its node. -/
def clients [DecidableEq ι] [DecidableEq ρ] [DecidableEq K] (L : LookAside κ K V M R RAns)
    (node : ι → ρ)
    (prog : κ → Prog (LookOp K V R) (LookOp.Ans RAns) α) :
    Pool ι (LookState ι ρ κ K V M) κ (LookOp K V R) (LookOp.Ans RAns) α (LookChoice ρ K R RAns) where
  init s := s = new
  prog := prog
  start s i k := some (start s i k)
  handle := L.handle node
  drop s _ := some s
  env := env

/-- Every client does what it does within `D` of its start. -/
def Timely (D : ℕ) (c : Configuration ι (LookState ι ρ κ K V M) κ (LookOp K V R)
    (LookOp.Ans RAns) α) (a : Act ι κ (LookChoice ρ K R RAns)) : Prop :=
  ∀ i x k t, a = .step i x → c.shared.opened i = some (k, t) → c.shared.layers.clock ≤ t + D

/-- `Timely`, computed. -/
def isTimely (D : ℕ) (c : Configuration ι (LookState ι ρ κ K V M) κ (LookOp K V R)
    (LookOp.Ans RAns) α) (a : Act ι κ (LookChoice ρ K R RAns)) : Bool :=
  match a with
  | .step i _ =>
    match c.shared.opened i with
    | some (_, t) => decide (c.shared.layers.clock ≤ t + D)
    | none => true
  | _ => true

theorem timely_of_isTimely (D : ℕ) (c : Configuration ι (LookState ι ρ κ K V M) κ (LookOp K V R)
    (LookOp.Ans RAns) α) (a : Act ι κ (LookChoice ρ K R RAns)) (h : isTimely D c a = true) :
    Timely D c a := by
  rintro i x k t rfl ho
  simp only [isTimely, ho] at h
  exact of_decide_eq_true h

/-! ## What a client has -/

/-- What a client has: nothing yet, a value from a layer, or what the authority has told it. -/
inductive Stage (V M : Type) where
  | looking
  | near (v : V)
  | far (v : V)
  | told (m : M)

/-- A client's request and what it has for it. -/
structure Lookup (κ V M : Type) where
  request : κ
  stage : Stage V M

/-- The value may be stored for what the client has been told. -/
def Lookup.Telling (L : LookAside κ K V M R RAns) (g : Lookup κ V M) (v : V) : Prop :=
  ∃ m, g.stage = .told m ∧ L.text m = some v

/-- The operations allowed. -/
def Lookup.asks (L : LookAside κ K V M R RAns) (g : Lookup κ V M) : LookOp K V R → Prop
  | .layer (.getNear key) => key = L.key g.request
  | .layer (.getFar key) => key = L.key g.request
  | .layer (.putNear key v) => key = L.key g.request ∧ (g.stage = .far v ∨ g.Telling L v)
  | .layer (.putFar key v life) => key = L.key g.request ∧ life = L.life v ∧ g.Telling L v
  | .ask _ => True

/-- What a client has after an answer. -/
def Lookup.next (L : LookAside κ K V M R RAns) (g : Lookup κ V M) :
    (o : LookOp K V R) → o.Ans RAns → Lookup κ V M
  | .layer (.getNear _), some v => ⟨g.request, .near v⟩
  | .layer (.getFar _), some v => ⟨g.request, .far v⟩
  | .ask r, a =>
    match L.meaning g.request r a with
    | some m => ⟨g.request, .told m⟩
    | none => g
  | _, _ => g

/-- Looking aside, as a protocol. -/
def protocol (L : LookAside κ K V M R RAns) :
    Protocol (LookOp K V R) (LookOp.Ans RAns) (Lookup κ V M) where
  asks g o := g.asks L o
  answers g o a g' := g' = g.next L o a

theorem next_request (L : LookAside κ K V M R RAns) (g : Lookup κ V M) (o : LookOp K V R)
    (a : o.Ans RAns) : (g.next L o a).request = g.request := by
  unfold Lookup.next
  split
  · rfl
  · rfl
  · split <;> rfl
  · rfl

/-- The near layer, then the far one, whose value is copied to the near one. -/
def get (key : K) : Prog (LookOp K V R) (LookOp.Ans RAns) (Option V) :=
  .op (.layer (.getNear key)) fun
    | some v => .ret (some v)
    | none => .op (.layer (.getFar key)) fun
      | some v => .op (.layer (.putNear key v)) fun _ => .ret (some v)
      | none => .ret none

/-- Both layers, the near one first. -/
def set (key : K) (v : V) (life : ℕ) : Prog (LookOp K V R) (LookOp.Ans RAns) Unit :=
  .op (.layer (.putNear key v)) fun _ => .op (.layer (.putFar key v life)) fun _ => .ret ()

/-- What a client has after it has looked for its key. -/
theorem get_obeys (L : LookAside κ K V M R RAns) (k : κ) :
    L.protocol.Obeys (fun g found => g.request = k ∧
        match found with
        | none => g.stage = .looking
        | some v => g.stage = .near v ∨ g.stage = .far v)
      ⟨k, .looking⟩ (get (L.key k)) := by
  refine ⟨rfl, ?_⟩
  rintro (_ | v) g rfl
  · refine ⟨rfl, ?_⟩
    rintro (_ | v) g rfl
    · exact ⟨rfl, rfl⟩
    · refine ⟨⟨rfl, Or.inl rfl⟩, ?_⟩
      rintro _ g rfl
      exact ⟨rfl, Or.inr rfl⟩
  · exact ⟨rfl, Or.inl rfl⟩

/-- A client may store what it has been told, and has it still. -/
theorem set_obeys (L : LookAside κ K V M R RAns) (k : κ) {m : M} {v : V} (hv : L.text m = some v) :
    L.protocol.Obeys (fun g (_ : Unit) => g = ⟨k, .told m⟩) ⟨k, .told m⟩
      (set (L.key k) v (L.life v)) := by
  refine ⟨⟨rfl, Or.inr ⟨m, rfl, hv⟩⟩, ?_⟩
  rintro _ g rfl
  refine ⟨⟨rfl, rfl, m, rfl, hv⟩, ?_⟩
  rintro _ g rfl
  rfl

/-! ## How old it is -/

/-- The authority has told it for the key to a client that had started at time `t`. -/
def Told (L : LookAside κ K V M R RAns) (s : LookState ι ρ κ K V M) (key : K) (v : V) (t : ℕ) :
    Prop :=
  ∃ j k m, (j, k, m, t) ∈ s.told ∧ L.key k = key ∧ L.text m = some v

/-- How old a value of the far layer can be. -/
def farAge (L : LookAside κ K V M R RAns) (D : ℕ) (v : V) : ℕ := D + L.life v

/-- How old a value of a near layer can be. -/
def nearAge (L : LookAside κ K V M R RAns) (D : ℕ) (v : V) : ℕ := 2 * D + L.life v + L.nearLife

/-- What a client that started at time `t₀` has is this old at most. -/
def Stands (L : LookAside κ K V M R RAns) (D : ℕ) (s : LookState ι ρ κ K V M) (i : ι) (t₀ : ℕ)
    (g : Lookup κ V M) : Prop :=
  match g.stage with
  | .looking => True
  | .near v => ∃ t, L.Told s (L.key g.request) v t ∧ t₀ ≤ t + L.nearAge D v
  | .far v => ∃ t, L.Told s (L.key g.request) v t ∧ t₀ ≤ t + L.farAge D v
  | .told m => (i, g.request, m, t₀) ∈ s.told

/-- What the layers hold and what the clients have is not too old. -/
structure Inv (L : LookAside κ K V M R RAns) (D : ℕ) (s : LookState ι ρ κ K V M)
    (γ : ι → Option (Lookup κ V M)) : Prop where
  layers : s.layers.Aged (L.Told s) (L.nearAge D) (L.farAge D)
  clients : ∀ i g, γ i = some g → ∃ t₀, s.opened i = some (g.request, t₀) ∧
    t₀ ≤ s.layers.clock ∧ s.stepped i ≤ t₀ + D ∧ L.Stands D s i t₀ g

section Steps

variable {L : LookAside κ K V M R RAns} {D : ℕ} {s s' : LookState ι ρ κ K V M}
  {γ : ι → Option (Lookup κ V M)} {i : ι} {g g' : Lookup κ V M} {t₀ : ℕ}

theorem Told.mono {key : K} {v : V} {t : ℕ} (h : L.Told s key v t)
    (htold : ∀ e ∈ s.told, e ∈ s'.told) : L.Told s' key v t := by
  obtain ⟨j, k, m, hmem, hkey, htext⟩ := h
  exact ⟨j, k, m, htold _ hmem, hkey, htext⟩

theorem Stands.mono (h : L.Stands D s i t₀ g) (htold : ∀ e ∈ s.told, e ∈ s'.told) :
    L.Stands D s' i t₀ g := by
  unfold Stands at h ⊢
  cases hstage : g.stage with
  | looking => trivial
  | near v =>
    rw [hstage] at h
    obtain ⟨t, ht, hle⟩ := h
    exact ⟨t, ht.mono htold, hle⟩
  | far v =>
    rw [hstage] at h
    obtain ⟨t, ht, hle⟩ := h
    exact ⟨t, ht.mono htold, hle⟩
  | told m =>
    rw [hstage] at h
    exact htold _ h

theorem mem_tell {e : ι × κ × M × ℕ} (i : ι) (r : R) (a : RAns r) (h : e ∈ s.told) :
    e ∈ L.tell s i r a := by
  unfold tell
  split
  · split
    · exact List.mem_cons_of_mem _ h
    · exact h
  · exact h

/-- What a step of client `i` has to show: that the layers stay young, and what the client has. -/
theorem Inv.put [DecidableEq ι] (h : L.Inv D s γ) (hγ : γ i = some g)
    (hopened : s'.opened = s.opened)
    (hclock : s'.layers.clock = s.layers.clock)
    (hstepped : s'.stepped = Function.update s.stepped i s.layers.clock)
    (htold : ∀ e ∈ s.told, e ∈ s'.told)
    (htimely : ∀ k t, s.opened i = some (k, t) → s.layers.clock ≤ t + D)
    (hlayers : s'.layers.Aged (L.Told s') (L.nearAge D) (L.farAge D))
    (hrequest : g'.request = g.request)
    (hstands : ∀ t₀, s.opened i = some (g.request, t₀) → t₀ ≤ s.layers.clock →
      L.Stands D s i t₀ g → L.Stands D s' i t₀ g') :
    L.Inv D s' (Function.update γ i (some g')) := by
  refine ⟨hlayers, ?_⟩
  intro j g₁ hj
  rw [hopened, hclock, hstepped]
  by_cases hji : j = i
  · subst hji
    rw [Function.update_self] at hj
    obtain rfl := Option.some.inj hj
    obtain ⟨t₀, ho, hle, -, hs⟩ := h.clients j g hγ
    rw [hrequest, Function.update_self]
    exact ⟨t₀, ho, hle, htimely _ _ ho, hstands t₀ ho hle hs⟩
  · rw [Function.update_of_ne hji] at hj
    rw [Function.update_of_ne hji]
    obtain ⟨t₀, ho, hle, hend, hs⟩ := h.clients j g₁ hj
    exact ⟨t₀, ho, hle, hend, hs.mono htold⟩

/-- What may be stored for what a client has been told. -/
theorem Inv.told (h : L.Inv D s γ) (hγ : γ i = some g)
    (htimely : ∀ k t, s.opened i = some (k, t) → s.layers.clock ≤ t + D) {v : V}
    (hv : g.Telling L v) : ∃ t, L.Told s (L.key g.request) v t ∧ s.layers.clock ≤ t + D := by
  obtain ⟨m, hstage, htext⟩ := hv
  obtain ⟨t₀, ho, -, -, hs⟩ := h.clients i g hγ
  unfold Stands at hs
  rw [hstage] at hs
  exact ⟨t₀, ⟨i, g.request, m, hs, rfl, htext⟩, htimely _ _ ho⟩

variable [DecidableEq ι]

/-- An access to the layers that what the client has allows. -/
theorem Inv.layer [DecidableEq ρ] [DecidableEq K] (h : L.Inv D s γ) (hγ : γ i = some g)
    (htimely : ∀ k t, s.opened i = some (k, t) → s.layers.clock ≤ t + D) {o : LayerOp K V}
    (hasks : g.asks L (.layer o)) (r : ρ) (works : Bool) :
    L.Inv D { s with
        layers := (s.layers.handle L.nearLife r works o).1
        stepped := Function.update s.stepped i s.layers.clock }
      (Function.update γ i (some (g.next L (.layer o) (s.layers.handle L.nearLife r works o).2))) := by
  have hkeep : ∀ e ∈ s.told, e ∈ s.told := fun e he => he
  cases o with
  | getNear key =>
    refine h.put hγ rfl rfl rfl hkeep htimely h.layers (next_request L g _ _) ?_
    intro t₀ ho hle hs
    show L.Stands D _ i t₀ (g.next L (.layer (.getNear key))
      (Layers.fresh s.layers.clock (s.layers.near r key)))
    cases hv : Layers.fresh s.layers.clock (s.layers.near r key) with
    | none => exact hs.mono hkeep
    | some v =>
      obtain ⟨t, ht, hlate⟩ := h.layers.getNear hv
      rw [show key = L.key g.request from hasks] at ht
      exact ⟨t, ht, hle.trans hlate⟩
  | getFar key =>
    refine h.put hγ rfl rfl rfl hkeep htimely h.layers (next_request L g _ _) ?_
    intro t₀ ho hle hs
    show L.Stands D _ i t₀ (g.next L (.layer (.getFar key))
      (if works then Layers.fresh s.layers.clock (s.layers.far key) else none))
    cases hv : (if works then Layers.fresh s.layers.clock (s.layers.far key) else none) with
    | none => exact hs.mono hkeep
    | some v =>
      split_ifs at hv
      obtain ⟨t, ht, hlate⟩ := h.layers.getFar hv
      rw [show key = L.key g.request from hasks] at ht
      exact ⟨t, ht, hle.trans hlate⟩
  | putNear key v =>
    refine h.put hγ rfl rfl rfl hkeep htimely ?_ (next_request L g _ _)
      fun t₀ ho hle hs => hs.mono hkeep
    refine h.layers.putNear ?_
    intro v' til he
    obtain ⟨rfl, rfl⟩ := Prod.mk.inj (Option.some.inj he)
    obtain ⟨rfl, hstage | htelling⟩ := hasks
    · -- the value is a copy from the far layer
      obtain ⟨t₀, ho, -, -, hs⟩ := h.clients i g hγ
      unfold Stands at hs
      rw [hstage] at hs
      obtain ⟨t, ht, hle⟩ := hs
      have hnow := htimely _ _ ho
      refine ⟨t, ht, ?_⟩
      simp only [nearAge, farAge] at hle ⊢
      omega
    · obtain ⟨t, ht, hle⟩ := h.told hγ htimely htelling
      refine ⟨t, ht, ?_⟩
      simp only [nearAge]
      omega
  | putFar key v life =>
    refine h.put hγ rfl (by cases works <;> rfl) rfl hkeep htimely ?_ (next_request L g _ _)
      fun t₀ ho hle hs => hs.mono hkeep
    obtain ⟨rfl, rfl, htelling⟩ := hasks
    cases works with
    | false => exact h.layers
    | true =>
      refine h.layers.putFar ?_
      intro v' til he
      obtain ⟨rfl, rfl⟩ := Prod.mk.inj (Option.some.inj he)
      obtain ⟨t, ht, hle⟩ := h.told hγ htimely htelling
      refine ⟨t, ht, ?_⟩
      simp only [farAge]
      omega

/-- The authority answers a client. -/
theorem Inv.ask (h : L.Inv D s γ) (hγ : γ i = some g)
    (htimely : ∀ k t, s.opened i = some (k, t) → s.layers.clock ≤ t + D) (r : R) (a : RAns r) :
    L.Inv D { s with
        told := L.tell s i r a
        stepped := Function.update s.stepped i s.layers.clock }
      (Function.update γ i (some (g.next L (.ask r) a))) := by
  have hgrows : ∀ e ∈ s.told, e ∈ L.tell s i r a := fun e he => mem_tell i r a he
  refine h.put hγ rfl rfl rfl hgrows htimely (h.layers.mono fun key v t ht => ht.mono hgrows)
    (next_request L g _ _) ?_
  intro t₀ ho hle hs
  show L.Stands D _ i t₀ (match L.meaning g.request r a with
    | some m => ⟨g.request, .told m⟩
    | none => g)
  cases hm : L.meaning g.request r a with
  | none => exact hs.mono hgrows
  | some m =>
    show (i, g.request, m, t₀) ∈ L.tell s i r a
    simp [tell, ho, hm]

/-- One operation of client `i`. -/
theorem Inv.handle [DecidableEq ρ] [DecidableEq K] {node : ι → ρ} {o : LookOp K V R}
    {x : LookChoice ρ K R RAns} {a : o.Ans RAns}
    (h : L.Inv D s γ) (hγ : γ i = some g)
    (htimely : ∀ k t, s.opened i = some (k, t) → s.layers.clock ≤ t + D)
    (hasks : g.asks L o) (hs : L.handle node s i o x = some (s', a)) :
    L.Inv D s' (Function.update γ i (some (g.next L o a))) := by
  cases o with
  | layer o =>
    cases x with
    | layer works =>
      cases hs
      exact h.layer hγ htimely hasks (node i) works
    | _ => cases hs
  | ask r =>
    cases x with
    | answered answer =>
      cases hs
      exact h.ask hγ htimely r (answer r)
    | _ => cases hs

/-- A client starts. -/
theorem Inv.start (h : L.Inv D s γ) (k : κ) :
    L.Inv D (start s i k) (Function.update γ i (some ⟨k, .looking⟩)) := by
  refine ⟨h.layers, ?_⟩
  intro j g₁ hj
  by_cases hji : j = i
  · subst hji
    rw [Function.update_self] at hj
    obtain rfl := Option.some.inj hj
    refine ⟨s.layers.clock, Function.update_self .., le_refl _, ?_, trivial⟩
    show Function.update s.stepped j s.layers.clock j ≤ _
    rw [Function.update_self]
    omega
  · rw [Function.update_of_ne hji] at hj
    show ∃ t₀, Function.update s.opened i (some (k, s.layers.clock)) j = _ ∧ _ ∧
      Function.update s.stepped i s.layers.clock j ≤ _ ∧ _
    rw [Function.update_of_ne hji, Function.update_of_ne hji]
    exact h.clients j g₁ hj

/-- A client is over. -/
theorem Inv.done (h : L.Inv D s γ) : L.Inv D s (Function.update γ i none) := by
  refine ⟨h.layers, ?_⟩
  intro j g₁ hj
  by_cases hji : j = i
  · subst hji
    rw [Function.update_self] at hj
    cases hj
  · rw [Function.update_of_ne hji] at hj
    exact h.clients j g₁ hj

variable [DecidableEq ρ] [DecidableEq K]

omit [DecidableEq ι] in
/-- Time passes, or a value is evicted. -/
theorem Inv.env {x : LookChoice ρ K R RAns} (h : L.Inv D s γ) (hs : env s x = some s') :
    L.Inv D s' γ := by
  cases x with
  | tick now =>
    have hs : (if s.layers.clock ≤ now then
        some { s with layers := { s.layers with clock := now } } else none) = some s' := hs
    split_ifs at hs with hnow
    cases hs
    refine ⟨⟨h.layers.near, h.layers.far⟩, ?_⟩
    intro j g₁ hj
    obtain ⟨t₀, ho, hle, hend, hstands⟩ := h.clients j g₁ hj
    exact ⟨t₀, ho, hle.trans hnow, hend, hstands.mono fun e he => he⟩
  | evictNear r key =>
    cases hs
    exact ⟨h.layers.putNear (fun v til he => by cases he), h.clients⟩
  | evictFar key =>
    cases hs
    exact ⟨h.layers.putFar (fun v til he => by cases he), h.clients⟩
  | _ => cases hs

end Steps

/-! ## Runs -/

section Runs

variable {L : LookAside κ K V M R RAns} {D : ℕ} {node : ι → ρ}
  {prog : κ → Prog (LookOp K V R) (LookOp.Ans RAns) α} {Q : κ → Lookup κ V M → α → Prop}

theorem clients_keep [DecidableEq ι] [DecidableEq ρ] [DecidableEq K]
    (hprog : ∀ k, L.protocol.Obeys (Q k) ⟨k, .looking⟩ (prog k)) :
    Pool.Keeps (L.clients node prog) L.protocol Q (fun k => ⟨k, .looking⟩) (L.Inv D)
      (Timely D) where
  prog := hprog
  start c i k s γ _ h _ hs := by
    cases hs
    exact h.start k
  handle c i x k o f s r γ g htimely h _ _ hγ hasks hs :=
    ⟨_, rfl, h.handle hγ (fun k t ho => htimely i x k t rfl ho) hasks hs⟩
  ret s i k γ g a h hγ ha := h.done
  drop c i k p s γ g _ h _ _ hγ hs := by
    cases hs
    exact h.done
  env c x s γ _ h hs := h.env hs

/-- What a client had when it ended, and that it was not too old then. -/
def Ended (L : LookAside κ K V M R RAns) (D : ℕ) (s : LookState ι ρ κ K V M) (i : ι)
    (g : Lookup κ V M) : Prop :=
  match g.stage with
  | .looking => True
  | .near v => ∃ t, L.Told s (L.key g.request) v t ∧
      s.stepped i ≤ t + (3 * D + L.life v + L.nearLife)
  | .far v => ∃ t, L.Told s (L.key g.request) v t ∧ s.stepped i ≤ t + (2 * D + L.life v)
  | .told m => ∃ t, (i, g.request, m, t) ∈ s.told ∧ s.stepped i ≤ t + D

theorem Inv.ended {s : LookState ι ρ κ K V M} {γ : ι → Option (Lookup κ V M)} {i : ι}
    {g : Lookup κ V M} (h : L.Inv D s γ) (hγ : γ i = some g) : L.Ended D s i g := by
  obtain ⟨t₀, ho, -, hend, hs⟩ := h.clients i g hγ
  unfold Ended
  unfold Stands at hs
  cases hstage : g.stage with
  | looking => trivial
  | near v =>
    rw [hstage] at hs
    obtain ⟨t, ht, hle⟩ := hs
    refine ⟨t, ht, ?_⟩
    simp only [nearAge] at hle
    omega
  | far v =>
    rw [hstage] at hs
    obtain ⟨t, ht, hle⟩ := hs
    refine ⟨t, ht, ?_⟩
    simp only [farAge] at hle
    omega
  | told m =>
    rw [hstage] at hs
    exact ⟨t₀, hs, hend⟩

theorem Ended.mono {s s' : LookState ι ρ κ K V M} {i : ι} {g : Lookup κ V M} (h : L.Ended D s i g)
    (htold : ∀ e ∈ s.told, e ∈ s'.told) (hstepped : s'.stepped i = s.stepped i) :
    L.Ended D s' i g := by
  unfold Ended at h ⊢
  rw [hstepped]
  cases hstage : g.stage with
  | looking => trivial
  | near v =>
    rw [hstage] at h
    obtain ⟨t, ht, hle⟩ := h
    exact ⟨t, ht.mono htold, hle⟩
  | far v =>
    rw [hstage] at h
    obtain ⟨t, ht, hle⟩ := h
    exact ⟨t, ht.mono htold, hle⟩
  | told m =>
    rw [hstage] at h
    obtain ⟨t, ht, hle⟩ := h
    exact ⟨t, htold _ ht, hle⟩

variable [DecidableEq ι] [DecidableEq ρ] [DecidableEq K]

/-- A client that is over does nothing more, and nothing told is taken back. -/
theorem history_of_returned {c c' : Configuration ι (LookState ι ρ κ K V M) κ (LookOp K V R)
    (LookOp.Ans RAns) α} {a : Act ι κ (LookChoice ρ K R RAns)}
    (hstep : (L.clients node prog).machine.step c a = some c') {i : ι} {k : κ} {b : α}
    (hi : c.calls i = .returned k b) :
    (∀ e ∈ c.shared.told, e ∈ c'.shared.told) ∧ c'.shared.stepped i = c.shared.stepped i := by
  have hother : ∀ j v, j ≠ i → Function.update c.shared.stepped j v i = c.shared.stepped i :=
    fun j v hji => Function.update_of_ne hji.symm _ _
  rcases Pool.act_cases hstep with ⟨j, k', s, rfl, hj, hs, rfl⟩ |
    ⟨j, x, k', o, f, s, r, rfl, hj, hs, rfl⟩ | ⟨j, k', p, s, rfl, hj, hs, rfl⟩ | ⟨x, s, rfl, hs, rfl⟩
  · cases hs
    refine ⟨fun e he => he, hother j _ ?_⟩
    intro hji
    rw [hji, hi] at hj
    cases hj
  · have hji : j ≠ i := by
      intro hji
      rw [hji, hi] at hj
      cases hj
    cases o with
    | layer o =>
      cases x with
      | layer works =>
        cases hs
        exact ⟨fun e he => he, hother j _ hji⟩
      | _ => cases hs
    | ask r =>
      cases x with
      | answered answer =>
        cases hs
        exact ⟨fun e he => mem_tell j _ _ he, hother j _ hji⟩
      | _ => cases hs
  · cases hs
    exact ⟨fun e he => he, rfl⟩
  · cases x with
    | tick now =>
      have hs : (if c.shared.layers.clock ≤ now then some _ else none) = some s := hs
      split_ifs at hs
      cases hs
      exact ⟨fun e he => he, rfl⟩
    | evictNear r key =>
      cases hs
      exact ⟨fun e he => he, rfl⟩
    | evictFar key =>
      cases hs
      exact ⟨fun e he => he, rfl⟩
    | _ => cases hs

/-- In every run of clients that keep to the protocol and are done within `D`, what a client that
    has returned had when it ended was not too old. -/
theorem ended_of_meets (hprog : ∀ k, L.protocol.Obeys (Q k) ⟨k, .looking⟩ (prog k))
    {init c : Configuration ι (LookState ι ρ κ K V M) κ (LookOp K V R) (LookOp.Ans RAns) α}
    {acts : List (Act ι κ (LookChoice ρ K R RAns))}
    (hinit : (L.clients node prog).machine.init init)
    (hrun : (L.clients node prog).machine.run init acts = some c)
    (htimely : (L.clients node prog).machine.Meets (Timely D) init acts) {i : ι} {k : κ} {a : α}
    (hi : c.calls i = .returned k a) : ∃ g, Q k g a ∧ L.Ended D c.shared i g := by
  obtain ⟨hnew, hidle⟩ := hinit
  have hinv : L.Inv D init.shared fun _ => none := by
    rw [show init.shared = new from hnew]
    exact ⟨Layers.aged_empty, fun i g hg => by cases hg⟩
  refine ((clients_keep hprog).returns_of_meets (R := fun s i k a => ∃ g, Q k g a ∧ L.Ended D s i g)
    ?_ ?_ hinv hidle htimely hrun).2 i k a hi
  · intro s i k γ g a h hγ ha
    exact ⟨g, ha, h.ended hγ⟩
  · intro c a c' _ hstep i k b hi hb
    obtain ⟨g, hg, hended⟩ := hb
    obtain ⟨htold, hstepped⟩ := history_of_returned hstep hi
    exact ⟨g, hg, hended.mono htold hstepped⟩

end Runs

end LookAside

end SocialApi.Concurrent
