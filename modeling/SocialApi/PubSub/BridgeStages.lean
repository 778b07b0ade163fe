import SocialApi.PubSub

/-!
# How far a client or a bridge task is

The stages of the programs with regard to the map of channels; `Call.obeys` shows that the
programs go through them.
-/

namespace SocialApi.PubSub

open SocialApi.Concurrent

/-! ## How far a call is -/

/-- A client before it has a channel, holding a reference to a map entry, with a new channel,
    with a channel in the map; or a bridge task; or anything that is done with the map. -/
inductive Stage (ι : Type) where
  | looking
  | atEntry (name : String) (id : ChanId ι)
  | made (id : ChanId ι)
  | inserted (id : ChanId ι)
  | bridging (id : ChanId ι)
  | idle

namespace Stage

variable {ι : Type}

/-- The operations a stage allows. -/
def asks : Stage ι → Op ι → Prop
  | looking, .get _ => True
  | looking, .create => True
  | looking, .remove _ => True
  | looking, .dropReceiver _ => True
  | atEntry _ id, .receiverCount id' => id' = id
  | atEntry _ id, .subscribe id' => id' = id
  | atEntry name _, .dropRef name' => name' = name
  | atEntry name _, .dropEntry name' => name' = name
  | made id, .entry _ id' => id' = id
  | inserted id, .spawn _ id' => id' = id
  | idle, .dropNew _ => True
  | idle, .dropReceiver _ => True
  | bridging _, .receiverCount _ => True
  | bridging _, .isCancelled => True
  | bridging _, .connect _ => True
  | bridging _, .next => True
  | bridging _, .send _ _ => True
  | bridging _, .backoff _ => True
  | bridging _, .copyGet _ _ => True
  | bridging _, .copyRemove _ _ => True
  | bridging id, .finish id' => id' = id
  | bridging _, .park => True
  | _, _ => False

/-- The stage after the answer to an operation. -/
def next (g : Stage ι) : (o : Op ι) → o.Ans → Stage ι
  | .get name, some id => atEntry name id
  | .dropRef _, _ => looking
  | .create, id => made id
  | .entry name _, some existing => atEntry name existing
  | .entry _ id, none => inserted id
  | .dropEntry _, _ => idle
  | .spawn _ _, _ => idle
  | .finish _, _ => idle
  | _, _ => g

/-- Who looks stays where it is. -/
theorem next_looks {g : Stage ι} {o : Op ι} (ho : o.Looks) (r : o.Ans) : g.next o r = g := by
  cases o <;> first | rfl | exact ho.elim

end Stage

/-- The stages as a protocol. -/
def stages (ι : Type) : Protocol (Op ι) Op.Ans (Stage ι) where
  asks := Stage.asks
  answers g o r g' := g' = g.next o r

section Obeys

variable {ι : Type} {α : Type}

/-- The bridge of `id` stays at its stage until the task ends. -/
def AtBridge (id : ChanId ι) (g : Stage ι) (_ : α) : Prop := g = .bridging id

theorem forwardLoop_obeys (id : ChanId ι) (fuel : ℕ) :
    (stages ι).Obeys (AtBridge id) (.bridging id) (forwardLoop id fuel) := by
  induction fuel with
  | zero => exact ⟨trivial, fun never => nomatch never⟩
  | succ fuel ih =>
    refine ⟨trivial, ?_⟩
    rintro count g rfl
    show (stages ι).Obeys (AtBridge id) (.bridging id) (if count = 0 then _ else _)
    split_ifs
    · exact rfl
    · refine ⟨trivial, ?_⟩
      rintro (_ | payload | _ | _) g rfl
      · exact rfl
      · refine ⟨trivial, ?_⟩
        rintro (_ | _) g rfl
        · exact rfl
        · exact ih
      · exact rfl
      · exact ih

theorem runSingleConnection_obeys (fuel : ℕ) (name : String) (id : ChanId ι) :
    (stages ι).Obeys (AtBridge id) (.bridging id) (runSingleConnection fuel name id) := by
  refine ⟨trivial, ?_⟩
  rintro (_ | _) g rfl
  · exact rfl
  · exact forwardLoop_obeys id fuel

theorem runBridgeWithReconnect_obeys (fuel : ℕ) (name : String) (id : ChanId ι) (left : ℕ) :
    (stages ι).Obeys (AtBridge id) (.bridging id) (runBridgeWithReconnect fuel name id left) := by
  induction left with
  | zero =>
    unfold runBridgeWithReconnect
    refine ⟨trivial, ?_⟩
    rintro (_ | _) g rfl
    · refine ⟨trivial, ?_⟩
      rintro count g rfl
      show (stages ι).Obeys (AtBridge id) (.bridging id) (if count = 0 then _ else _)
      split_ifs
      · exact rfl
      · refine (runSingleConnection_obeys fuel name id).bind ?_
        rintro g (_ | _ | _) rfl <;> exact rfl
    · exact rfl
  | succ left ih =>
    unfold runBridgeWithReconnect
    refine ⟨trivial, ?_⟩
    rintro (_ | _) g rfl
    · refine ⟨trivial, ?_⟩
      rintro count g rfl
      show (stages ι).Obeys (AtBridge id) (.bridging id) (if count = 0 then _ else _)
      split_ifs
      · exact rfl
      · refine (runSingleConnection_obeys fuel name id).bind ?_
        rintro g (_ | _ | _) rfl
        · exact rfl
        · exact rfl
        · refine ⟨trivial, ?_⟩
          rintro (_ | _) g rfl
          · refine ⟨trivial, ?_⟩
            rintro count g rfl
            show (stages ι).Obeys (AtBridge id) (.bridging id) (if count = 0 then _ else _)
            split_ifs
            · exact rfl
            · exact ih
          · exact rfl
    · exact rfl

/-- The call is done with the map. -/
def Quiet (g : Stage ι) (_ : α) : Prop := g = .idle ∨ g = .looking

theorem bridge_obeys [DecidableEq ι] (fuel : ℕ) (name : String) (id : ChanId ι) :
    (stages ι).Obeys Quiet (.bridging id) (bridge fuel name id) := by
  have hfinish : (stages ι).Obeys Quiet (.bridging id) (perform (.finish id)) := by
    refine ⟨rfl, ?_⟩
    rintro r g rfl
    exact Or.inl rfl
  refine (runBridgeWithReconnect_obeys fuel name id _).bind ?_
  rintro g u rfl
  refine ⟨trivial, ?_⟩
  rintro (_ | entry) g rfl
  · exact hfinish
  · show (stages ι).Obeys Quiet (.bridging id) (if entry = id then _ else _)
    split_ifs
    · refine ⟨trivial, ?_⟩
      rintro r g rfl
      exact hfinish
    · exact hfinish

theorem subscribeSlow_obeys (name : String) :
    (stages ι).Obeys Quiet .looking (subscribeSlow name) := by
  refine ⟨trivial, ?_⟩
  rintro id g rfl
  refine ⟨rfl, ?_⟩
  rintro (_ | existing) g rfl
  · refine ⟨rfl, ?_⟩
    rintro r g rfl
    exact Or.inl rfl
  · refine ⟨rfl, ?_⟩
    rintro r g rfl
    refine ⟨rfl, ?_⟩
    rintro r g rfl
    refine ⟨trivial, ?_⟩
    rintro r g rfl
    exact Or.inl rfl

theorem subscribe_obeys (name : String) :
    (stages ι).Obeys Quiet .looking (subscribe name) := by
  refine ⟨trivial, ?_⟩
  rintro (_ | id) g rfl
  · exact subscribeSlow_obeys name
  · refine ⟨rfl, ?_⟩
    rintro count g rfl
    show (stages ι).Obeys Quiet (.atEntry name id) (if count > 0 then _ else _)
    split_ifs
    · refine ⟨rfl, ?_⟩
      rintro r g rfl
      refine ⟨rfl, ?_⟩
      rintro r g rfl
      exact Or.inr rfl
    · refine ⟨rfl, ?_⟩
      rintro r g rfl
      refine ⟨trivial, ?_⟩
      rintro r g rfl
      exact subscribeSlow_obeys name

theorem client_obeys (name : String) : (stages ι).Obeys Quiet .looking (client name) := by
  refine (subscribe_obeys name).bind ?_
  rintro g id (rfl | rfl)
  · refine ⟨trivial, ?_⟩
    rintro r g rfl
    exact Or.inl rfl
  · refine ⟨trivial, ?_⟩
    rintro r g rfl
    exact Or.inr rfl

/-- The stage a call starts in. -/
def Call.stage : Call ι → Stage ι
  | client _ => .looking
  | bridge _ id _ => .bridging id

variable [DecidableEq ι]

theorem Call.obeys (k : Call ι) : (stages ι).Obeys Quiet k.stage k.prog := by
  cases k with
  | client name => exact client_obeys name
  | bridge name id fuel => exact bridge_obeys fuel name id

end Obeys

end SocialApi.PubSub
