import SocialApi.PubSub.Seats

/-!
# What an operation does

What an operation of a client or of a bridge task does, once for each place in the programs
(`Move`, `handle_move`): the state before and after, and the places.
-/

namespace SocialApi.PubSub

open SocialApi.Concurrent

/-! ## Moves -/

section Moves

variable {ι : Type} [DecidableEq ι]

/-- What an operation of call `i` does at a place. -/
inductive Move (i : ι) : Op ι → Choice → Manager ι → Seat ι → Manager ι → Seat ι → Prop where
  | miss {s : Manager ι} {name : String} : s.channels name = none →
      Move i (.get name) .any s (.looking name) s (.looking name)
  | hit {s : Manager ι} {name : String} {id : ChanId ι} : s.channels name = some id →
      Move i (.get name) .any s (.looking name) { s with guards := (i, name) :: s.guards }
        (.atEntry name id)
  | count {s : Manager ι} {name : String} {id : ChanId ι} :
      Move i (.receiverCount id) .any s (.atEntry name id) s (.atEntry name id)
  | subscribe {s : Manager ι} {name : String} {id : ChanId ι} :
      Move i (.subscribe id) .any s (.atEntry name id)
        { s with receivers := Function.update s.receivers id (s.receivers id + 1) }
        (.attached name id)
  | release {s : Manager ι} {name : String} {id : ChanId ι} :
      Move i (.dropRef name) .any s (.atEntry name id)
        { s with guards := s.guards.erase (i, name) } (.looking name)
  | keep {s : Manager ι} {name : String} {id : ChanId ι} :
      Move i (.dropRef name) .any s (.attached name id)
        { s with guards := s.guards.erase (i, name) } (.holding name id)
  | remove {s : Manager ι} {name : String} : (∀ g ∈ s.guards, g.2 ≠ name) →
      Move i (.remove name) .any s (.looking name)
        { s with channels := Function.update s.channels name none,
                 evicted := (s.channels name).toList ++ s.evicted } (.looking name)
  | create {s : Manager ι} {name : String} :
      Move i .create .any s (.looking name)
        { s with serial := s.serial + 1,
                 receivers := Function.update s.receivers (i, s.serial) 1,
                 held := Function.update s.held (i, s.serial) true } (.made name (i, s.serial))
  | occupy {s : Manager ι} {name : String} {new id : ChanId ι} : s.channels name = some id →
      Move i (.entry name new) .any s (.made name new)
        { s with guards := (i, name) :: s.guards, locked := name :: s.locked }
        (.occupied name new id)
  | join {s : Manager ι} {name : String} {new id : ChanId ι} :
      Move i (.subscribe id) .any s (.occupied name new id)
        { s with receivers := Function.update s.receivers id (s.receivers id + 1) }
        (.entered name new id)
  | leave {s : Manager ι} {name : String} {new id : ChanId ι} :
      Move i (.dropEntry name) .any s (.entered name new id)
        { s with guards := s.guards.erase (i, name), locked := s.locked.erase name }
        (.joined name new id)
  | insert {s : Manager ι} {name : String} {id : ChanId ι} : s.channels name = none →
      Move i (.entry name id) .any s (.made name id)
        { s with channels := Function.update s.channels name (some id) } (.inserted name id)
  | dropNew {s : Manager ι} {name : String} {new id : ChanId ι} :
      Move i (.dropNew new) .any s (.joined name new id)
        { s with receivers := Function.update s.receivers new (s.receivers new - 1),
                 held := Function.update s.held new false } (.holding name id)
  | spawn {s : Manager ι} {name : String} {id : ChanId ι} :
      Move i (.spawn name id) .any s (.inserted name id)
        { s with tasks := Function.update s.tasks id (some ⟨s.channels, false⟩),
                 held := Function.update s.held id false,
                 spawned := s.spawned ++ [(name, id)] } (.holding name id)
  | dropReceiver {s : Manager ι} {name : String} {id : ChanId ι} :
      Move i (.dropReceiver id) .any s (.holding name id)
        { s with receivers := Function.update s.receivers id (s.receivers id - 1) } (.done name)
  | stay {s : Manager ι} {o : Op ι} {x : Choice} {name : String} {id : ChanId ι} :
      Move i o x s (.bridging name id) s (.bridging name id)
  | empty {s : Manager ι} {o : Op ι} {x : Choice} {name : String} {id : ChanId ι} :
      s.receivers id = 0 → Move i o x s (.bridging name id) s (.leaving name id)
  | cancel {s : Manager ι} {o : Op ι} {x : Choice} {name : String} {id : ChanId ι} :
      s.shutdown = true → Move i o x s (.bridging name id) s (.leaving name id)
  | fail {s : Manager ι} {o : Op ι} {x : Choice} {name : String} {id : ChanId ι} :
      x = .connected false ∨ x = .item .ended →
      Move i o x s (.bridging name id) s (.failing name id)
  | giveUp {s : Manager ι} {o : Op ι} {x : Choice} {name : String} {id : ChanId ι} :
      Move i o x s (.failing name id) s (.leaving name id)
  | retry {s : Manager ι} {o : Op ι} {x : Choice} {name : String} {id : ChanId ι} :
      Move i o x s (.failing name id) s (.bridging name id)
  | copyGet {s : Manager ι} {name name' : String} {id : ChanId ι} :
      Move i (.copyGet id name') .any s (.leaving name id) s (.leaving name id)
  | copyRemove {s : Manager ι} {name name' : String} {id : ChanId ι} :
      Move i (.copyRemove id name') .any s (.leaving name id)
        { s with tasks := Function.update s.tasks id ((s.tasks id).map fun t =>
          { t with channelsRef := Function.update t.channelsRef name' none }) } (.leaving name id)
  | finish {s : Manager ι} {name : String} {id : ChanId ι} :
      Move i (.finish id) .any s (.leaving name id)
        { s with tasks := Function.update s.tasks id ((s.tasks id).map fun t =>
          { t with ended := true }) } (.ended name id)

/-- Every operation of a client is a move. -/
theorem handle_move_client {s s' : Manager ι} {i : ι} {o : Op ι} {x : Choice} {r : o.Ans}
    {g : Seat ι} {name : String} (hg : g.OfClient name) (ho : g.asks o)
    (h : handle s i o x = some (s', r)) : Move i o x s g s' (g.next o r) := by
  have hx : x = .any := by
    refine choice_any h (fun name' => ?_) ?_ (fun millis => ?_)
    · rintro rfl
      cases g <;> first | exact ho.elim | exact hg.elim
    · rintro rfl
      cases g <;> first | exact ho.elim | exact hg.elim
    · rintro rfl
      cases g <;> first | exact ho.elim | exact hg.elim
  subst hx
  cases g with
  | looking name =>
    cases o with
    | get name' =>
      obtain rfl : name' = name := ho
      simp only [handle] at h
      split_ifs at h
      split at h
      · rename_i hnone
        cases h
        exact .miss hnone
      · rename_i id hid
        cases h
        exact .hit hid
    | create =>
      cases h
      exact .create
    | remove name' =>
      obtain rfl : name' = name := ho
      simp only [handle] at h
      split_ifs at h with hguards
      cases h
      exact .remove fun g hg => by simpa using List.all_eq_true.mp hguards g hg
    | _ => exact ho.elim
  | atEntry name id =>
    cases o with
    | receiverCount id' =>
      obtain rfl : id' = id := ho
      cases h
      exact .count
    | subscribe id' =>
      obtain rfl : id' = id := ho
      cases h
      exact .subscribe
    | dropRef name' =>
      obtain rfl : name' = name := ho
      cases h
      exact .release
    | _ => exact ho.elim
  | attached name id =>
    cases o with
    | dropRef name' =>
      obtain rfl : name' = name := ho
      cases h
      exact .keep
    | _ => exact ho.elim
  | made name id =>
    cases o with
    | entry name' id' =>
      obtain ⟨rfl, rfl⟩ : name' = name ∧ id' = id := ho
      simp only [handle] at h
      split_ifs at h
      split at h
      · rename_i existing hexisting
        cases h
        exact .occupy hexisting
      · rename_i hnone
        cases h
        exact .insert hnone
    | _ => exact ho.elim
  | inserted name id =>
    cases o with
    | spawn name' id' =>
      obtain ⟨rfl, rfl⟩ : name' = name ∧ id' = id := ho
      cases h
      exact .spawn
    | _ => exact ho.elim
  | occupied name new id =>
    cases o with
    | subscribe id' =>
      obtain rfl : id' = id := ho
      cases h
      exact .join
    | _ => exact ho.elim
  | entered name new id =>
    cases o with
    | dropEntry name' =>
      obtain rfl : name' = name := ho
      cases h
      exact .leave
    | _ => exact ho.elim
  | joined name new id =>
    cases o with
    | dropNew new' =>
      obtain rfl : new' = new := ho
      cases h
      exact .dropNew
    | _ => exact ho.elim
  | holding name id =>
    cases o with
    | dropReceiver id' =>
      obtain rfl : id' = id := ho
      cases h
      exact .dropReceiver
    | _ => exact ho.elim
  | done name => cases o <;> exact ho.elim
  | _ => exact hg.elim

/-- Every operation of a bridge task is a move. -/
theorem handle_move_bridge {s s' : Manager ι} {i : ι} {o : Op ι} {x : Choice} {r : o.Ans}
    {g : Seat ι} {name : String} {id : ChanId ι} (hg : g.OfBridge name id) (ho : g.asks o)
    (h : handle s i o x = some (s', r)) : Move i o x s g s' (g.next o r) := by
  cases g with
  | bridging name id =>
    cases o with
    | receiverCount id' =>
      obtain rfl : id' = id := ho
      obtain rfl : x = .any := choice_any h (by simp) (by simp) (by simp)
      cases h
      cases hcount : s.receivers id' with
      | zero => exact .empty hcount
      | succ n => exact .stay
    | isCancelled =>
      obtain rfl : x = .any := choice_any h (by simp) (by simp) (by simp)
      cases h
      cases hshutdown : s.shutdown with
      | true => exact .cancel hshutdown
      | false => exact .stay
    | connect name' =>
      cases x with
      | connected ok =>
        cases h
        cases r with
        | true => exact .stay
        | false => exact .fail (Or.inl rfl)
      | _ => cases h
    | next =>
      cases x with
      | item item =>
        simp only [handle] at h
        split_ifs at h with hcancelled
        cases h
        cases r with
        | cancelled =>
          refine .cancel ?_
          simpa using hcancelled
        | message payload => exact .stay
        | ended => exact .fail (Or.inr rfl)
        | idle => exact .stay
      | _ => cases h
    | send id' payload =>
      obtain rfl : id' = id := ho
      obtain rfl : x = .any := choice_any h (by simp) (by simp) (by simp)
      cases h
      by_cases hcount : 0 < s.receivers id'
      · rw [decide_eq_true hcount]
        exact .stay
      · rw [decide_eq_false hcount]
        exact .empty (by omega)
    | park => cases x <;> cases h
    | _ => exact ho.elim
  | failing name id =>
    cases o with
    | backoff millis =>
      cases x with
      | cancelled b =>
        simp only [handle] at h
        split_ifs at h
        cases h
        cases r with
        | true => exact .giveUp
        | false => exact .retry
      | _ => cases h
    | copyGet id' name' =>
      obtain rfl : x = .any := choice_any h (by simp) (by simp) (by simp)
      cases h
      exact .giveUp
    | _ => exact ho.elim
  | leaving name id =>
    cases o with
    | copyGet id' name' =>
      obtain rfl : id' = id := ho
      obtain rfl : x = .any := choice_any h (by simp) (by simp) (by simp)
      cases h
      exact .copyGet
    | copyRemove id' name' =>
      obtain rfl : id' = id := ho
      obtain rfl : x = .any := choice_any h (by simp) (by simp) (by simp)
      cases h
      exact .copyRemove
    | finish id' =>
      obtain rfl : id' = id := ho
      obtain rfl : x = .any := choice_any h (by simp) (by simp) (by simp)
      cases h
      exact .finish
    | _ => exact ho.elim
  | ended name id => cases o <;> exact ho.elim
  | _ => exact hg.elim

theorem handle_move {s s' : Manager ι} {i : ι} {o : Op ι} {x : Choice} {r : o.Ans} {g : Seat ι}
    {k : Call ι} (hk : Seat.Of k g) (ho : g.asks o) (h : handle s i o x = some (s', r)) :
    Move i o x s g s' (g.next o r) := by
  cases k with
  | client name => exact handle_move_client hk ho h
  | bridge name id fuel => exact handle_move_bridge hk ho h

end Moves

end SocialApi.PubSub
