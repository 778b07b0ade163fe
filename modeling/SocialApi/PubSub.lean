import SocialApi.Types
import SocialApi.Concurrent.Pool

/-!
# The Pub/Sub manager

`PubSubManager` of `services/pubsub_manager.rs`: a map from channel names to the
senders of `tokio::sync::broadcast` channels, and one bridge task for each sender,
which forwards the messages of Redis to it. Clients subscribe, keep their receiver
for as long as they like, and drop it; clients and bridge tasks run interleaved,
one access to the map or to a channel at a time.

A broadcast channel is named by the call that created it and a serial number. A
sender of it is alive while the map, its creator, its bridge task, or a copy of the
map that an unfinished bridge task holds has one (`SenderAlive`): `DashMap::clone`
copies the entries, senders included, into an independent map.

`DashMap::get` holds a read guard on the entry until it is dropped, and `remove`
and `entry` wait for it; an occupied entry keeps `get` out as well. `fuel` bounds how often a bridge goes round its message loop before it
stays there for good (`park`); a run may choose any.
-/

namespace SocialApi.PubSub

open SocialApi.Concurrent

/-- A broadcast channel: its creator and a serial number. -/
abbrev ChanId (ι : Type) := ι × ℕ

/-- A bridge task: its copy of the map (`channels_ref`) and whether it has ended. -/
structure Task (ι : Type) where
  channelsRef : String → Option (ChanId ι)
  ended : Bool

/-- The manager, its channels and its tasks. -/
structure Manager (ι : Type) where
  channels : String → Option (ChanId ι)
  receivers : ChanId ι → ℕ
  /-- The creator of the channel still holds its sender. -/
  held : ChanId ι → Bool
  tasks : ChanId ι → Option (Task ι)
  /-- Tasks that have been spawned and not yet been polled. -/
  spawned : List (String × ChanId ι)
  /-- Guards on entries of the map. -/
  guards : List (ι × String)
  /-- The names whose guard is that of an occupied entry. -/
  locked : List String
  serial : ℕ
  shutdown : Bool
  /-- The senders that the stale-entry `remove` of a `subscribe` has taken out of the map. -/
  evicted : List (ChanId ι)

namespace Manager

variable {ι : Type}

/-- `PubSubManager::new`. -/
def new : Manager ι where
  channels _ := none
  receivers _ := 0
  held _ := false
  tasks _ := none
  spawned := []
  guards := []
  locked := []
  serial := 0
  shutdown := false
  evicted := []

/-- Some sender of the channel has not been dropped. -/
def SenderAlive (s : Manager ι) (id : ChanId ι) : Prop :=
  (∃ name, s.channels name = some id) ∨ s.held id = true ∨
    (∃ t, s.tasks id = some t ∧ t.ended = false) ∨
    ∃ b t name, s.tasks b = some t ∧ t.ended = false ∧ t.channelsRef name = some id

end Manager

/-! ## Operations -/

/-- What a bridge finds at its message stream or in its backoff. -/
inductive StreamItem where
  | cancelled
  | message (payload : String)
  | ended
  | idle
  deriving DecidableEq, Repr

/-- The accesses of clients and bridge tasks. -/
inductive Op (ι : Type) where
  /-- `channels.get(channel)`; a hit holds a read guard. -/
  | get (name : String)
  /-- `tx.receiver_count()`. -/
  | receiverCount (id : ChanId ι)
  /-- `tx.subscribe()`. -/
  | subscribe (id : ChanId ι)
  /-- `drop(entry)`. -/
  | dropRef (name : String)
  /-- `channels.remove(channel)`. -/
  | remove (name : String)
  /-- `broadcast::channel(…)`. -/
  | create
  /-- `channels.entry(channel)`: the sender that is there, its entry locked, or insert a clone
      of the new one. -/
  | entry (name : String) (id : ChanId ι)
  /-- The occupied entry goes out of scope. -/
  | dropEntry (name : String)
  /-- The new sender and receiver go out of scope unused. -/
  | dropNew (id : ChanId ι)
  /-- `channels.clone()` and `tokio::spawn` of the bridge task, which takes the sender. -/
  | spawn (name : String) (id : ChanId ι)
  /-- The client drops its receiver. -/
  | dropReceiver (id : ChanId ι)
  /-- `shutdown.is_cancelled()`. -/
  | isCancelled
  /-- Connect to Redis and subscribe: true if it works. -/
  | connect (name : String)
  /-- The `select!` over shutdown and the next message, with the idle time-out. -/
  | next
  /-- `tx.send(payload)`: true unless there is no receiver. -/
  | send (id : ChanId ι) (payload : String)
  /-- The `select!` over shutdown and the backoff. -/
  | backoff (millis : ℕ)
  /-- `channels_ref.get(…)`. -/
  | copyGet (id : ChanId ι) (name : String)
  /-- `channels_ref.remove(…)`. -/
  | copyRemove (id : ChanId ι) (name : String)
  /-- The task ends: its sender and its copy of the map are dropped. -/
  | finish (id : ChanId ι)
  /-- Never comes back. -/
  | park

@[reducible] def Op.Ans {ι : Type} : Op ι → Type
  | get _ => Option (ChanId ι)
  | receiverCount _ => ℕ
  | subscribe _ => Unit
  | dropRef _ => Unit
  | remove _ => Unit
  | create => ChanId ι
  | entry _ _ => Option (ChanId ι)
  | dropEntry _ => Unit
  | dropNew _ => Unit
  | spawn _ _ => Unit
  | dropReceiver _ => Unit
  | isCancelled => Bool
  | connect _ => Bool
  | next => StreamItem
  | send _ _ => Bool
  | backoff _ => Bool
  | copyGet _ _ => Option (ChanId ι)
  | copyRemove _ _ => Unit
  | finish _ => Unit
  | park => Empty

/-- What Redis and the clock leave open. -/
inductive Choice where
  | any
  | connected (ok : Bool)
  | item (i : StreamItem)
  | cancelled (b : Bool)
  | shutdown
  deriving DecidableEq, Repr

variable {ι : Type} [DecidableEq ι]

/-- What one operation of call `i` does; `none` while it has to wait. -/
def handle (s : Manager ι) (i : ι) : (o : Op ι) → Choice → Option (Manager ι × o.Ans)
  | .get name, .any =>
    if name ∈ s.locked then none
    else
      match s.channels name with
      | none => some (s, none)
      | some id => some ({ s with guards := (i, name) :: s.guards }, some id)
  | .receiverCount id, .any => some (s, s.receivers id)
  | .subscribe id, .any =>
    some ({ s with receivers := Function.update s.receivers id (s.receivers id + 1) }, ())
  | .dropRef name, .any => some ({ s with guards := s.guards.erase (i, name) }, ())
  | .remove name, .any =>
    if s.guards.all fun g => g.2 ≠ name then
      some ({ s with channels := Function.update s.channels name none,
                     evicted := (s.channels name).toList ++ s.evicted }, ())
    else none
  | .create, .any =>
    let id : ChanId ι := (i, s.serial)
    some ({ s with serial := s.serial + 1,
                   receivers := Function.update s.receivers id 1,
                   held := Function.update s.held id true }, id)
  | .entry name id, .any =>
    if s.guards.all fun g => g.2 ≠ name then
      match s.channels name with
      | some existing =>
        some ({ s with guards := (i, name) :: s.guards, locked := name :: s.locked },
          some existing)
      | none => some ({ s with channels := Function.update s.channels name (some id) }, none)
    else none
  | .dropEntry name, .any =>
    some ({ s with guards := s.guards.erase (i, name), locked := s.locked.erase name }, ())
  | .dropNew id, .any =>
    some ({ s with receivers := Function.update s.receivers id (s.receivers id - 1),
                   held := Function.update s.held id false }, ())
  | .spawn name id, .any =>
    some ({ s with tasks := Function.update s.tasks id (some ⟨s.channels, false⟩),
                   held := Function.update s.held id false,
                   spawned := s.spawned ++ [(name, id)] }, ())
  | .dropReceiver id, .any =>
    some ({ s with receivers := Function.update s.receivers id (s.receivers id - 1) }, ())
  | .isCancelled, .any => some (s, s.shutdown)
  | .connect _, .connected ok => some (s, ok)
  | .next, .item i => if i = .cancelled ∧ s.shutdown = false then none else some (s, i)
  | .send id _, .any => some (s, decide (0 < s.receivers id))
  | .backoff _, .cancelled b => if b = true ∧ s.shutdown = false then none else some (s, b)
  | .copyGet id name, .any => some (s, (s.tasks id).bind fun t => t.channelsRef name)
  | .copyRemove id name, .any =>
    some ({ s with tasks := Function.update s.tasks id ((s.tasks id).map fun t =>
      { t with channelsRef := Function.update t.channelsRef name none }) }, ())
  | .finish id, .any =>
    some ({ s with tasks := Function.update s.tasks id ((s.tasks id).map fun t =>
      { t with ended := true }) }, ())
  | _, _ => none

section Handle

variable {s s' : Manager ι} {i : ι} {o : Op ι} {x : Choice} {r : o.Ans}

/-- Most operations have one outcome. -/
theorem choice_any (h : handle s i o x = some (s', r)) (hconnect : ∀ name, o ≠ .connect name)
    (hnext : o ≠ .next) (hbackoff : ∀ millis, o ≠ .backoff millis) : x = .any := by
  cases o with
  | connect name => exact absurd rfl (hconnect name)
  | next => exact absurd rfl hnext
  | backoff millis => exact absurd rfl (hbackoff millis)
  | _ =>
    cases x with
    | any => rfl
    | _ => cases h

/-- The operations that look at the manager, at Redis or at the clock, and change nothing. -/
def Op.Looks : Op ι → Prop
  | .receiverCount _ => True
  | .isCancelled => True
  | .connect _ => True
  | .next => True
  | .send _ _ => True
  | .backoff _ => True
  | .copyGet _ _ => True
  | _ => False

theorem handle_looks (h : handle s i o x = some (s', r)) (ho : o.Looks) : s' = s := by
  cases o with
  | next =>
    cases x with
    | item m =>
      simp only [handle] at h
      split_ifs at h
      cases h
      rfl
    | _ => cases h
  | backoff millis =>
    cases x with
    | cancelled b =>
      simp only [handle] at h
      split_ifs at h
      cases h
      rfl
    | _ => cases h
  | receiverCount id => cases x <;> cases h; rfl
  | isCancelled => cases x <;> cases h; rfl
  | connect name => cases x <;> cases h; rfl
  | send id payload => cases x <;> cases h; rfl
  | copyGet id name => cases x <;> cases h; rfl
  | _ => exact ho.elim

end Handle

/-! ## Programs -/

/-- A method over these operations. -/
abbrev PubSubM (ι α : Type) := Prog (Op ι) Op.Ans α

def perform (o : Op ι) : PubSubM ι o.Ans := Prog.perform o

/-- The slow path of `subscribe` (pubsub_manager.rs:82–115). -/
def subscribeSlow (name : String) : PubSubM ι (ChanId ι) := do
  let id ← perform .create
  match ← perform (.entry name id) with
  | some existing =>
    perform (.subscribe existing)
    perform (.dropEntry name)
    perform (.dropNew id)
    return existing
  | none =>
    perform (.spawn name id)
    return id

/-- `subscribe` (pubsub_manager.rs:65–116): the channel the receiver belongs to. -/
def subscribe (name : String) : PubSubM ι (ChanId ι) := do
  match ← perform (.get name) with
  | some id =>
    let count ← perform (.receiverCount id)
    if count > 0 then
      perform (.subscribe id)
      perform (.dropRef name)
      return id
    else
      perform (.dropRef name)
      perform (.remove name)
      subscribeSlow name
  | none => subscribeSlow name

/-- A client: subscribe, and at some later time drop the receiver. -/
def client (name : String) : PubSubM ι Unit := do
  let id ← subscribe name
  perform (.dropReceiver id)

/-- `BridgeExit` (pubsub_manager.rs:201–208). -/
inductive BridgeExit where
  | shutdown
  | noReceivers
  | redisError
  deriving DecidableEq, Repr

/-- The message loop of `run_single_connection` (pubsub_manager.rs:240–268). -/
def forwardLoop (id : ChanId ι) : ℕ → PubSubM ι BridgeExit
  | 0 => do
    let never ← perform .park
    nomatch never
  | fuel + 1 => do
    let count ← perform (.receiverCount id)
    if count = 0 then return .noReceivers
    else
      match ← perform .next with
      | .cancelled => return .shutdown
      | .message payload =>
        if ← perform (.send id payload) then forwardLoop id fuel else return .noReceivers
      | .ended => return .redisError
      | .idle => forwardLoop id fuel

/-- `run_single_connection` (pubsub_manager.rs:212–275). -/
def runSingleConnection (fuel : ℕ) (name : String) (id : ChanId ι) : PubSubM ι BridgeExit := do
  if ← perform (.connect name) then forwardLoop id fuel else return .redisError

/-- `MAX_RECONNECT_ATTEMPTS`. -/
def maxReconnectAttempts : ℕ := 10

/-- The backoff before reconnect number `attempt`, in milliseconds (pubsub_manager.rs:176–179). -/
def backoffMillis (attempt : ℕ) : ℕ := min (500 * 2 ^ (attempt - 1)) 30000

/-- `run_bridge_with_reconnect` (pubsub_manager.rs:129–198), with `left` reconnects left:
    `attempt` is never set back, so the loop is entered at most eleven times. -/
def runBridgeWithReconnect (fuel : ℕ) (name : String) (id : ChanId ι) (left : ℕ) :
    PubSubM ι Unit := do
  if ← perform .isCancelled then return ()
  else
    let count ← perform (.receiverCount id)
    if count = 0 then return ()
    else
      match ← runSingleConnection fuel name id with
      | .shutdown => return ()
      | .noReceivers => return ()
      | .redisError =>
        match left with
        | 0 => return ()
        | left + 1 =>
          if ← perform (.backoff (backoffMillis (maxReconnectAttempts - left))) then return ()
          else
            let count ← perform (.receiverCount id)
            if count = 0 then return () else runBridgeWithReconnect fuel name id left

/-- The bridge task (pubsub_manager.rs:100–112): the clean-up after the bridge acts on
    `channels_ref`, the task's own copy of the map. -/
def bridge (fuel : ℕ) (name : String) (id : ChanId ι) : PubSubM ι Unit := do
  runBridgeWithReconnect fuel name id maxReconnectAttempts
  match ← perform (.copyGet id name) with
  | some entry =>
    if entry = id then
      perform (.copyRemove id name)
      perform (.finish id)
    else perform (.finish id)
  | none => perform (.finish id)

/-! ## The pool of clients and bridges -/

/-- A client's session or a bridge task. -/
inductive Call (ι : Type) where
  | client (name : String)
  | bridge (name : String) (id : ChanId ι) (fuel : ℕ)

/-- The program of a call. -/
def Call.prog : Call ι → PubSubM ι Unit
  | client name => PubSub.client name
  | bridge name id fuel => PubSub.bridge fuel name id

/-- Clients may come at any time; a bridge task runs once it has been spawned. -/
def start (s : Manager ι) (_ : ι) : Call ι → Option (Manager ι)
  | .client _ => some s
  | .bridge name id _ =>
    if (name, id) ∈ s.spawned then some { s with spawned := s.spawned.erase (name, id) } else none

/-- The environment may ask for a shutdown. -/
def env (s : Manager ι) : Choice → Option (Manager ι)
  | .shutdown => some { s with shutdown := true }
  | _ => none

/-- Clients and bridges over a new manager. -/
def pubSub : Pool ι (Manager ι) (Call ι) (Op ι) Op.Ans Unit Choice where
  init s := s = .new
  prog := Call.prog
  start := start
  handle := handle
  drop _ _ := none
  env := env

/-- A configuration of clients and bridges. -/
abbrev PubSubConfig (ι : Type) := Configuration ι (Manager ι) (Call ι) (Op ι) Op.Ans Unit

end SocialApi.PubSub
