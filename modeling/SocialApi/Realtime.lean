import SocialApi.Codec
import SocialApi.PubSub
import SocialApi.Streams
import SocialApi.Concurrent.Broadcast

/-!
# The like streams

`create_like_event_stream` of `realtime.rs` and its two consumers, `create_sse_stream` of
`handlers/stream.rs` and `stream_likes` of `grpc/likes_service.rs`, over the Pub/Sub manager: Redis
hands the messages published on a channel to the connections that are subscribed at the time, a
bridge task sends what it is handed to its broadcast channel, and each stream reads the broadcast
channel on its own. Publishers, bridges and streams run interleaved, one access at a time.

`serde_json`'s reader and writer of `LikeEvent` are parameters. `PubSubManager::subscribe` has no
path that fails, so the streams' handling of an error is not here. `broadcast::channel` rounds its
capacity up to a power of two. A stream that is waiting, or has a frame to hand over, may find
that its client has gone.
-/

namespace SocialApi.Realtime

open SocialApi.Concurrent SocialApi.PubSub

/-! ## Events and frames -/

/-- `LikeEvent` (types.rs:84–104): a change that was published, or one of the two other variants. -/
inductive StreamEvent where
  | change (event : LikeEvent)
  | heartbeat (timestamp : DateTime)
  | shutdown (timestamp : DateTime)
  deriving DecidableEq, Repr

/-- `serde_json::to_string` and `serde_json::from_str` at `LikeEvent`. -/
structure EventCodec where
  toJson : StreamEvent → Option String
  fromJson : String → Option StreamEvent

/-- What is written is read back. -/
def EventCodec.RoundTrips (C : EventCodec) : Prop :=
  ∀ event json, C.toJson event = some json → C.fromJson json = some event

/-- `LikeStreamItem` (realtime.rs:15–19). -/
inductive LikeStreamItem where
  | event (event : StreamEvent)
  | lagged (skipped : ℕ)
  | closed
  deriving DecidableEq, Repr

/-- `prost_types::Timestamp`. -/
structure Timestamp where
  seconds : ℤ
  nanos : ℤ
  deriving DecidableEq, Repr

/-- `to_proto_timestamp` (convert.rs:19–24). -/
def toProtoTimestamp (dt : DateTime) : Timestamp where
  seconds := dt.micros / 1000000
  nanos := dt.micros % 1000000 * 1000

/-- `social_v1::LikeOccurred` and `social_v1::UnlikeOccurred`. -/
structure Occurred where
  contentType : String
  contentId : String
  count : I64
  userId : String
  timestamp : Option Timestamp
  deriving DecidableEq, Repr

/-- `social_v1::like_event::Event`. -/
inductive ProtoEvent where
  | liked (occurred : Occurred)
  | unliked (occurred : Occurred)
  | heartbeat (timestamp : Option Timestamp)
  | shutdown (timestamp : Option Timestamp)
  deriving DecidableEq, Repr

/-- `impl From<types::LikeEvent> for social_v1::LikeEvent` (convert.rs:157–197); the result is the
    `event` field of the message. -/
def toProto : StreamEvent → Option ProtoEvent
  | .change (.liked userId count timestamp) =>
    some (.liked ⟨"", "", count, userId.toString, some (toProtoTimestamp timestamp)⟩)
  | .change (.unliked userId count timestamp) =>
    some (.unliked ⟨"", "", count, userId.toString, some (toProtoTimestamp timestamp)⟩)
  | .heartbeat timestamp => some (.heartbeat (some (toProtoTimestamp timestamp)))
  | .shutdown timestamp => some (.shutdown (some (toProtoTimestamp timestamp)))

/-- `to_proto_stream_event` (convert.rs:199–221). -/
def toProtoStreamEvent (event : StreamEvent) (contentType contentId : String) : Option ProtoEvent :=
  (toProto event).map fun
    | .liked occurred => .liked { occurred with contentType := contentType, contentId := contentId }
    | .unliked occurred =>
      .unliked { occurred with contentType := contentType, contentId := contentId }
    | .heartbeat timestamp => .heartbeat timestamp
    | .shutdown timestamp => .shutdown timestamp

/-- What a client is sent: the data of an SSE event, or a message of the gRPC stream. -/
inductive Frame where
  | sse (data : String)
  | grpc (event : Option ProtoEvent)
  deriving DecidableEq, Repr

/-! ## Operations -/

/-- The branch of the `select!` that is taken (realtime.rs:44–73), or that the client has gone. -/
inductive Selected where
  | cancelled
  | tick
  | ok (payload : String)
  | lagged (skipped : ℕ)
  | closed
  | gone
  deriving DecidableEq, Repr

/-- The accesses of streams and bridge tasks. -/
inductive Op (ι : Type) where
  | pubsub (o : PubSub.Op ι)
  /-- `tokio::time::interval(…)`. -/
  | interval
  /-- The `select!` over shutdown, heartbeat and `rx.recv()`. -/
  | select (id : ChanId ι)
  /-- `chrono::Utc::now()`. -/
  | now
  /-- Hand the frame to the client: false if the client has gone. -/
  | deliver (frame : Frame)
  /-- Never comes back. -/
  | park

@[reducible] def Op.Ans {ι : Type} : Op ι → Type
  | pubsub o => o.Ans
  | interval => Unit
  | select _ => Selected
  | now => DateTime
  | deliver _ => Bool
  | park => Empty

/-- What Redis, the clocks and the clients leave open. -/
inductive Choice where
  | pubsub (x : PubSub.Choice)
  | any
  | cancelled
  | tick
  | recv
  | closed
  | gone
  | now (timestamp : DateTime)
  | delivered (ok : Bool)
  /-- A message is published on a channel. -/
  | publish (name payload : String)
  /-- Time passes. -/
  | advance (elapsed : Duration)
  deriving DecidableEq, Repr

/-- `SSE_BROADCAST_CAPACITY` and `SSE_HEARTBEAT_INTERVAL_SECS`. -/
structure StreamConfig where
  broadcastCapacity : ℕ
  sseHeartbeatIntervalSecs : ℕ

/-- The slots of a broadcast channel. -/
def StreamConfig.slots (cfg : StreamConfig) : ℕ := cfg.broadcastCapacity.nextPowerOfTwo

/-- The manager, the broadcast channels and how far each receiver has read, the messages published
    on each Redis channel and how far each connection has read, the heartbeats, and what each
    client has been sent. -/
structure Hub (ι : Type) where
  manager : Manager ι
  rings : ChanId ι → Broadcast String
  next : ι → ChanId ι → ℕ
  published : String → List String
  conn : ι → Option (String × ℕ)
  clock : Instant
  deadline : ι → Instant
  frames : ι → List Frame

namespace Hub

variable {ι : Type}

/-- Nothing has happened yet. -/
def new : Hub ι where
  manager := .new
  rings _ := .new
  next _ _ := 0
  published _ := []
  conn _ := none
  clock := 0
  deadline _ := 0
  frames _ := []

/-- The receiver of call `i` at the channel reads position `n` next. -/
def setNext [DecidableEq ι] (s : Hub ι) (i : ι) (id : ChanId ι) (n : ℕ) : Hub ι :=
  { s with next := Function.update s.next i (Function.update (s.next i) id n) }

/-- A message is published on a channel. -/
def publish (s : Hub ι) (name payload : String) : Hub ι :=
  { s with published := Function.update s.published name (s.published name ++ [payload]) }

variable [DecidableEq ι]

/-- What the manager's operations do to the rest. -/
def after (cfg : StreamConfig) (s : Hub ι) (i : ι) : (o : PubSub.Op ι) → o.Ans → Option (Hub ι)
  | .subscribe id, _ => some (s.setNext i id (s.rings id).tail)
  | .create, id =>
    some { s.setNext i id 0 with rings := Function.update s.rings id .new }
  | .connect name, true =>
    some { s with conn := Function.update s.conn i (some (name, (s.published name).length)) }
  | .next, .message payload =>
    match s.conn i with
    | none => none
    | some (name, pos) =>
      if (s.published name)[pos]? = some payload then
        some { s with conn := Function.update s.conn i (some (name, pos + 1)) }
      else none
  | .next, .ended => some { s with conn := Function.update s.conn i none }
  | .send id payload, true =>
    some { s with rings := Function.update s.rings id ((s.rings id).send cfg.slots payload) }
  | _, _ => some s

end Hub

variable {ι : Type}

/-- What one operation of call `i` does; `none` while it has to wait. -/
def handle [DecidableEq ι] (cfg : StreamConfig) (s : Hub ι) (i : ι) :
    (o : Op ι) → Choice → Option (Hub ι × o.Ans)
  | .pubsub o, .pubsub x =>
    (PubSub.handle s.manager i o x).bind fun r =>
      (s.after cfg i o r.2).map fun s' => ({ s' with manager := r.1 }, r.2)
  | .interval, .any => some ({ s with deadline := Function.update s.deadline i s.clock }, ())
  | .select _, .cancelled => if s.manager.shutdown = true then some (s, .cancelled) else none
  | .select _, .tick =>
    if s.deadline i ≤ s.clock then
      let due := s.deadline i + cfg.sseHeartbeatIntervalSecs * 1000000000
      some ({ s with deadline := Function.update s.deadline i due }, .tick)
    else none
  | .select id, .recv =>
    match (s.rings id).recv cfg.slots (s.next i id) with
    | (.ok payload, n) => some (s.setNext i id n, .ok payload)
    | (.lagged skipped, n) => some (s.setNext i id n, .lagged skipped)
    | (.empty, _) => none
  | .select id, .closed =>
    -- the bridge task has a sender until it ends; whether there are others is left open
    match (s.rings id).recv cfg.slots (s.next i id), s.manager.tasks id with
    | (.empty, _), some ⟨_, true⟩ => some (s, .closed)
    | _, _ => none
  | .select _, .gone => some (s, .gone)
  | .now, .now timestamp => some (s, timestamp)
  | .deliver frame, .delivered true =>
    some ({ s with frames := Function.update s.frames i (s.frames i ++ [frame]) }, true)
  | .deliver _, .delivered false => some (s, false)
  | _, _ => none

/-! ## Programs -/

/-- A method over these operations. -/
abbrev StreamM (ι α : Type) := Prog (Op ι) Op.Ans α

def perform (o : Op ι) : StreamM ι o.Ans := Prog.perform o

/-- A method of the manager. -/
def ofPubSub {α : Type} (p : PubSubM ι α) : StreamM ι α := p.lift .pubsub fun _ r => r

/-- The loop of `create_like_event_stream` (realtime.rs:43–75); `emit` is what the consumer does
    with an item, false if it takes no more. -/
def createLikeEventStream (C : EventCodec) (emit : LikeStreamItem → StreamM ι Bool)
    (id : ChanId ι) : ℕ → StreamM ι Unit
  | 0 => do
    let never ← perform .park
    nomatch never
  | fuel + 1 => do
    match ← perform (.select id) with
    | .cancelled =>
      let timestamp ← perform .now
      let _ ← emit (.event (.shutdown timestamp))
      return ()
    | .tick =>
      let timestamp ← perform .now
      if ← emit (.event (.heartbeat timestamp)) then createLikeEventStream C emit id fuel
      else return ()
    | .ok payload =>
      match C.fromJson payload with
      | some event =>
        if ← emit (.event event) then createLikeEventStream C emit id fuel else return ()
      | none => createLikeEventStream C emit id fuel
    | .lagged skipped =>
      if ← emit (.lagged skipped) then createLikeEventStream C emit id fuel else return ()
    | .closed =>
      let _ ← emit .closed
      return ()
    | .gone => return ()

/-- What a stream is opened with: the SSE endpoint or the gRPC method, and its parameters. -/
inductive Transport where
  | sse
  | grpc
  deriving DecidableEq, Repr

/-- What the consumers do with an item (stream.rs:105–119, likes_service.rs:492–520). -/
def emit (C : EventCodec) (params : Streams.StreamParams) :
    Transport → LikeStreamItem → StreamM ι Bool
  | .sse, .event event =>
    match C.toJson event with
    | some payload => perform (.deliver (.sse payload))
    | none => return true
  | .sse, .lagged _ => return true
  | .sse, .closed => return false
  | .grpc, .event event =>
    perform (.deliver (.grpc (toProtoStreamEvent event params.contentType params.contentId)))
  | .grpc, .lagged _ => return true
  | .grpc, .closed => do
    let timestamp ← perform .now
    perform (.deliver
      (.grpc (toProtoStreamEvent (.shutdown timestamp) params.contentType params.contentId)))

/-- The channel a stream subscribes to. -/
def channelOf (params : Streams.StreamParams) : String :=
  "sse:" ++ params.contentType ++ ":" ++ params.contentId

/-- `create_sse_stream` (stream.rs:74–121), and `stream_likes` once it has checked the request
    (likes_service.rs:481–520): subscribe, pass the events on, and drop the receiver. -/
def likeStream (C : EventCodec) (transport : Transport) (params : Streams.StreamParams)
    (fuel : ℕ) : StreamM ι Unit := do
  let id ← ofPubSub (PubSub.subscribe (channelOf params))
  perform .interval
  createLikeEventStream C (emit C params transport) id fuel
  perform (.pubsub (.dropReceiver id))

/-! ## The pool of streams and bridges -/

/-- A stream or a bridge task. -/
inductive Call (ι : Type) where
  | stream (transport : Transport) (params : Streams.StreamParams) (fuel : ℕ)
  | bridge (name : String) (id : ChanId ι) (fuel : ℕ)

namespace Call

/-- The program of a call. -/
def prog [DecidableEq ι] (C : EventCodec) : Call ι → StreamM ι Unit
  | stream transport params fuel => likeStream C transport params fuel
  | bridge name id fuel => ofPubSub (PubSub.bridge fuel name id)

/-- What the manager sees of a call. -/
def seen : Call ι → PubSub.Call ι
  | stream _ params _ => .client (channelOf params)
  | bridge name id fuel => .bridge name id fuel

end Call

variable [DecidableEq ι]

/-- Streams may be opened at any time; a bridge task runs once it has been spawned. -/
def start (s : Hub ι) (i : ι) (k : Call ι) : Option (Hub ι) :=
  (PubSub.start s.manager i k.seen).map fun m => { s with manager := m }

/-- Messages are published, time passes, and there may be a shutdown. -/
def env (s : Hub ι) : Choice → Option (Hub ι)
  | .pubsub x => (PubSub.env s.manager x).map fun m => { s with manager := m }
  | .publish name payload => some (s.publish name payload)
  | .advance elapsed => some { s with clock := s.clock + elapsed }
  | _ => none

/-- Streams and bridges over a new manager. -/
def realtime (C : EventCodec) (cfg : StreamConfig) :
    Pool ι (Hub ι) (Call ι) (Op ι) Op.Ans Unit Choice where
  init s := s = .new
  prog := Call.prog C
  start := start
  handle := handle cfg
  drop _ _ := none
  env := env

/-- A configuration of streams and bridges. -/
abbrev RealtimeConfig (ι : Type) := Configuration ι (Hub ι) (Call ι) (Op ι) Op.Ans Unit

end SocialApi.Realtime
