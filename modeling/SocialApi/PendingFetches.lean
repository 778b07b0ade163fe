import SocialApi.Keys
import SocialApi.Concurrent.Protocol

/-!
# Pending fetches

`LikeCountCache::pending_fetches`: a map from cache keys to the sender of a
`tokio::sync::watch` channel, on which the leader of a fetch hands its count to the
followers. The map's operations and the channel's are atomic.

* `subscribe` marks the value already there as seen;
* `changed` returns when there is an unseen value, or fails once no sender is left;
  it is tried before the time-out is looked at, so a wait times out only while it
  could do neither;
* `send` fails, and leaves the value alone, if no receiver is left.

A channel is named by the key it was made for and a serial number. `leader`,
`sent`, `followers` and `served` record the history of a channel; no operation's
outcome depends on them.

* `handle_chan`: only a `send` changes the value of a channel, and it makes a new version.
* `Keyed.handle`: the entry of a key is a channel made for the key.
-/

namespace SocialApi.PendingFetches

open SocialApi.Concurrent

/-- The `n`-th channel made for a key. -/
abbrev ChanId := CacheKey × ℕ

/-- A `watch::Receiver`: its channel and the version it has seen. -/
structure Receiver where
  chan : ChanId
  seen : ℕ
  deriving DecidableEq, Repr

/-- A `watch` channel of `Option<i64>`. A sender is held by the map (`none`) or by a call. -/
structure Channel (ι : Type) where
  value : Option I64
  version : ℕ
  senders : List (Option ι)
  receivers : List ι
  /-- The call that made the channel. -/
  leader : ι
  /-- The count the leader has sent, whether or not anyone was there to receive it. -/
  sent : Option I64
  /-- The calls that have subscribed. -/
  followers : List ι
  /-- The followers whose wait ended with a value. -/
  served : List ι

/-- `pending_fetches` and all the channels made so far. -/
structure Flights (ι : Type) where
  pending : CacheKey → Option ChanId
  chans : ChanId → Option (Channel ι)
  made : CacheKey → ℕ

namespace Flights

variable {ι : Type}

def empty : Flights ι := ⟨fun _ => none, fun _ => none, fun _ => 0⟩

/-- The channel `id`, changed by `f`. -/
def modify (s : Flights ι) (id : ChanId) (f : Channel ι → Channel ι) : Flights ι :=
  { s with chans := Function.update s.chans id ((s.chans id).map f) }

end Flights

/-! ## Operations -/

/-- `FetchRole` (like_count_cache.rs:53–56): what the map's entry makes of a call. -/
inductive FetchRole where
  | leader (tx : ChanId)
  | follower (rx : Receiver)
  deriving DecidableEq, Repr

/-- How a wait ends. -/
inductive Changed where
  | value
  | closed
  | timedOut
  deriving DecidableEq, Repr

/-- The accesses of `LikeCountCache` to the map and the channels. -/
inductive Op where
  /-- `pending_fetches.entry`: subscribe to the channel that is there, or make one and
      insert a sender; with `keep` the call keeps a clone of that sender. -/
  | entry (key : CacheKey) (keep : Bool)
  /-- `tx.send(Some(count))`. -/
  | send (tx : ChanId) (count : I64)
  /-- `pending_fetches.remove`: the sender in the map goes to the call. -/
  | remove (key : CacheKey)
  /-- A sender of the call goes out of scope. -/
  | dropSender (tx : ChanId)
  /-- `timeout(…, rx.changed())`. -/
  | changed (rx : Receiver)
  /-- `rx.borrow()`. -/
  | borrow (rx : Receiver)
  /-- A receiver of the call goes out of scope. -/
  | dropReceiver (rx : Receiver)
  deriving DecidableEq, Repr

@[reducible] def Op.Ans : Op → Type
  | entry _ _ => FetchRole
  | send _ _ => Unit
  | remove _ => Option ChanId
  | dropSender _ => Unit
  | changed _ => Changed
  | borrow _ => Option I64
  | dropReceiver _ => Unit

/-- Whether a wait that could go on is cut short by its time-out. -/
inductive Choice where
  | inTime
  | elapsed

variable {ι : Type}

/-- The channel made by call `i`: the map holds a sender, and the call does if it keeps a clone.
    The receiver that `watch::channel` returns is dropped at once. -/
def newChannel (i : ι) (keep : Bool) : Channel ι where
  value := none
  version := 0
  senders := if keep then [none, some i] else [none]
  receivers := []
  leader := i
  sent := none
  followers := []
  served := []

/-- A subscription of call `i`. -/
def subscribe (s : Flights ι) (i : ι) (id : ChanId) (ch : Channel ι) : Flights ι × FetchRole :=
  (s.modify id fun ch =>
      { ch with receivers := i :: ch.receivers, followers := i :: ch.followers },
    .follower ⟨id, ch.version⟩)

/-- What one operation of call `i` does; `none` while it has to wait. -/
def handle [DecidableEq ι] (s : Flights ι) (i : ι) : (o : Op) → Choice → Option (Flights ι × o.Ans)
  | .entry key keep, _ =>
    match s.pending key with
    | some id =>
      match s.chans id with
      | some ch => some (subscribe s i id ch)
      | none => none
    | none =>
      let id : ChanId := (key, s.made key)
      some ({ pending := Function.update s.pending key (some id),
              chans := Function.update s.chans id (some (newChannel i keep)),
              made := Function.update s.made key (s.made key + 1) }, .leader id)
  | .send tx count, _ =>
    some (s.modify tx fun ch =>
      if ch.receivers = [] then { ch with sent := some count }
      else { ch with value := some count, version := ch.version + 1, sent := some count }, ())
  | .remove key, _ =>
    match s.pending key with
    | none => some (s, none)
    | some id =>
      some ({ s.modify id (fun ch => { ch with senders := some i :: ch.senders.erase none }) with
        pending := Function.update s.pending key none }, some id)
  | .dropSender tx, _ =>
    some (s.modify tx fun ch => { ch with senders := ch.senders.erase (some i) }, ())
  | .changed rx, x =>
    match s.chans rx.chan with
    | none => none
    | some ch =>
      if ch.version ≠ rx.seen then
        some (s.modify rx.chan fun ch => { ch with served := i :: ch.served }, .value)
      else if ch.senders = [] then some (s, .closed)
      else
        match x with
        | .inTime => none
        | .elapsed => some (s, .timedOut)
  | .borrow rx, _ => some (s, (s.chans rx.chan).bind Channel.value)
  | .dropReceiver rx, _ =>
    some (s.modify rx.chan fun ch => { ch with receivers := ch.receivers.erase i }, ())

/-- Call `i` is dropped: its senders and receivers are, too. What is in the map stays. -/
def abandon [DecidableEq ι] (s : Flights ι) (i : ι) : Flights ι :=
  { s with chans := fun id => (s.chans id).map fun ch =>
      { ch with senders := ch.senders.filter (· ≠ some i),
                receivers := ch.receivers.filter (· ≠ i) } }

/-! ## Values and entries -/

/-- The entry of a key is a channel made for it. -/
def Keyed (s : Flights ι) : Prop := ∀ key id, s.pending key = some id → id.1 = key

section Lemmas

variable {s s' : Flights ι} {i : ι}

/-- A channel that is modified, or another one. -/
theorem modify_chan {id id' : ChanId} {f : Channel ι → Channel ι} {ch' : Channel ι}
    (h : (s.modify id f).chans id' = some ch') :
    ∃ ch, s.chans id' = some ch ∧ ch' = if id' = id then f ch else ch := by
  have h : Function.update s.chans id ((s.chans id).map f) id' = some ch' := h
  by_cases hid : id' = id
  · subst hid
    rw [Function.update_self] at h
    obtain ⟨ch, hch, rfl⟩ := Option.map_eq_some_iff.mp h
    exact ⟨ch, hch, (if_pos rfl).symm⟩
  · rw [Function.update_of_ne hid] at h
    exact ⟨ch', h, (if_neg hid).symm⟩

/-- A modification that leaves value and version alone. -/
theorem modify_value {id id' : ChanId} {f : Channel ι → Channel ι} {ch' : Channel ι}
    (h : (s.modify id f).chans id' = some ch')
    (hf : ∀ ch, (f ch).value = ch.value ∧ (f ch).version = ch.version) :
    ∃ ch, s.chans id' = some ch ∧ ch'.value = ch.value ∧ ch'.version = ch.version := by
  obtain ⟨ch, hch, rfl⟩ := modify_chan h
  refine ⟨ch, hch, ?_⟩
  split_ifs
  · exact hf ch
  · exact ⟨rfl, rfl⟩

variable [DecidableEq ι]

/-- After an operation a channel has the value and the version it had, or is new, or has the
    count that was sent on it and a new version. -/
theorem handle_chan {o : Op} {x : Choice} {r : o.Ans} (h : handle s i o x = some (s', r))
    {id : ChanId} {ch' : Channel ι} (hch' : s'.chans id = some ch') :
    (∃ ch, s.chans id = some ch ∧ ch'.value = ch.value ∧ ch'.version = ch.version) ∨
      ch'.value = none ∨
      ∃ ch count, o = .send id count ∧ s.chans id = some ch ∧ ch'.value = some count ∧
        ch'.version = ch.version + 1 := by
  cases o with
  | entry key keep =>
    simp only [handle] at h
    split at h
    · split at h
      · cases h
        exact Or.inl (modify_value hch' fun _ => ⟨rfl, rfl⟩)
      · cases h
    · cases h
      have hch' : Function.update s.chans (key, s.made key) _ id = some ch' := hch'
      by_cases hid : id = (key, s.made key)
      · subst hid
        rw [Function.update_self] at hch'
        cases hch'
        exact Or.inr (Or.inl rfl)
      · rw [Function.update_of_ne hid] at hch'
        exact Or.inl ⟨ch', hch', rfl, rfl⟩
  | send tx count =>
    cases h
    obtain ⟨ch, hch, rfl⟩ := modify_chan hch'
    by_cases hid : id = tx
    · subst hid
      by_cases hnone : ch.receivers = []
      · exact Or.inl ⟨ch, hch, by simp [hnone], by simp [hnone]⟩
      · exact Or.inr (Or.inr ⟨ch, count, rfl, hch, by simp [hnone], by simp [hnone]⟩)
    · exact Or.inl ⟨ch, hch, by simp [hid], by simp [hid]⟩
  | remove key =>
    simp only [handle] at h
    split at h
    · cases h
      exact Or.inl ⟨ch', hch', rfl, rfl⟩
    · rename_i tx htx
      cases h
      exact Or.inl (modify_value (show (s.modify tx _).chans _ = some ch' from hch') fun _ => ⟨rfl, rfl⟩)
  | dropSender tx =>
    cases h
    exact Or.inl (modify_value hch' fun _ => ⟨rfl, rfl⟩)
  | changed rx =>
    have hsame : s' = s ∨ s' = s.modify rx.chan fun ch => { ch with served := i :: ch.served } := by
      simp only [handle] at h
      split at h
      · cases h
      · split_ifs at h with hv hs
        · cases h; exact Or.inr rfl
        · cases h; exact Or.inl rfl
        · cases x with
          | inTime => cases h
          | elapsed => cases h; exact Or.inl rfl
    rcases hsame with rfl | rfl
    · exact Or.inl ⟨ch', hch', rfl, rfl⟩
    · exact Or.inl (modify_value hch' fun _ => ⟨rfl, rfl⟩)
  | borrow rx =>
    cases h
    exact Or.inl ⟨ch', hch', rfl, rfl⟩
  | dropReceiver rx =>
    cases h
    exact Or.inl (modify_value hch' fun _ => ⟨rfl, rfl⟩)

/-- Dropping a call leaves every value and version alone. -/
theorem abandon_chan {id : ChanId} {ch' : Channel ι} (h : (abandon s i).chans id = some ch') :
    ∃ ch, s.chans id = some ch ∧ ch'.value = ch.value ∧ ch'.version = ch.version := by
  obtain ⟨ch, hch, rfl⟩ := Option.map_eq_some_iff.mp h
  exact ⟨ch, hch, rfl, rfl⟩

theorem Keyed.handle (hs : Keyed s) {o : Op} {x : Choice} {r : o.Ans}
    (h : handle s i o x = some (s', r)) : Keyed s' := by
  cases o with
  | entry key keep =>
    simp only [PendingFetches.handle] at h
    split at h
    · split at h
      · cases h
        exact hs
      · cases h
    · cases h
      intro key' id hid
      have hid : Function.update s.pending key (some (key, s.made key)) key' = some id := hid
      by_cases hk : key' = key
      · subst hk
        rw [Function.update_self] at hid
        rw [← Option.some.inj hid]
      · rw [Function.update_of_ne hk] at hid
        exact hs key' id hid
  | remove key =>
    simp only [PendingFetches.handle] at h
    split at h
    · cases h
      exact hs
    · cases h
      intro key' id hid
      have hid : Function.update s.pending key none key' = some id := hid
      by_cases hk : key' = key
      · subst hk
        rw [Function.update_self] at hid
        cases hid
      · rw [Function.update_of_ne hk] at hid
        exact hs key' id hid
  | changed rx =>
    simp only [PendingFetches.handle] at h
    split at h
    · cases h
    · split_ifs at h with hv hsend
      · cases h; exact hs
      · cases h; exact hs
      · cases x with
        | inTime => cases h
        | elapsed => cases h; exact hs
  | _ => cases h; exact hs

/-- The channel a call leads or follows under a key is the key's. -/
theorem Keyed.entry (hs : Keyed s) {key : CacheKey} {keep : Bool} {x : Choice} {role : FetchRole}
    (h : PendingFetches.handle s i (.entry key keep) x = some (s', role)) :
    (∀ id, role = .leader id → id.1 = key) ∧ ∀ rx, role = .follower rx → rx.chan.1 = key ∧
      ∃ ch, s.chans rx.chan = some ch ∧ rx.seen = ch.version := by
  simp only [PendingFetches.handle] at h
  split at h
  · rename_i id hid
    split at h
    · rename_i ch hch
      cases h
      refine ⟨fun id h => (by cases h), fun rx h => ?_⟩
      obtain rfl := FetchRole.follower.inj h
      exact ⟨hs key id hid, ch, hch, rfl⟩
    · cases h
  · cases h
    refine ⟨fun id h => ?_, fun rx h => (by cases h)⟩
    rw [← FetchRole.leader.inj h]

/-- So is the channel of an entry that is taken out. -/
theorem Keyed.remove (hs : Keyed s) {key : CacheKey} {x : Choice} {tx : Option ChanId}
    (h : PendingFetches.handle s i (.remove key) x = some (s', tx)) :
    ∀ id, tx = some id → id.1 = key := by
  simp only [PendingFetches.handle] at h
  split at h
  · cases h
    exact fun id hid => by cases hid
  · rename_i id hid
    cases h
    intro id' hid'
    rw [← Option.some.inj hid']
    exact hs key id hid

/-- A wait that ends with a value has found a version that it had not seen. -/
theorem changed_value {rx : Receiver} {x : Choice}
    (h : handle s i (.changed rx) x = some (s', .value)) :
    ∃ ch, s.chans rx.chan = some ch ∧ ch.version ≠ rx.seen := by
  simp only [handle] at h
  split at h
  · cases h
  · rename_i ch hch
    split_ifs at h with hv hsend
    · exact ⟨ch, hch, hv⟩
    · cases h
    · cases x with
      | inTime => cases h
      | elapsed => cases h

end Lemmas

end SocialApi.PendingFetches
