import SocialApi.PubSub.Moves

/-!
# Who holds which receiver

* `Seats`: the count of a sender is the number of the calls that have a receiver of it, a
  guard keeps the entry of its name, and each sender has at most one bridge task.
* `Seats.move`, `Seats.start`: every step keeps it.
-/

namespace SocialApi.PubSub

open SocialApi.Concurrent

/-! ## The invariant -/

section Invariant

variable {ι : Type} {s s' : Manager ι} {γ : ι → Option (Seat ι)} {i : ι} {g g' : Seat ι}
  {name : String} {id : ChanId ι}

/-- A channel that its creator has for itself. -/
structure Own (s : Manager ι) (i : ι) (id : ChanId ι) : Prop where
  creator : id.1 = i
  serial : id.2 < s.serial
  task : s.tasks id = none
  channels : ∀ name, s.channels name ≠ some id

/-- What a call relies on at its place. -/
def SeatOk (s : Manager ι) (i : ι) : Seat ι → Prop
  | .looking _ => True
  | .atEntry name id => s.channels name = some id ∧ (i, name) ∈ s.guards
  | .attached name id => s.channels name = some id ∧ (i, name) ∈ s.guards
  | .made _ id => Own s i id
  | .inserted _ id => id.1 = i ∧ id.2 < s.serial ∧ s.tasks id = none
  | .occupied name new id => Own s i new ∧ s.channels name = some id ∧ (i, name) ∈ s.guards
  | .entered name new id => Own s i new ∧ s.channels name = some id ∧ (i, name) ∈ s.guards
  | .joined _ new id => Own s i new ∧ id ≠ new ∧ id.2 < s.serial
  | .holding _ id => id.2 < s.serial
  | .done _ => True
  | .bridging _ id => s.tasks id ≠ none ∧ ∀ name, (name, id) ∉ s.spawned
  | .failing _ id => s.tasks id ≠ none ∧ ∀ name, (name, id) ∉ s.spawned
  | .leaving _ id => s.tasks id ≠ none ∧ ∀ name, (name, id) ∉ s.spawned
  | .ended _ id => s.tasks id ≠ none ∧ ∀ name, (name, id) ∉ s.spawned

/-- What the map and the tasks have to do with each other. -/
structure Tasks (s : Manager ι) : Prop where
  channel : ∀ name id, s.channels name = some id → id.2 < s.serial
  task : ∀ id, s.tasks id ≠ none → id.2 < s.serial
  spawned : ∀ name id, (name, id) ∈ s.spawned → s.tasks id ≠ none
  nodup : (s.spawned.map Prod.snd).Nodup

/-- The name and the sender belong together: in the map, or for a bridge task. -/
def Together (s : Manager ι) (γ : ι → Option (Seat ι)) (name : String) (id : ChanId ι) : Prop :=
  s.channels name = some id ∨ (name, id) ∈ s.spawned ∨ ∃ j g, γ j = some g ∧ g.OfBridge name id

/-- The whole invariant: a sender belongs to the name that its creator was called for. -/
structure Seats (s : Manager ι) (γ : ι → Option (Seat ι)) : Prop where
  ok : ∀ i g, γ i = some g → SeatOk s i g
  count : Counted s.receivers γ
  tasks : Tasks s
  unique : ∀ j j' g g' name name' id, γ j = some g → γ j' = some g' → g.OfBridge name id →
    g'.OfBridge name' id → j = j'
  named : ∀ name id, Together s γ name id → ∃ g, γ id.1 = some g ∧ g.OfClient name

theorem SeatOk.owns_lt (h : SeatOk s i g) (ht : Tasks s) (hown : g.Owns id) : id.2 < s.serial := by
  cases g with
  | attached name id' =>
    obtain rfl : id = id' := hown
    exact ht.channel name _ h.1
  | made name id' =>
    obtain rfl : id = id' := hown
    exact h.serial
  | inserted name id' =>
    obtain rfl : id = id' := hown
    exact h.2.1
  | occupied name new id' =>
    obtain rfl : id = new := hown
    exact h.1.serial
  | entered name new id' =>
    rcases hown with rfl | rfl
    · exact h.1.serial
    · exact ht.channel name _ h.2.1
  | joined name new id' =>
    rcases hown with rfl | rfl
    · exact h.1.serial
    · exact h.2.2
  | holding name id' =>
    obtain rfl : id = id' := hown
    exact h
  | _ => exact hown.elim

theorem SeatOk.new (h : SeatOk s i g) (hnew : g.New id) : Own s i id := by
  cases g with
  | made name id' =>
    obtain rfl : id = id' := hnew
    exact h
  | occupied name new id' =>
    obtain rfl : id = new := hnew
    exact h.1
  | entered name new id' =>
    obtain rfl : id = new := hnew
    exact h.1
  | joined name new id' =>
    obtain rfl : id = new := hnew
    exact h.1
  | _ => exact hnew.elim

theorem SeatOk.bridge (h : SeatOk s i g) (hg : g.OfBridge name id) :
    s.tasks id ≠ none ∧ ∀ name, (name, id) ∉ s.spawned := by
  cases g with
  | bridging name' id' =>
    obtain ⟨-, rfl⟩ := hg
    exact h
  | failing name' id' =>
    obtain ⟨-, rfl⟩ := hg
    exact h
  | leaving name' id' =>
    obtain ⟨-, rfl⟩ := hg
    exact h
  | ended name' id' =>
    obtain ⟨-, rfl⟩ := hg
    exact h
  | _ => exact hg.elim

/-- Nothing that a call relies on is about counts or the shutdown. -/
theorem SeatOk.counts (h : SeatOk s i g) (r : ChanId ι → ℕ) (b : ChanId ι → Bool) (d : Bool) :
    SeatOk { s with receivers := r, held := b, shutdown := d } i g := by
  have hown : ∀ id, Own s i id → Own { s with receivers := r, held := b, shutdown := d } i id :=
    fun id h => ⟨h.creator, h.serial, h.task, h.channels⟩
  cases g with
  | made name id => exact hown id h
  | occupied name new id => exact ⟨hown new h.1, h.2⟩
  | entered name new id => exact ⟨hown new h.1, h.2⟩
  | joined name new id => exact ⟨hown new h.1, h.2⟩
  | _ => exact h

/-- What a change of the manager has to leave alone for the others. -/
structure Frame (s s' : Manager ι) (i : ι) : Prop where
  serial : s.serial ≤ s'.serial
  guards : ∀ j name, j ≠ i → (j, name) ∈ s.guards → (j, name) ∈ s'.guards
  channels : ∀ name id, s.channels name = some id → (∃ j, j ≠ i ∧ (j, name) ∈ s.guards) →
    s'.channels name = some id
  added : ∀ name id, s'.channels name = some id → s.channels name = some id ∨ id.1 = i
  tasks : ∀ id, s.tasks id ≠ none → s'.tasks id ≠ none
  newTasks : ∀ id, s.tasks id = none → id.1 ≠ i → s'.tasks id = none
  spawned : ∀ name id, (name, id) ∈ s'.spawned → (name, id) ∈ s.spawned ∨ s.tasks id = none

/-- The others can still rely on what they relied on. -/
theorem SeatOk.frame {j : ι} (h : SeatOk s j g) (hf : Frame s s' i) (hj : j ≠ i) :
    SeatOk s' j g := by
  have hown : ∀ id, Own s j id → Own s' j id := by
    intro id hid
    refine ⟨hid.creator, hid.serial.trans_le hf.serial,
      hf.newTasks id hid.task (by rw [hid.creator]; exact hj), fun name hname => ?_⟩
    rcases hf.added name id hname with hname | hi
    · exact hid.channels name hname
    · exact hj (hid.creator.symm.trans hi)
  have hentry : ∀ name id, s.channels name = some id ∧ (j, name) ∈ s.guards →
      s'.channels name = some id ∧ (j, name) ∈ s'.guards :=
    fun name id h => ⟨hf.channels name id h.1 ⟨j, hj, h.2⟩, hf.guards j name hj h.2⟩
  have hbridge : ∀ id, (s.tasks id ≠ none ∧ ∀ name, (name, id) ∉ s.spawned) →
      s'.tasks id ≠ none ∧ ∀ name, (name, id) ∉ s'.spawned := by
    refine fun id h => ⟨hf.tasks id h.1, fun name hname => ?_⟩
    rcases hf.spawned name id hname with hname | hnone
    · exact h.2 name hname
    · exact h.1 hnone
  cases g with
  | looking name => trivial
  | atEntry name id => exact hentry name id h
  | attached name id => exact hentry name id h
  | made name id => exact hown id h
  | inserted name id =>
    exact ⟨h.1, h.2.1.trans_le hf.serial, hf.newTasks id h.2.2 (by rw [h.1]; exact hj)⟩
  | occupied name new id => exact ⟨hown new h.1, hentry name id h.2⟩
  | entered name new id => exact ⟨hown new h.1, hentry name id h.2⟩
  | joined name new id => exact ⟨hown new h.1, h.2.1, h.2.2.trans_le hf.serial⟩
  | holding name id => exact lt_of_lt_of_le h hf.serial
  | done name => trivial
  | bridging name id => exact hbridge id h
  | failing name id => exact hbridge id h
  | leaving name id => exact hbridge id h
  | ended name id => exact hbridge id h

variable {k : Call ι}

/-- A call goes on to another place of its request. -/
theorem Seats.change [DecidableEq ι] (h : Seats s γ) (hg : γ i = some g) (hk : Seat.Of k g)
    (hk' : Seat.Of k g')
    (hf : Frame s s' i) (hok : SeatOk s' i g')
    (hcount : Counted s'.receivers (Function.update γ i (some g'))) (htasks : Tasks s')
    (hadded : ∀ name id, s'.channels name = some id →
      s.channels name = some id ∨ id.1 = i ∧ g.OfClient name)
    (hspawned : ∀ name id, (name, id) ∈ s'.spawned →
      (name, id) ∈ s.spawned ∨ id.1 = i ∧ g.OfClient name) :
    Seats s' (Function.update γ i (some g')) := by
  obtain ⟨hclient, hbridge⟩ := Seat.of_iff hk hk'
  -- the ghost state of a call before, with the same request
  have hbefore : ∀ j g₁, Function.update γ i (some g') j = some g₁ → ∃ g₀, γ j = some g₀ ∧
      ∀ name id, g₁.OfBridge name id → g₀.OfBridge name id := by
    intro j g₁ hj
    by_cases hji : j = i
    · subst hji
      rw [Function.update_self] at hj
      cases hj
      exact ⟨g, hg, fun name id => (hbridge name id).mp⟩
    · rw [Function.update_of_ne hji] at hj
      exact ⟨g₁, hj, fun _ _ h => h⟩
  have hafter : ∀ j name, (∃ g, γ j = some g ∧ g.OfClient name) →
      ∃ g, Function.update γ i (some g') j = some g ∧ g.OfClient name := by
    rintro j name ⟨g₀, hj, hname⟩
    by_cases hji : j = i
    · subst hji
      rw [hg] at hj
      cases hj
      exact ⟨g', Function.update_self .., (hclient name).mpr hname⟩
    · exact ⟨g₀, by rw [Function.update_of_ne hji, hj], hname⟩
  refine ⟨fun j g₁ hj => ?_, hcount, htasks, fun j j' g₁ g₂ name name' id hj hj' hb hb' => ?_,
    fun name id htogether => hafter id.1 name ?_⟩
  · by_cases hji : j = i
    · subst hji
      rw [Function.update_self] at hj
      cases hj
      exact hok
    · rw [Function.update_of_ne hji] at hj
      exact (h.ok j g₁ hj).frame hf hji
  · obtain ⟨g₃, hj, hb₃⟩ := hbefore j g₁ hj
    obtain ⟨g₄, hj', hb₄⟩ := hbefore j' g₂ hj'
    exact h.unique j j' g₃ g₄ name name' id hj hj' (hb₃ name id hb) (hb₄ name' id hb')
  · rcases htogether with hchannel | hspawn | ⟨j, g₁, hj, hb⟩
    · rcases hadded name id hchannel with hchannel | ⟨hi, hname⟩
      · exact h.named name id (Or.inl hchannel)
      · exact ⟨g, by rw [hi, hg], hname⟩
    · rcases hspawned name id hspawn with hspawn | ⟨hi, hname⟩
      · exact h.named name id (Or.inr (Or.inl hspawn))
      · exact ⟨g, by rw [hi, hg], hname⟩
    · obtain ⟨g₀, hj, hb₀⟩ := hbefore j g₁ hj
      exact h.named name id (Or.inr (Or.inr ⟨j, g₀, hj, hb₀ name id hb⟩))

/-- A change of receivers and guards alone. -/
theorem Seats.light [DecidableEq ι] (h : Seats s γ) (hg : γ i = some g) (hk : Seat.Of k g)
    (hk' : Seat.Of k g')
    {r : ChanId ι → ℕ} {gs : List (ι × String)} {l : List String} {b : ChanId ι → Bool}
    (hguards : ∀ j name, j ≠ i → (j, name) ∈ s.guards → (j, name) ∈ gs)
    (hok : SeatOk { s with receivers := r, guards := gs, locked := l, held := b } i g')
    (hcount : Counted r (Function.update γ i (some g'))) :
    Seats { s with receivers := r, guards := gs, locked := l, held := b }
      (Function.update γ i (some g')) :=
  h.change hg hk hk'
    ⟨le_refl _, hguards, fun _ _ hc _ => hc, fun _ _ hc => Or.inl hc, fun _ ht => ht,
      fun _ ht _ => ht, fun _ _ hs => Or.inl hs⟩
    hok hcount ⟨h.tasks.channel, h.tasks.task, h.tasks.spawned, h.tasks.nodup⟩
    (fun _ _ hc => Or.inl hc) fun _ _ hs => Or.inl hs

theorem mem_owners (hg : γ i = some g) : i ∈ owners γ id ↔ g.Owns id :=
  ⟨fun ⟨_, hg', hown⟩ => Option.some.inj (hg'.symm.trans hg) ▸ hown, fun h => ⟨g, hg, h⟩⟩

/-- So does a shutdown. -/
theorem Seats.env {x : Choice} (h : Seats s γ) (hs : PubSub.env s x = some s') : Seats s' γ := by
  cases x with
  | shutdown =>
    cases hs
    exact ⟨fun j g hg => (h.ok j g hg).counts s.receivers s.held true, h.count,
      ⟨h.tasks.channel, h.tasks.task, h.tasks.spawned, h.tasks.nodup⟩, h.unique, h.named⟩
  | _ => cases hs

theorem Seats.new : Seats (Manager.new : Manager ι) fun _ => none := by
  refine ⟨fun _ _ hg => (by cases hg), fun id => ?_,
    ⟨fun _ _ hc => (by cases hc), fun _ ht => absurd rfl ht, fun _ _ hs => (by cases hs),
      List.nodup_nil⟩,
    fun _ _ _ _ _ _ _ hg => (by cases hg), ?_⟩
  · have hempty : owners (fun _ : ι => (none : Option (Seat ι))) id = ∅ :=
      Set.eq_empty_of_forall_notMem fun i ⟨g, hg, _⟩ => (by cases hg)
    rw [hempty, Set.encard_empty]
    rfl
  · rintro name id (hc | hs | ⟨j, g, hg, -⟩)
    · cases hc
    · cases hs
    · cases hg

variable [DecidableEq ι]

/-- A call that keeps its receivers. -/
theorem Seats.counted (h : Seats s γ) (hg : γ i = some g) (hsame : ∀ id, g'.Owns id ↔ g.Owns id) :
    Counted s.receivers (Function.update γ i (some g')) :=
  h.count.same fun id => (hsame id).trans (mem_owners hg).symm

/-- One more receiver of a sender in the map. -/
theorem Seats.gain (h : Seats s γ) (hg : γ i = some g) (hk : Seat.Of k g) (hk' : Seat.Of k g')
    (hnot : ¬ g.Owns id) (hown : g'.Owns id) (hsame : ∀ id', id' ≠ id → (g'.Owns id' ↔ g.Owns id'))
    (hok : SeatOk s i g') :
    Seats { s with receivers := Function.update s.receivers id (s.receivers id + 1) }
      (Function.update γ i (some g')) := by
  refine h.light hg hk hk' (fun _ _ _ h => h) ?_ ?_
  · exact hok.counts _ s.held s.shutdown
  · exact h.count.gain (fun hmem => hnot ((mem_owners hg).mp hmem)) hown fun id' hid' =>
      (hsame id' hid').trans (mem_owners hg).symm

/-- One receiver of a sender less. -/
theorem Seats.loss (h : Seats s γ) (hg : γ i = some g) (hk : Seat.Of k g) (hk' : Seat.Of k g')
    (hown : g.Owns id) (hnot : ¬ g'.Owns id) (hsame : ∀ id', id' ≠ id → (g'.Owns id' ↔ g.Owns id'))
    (b : ChanId ι → Bool) (hok : SeatOk s i g') :
    Seats { s with receivers := Function.update s.receivers id (s.receivers id - 1), held := b }
      (Function.update γ i (some g')) := by
  refine h.light hg hk hk' (fun _ _ _ h => h) ?_ ?_
  · exact hok.counts _ b s.shutdown
  · exact h.count.loss ((mem_owners hg).mpr hown) hnot fun id' hid' =>
      (hsame id' hid').trans (mem_owners hg).symm

/-- The guard on an entry is dropped. -/
theorem Seats.dropRef (h : Seats s γ) (hg : γ i = some g) (hk : Seat.Of k g) (hk' : Seat.Of k g')
    (hsame : ∀ id, g'.Owns id ↔ g.Owns id) (l : List String)
    (hok : SeatOk { s with guards := s.guards.erase (i, name), locked := l } i g') :
    Seats { s with guards := s.guards.erase (i, name), locked := l }
      (Function.update γ i (some g')) := by
  refine h.light hg hk hk' (fun j name' hj hmem => ?_) hok (h.counted hg hsame)
  refine (List.mem_erase_of_ne fun he => hj ?_).mpr hmem
  exact (Prod.mk.injEq .. ▸ he : j = i ∧ name' = name).1

/-- The entry of a name on which nobody has a guard is taken out. -/
theorem Seats.remove (h : Seats s γ) (hg : γ i = some (.looking name))
    (hk : Seat.Of k (.looking name)) (hguards : ∀ g ∈ s.guards, g.2 ≠ name) :
    Seats { s with channels := Function.update s.channels name none,
                   evicted := (s.channels name).toList ++ s.evicted }
      (Function.update γ i (some (.looking name))) := by
  have hless : ∀ name' id, Function.update s.channels name none name' = some id →
      s.channels name' = some id := by
    intro name' id hc
    by_cases hname : name' = name
    · subst hname
      rw [Function.update_self] at hc
      cases hc
    · rwa [Function.update_of_ne hname] at hc
  refine h.change hg hk hk ⟨le_refl _, fun _ _ _ hmem => hmem, fun name' id hc hguard => ?_,
    fun name' id hc => Or.inl (hless name' id hc), fun _ ht => ht, fun _ ht _ => ht,
    fun _ _ hs => Or.inl hs⟩ trivial (h.counted hg fun _ => Iff.rfl)
    ⟨fun name' id hc => h.tasks.channel name' id (hless name' id hc), h.tasks.task,
      h.tasks.spawned, h.tasks.nodup⟩ (fun name' id hc => Or.inl (hless name' id hc))
    fun _ _ hs => Or.inl hs
  obtain ⟨j, -, hmem⟩ := hguard
  show Function.update s.channels name none name' = some id
  rw [Function.update_of_ne (hguards _ hmem)]
  exact hc

/-- A new channel, with one receiver. -/
theorem Seats.create (h : Seats s γ) (hg : γ i = some (.looking name))
    (hk : Seat.Of k (.looking name)) (hk' : Seat.Of k (.made name (i, s.serial))) :
    Seats { s with serial := s.serial + 1,
                   receivers := Function.update s.receivers (i, s.serial) 1,
                   held := Function.update s.held (i, s.serial) true }
      (Function.update γ i (some (.made name (i, s.serial)))) := by
  have hunowned : s.receivers (i, s.serial) = 0 := by
    by_contra hne
    obtain ⟨j, g, hj, hown⟩ := h.count.owner hne
    exact absurd ((h.ok j g hj).owns_lt h.tasks hown) (lt_irrefl _)
  have hfresh : Own { s with serial := s.serial + 1 } i (i, s.serial) := by
    refine ⟨rfl, Nat.lt_succ_self _, ?_, fun name' hc => ?_⟩
    · by_contra ht
      exact absurd (h.tasks.task _ ht) (lt_irrefl _)
    · exact absurd (h.tasks.channel name' _ hc) (lt_irrefl _)
  have hcount : Counted (Function.update s.receivers (i, s.serial) (s.receivers (i, s.serial) + 1))
      (Function.update γ i (some (.made name (i, s.serial)))) :=
    h.count.gain (fun hmem => ((mem_owners hg).mp hmem).elim) rfl
      (fun id hid => iff_of_false (fun he => hid he) fun hmem => ((mem_owners hg).mp hmem).elim)
  rw [hunowned] at hcount
  refine h.change hg hk hk' ⟨Nat.le_succ _, fun _ _ _ hmem => hmem, fun _ _ hc _ => hc,
    fun _ _ hc => Or.inl hc, fun _ ht => ht, fun _ ht _ => ht, fun _ _ hs => Or.inl hs⟩
    ⟨hfresh.creator, hfresh.serial, hfresh.task, hfresh.channels⟩ hcount
    ⟨fun name' id hc => Nat.lt_succ_of_lt (h.tasks.channel name' id hc),
      fun id ht => Nat.lt_succ_of_lt (h.tasks.task id ht), h.tasks.spawned, h.tasks.nodup⟩
    (fun _ _ hc => Or.inl hc) fun _ _ hs => Or.inl hs

/-- The new sender is put into the map. -/
theorem Seats.insert (h : Seats s γ) (hg : γ i = some (.made name id))
    (hk : Seat.Of k (.made name id)) (hk' : Seat.Of k (.inserted name id))
    (hnone : s.channels name = none) :
    Seats { s with channels := Function.update s.channels name (some id) }
      (Function.update γ i (some (.inserted name id))) := by
  have hown : Own s i id := h.ok i _ hg
  have hmore : ∀ name' id', Function.update s.channels name (some id) name' = some id' →
      s.channels name' = some id' ∨ name' = name ∧ id' = id := by
    intro name' id' hc
    by_cases hname : name' = name
    · subst hname
      rw [Function.update_self] at hc
      exact Or.inr ⟨rfl, (Option.some.inj hc).symm⟩
    · rw [Function.update_of_ne hname] at hc
      exact Or.inl hc
  refine h.change hg hk hk' ⟨le_refl _, fun _ _ _ hmem => hmem, fun name' id' hc _ => ?_,
    fun name' id' hc => ?_, fun _ ht => ht, fun _ ht _ => ht, fun _ _ hs => Or.inl hs⟩
    ⟨hown.creator, hown.serial, hown.task⟩ (h.counted hg fun _ => Iff.rfl)
    ⟨fun name' id' hc => ?_, h.tasks.task, h.tasks.spawned, h.tasks.nodup⟩
    (fun name' id' hc => ?_) fun _ _ hs => Or.inl hs
  · have hname : name' ≠ name := by
      rintro rfl
      rw [hnone] at hc
      cases hc
    show Function.update s.channels name (some id) name' = some id'
    rwa [Function.update_of_ne hname]
  · rcases hmore name' id' hc with hc | ⟨-, rfl⟩
    · exact Or.inl hc
    · exact Or.inr hown.creator
  · rcases hmore name' id' hc with hc | ⟨-, rfl⟩
    · exact h.tasks.channel name' id' hc
    · exact hown.serial
  · rcases hmore name' id' hc with hc | ⟨rfl, rfl⟩
    · exact Or.inl hc
    · exact Or.inr ⟨hown.creator, rfl⟩

/-- The bridge task of the new sender is spawned. -/
theorem Seats.spawn (h : Seats s γ) (hg : γ i = some (.inserted name id))
    (hk : Seat.Of k (.inserted name id)) (hk' : Seat.Of k (.holding name id)) :
    Seats { s with tasks := Function.update s.tasks id (some ⟨s.channels, false⟩),
                   held := Function.update s.held id false,
                   spawned := s.spawned ++ [(name, id)] }
      (Function.update γ i (some (.holding name id))) := by
  obtain ⟨hcreator, hserial, htask⟩ : id.1 = i ∧ id.2 < s.serial ∧ s.tasks id = none := h.ok i _ hg
  have hsome : ∀ id', s.tasks id' ≠ none →
      Function.update s.tasks id (some ⟨s.channels, false⟩) id' ≠ none := by
    intro id' ht
    by_cases hid : id' = id
    · subst hid
      rw [Function.update_self]
      exact Option.some_ne_none _
    · rwa [Function.update_of_ne hid]
  have hspawned : ∀ name' id', (name', id') ∈ s.spawned ++ [(name, id)] →
      (name', id') ∈ s.spawned ∨ name' = name ∧ id' = id := by
    intro name' id' hmem
    rcases List.mem_append.mp hmem with hmem | hmem
    · exact Or.inl hmem
    · cases List.mem_singleton.mp hmem
      exact Or.inr ⟨rfl, rfl⟩
  refine h.change hg hk hk' ⟨le_refl _, fun _ _ _ hmem => hmem, fun _ _ hc _ => hc,
    fun _ _ hc => Or.inl hc, hsome, fun id' ht hne => ?_, fun name' id' hs => ?_⟩ hserial
    (h.counted hg fun _ => Iff.rfl)
    ⟨h.tasks.channel, fun id' ht => ?_, fun name' id' hs => ?_, ?_⟩
    (fun _ _ hc => Or.inl hc) fun name' id' hs => ?_
  · have hid : id' ≠ id := by
      rintro rfl
      exact hne hcreator
    show Function.update s.tasks id _ id' = none
    rwa [Function.update_of_ne hid]
  · rcases hspawned name' id' hs with hs | ⟨-, rfl⟩
    · exact Or.inl hs
    · exact Or.inr htask
  · by_cases hid : id' = id
    · subst hid
      exact hserial
    · have ht : Function.update s.tasks id (some ⟨s.channels, false⟩) id' ≠ none := ht
      rw [Function.update_of_ne hid] at ht
      exact h.tasks.task id' ht
  · rcases hspawned name' id' hs with hs | ⟨-, rfl⟩
    · exact hsome id' (h.tasks.spawned name' id' hs)
    · show Function.update s.tasks id' _ id' ≠ none
      rw [Function.update_self]
      exact Option.some_ne_none _
  · show ((s.spawned ++ [(name, id)]).map Prod.snd).Nodup
    rw [List.map_append, List.map_singleton]
    refine List.nodup_append.mpr ⟨h.tasks.nodup, List.nodup_singleton _, fun a ha b hb => ?_⟩
    rw [List.mem_singleton.mp hb]
    rintro rfl
    obtain ⟨⟨name', id'⟩, hmem, rfl⟩ := List.mem_map.mp ha
    exact h.tasks.spawned name' id' hmem htask
  · rcases hspawned name' id' hs with hs | ⟨rfl, rfl⟩
    · exact Or.inl hs
    · exact Or.inr ⟨hcreator, rfl⟩

/-- A change of what a bridge task has. -/
theorem Seats.task (h : Seats s γ) (hg : γ i = some g) (hk : Seat.Of k g) (hk' : Seat.Of k g')
    (hbridge : g.OfBridge name id) (hbridge' : g'.OfBridge name id) (f : Task ι → Task ι) :
    Seats { s with tasks := Function.update s.tasks id ((s.tasks id).map f) }
      (Function.update γ i (some g')) := by
  have hsame : ∀ id', Function.update s.tasks id ((s.tasks id).map f) id' = none ↔
      s.tasks id' = none := by
    intro id'
    by_cases hid : id' = id
    · subst hid
      rw [Function.update_self, Option.map_eq_none_iff]
    · rw [Function.update_of_ne hid]
  have howns : ∀ (g : Seat ι), g.OfBridge name id → ∀ id', ¬ g.Owns id' := by
    intro g hb id'
    cases g <;> first | exact hb.elim | exact fun h => h
  obtain ⟨htask, hspawned⟩ := (h.ok i g hg).bridge hbridge
  refine h.change hg hk hk' ⟨le_refl _, fun _ _ _ hmem => hmem, fun _ _ hc _ => hc,
    fun _ _ hc => Or.inl hc, fun id' ht => (hsame id').not.mpr ht, fun id' ht _ => (hsame id').mpr ht,
    fun _ _ hs => Or.inl hs⟩ ?_ (h.counted hg fun id' => iff_of_false (howns g' hbridge' id')
      (howns g hbridge id'))
    ⟨h.tasks.channel, fun id' ht => h.tasks.task id' ((hsame id').not.mp ht),
      fun name' id' hs => (hsame id').not.mpr (h.tasks.spawned name' id' hs), h.tasks.nodup⟩
    (fun _ _ hc => Or.inl hc) fun _ _ hs => Or.inl hs
  cases g' <;> first
    | exact hbridge'.elim
    | (obtain ⟨-, rfl⟩ := hbridge'
       exact ⟨(hsame _).not.mpr htask, hspawned⟩)

/-- A call that only reads. -/
theorem Seats.read (h : Seats s γ) (hg : γ i = some g) (hk : Seat.Of k g) (hk' : Seat.Of k g')
    (hsame : ∀ id, g'.Owns id ↔ g.Owns id) (hok : SeatOk s i g') :
    Seats s (Function.update γ i (some g')) :=
  h.light hg hk hk' (fun _ _ _ hmem => hmem) hok (h.counted hg hsame)

/-- A bridge task that only reads. -/
theorem Seats.readBridge (h : Seats s γ) (hg : γ i = some g) (hk : Seat.Of k g)
    (hk' : Seat.Of k g') (hbridge : g.OfBridge name id) (hbridge' : g'.OfBridge name id) :
    Seats s (Function.update γ i (some g')) := by
  have howns : ∀ (g : Seat ι), g.OfBridge name id → ∀ id', ¬ g.Owns id' := by
    intro g hb id'
    cases g <;> first | exact hb.elim | exact fun h => h
  refine h.read hg hk hk'
    (fun id' => iff_of_false (howns g' hbridge' id') (howns g hbridge id')) ?_
  have hok := (h.ok i g hg).bridge hbridge
  cases g' <;> first
    | exact hbridge'.elim
    | (obtain ⟨-, rfl⟩ := hbridge'
       exact hok)

/-- Every move keeps the invariant. -/
theorem Seats.move {o : Op ι} {x : Choice} (h : Seats s γ) (hg : γ i = some g)
    (hk : Seat.Of k g) (hk' : Seat.Of k g') (hmove : Move i o x s g s' g') :
    Seats s' (Function.update γ i (some g')) := by
  have hok := h.ok i g hg
  cases hmove with
  | miss hnone => exact h.read hg hk hk' (fun _ => Iff.rfl) trivial
  | hit hid =>
    exact h.light hg hk hk' (fun j name _ hmem => List.mem_cons_of_mem _ hmem)
      ⟨hid, List.mem_cons_self⟩ (h.counted hg fun _ => Iff.rfl)
  | count => exact h.read hg hk hk' (fun _ => Iff.rfl) hok
  | subscribe =>
    exact h.gain hg hk hk' (fun h => h) rfl (fun id' hid => iff_of_false hid fun h => h) hok
  | release => exact h.dropRef hg hk hk' (fun _ => Iff.rfl) s.locked trivial
  | keep => exact h.dropRef hg hk hk' (fun _ => Iff.rfl) s.locked (h.tasks.channel _ _ hok.1)
  | remove hguards => exact h.remove hg hk hguards
  | create => exact h.create hg hk hk'
  | occupy hid =>
    exact h.light hg hk hk' (fun j name _ hmem => List.mem_cons_of_mem _ hmem)
      ⟨⟨hok.creator, hok.serial, hok.task, hok.channels⟩, hid, List.mem_cons_self⟩
      (h.counted hg fun _ => Iff.rfl)
  | @join _ name new id =>
    obtain ⟨hown, hid, hguard⟩ := hok
    refine h.gain hg hk hk' (fun he => hown.channels name ?_) (Or.inr rfl) (fun id' hne => ?_)
      ⟨hown, hid, hguard⟩
    · rw [hid, he]
    · exact ⟨fun h => h.resolve_right hne, Or.inl⟩
  | @leave _ name new id =>
    obtain ⟨hown, hid, -⟩ := hok
    refine h.dropRef hg hk hk' (fun _ => Iff.rfl) _
      ⟨⟨hown.creator, hown.serial, hown.task, hown.channels⟩, fun he => hown.channels name ?_,
        h.tasks.channel _ _ hid⟩
    rw [hid, he]
  | insert hnone => exact h.insert hg hk hk' hnone
  | dropNew =>
    obtain ⟨-, hne, hlt⟩ := hok
    refine h.loss hg hk hk' (Or.inl rfl) (fun he => hne he.symm) (fun id' hne' => ?_) _ hlt
    exact ⟨Or.inr, fun h => h.resolve_left hne'⟩
  | spawn => exact h.spawn hg hk hk'
  | dropReceiver =>
    exact h.loss hg hk hk' rfl (fun h => h)
      (fun id' hne => iff_of_false (fun h => h) hne) s.held trivial
  | stay => exact h.readBridge hg hk hk' ⟨rfl, rfl⟩ ⟨rfl, rfl⟩
  | empty hcount => exact h.readBridge hg hk hk' ⟨rfl, rfl⟩ ⟨rfl, rfl⟩
  | cancel hshutdown => exact h.readBridge hg hk hk' ⟨rfl, rfl⟩ ⟨rfl, rfl⟩
  | fail hx => exact h.readBridge hg hk hk' ⟨rfl, rfl⟩ ⟨rfl, rfl⟩
  | giveUp => exact h.readBridge hg hk hk' ⟨rfl, rfl⟩ ⟨rfl, rfl⟩
  | retry => exact h.readBridge hg hk hk' ⟨rfl, rfl⟩ ⟨rfl, rfl⟩
  | copyGet => exact h.readBridge hg hk hk' ⟨rfl, rfl⟩ ⟨rfl, rfl⟩
  | copyRemove => exact h.task hg hk hk' ⟨rfl, rfl⟩ ⟨rfl, rfl⟩ _
  | finish => exact h.task hg hk hk' ⟨rfl, rfl⟩ ⟨rfl, rfl⟩ _

/-- A call that begins. -/
theorem Seats.enter (h : Seats s γ) (hi : γ i = none) (hf : Frame s s' i)
    (hreceivers : s'.receivers = s.receivers) (hok : SeatOk s' i g) (hnot : ∀ id, ¬ g.Owns id)
    (htasks : Tasks s') (hchannels : ∀ name id, s'.channels name = some id →
      s.channels name = some id)
    (hspawned : ∀ name id, (name, id) ∈ s'.spawned ∨ g.OfBridge name id → (name, id) ∈ s.spawned) :
    Seats s' (Function.update γ i (some g)) := by
  have hother : ∀ j g₁, j ≠ i → Function.update γ i (some g) j = some g₁ → γ j = some g₁ := by
    intro j g₁ hj hg₁
    rwa [Function.update_of_ne hj] at hg₁
  have hself : ∀ g₁, Function.update γ i (some g) i = some g₁ → g₁ = g := by
    intro g₁ hg₁
    rw [Function.update_self] at hg₁
    exact (Option.some.inj hg₁).symm
  -- a bridge task that begins is the only one of its sender
  have hfirst : ∀ j g₁ name name' id, j ≠ i → γ j = some g₁ → g₁.OfBridge name id →
      ¬ g.OfBridge name' id := by
    intro j g₁ name name' id hj hg₁ hb hb'
    exact ((h.ok j g₁ hg₁).bridge hb).2 name' (hspawned name' id (Or.inr hb'))
  refine ⟨fun j g₁ hg₁ => ?_, ?_, htasks, fun j j' g₁ g₂ name name' id hg₁ hg₂ hb hb' => ?_,
    fun name id htogether => ?_⟩
  · by_cases hj : j = i
    · subst hj
      rw [hself g₁ hg₁]
      exact hok
    · exact (h.ok j g₁ (hother j g₁ hj hg₁)).frame hf hj
  · rw [hreceivers]
    refine h.count.same fun id => iff_of_false (hnot id) ?_
    rintro ⟨g₁, hg₁, -⟩
    rw [hi] at hg₁
    cases hg₁
  · by_cases hj : j = i
    · by_cases hj' : j' = i
      · rw [hj, hj']
      · subst hj
        rw [hself g₁ hg₁] at hb
        exact absurd hb (hfirst j' g₂ name' name id hj' (hother j' g₂ hj' hg₂) hb')
    · by_cases hj' : j' = i
      · subst hj'
        rw [hself g₂ hg₂] at hb'
        exact absurd hb' (hfirst j g₁ name name' id hj (hother j g₁ hj hg₁) hb)
      · exact h.unique j j' g₁ g₂ name name' id (hother j g₁ hj hg₁) (hother j' g₂ hj' hg₂) hb hb'
  · have hbefore : Together s γ name id := by
      rcases htogether with hchannel | hspawn | ⟨j, g₁, hg₁, hb⟩
      · exact Or.inl (hchannels name id hchannel)
      · exact Or.inr (Or.inl (hspawned name id (Or.inl hspawn)))
      · by_cases hj : j = i
        · subst hj
          rw [hself g₁ hg₁] at hb
          exact Or.inr (Or.inl (hspawned name id (Or.inr hb)))
        · exact Or.inr (Or.inr ⟨j, g₁, hother j g₁ hj hg₁, hb⟩)
    obtain ⟨g₀, hg₀, hname⟩ := h.named name id hbefore
    refine ⟨g₀, ?_, hname⟩
    have hne : id.1 ≠ i := by
      intro he
      rw [he, hi] at hg₀
      cases hg₀
    rw [Function.update_of_ne hne]
    exact hg₀

/-- Every start keeps the invariant. -/
theorem Seats.start (h : Seats s γ) (hi : γ i = none) (hs : PubSub.start s i k = some s') :
    Seats s' (Function.update γ i (some k.seat)) := by
  cases k with
  | client name =>
    cases hs
    exact h.enter hi ⟨le_refl _, fun _ _ _ hmem => hmem, fun _ _ hc _ => hc,
      fun _ _ hc => Or.inl hc, fun _ ht => ht, fun _ ht _ => ht, fun _ _ hs => Or.inl hs⟩ rfl
      trivial (fun _ h => h) h.tasks (fun _ _ hc => hc) fun _ _ hs => hs.resolve_right fun h => h
  | bridge name id fuel =>
    simp only [PubSub.start] at hs
    split_ifs at hs with hmem
    cases hs
    have hless : ∀ name' id', (name', id') ∈ s.spawned.erase (name, id) → (name', id') ∈ s.spawned :=
      fun name' id' h => List.mem_of_mem_erase h
    -- a task is spawned once
    have hgone : ∀ name', (name', id) ∉ s.spawned.erase (name, id) := by
      intro name' hmem'
      have hperm := (List.perm_cons_erase hmem).map Prod.snd
      have hnodup := (hperm.nodup_iff).mp h.tasks.nodup
      rw [List.map_cons] at hnodup
      exact (List.nodup_cons.mp hnodup).1 (List.mem_map.mpr ⟨(name', id), hmem', rfl⟩)
    refine h.enter hi ⟨le_refl _, fun _ _ _ hmem => hmem, fun _ _ hc _ => hc,
      fun _ _ hc => Or.inl hc, fun _ ht => ht, fun _ ht _ => ht,
      fun name' id' hs => Or.inl (hless name' id' hs)⟩ rfl
      ⟨h.tasks.spawned name id hmem, hgone⟩ (fun _ h => h)
      ⟨h.tasks.channel, h.tasks.task, fun name' id' hs => h.tasks.spawned name' id'
        (hless name' id' hs), ?_⟩ (fun _ _ hc => hc) fun name' id' hs => ?_
    · exact h.tasks.nodup.sublist ((List.erase_sublist).map Prod.snd)
    · rcases hs with hs | ⟨rfl, rfl⟩
      · exact hless name' id' hs
      · exact hmem

end Invariant

end SocialApi.PubSub
