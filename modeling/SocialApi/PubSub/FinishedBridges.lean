import SocialApi.PubSub.BridgeStages

/-!
# Finished bridges

After its bridge has given up, a task removes its sender from `channels_ref`, so that
nobody subscribes to a sender that no bridge feeds. But `channels_ref` is a copy: the
sender stays in the manager's map, later subscribers join it, and its receivers are
never told that it is closed.

Results:
* `finishedGone_iff`: along a run every finished bridge's sender is out of the map,
  and its receivers are told, exactly when every task that ends had its sender taken
  out of the map before by the stale-entry `remove` of a racing `subscribe`, and no
  other unfinished task holds a copy of the map with a sender that still has receivers.
* `finished_stays`: a run in which a bridge gives up and its sender stays.
-/

namespace SocialApi.PubSub

open SocialApi.Concurrent

/-! ## The invariant -/

section Invariant

variable {ι : Type} {s s' : Manager ι} {γ : ι → Option (Stage ι)} {i : ι} {id : ChanId ι}

/-- The sender is out of the map, and a receiver that is left is told so. -/
def Gone (s : Manager ι) (id : ChanId ι) : Prop :=
  (∀ name, s.channels name ≠ some id) ∧ (s.receivers id ≠ 0 → ¬ s.SenderAlive id)

/-- Every bridge that has finished is gone. -/
def FinishedGone (s : Manager ι) : Prop :=
  ∀ id t, s.tasks id = some t → t.ended = true → Gone s id

/-- What a call relies on at its stage. -/
def StageOk (s : Manager ι) (i : ι) : Stage ι → Prop
  | .looking => True
  | .atEntry name id => s.channels name = some id ∧ (i, name) ∈ s.guards
  | .made id => id.1 = i ∧ s.tasks id = none ∧ (∀ name, s.channels name ≠ some id) ∧
      id ∉ s.evicted ∧ id.2 < s.serial
  | .inserted id => id.1 = i ∧ s.tasks id = none ∧
      (id ∈ s.evicted ∨ ∃ name, s.channels name = some id) ∧ id.2 < s.serial
  | .bridging id => s.tasks id ≠ none
  | .idle => True

/-- What the map and the tasks have to do with each other: the sender of a task was put into
    the map, once, and has left it only if it was taken out by a `remove`. -/
structure Registry (s : Manager ι) : Prop where
  spawned : ∀ name id, (name, id) ∈ s.spawned → s.tasks id ≠ none
  task : ∀ id, s.tasks id ≠ none → id.2 < s.serial ∧ s.held id = false ∧
    (id ∈ s.evicted ∨ ∃ name, s.channels name = some id)
  channel : ∀ name id, s.channels name = some id → id.2 < s.serial ∧ id ∉ s.evicted ∧
    ∀ name', s.channels name' = some id → name' = name
  evicted : ∀ id ∈ s.evicted, id.2 < s.serial

/-- `Registry` reads neither the receivers nor the guards. -/
theorem Registry.frame (h : Registry s) (r : ChanId ι → ℕ) (gs : List (ι × String))
    (l : List String) (b : Bool) :
    Registry { s with receivers := r, guards := gs, locked := l, shutdown := b } :=
  ⟨h.spawned, h.task, h.channel, h.evicted⟩

/-- The whole invariant. -/
structure BridgeInv (s : Manager ι) (γ : ι → Option (Stage ι)) : Prop where
  finished : FinishedGone s
  registry : Registry s
  staged : ∀ i g, γ i = some g → StageOk s i g

/-- A finished bridge stays gone if neither its senders nor its receivers come back. -/
theorem Gone.of_le (h : Gone s id) (hc : ∀ name, s'.channels name = some id → s.channels name = some id)
    (hr : s'.receivers id ≠ 0 → s.receivers id ≠ 0) (ha : s'.SenderAlive id → s.SenderAlive id) :
    Gone s' id :=
  ⟨fun name hn => h.1 name (hc name hn), fun hne halive => h.2 (hr hne) (ha halive)⟩

/-- A sender in the map belongs to no finished bridge. -/
theorem FinishedGone.not_ended (h : FinishedGone s) {name : String}
    (hc : s.channels name = some id) {t : Task ι} (ht : s.tasks id = some t) :
    t.ended = false := by
  rw [← Bool.not_eq_true]
  intro he
  exact (h id t ht he).1 name hc

variable [DecidableEq ι] {g : Stage ι}

/-- One call goes on to stage `g`; what the others rely on is kept. -/
theorem staged_update (h : ∀ i g, γ i = some g → StageOk s i g)
    (hframe : ∀ j g, j ≠ i → StageOk s j g → StageOk s' j g) (hi : StageOk s' i g) :
    ∀ j g', Function.update γ i (some g) j = some g' → StageOk s' j g' := by
  intro j g' hj
  by_cases hji : j = i
  · subst hji
    rw [Function.update_self] at hj
    cases hj
    exact hi
  · rw [Function.update_of_ne hji] at hj
    exact hframe j g' hji (h j g' hj)

/-- An operation that changes nothing. -/
theorem BridgeInv.same (h : BridgeInv s γ) (hi : StageOk s i g) :
    BridgeInv s (Function.update γ i (some g)) :=
  ⟨h.finished, h.registry, staged_update h.staged (fun _ _ _ hj => hj) hi⟩

/-- A change of the receivers alone. -/
theorem BridgeInv.receivers (h : BridgeInv s γ) {r : ChanId ι → ℕ} (hi : StageOk s i g)
    (hr : ∀ id t, s.tasks id = some t → t.ended = true → r id ≠ 0 → s.receivers id ≠ 0) :
    BridgeInv { s with receivers := r } (Function.update γ i (some g)) := by
  refine ⟨fun id t ht he => ?_, h.registry.frame r _ _ _, staged_update h.staged ?_ ?_⟩
  · exact (h.finished id t ht he).of_le (fun _ hc => hc) (hr id t ht he) fun ha => ha
  · intro j g _ hj
    cases g <;> exact hj
  · cases g <;> exact hi

/-- One more receiver of a sender that is in the map. -/
theorem BridgeInv.join (h : BridgeInv s γ) {name : String} (hc : s.channels name = some id)
    (hi : StageOk s i g) :
    BridgeInv { s with receivers := Function.update s.receivers id (s.receivers id + 1) }
      (Function.update γ i (some g)) := by
  refine h.receivers hi fun id' t ht he hne => ?_
  have hid : id' ≠ id := by
    rintro rfl
    rw [h.finished.not_ended hc ht] at he
    cases he
  rwa [Function.update_of_ne hid] at hne

/-- One receiver less. -/
theorem BridgeInv.part (h : BridgeInv s γ) (id : ChanId ι) (hi : StageOk s i g) :
    BridgeInv { s with receivers := Function.update s.receivers id (s.receivers id - 1) }
      (Function.update γ i (some g)) := by
  refine h.receivers hi fun id' t _ _ hne => ?_
  by_cases hid : id' = id
  · subst hid; rw [Function.update_self] at hne; omega
  · rwa [Function.update_of_ne hid] at hne

theorem BridgeInv.get (h : BridgeInv s γ) {name : String} (hc : s.channels name = some id)
    (l : List String) :
    BridgeInv { s with guards := (i, name) :: s.guards, locked := l }
      (Function.update γ i (some (.atEntry name id))) := by
  refine ⟨h.finished, h.registry.frame _ _ _ _, staged_update h.staged ?_ ⟨hc, List.mem_cons_self⟩⟩
  intro j g _ hj
  cases g with
  | atEntry name' id' => exact ⟨hj.1, List.mem_cons_of_mem _ hj.2⟩
  | _ => exact hj

theorem BridgeInv.dropRef (h : BridgeInv s γ) (name : String) (l : List String)
    (hg : StageOk { s with guards := s.guards.erase (i, name), locked := l } i g) :
    BridgeInv { s with guards := s.guards.erase (i, name), locked := l }
      (Function.update γ i (some g)) := by
  refine ⟨h.finished, h.registry.frame _ _ _ _, staged_update h.staged ?_ hg⟩
  intro j g hji hj
  cases g with
  | atEntry name' id' =>
    refine ⟨hj.1, (List.mem_erase_of_ne ?_).mpr hj.2⟩
    intro he
    exact hji (Prod.mk.injEq .. ▸ he).1
  | _ => exact hj

theorem BridgeInv.remove (h : BridgeInv s γ) {name : String}
    (hguards : ∀ g ∈ s.guards, g.2 ≠ name) :
    BridgeInv { s with channels := Function.update s.channels name none,
                       evicted := (s.channels name).toList ++ s.evicted }
      (Function.update γ i (some .looking)) := by
  have hle : ∀ name' id, Function.update s.channels name none name' = some id →
      name' ≠ name ∧ s.channels name' = some id := by
    intro name' id hc
    by_cases hn : name' = name
    · subst hn; rw [Function.update_self] at hc; cases hc
    · exact ⟨hn, by rwa [Function.update_of_ne hn] at hc⟩
  -- a sender that was in the map or taken out of it still is one or the other
  have hsomewhere : ∀ id, (id ∈ s.evicted ∨ ∃ name, s.channels name = some id) →
      id ∈ (s.channels name).toList ++ s.evicted ∨
        ∃ name', Function.update s.channels name none name' = some id := by
    rintro id (he | ⟨name', hc⟩)
    · exact Or.inl (List.mem_append_right _ he)
    · by_cases hn : name' = name
      · subst hn; exact Or.inl (List.mem_append_left _ (by rw [hc]; simp))
      · exact Or.inr ⟨name', by rwa [Function.update_of_ne hn]⟩
  refine ⟨fun id t ht he => ?_, ⟨h.registry.spawned, fun id ht => ?_, fun name' id hc => ?_,
    fun id hid => ?_⟩, staged_update h.staged ?_ trivial⟩
  · refine (h.finished id t ht he).of_le (fun name' hc => (hle name' id hc).2) (fun hr => hr) ?_
    rintro (⟨name', hc⟩ | hrest)
    · exact Or.inl ⟨name', (hle name' id hc).2⟩
    · exact Or.inr hrest
  · obtain ⟨hlt, hheld, hin⟩ := h.registry.task id ht
    exact ⟨hlt, hheld, hsomewhere id hin⟩
  · obtain ⟨hne, hc⟩ := hle name' id hc
    obtain ⟨hlt, hev, huniq⟩ := h.registry.channel name' id hc
    refine ⟨hlt, fun hmem => ?_, fun n hn => huniq n (hle n id hn).2⟩
    rcases List.mem_append.mp hmem with hmem | hmem
    · exact hne (huniq name (Option.mem_toList.mp hmem)).symm
    · exact hev hmem
  · rcases List.mem_append.mp hid with hmem | hmem
    · exact (h.registry.channel name id (Option.mem_toList.mp hmem)).1
    · exact h.registry.evicted id hmem
  · intro j g _ hj
    cases g with
    | atEntry name' id' =>
      exact ⟨(Function.update_of_ne (hguards _ hj.2) _ _).trans hj.1, hj.2⟩
    | made id' =>
      obtain ⟨h₁, h₂, h₃, h₄, h₅⟩ := hj
      refine ⟨h₁, h₂, fun n hn => h₃ n (hle n id' hn).2, fun hmem => ?_, h₅⟩
      rcases List.mem_append.mp hmem with hmem | hmem
      · exact h₃ name (Option.mem_toList.mp hmem)
      · exact h₄ hmem
    | inserted id' =>
      obtain ⟨h₁, h₂, h₃, h₄⟩ := hj
      exact ⟨h₁, h₂, hsomewhere id' h₃, h₄⟩
    | _ => exact hj

theorem BridgeInv.create (h : BridgeInv s γ) :
    BridgeInv { s with serial := s.serial + 1,
                       receivers := Function.update s.receivers (i, s.serial) 1,
                       held := Function.update s.held (i, s.serial) true }
      (Function.update γ i (some (.made (i, s.serial)))) := by
  have hnew : s.tasks (i, s.serial) = none := by
    by_contra hne
    exact absurd (h.registry.task _ hne).1 (lt_irrefl _)
  have hne : ∀ id, s.tasks id ≠ none → id ≠ (i, s.serial) := fun id ht he => ht (he ▸ hnew)
  refine ⟨fun id t ht he => ?_, ⟨h.registry.spawned, fun id ht => ?_, fun name id hc => ?_,
    fun id hid => ?_⟩, staged_update h.staged ?_ ⟨rfl, hnew, fun name hc => ?_, fun hmem => ?_, ?_⟩⟩
  · have hid := hne id (by rw [ht]; simp)
    refine (h.finished id t ht he).of_le (fun _ hc => hc) ?_ ?_
    · intro (hr : Function.update s.receivers _ 1 id ≠ 0)
      rwa [Function.update_of_ne hid] at hr
    · rintro (hc | (hheld : Function.update s.held _ true id = true) | hrest)
      · exact Or.inl hc
      · exact Or.inr (Or.inl (by rwa [Function.update_of_ne hid] at hheld))
      · exact Or.inr (Or.inr hrest)
  · obtain ⟨hlt, hheld, hin⟩ := h.registry.task id ht
    exact ⟨Nat.lt_succ_of_lt hlt, (Function.update_of_ne (hne id ht) _ _).trans hheld, hin⟩
  · obtain ⟨hlt, hrest⟩ := h.registry.channel name id hc
    exact ⟨Nat.lt_succ_of_lt hlt, hrest⟩
  · exact Nat.lt_succ_of_lt (h.registry.evicted id hid)
  · intro j g _ hj
    cases g with
    | made id' =>
      obtain ⟨h₁, h₂, h₃, h₄, h₅⟩ := hj
      exact ⟨h₁, h₂, h₃, h₄, Nat.lt_succ_of_lt h₅⟩
    | inserted id' =>
      obtain ⟨h₁, h₂, h₃, h₄⟩ := hj
      exact ⟨h₁, h₂, h₃, Nat.lt_succ_of_lt h₄⟩
    | _ => exact hj
  · exact absurd (h.registry.channel name _ hc).1 (lt_irrefl _)
  · exact absurd (h.registry.evicted _ hmem) (lt_irrefl _)
  · exact Nat.lt_succ_self _

theorem BridgeInv.insert (h : BridgeInv s γ) (hi : StageOk s i (.made id)) {name : String}
    (hnone : s.channels name = none) :
    BridgeInv { s with channels := Function.update s.channels name (some id) }
      (Function.update γ i (some (.inserted id))) := by
  obtain ⟨hcreator, htask, hunused, hev, hlt⟩ := hi
  have hcases : ∀ name' id', Function.update s.channels name (some id) name' = some id' →
      (name' = name ∧ id' = id) ∨ (name' ≠ name ∧ s.channels name' = some id') := by
    intro name' id' hc
    by_cases hn : name' = name
    · subst hn
      rw [Function.update_self] at hc
      exact Or.inl ⟨rfl, (Option.some.inj hc).symm⟩
    · exact Or.inr ⟨hn, by rwa [Function.update_of_ne hn] at hc⟩
  have hkeep : ∀ name' id', s.channels name' = some id' →
      Function.update s.channels name (some id) name' = some id' := by
    intro name' id' hc
    have hn : name' ≠ name := by rintro rfl; rw [hnone] at hc; cases hc
    rwa [Function.update_of_ne hn]
  have hold : ∀ id', id' ≠ id → ∀ name',
      Function.update s.channels name (some id) name' = some id' → s.channels name' = some id' := by
    intro id' hid name' hc
    rcases hcases name' id' hc with ⟨-, he⟩ | ⟨-, hc⟩
    · exact absurd he hid
    · exact hc
  refine ⟨fun id' t ht he => ?_, ⟨h.registry.spawned, fun id' ht => ?_, fun name' id' hc => ?_,
    h.registry.evicted⟩, staged_update h.staged ?_
      ⟨hcreator, htask, Or.inr ⟨name, Function.update_self _ _ _⟩, hlt⟩⟩
  · have hid : id' ≠ id := by rintro rfl; rw [htask] at ht; cases ht
    refine (h.finished id' t ht he).of_le (hold id' hid) (fun hr => hr) ?_
    rintro (⟨name', hc⟩ | hrest)
    · exact Or.inl ⟨name', hold id' hid name' hc⟩
    · exact Or.inr hrest
  · obtain ⟨hlt', hheld, hin⟩ := h.registry.task id' ht
    exact ⟨hlt', hheld, hin.imp_right fun ⟨name', hc⟩ => ⟨name', hkeep name' id' hc⟩⟩
  · rcases hcases name' id' hc with ⟨rfl, rfl⟩ | ⟨hn, hc₀⟩
    · refine ⟨hlt, hev, fun n hn => ?_⟩
      rcases hcases n id' hn with ⟨he, -⟩ | ⟨-, hc'⟩
      · exact he
      · exact absurd hc' (hunused n)
    · obtain ⟨hlt', hev', huniq⟩ := h.registry.channel name' id' hc₀
      refine ⟨hlt', hev', fun n hn' => ?_⟩
      rcases hcases n id' hn' with ⟨-, rfl⟩ | ⟨-, hc'⟩
      · exact (hunused name' hc₀).elim
      · exact huniq n hc'
  · intro j g hji hj
    cases g with
    | atEntry name' id' => exact ⟨hkeep name' id' hj.1, hj.2⟩
    | made id' =>
      obtain ⟨h₁, h₂, h₃, h₄, h₅⟩ := hj
      have hid : id' ≠ id := by rintro rfl; exact hji (h₁.symm.trans hcreator)
      exact ⟨h₁, h₂, fun n hn => h₃ n (hold id' hid n hn), h₄, h₅⟩
    | inserted id' =>
      obtain ⟨h₁, h₂, h₃, h₄⟩ := hj
      exact ⟨h₁, h₂, h₃.imp_right fun ⟨name', hc⟩ => ⟨name', hkeep name' id' hc⟩, h₄⟩
    | _ => exact hj

theorem BridgeInv.dropNew (h : BridgeInv s γ) (id : ChanId ι) :
    BridgeInv { s with receivers := Function.update s.receivers id (s.receivers id - 1),
                       held := Function.update s.held id false }
      (Function.update γ i (some .idle)) := by
  have hheld : ∀ id', s.held id' = false → Function.update s.held id false id' = false := by
    intro id' hh
    by_cases hid : id' = id
    · subst hid; exact Function.update_self _ _ _
    · rwa [Function.update_of_ne hid]
  refine ⟨fun id' t ht he => ?_, ⟨h.registry.spawned, fun id' ht => ?_, h.registry.channel,
    h.registry.evicted⟩, staged_update h.staged ?_ trivial⟩
  · refine (h.finished id' t ht he).of_le (fun _ hc => hc) ?_ ?_
    · intro (hr : Function.update s.receivers id (s.receivers id - 1) id' ≠ 0)
      by_cases hid : id' = id
      · subst hid; rw [Function.update_self] at hr; omega
      · rwa [Function.update_of_ne hid] at hr
    · rintro (hc | (hh : Function.update s.held id false id' = true) | hrest)
      · exact Or.inl hc
      · refine Or.inr (Or.inl ?_)
        by_contra hn
        rw [hheld id' (Bool.not_eq_true _ ▸ hn)] at hh
        cases hh
      · exact Or.inr (Or.inr hrest)
  · obtain ⟨hlt, hh, hin⟩ := h.registry.task id' ht
    exact ⟨hlt, hheld id' hh, hin⟩
  · intro j g _ hj
    cases g <;> exact hj

theorem BridgeInv.spawn (h : BridgeInv s γ) (hi : StageOk s i (.inserted id)) (name : String) :
    BridgeInv { s with tasks := Function.update s.tasks id (some ⟨s.channels, false⟩),
                       held := Function.update s.held id false,
                       spawned := s.spawned ++ [(name, id)] }
      (Function.update γ i (some .idle)) := by
  obtain ⟨hcreator, htask, hin, hlt⟩ := hi
  have hsome : ∀ id', s.tasks id' ≠ none →
      Function.update s.tasks id (some ⟨s.channels, false⟩) id' ≠ none := by
    intro id' ht
    by_cases hid : id' = id
    · subst hid; rw [Function.update_self]; simp
    · rwa [Function.update_of_ne hid]
  refine ⟨fun id' t ht he => ?_, ⟨fun n id' hmem => ?_, fun id' ht => ?_, h.registry.channel,
    h.registry.evicted⟩, staged_update h.staged ?_ trivial⟩
  · have ht : Function.update s.tasks id (some ⟨s.channels, false⟩) id' = some t := ht
    have hid : id' ≠ id := by
      rintro rfl
      rw [Function.update_self] at ht
      cases ht
      cases he
    rw [Function.update_of_ne hid] at ht
    refine (h.finished id' t ht he).of_le (fun _ hc => hc) (fun hr => hr) ?_
    rintro (hc | (hh : Function.update s.held id false id' = true) |
      ⟨t', (ht' : Function.update s.tasks id _ id' = some t'), he'⟩ |
      ⟨b, t', n, (ht' : Function.update s.tasks id _ b = some t'), he', hn⟩)
    · exact Or.inl hc
    · exact Or.inr (Or.inl (by rwa [Function.update_of_ne hid] at hh))
    · exact Or.inr (Or.inr (Or.inl ⟨t', by rwa [Function.update_of_ne hid] at ht', he'⟩))
    · by_cases hb : b = id
      · -- the new copy holds what the map holds
        subst hb
        rw [Function.update_self] at ht'
        cases ht'
        exact Or.inl ⟨n, hn⟩
      · rw [Function.update_of_ne hb] at ht'
        exact Or.inr (Or.inr (Or.inr ⟨b, t', n, ht', he', hn⟩))
  · rcases List.mem_append.mp hmem with hmem | hmem
    · exact hsome id' (h.registry.spawned n id' hmem)
    · cases List.mem_singleton.mp hmem
      show Function.update s.tasks id _ id ≠ none
      rw [Function.update_self]; simp
  · have ht : Function.update s.tasks id (some ⟨s.channels, false⟩) id' ≠ none := ht
    by_cases hid : id' = id
    · subst hid; exact ⟨hlt, Function.update_self _ _ _, hin⟩
    · rw [Function.update_of_ne hid] at ht
      obtain ⟨hlt', hh, hin'⟩ := h.registry.task id' ht
      exact ⟨hlt', (Function.update_of_ne hid _ _).trans hh, hin'⟩
  · intro j g hji hj
    cases g with
    | made id' =>
      obtain ⟨h₁, h₂, hrest⟩ := hj
      have hid : id' ≠ id := by rintro rfl; exact hji (h₁.symm.trans hcreator)
      exact ⟨h₁, (Function.update_of_ne hid _ _).trans h₂, hrest⟩
    | inserted id' =>
      obtain ⟨h₁, h₂, hrest⟩ := hj
      have hid : id' ≠ id := by rintro rfl; exact hji (h₁.symm.trans hcreator)
      exact ⟨h₁, (Function.update_of_ne hid _ _).trans h₂, hrest⟩
    | bridging id' => exact hsome id' hj
    | _ => exact hj

/-- A task whose copy of the map only shrinks, and which ends only if its sender is gone. -/
theorem BridgeInv.setTask (h : BridgeInv s γ) {t t' : Task ι} (ht : s.tasks id = some t)
    (hi : StageOk s i g)
    (hcopy : ∀ name id', t'.channelsRef name = some id' → t.channelsRef name = some id')
    (hended : t.ended = true → t'.ended = true)
    (hgone : t'.ended = true → t.ended = false →
      Gone { s with tasks := Function.update s.tasks id (some t') } id) :
    BridgeInv { s with tasks := Function.update s.tasks id (some t') }
      (Function.update γ i (some g)) := by
  have hstill : ∀ id', s.tasks id' ≠ none ↔ Function.update s.tasks id (some t') id' ≠ none := by
    intro id'
    by_cases hid : id' = id
    · subst hid; rw [Function.update_self, ht]; simp
    · rw [Function.update_of_ne hid]
  have hrunning : t'.ended = false → t.ended = false := by
    intro he
    by_contra hn
    rw [hended (by simpa using hn)] at he
    cases he
  have halive : ∀ id', Manager.SenderAlive
      { s with tasks := Function.update s.tasks id (some t') } id' → s.SenderAlive id' := by
    rintro id' (hc | hh | ⟨u, (hu : Function.update s.tasks id _ id' = some u), he⟩ |
      ⟨b, u, n, (hu : Function.update s.tasks id _ b = some u), he, hn⟩)
    · exact Or.inl hc
    · exact Or.inr (Or.inl hh)
    · by_cases hid : id' = id
      · subst hid
        rw [Function.update_self] at hu
        cases hu
        exact Or.inr (Or.inr (Or.inl ⟨t, ht, hrunning he⟩))
      · rw [Function.update_of_ne hid] at hu
        exact Or.inr (Or.inr (Or.inl ⟨u, hu, he⟩))
    · by_cases hb : b = id
      · subst hb
        rw [Function.update_self] at hu
        cases hu
        exact Or.inr (Or.inr (Or.inr ⟨b, t, n, ht, hrunning he, hcopy n id' hn⟩))
      · rw [Function.update_of_ne hb] at hu
        exact Or.inr (Or.inr (Or.inr ⟨b, u, n, hu, he, hn⟩))
  have hframe : ∀ j g, StageOk s j g →
      StageOk { s with tasks := Function.update s.tasks id (some t') } j g := by
    intro j g hj
    cases g with
    | made id' =>
      obtain ⟨h₁, h₂, hrest⟩ := hj
      exact ⟨h₁, not_not.mp fun hn => (hstill id').mpr hn h₂, hrest⟩
    | inserted id' =>
      obtain ⟨h₁, h₂, hrest⟩ := hj
      exact ⟨h₁, not_not.mp fun hn => (hstill id').mpr hn h₂, hrest⟩
    | bridging id' => exact (hstill id').mp hj
    | _ => exact hj
  refine ⟨fun id' u hu he => ?_, ⟨fun n id' hmem => ?_, fun id' hu => ?_, h.registry.channel,
    h.registry.evicted⟩, staged_update h.staged (fun j g _ => hframe j g) (hframe i g hi)⟩
  · have hu : Function.update s.tasks id (some t') id' = some u := hu
    by_cases hid : id' = id
    · subst hid
      rw [Function.update_self] at hu
      cases hu
      cases hte : t.ended with
      | false => exact hgone he hte
      | true =>
        exact (h.finished id' t ht hte).of_le (fun _ hc => hc) (fun hr => hr) (halive id')
    · rw [Function.update_of_ne hid] at hu
      exact (h.finished id' u hu he).of_le (fun _ hc => hc) (fun hr => hr) (halive id')
  · exact (hstill id').mp (h.registry.spawned n id' hmem)
  · exact h.registry.task id' ((hstill id').mpr hu)

theorem BridgeInv.copyRemove (h : BridgeInv s γ) (hi : StageOk s i (.bridging id))
    (id' : ChanId ι) (name : String) :
    BridgeInv { s with tasks := Function.update s.tasks id' ((s.tasks id').map fun t =>
        { t with channelsRef := Function.update t.channelsRef name none }) }
      (Function.update γ i (some (.bridging id))) := by
  cases ht : s.tasks id' with
  | none =>
    rw [Option.map_none, ← ht, Function.update_eq_self]
    exact h.same hi
  | some t =>
    refine h.setTask ht hi (fun n a hn => ?_) (fun he => he) ?_
    · have hn : Function.update t.channelsRef name none n = some a := hn
      by_cases hname : n = name
      · subst hname; rw [Function.update_self] at hn; cases hn
      · rwa [Function.update_of_ne hname] at hn
    · intro he hne
      rw [hne] at he
      cases he

/-- The sender of the bridge has been taken out of the map, and if it has receivers no other
    unfinished task holds a copy of the map with it. -/
def Out (s : Manager ι) (id : ChanId ι) : Prop :=
  id ∈ s.evicted ∧ (s.receivers id ≠ 0 → ∀ b t name, s.tasks b = some t → t.ended = false →
    t.channelsRef name = some id → b = id)

/-- A task that ends with its sender out leaves it gone. -/
theorem BridgeInv.finish (h : BridgeInv s γ) (hi : StageOk s i (.bridging id)) (hout : Out s id) :
    BridgeInv { s with tasks := Function.update s.tasks id ((s.tasks id).map fun t =>
        { t with ended := true }) } (Function.update γ i (some .idle)) := by
  obtain ⟨t, ht⟩ := Option.ne_none_iff_exists'.mp hi
  rw [ht]
  refine h.setTask ht trivial (fun _ _ hn => hn) (fun _ => rfl) fun _ _ => ⟨?_, ?_⟩
  · intro name hc
    exact (h.registry.channel name id hc).2.1 hout.1
  · rintro hne (⟨name, hc⟩ | hh | ⟨u, (hu : Function.update s.tasks id _ id = some u), he⟩ |
      ⟨b, u, n, (hu : Function.update s.tasks id _ b = some u), he, hn⟩)
    · exact (h.registry.channel name id hc).2.1 hout.1
    · rw [(h.registry.task id hi).2.1] at hh
      cases hh
    · rw [Function.update_self] at hu
      cases hu
      cases he
    · by_cases hb : b = id
      · subst hb
        rw [Function.update_self] at hu
        cases hu
        cases he
      · rw [Function.update_of_ne hb] at hu
        exact hb (hout.2 hne b u n hu he hn)

/-- A task that ends otherwise is not gone. -/
theorem BridgeInv.not_gone (h : BridgeInv s γ) (hi : StageOk s i (.bridging id))
    (hout : ¬ Out s id) :
    ¬ FinishedGone { s with tasks := Function.update s.tasks id ((s.tasks id).map fun t =>
        { t with ended := true }) } := by
  obtain ⟨t, ht⟩ := Option.ne_none_iff_exists'.mp hi
  intro hall
  have hgone := hall id { t with ended := true }
    (by rw [ht]; exact Function.update_self _ _ _) rfl
  rcases (h.registry.task id hi).2.2 with hev | ⟨name, hc⟩
  · refine hout ⟨hev, fun hne b u n hu he hn => ?_⟩
    by_contra hb
    refine hgone.2 hne (Or.inr (Or.inr (Or.inr ⟨b, u, n, ?_, he, hn⟩)))
    exact (Function.update_of_ne hb _ _).trans hu
  · exact hgone.1 name hc

/-- A client looks its name up. -/
theorem BridgeInv.lookup (h : BridgeInv s γ) {name : String} {r : Option (ChanId ι)}
    (hs : handle s i (.get name) .any = some (s', r)) :
    BridgeInv s' (Function.update γ i (some (Stage.looking.next (.get name) r))) := by
  simp only [handle] at hs
  split_ifs at hs
  cases hc : s.channels name with
  | none => rw [hc] at hs; cases hs; exact h.same trivial
  | some id => rw [hc] at hs; cases hs; exact h.get hc s.locked

/-- A client removes the entry of its name. -/
theorem BridgeInv.evict (h : BridgeInv s γ) {name : String} {r : Unit}
    (hs : handle s i (.remove name) .any = some (s', r)) :
    BridgeInv s' (Function.update γ i (some .looking)) := by
  simp only [handle] at hs
  split_ifs at hs with hg
  cases hs
  exact h.remove (by simpa using hg)

/-- A client with a new channel finds the entry vacant or occupied. -/
theorem BridgeInv.entry (h : BridgeInv s γ) (hi : StageOk s i (.made id)) {name : String}
    {r : Option (ChanId ι)} (hs : handle s i (.entry name id) .any = some (s', r)) :
    BridgeInv s' (Function.update γ i (some ((Stage.made id).next (.entry name id) r))) := by
  simp only [handle] at hs
  split_ifs at hs
  cases hc : s.channels name with
  | none => rw [hc] at hs; cases hs; exact h.insert hi hc
  | some existing => rw [hc] at hs; cases hs; exact h.get hc _

/-- What one operation of a call at stage `g` does to the invariant. -/
theorem handle_inv {o : Op ι} {x : Choice} {r : o.Ans} (hs : handle s i o x = some (s', r))
    (h : BridgeInv s γ) (hi : StageOk s i g) (hask : g.asks o)
    (hout : ∀ id, o = .finish id → Out s id) :
    BridgeInv s' (Function.update γ i (some (g.next o r))) := by
  by_cases hlooks : o.Looks
  · rw [handle_looks hs hlooks, Stage.next_looks hlooks]
    exact h.same hi
  obtain rfl : x = .any := by
    refine choice_any hs ?_ ?_ ?_ <;> (intros; rintro rfl; exact hlooks trivial)
  cases g with
  | looking =>
    cases o with
    | get name => exact h.lookup hs
    | create => cases hs; exact h.create
    | remove name => exact h.evict hs
    | dropReceiver id => cases hs; exact h.part id trivial
    | _ => exact hask.elim
  | atEntry name id =>
    cases o with
    | receiverCount id' => exact absurd trivial hlooks
    | subscribe id' => cases (show id' = id from hask); cases hs; exact h.join hi.1 hi
    | dropRef name' =>
      cases (show name' = name from hask)
      cases hs
      exact h.dropRef name s.locked trivial
    | dropEntry name' => cases (show name' = name from hask); cases hs; exact h.dropRef name _ trivial
    | _ => exact hask.elim
  | made id =>
    cases o with
    | entry name id' => cases (show id' = id from hask); exact h.entry hi hs
    | _ => exact hask.elim
  | inserted id =>
    cases o with
    | spawn name id' => cases (show id' = id from hask); cases hs; exact h.spawn hi name
    | _ => exact hask.elim
  | idle =>
    cases o with
    | dropNew id => cases hs; exact h.dropNew id
    | dropReceiver id => cases hs; exact h.part id trivial
    | _ => exact hask.elim
  | bridging id =>
    cases o with
    | copyRemove id' name => cases hs; exact h.copyRemove hi id' name
    | finish id' => cases (show id' = id from hask); cases hs; exact h.finish hi (hout id rfl)
    | park => exact r.elim
    | _ => first | exact absurd trivial hlooks | exact hask.elim

end Invariant

/-! ## All runs -/

section Pool

variable {ι : Type} [DecidableEq ι]

/-- Every task that ends has its sender out. -/
def TakenOut (c : PubSubConfig ι) (a : Act ι (Call ι) Choice) : Prop :=
  ∀ i x k id f, a = .step i x → c.calls i = .running k (.op (.finish id) f) → Out c.shared id

theorem bridges_sound : Pool.Sound (pubSub (ι := ι)) (stages ι) (fun _ => Quiet) Call.stage
    BridgeInv TakenOut where
  init s hs := by
    cases hs
    refine ⟨fun id t ht _ => ?_, ⟨fun n id hmem => ?_, fun id hid => ?_, fun n id hc => ?_,
      fun id hid => ?_⟩, fun i g hg => ?_⟩
    · cases ht
    · cases hmem
    · exact (hid rfl).elim
    · cases hc
    · cases hid
    · cases hg
  prog := Call.obeys
  start c i k s γ _ h hγ hs := by
    cases k with
    | client name =>
      cases hs
      exact h.same trivial
    | bridge name id fuel =>
      have hs : (if (name, id) ∈ c.shared.spawned then some _ else none) = some s := hs
      split_ifs at hs with hmem
      cases hs
      have hi : StageOk c.shared i (.bridging id) := h.registry.spawned name id hmem
      refine ⟨h.finished, ⟨fun n id' hn => ?_, h.registry.task, h.registry.channel,
        h.registry.evicted⟩, staged_update h.staged (fun j g _ hj => ?_) hi⟩
      · exact h.registry.spawned n id' (List.mem_of_mem_erase hn)
      · cases g <;> exact hj
  handle c i x k e f s r γ g ha h hF hi hγ hask hs := by
    refine ⟨g.next e r, rfl, ?_⟩
    exact handle_inv hs h (h.staged i g hγ) hask fun id hid => by subst hid; exact ha i x k id f rfl hi
  ret s i k γ g a h hγ _ := by
    refine ⟨h.finished, h.registry, fun j g' hj => ?_⟩
    by_cases hji : j = i
    · subst hji; rw [Function.update_self] at hj; cases hj
    · rw [Function.update_of_ne hji] at hj; exact h.staged j g' hj
  drop c i k p s γ g _ _ _ _ _ hs := by cases hs
  env c x s γ _ h hs := by
    cases x with
    | shutdown =>
      cases hs
      refine ⟨h.finished, h.registry.frame _ _ _ _, fun j g hj => ?_⟩
      have hok := h.staged j g hj
      cases g <;> exact hok
    | _ => cases hs

/-- Along a run from a new manager every finished bridge is gone exactly when every task
    that ends has its sender out. -/
theorem finishedGone_iff {c c' : PubSubConfig ι} {as : List (Act ι (Call ι) Choice)}
    (hc : (pubSub (ι := ι)).machine.init c) (hrun : pubSub.machine.run c as = some c') :
    pubSub.machine.Along (fun c => FinishedGone c.shared) c as ↔
      pubSub.machine.Meets TakenOut c as := by
  refine Machine.along_iff_meets (fun c a c' => bridges_sound.inv_step c a c') ?_ ?_
    (bridges_sound.inv_init hc) hrun
  · rintro c ⟨γ, h, -⟩
    exact h.finished
  · -- a task that ends otherwise is not gone when it has ended
    rintro c a c' ⟨γ, h, hF⟩ hbad hstep
    simp only [TakenOut, not_forall] at hbad
    obtain ⟨i, x, k, id, f, rfl, hi, hout⟩ := hbad
    obtain ⟨s, r, hs, rfl⟩ := Pool.act_step hstep hi
    obtain ⟨g, hγ, hask, -⟩ := by have := hF i; rw [hi] at this; exact this
    cases x with
    | any =>
      cases hs
      cases g with
      | bridging id' =>
        cases (show id = id' from hask)
        exact h.not_gone (h.staged i _ hγ) hout
      | _ => exact hask.elim
    | _ => cases hs

end Pool

/-! ## A bridge that gives up -/

/-- A client subscribes; Redis refuses every connection, and the bridge gives up. -/
def refused : List (Act (Fin 2) (Call (Fin 2)) Choice) :=
  [.start 0 (.client "likes"), .step 0 .any, .step 0 .any, .step 0 .any, .step 0 .any,
    .start 1 (.bridge "likes" (0, 0) 0)] ++
  (List.replicate 10 [.step 1 .any, .step 1 .any, .step 1 (.connected false),
    .step 1 (.cancelled false), .step 1 .any]).flatten ++
  [.step 1 .any, .step 1 .any, .step 1 (.connected false),
    .step 1 .any, .step 1 .any, .step 1 .any]

/-- After `refused` the bridge is over, but its sender is still what subscribers get, and its
    receiver never sees it closed. -/
theorem finished_stays : ∃ c, pubSub.machine.run ⟨.new, fun _ => .idle⟩ refused = some c ∧
    (∃ t, c.shared.tasks (0, 0) = some t ∧ t.ended = true) ∧
    c.shared.channels "likes" = some (0, 0) ∧ c.shared.receivers (0, 0) = 1 ∧
    c.shared.SenderAlive (0, 0) ∧ ¬ FinishedGone c.shared := by
  have hview : (pubSub.machine.run ⟨.new, fun _ => .idle⟩ refused).map (fun c =>
      ((c.shared.tasks (0, 0)).map Task.ended, c.shared.channels "likes",
        c.shared.receivers (0, 0))) = some (some true, some (0, 0), 1) := by
    decide +kernel
  obtain ⟨c, hrun, hc⟩ := Option.map_eq_some_iff.mp hview
  simp only [Prod.mk.injEq, Option.map_eq_some_iff] at hc
  obtain ⟨⟨t, ht, he⟩, hchannel, hreceivers⟩ := hc
  refine ⟨c, hrun, ⟨t, ht, he⟩, hchannel, hreceivers, Or.inl ⟨"likes", hchannel⟩, fun hall => ?_⟩
  exact (hall (0, 0) t ht he).1 "likes" hchannel

/-- Client 0 subscribes and drops its receiver; client 2 finds the stale sender, removes it and
    registers its own; then the bridge of the first sender, call 1, sees that nobody is left. -/
def replaced : List (Act (Fin 4) (Call (Fin 4)) Choice) :=
  .start 0 (.client "likes") :: List.replicate 4 (.step 0 .any) ++
    [.start 1 (.bridge "likes" (0, 0) 0), .step 0 .any, .start 2 (.client "likes")] ++
    List.replicate 7 (.step 2 .any) ++ List.replicate 5 (.step 1 .any)

/-- A task that ends has had its sender removed, and nobody has a receiver of it. -/
def endsUnused {ι : Type} [DecidableEq ι] (c : PubSubConfig ι) : Act ι (Call ι) Choice → Bool
  | .step i _ =>
    match c.calls i with
    | .running _ (.op (.finish id) _) => decide (id ∈ c.shared.evicted ∧ c.shared.receivers id = 0)
    | _ => true
  | _ => true

theorem takenOut_of_endsUnused {ι : Type} [DecidableEq ι] (c : PubSubConfig ι)
    (a : Act ι (Call ι) Choice) (h : endsUnused c a = true) : TakenOut c a := by
  rintro i x k id f rfl hi
  simp only [endsUnused, hi, decide_eq_true_eq] at h
  exact ⟨h.1, fun hr => absurd h.2 hr⟩

/-- `finishedGone_iff` for `replaced`, where every finished bridge is gone, and for `refused`. -/
theorem finishedGone_iff_replaced_refused :
    (∃ c, pubSub.machine.run ⟨.new, fun _ => .idle⟩ replaced = some c ∧
      (c.shared.tasks (0, 0)).map Task.ended = some true ∧
      c.shared.channels "likes" = some (2, 1) ∧
      pubSub.machine.Along (fun c => FinishedGone c.shared) ⟨.new, fun _ => .idle⟩ replaced) ∧
    (pubSub.machine.Along (fun c => FinishedGone c.shared) ⟨.new, fun _ => .idle⟩ refused ↔
      pubSub.machine.Meets TakenOut ⟨.new, fun _ => .idle⟩ refused) := by
  have hinit : (pubSub (ι := Fin 4)).machine.init ⟨.new, fun _ => .idle⟩ := ⟨rfl, fun _ => rfl⟩
  constructor
  · have hview : (pubSub.machine.run ⟨.new, fun _ => .idle⟩ replaced).map (fun c =>
        ((c.shared.tasks (0, 0)).map Task.ended, c.shared.channels "likes")) =
        some (some true, some (2, 1)) := by
      decide +kernel
    have hunused : pubSub.machine.meetsAll endsUnused ⟨.new, fun _ => .idle⟩ replaced = true := by
      decide +kernel
    obtain ⟨c, hrun, hc⟩ := Option.map_eq_some_iff.mp hview
    obtain ⟨hended, hchannel⟩ := Prod.mk.inj hc
    exact ⟨c, hrun, hended, hchannel, (finishedGone_iff hinit hrun).mpr
      (Machine.meets_of_meetsAll takenOut_of_endsUnused hunused)⟩
  · have hview : (pubSub.machine.run ⟨.new, fun _ => .idle⟩ refused).isSome = true := by
      decide +kernel
    obtain ⟨c, hrun⟩ := Option.isSome_iff_exists.mp hview
    exact finishedGone_iff ⟨rfl, fun _ => rfl⟩ hrun

end SocialApi.PubSub
