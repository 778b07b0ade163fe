import SocialApi.Services.Effects
import SocialApi.Services.TextSources

/-!
# The order of reads, commits and stores

A call reads the tables, or commits a change, in one step and stores what it was told in later
ones. In between other calls may commit. From the record of all operations one can tell

* whether what a call was last told of a key has been overtaken since (`Order.stale`): another
  call has committed a change of the key, or the call has it from an entry of Redis that the
  author of the last change was yet to settle;
* which call has made the last change of a key and has not yet stored or deleted an entry of that
  key (`Order.debtor`).

No text that a call returns or stores is looked at.
-/

namespace SocialApi.Services

open SocialApi.Concurrent SocialApi.Postgres SocialApi.Repositories

/-! ## One operation -/

/-- The key of a page. -/
def IsPageKey : CacheKey → Bool
  | .ul _ _ => true
  | _ => false

namespace Effect

variable {ι : Type}

/-- The operation changes what the tables give for the key. Only a commit does. -/
def alters (C : Codec) (p : Effect ι) (key : CacheKey) : Bool :=
  tableText C p.tablesAfter key ≠ tableText C p.tablesBefore key

/-- The answer comes from the cache. -/
def loads (p : Effect ι) : Bool :=
  match p.op with
  | .cache _ => true
  | _ => false

/-- The call is told the text of the key. Its own change tells a call the new count and status,
    not the new pages. -/
def informs (C : Codec) (p : Effect ι) (key : CacheKey) : Bool :=
  (tells C p.op p.answer key).isSome || !IsPageKey key && p.alters C key

variable {C : Codec} {p : Effect ι} {key : CacheKey}

theorem alters_eq_false :
    p.alters C key = false ↔ tableText C p.tablesAfter key = tableText C p.tablesBefore key := by
  unfold alters
  rw [decide_eq_false_iff_not, not_not]

theorem alters_of_same (h : p.tablesAfter = p.tablesBefore) : p.alters C key = false :=
  alters_eq_false.mpr (by rw [h])

/-- An operation on anything but the database alters nothing. -/
theorem alters_of_handle [DecidableEq ι] {cfg : Config} {s s' : World ι} {i : ι} {op : SvcOp}
    {x : SvcChoice} {r : op.Ans} (h : handle cfg s i op x = some (s', r)) (hop : op.OffDb) :
    Effect.alters C ⟨i, op, r, s, s'⟩ key = false :=
  alters_of_same (congrArg (fun d => d.store.committed) (handle_offDb h hop))

/-- A change alters its own keys only. -/
theorem keys_of_alters {ch : Change} (hchanged : Changed p.tablesBefore ch p.tablesAfter)
    (h : p.alters C key = true) : ch.Keys key := by
  by_contra hkey
  rw [alters_eq_false.mpr (hchanged.tableText_eq hkey)] at h
  cases h

end Effect

/-! ## All of them -/

/-- What the record tells of the calls and the entries. -/
structure Order (ι : Type) where
  /-- What the call was last told of the key is overtaken. -/
  stale : ι → CacheKey → Bool
  /-- The call that has made the last change of the key, if it has not settled the entry since. -/
  debtor : Cache.Layer × CacheKey → Option ι

variable {ι : Type} [DecidableEq ι]

/-- One more operation. -/
def Order.after (C : Codec) (o : Order ι) (p : Effect ι) : Order ι where
  stale i key :=
    if p.call = i ∧ p.informs C key = true then p.loads && (o.debtor (.redis, key)).isSome
    else o.stale i key || p.alters C key
  debtor cell :=
    if p.alters C cell.2 = true then some p.call
    else if o.debtor cell = some p.call ∧ settles cell p.op = true then none
    else o.debtor cell

/-- What a record tells. -/
def order (C : Codec) (log : List (Effect ι)) : Order ι :=
  log.foldl (Order.after C) ⟨fun _ _ => false, fun _ => none⟩

@[simp] theorem order_snoc (C : Codec) (log : List (Effect ι)) (p : Effect ι) :
    order C (log ++ [p]) = (order C log).after C p :=
  List.foldl_append

section After

variable {C : Codec} {o : Order ι} {p : Effect ι} {i j : ι} {key : CacheKey}
  {cell : Cache.Layer × CacheKey}

/-- What a call has been told and has not been told again stays as it is while the key does. -/
theorem Order.stale_of_after (hnot : ¬ (p.call = i ∧ p.informs C key = true))
    (h : (o.after C p).stale i key = false) : o.stale i key = false ∧ p.alters C key = false := by
  have h : (if p.call = i ∧ p.informs C key = true then p.loads && (o.debtor (.redis, key)).isSome
    else o.stale i key || p.alters C key) = false := h
  rw [if_neg hnot] at h
  exact Bool.or_eq_false_iff.mp h

/-- What a call is told by Redis is overtaken while a call has the entry to settle. -/
theorem Order.debtor_of_after (hinforms : p.informs C key = true) (hloads : p.loads = true)
    (h : (o.after C p).stale p.call key = false) : o.debtor (.redis, key) = none := by
  have h : (if p.call = p.call ∧ p.informs C key = true then
    p.loads && (o.debtor (.redis, key)).isSome else o.stale p.call key || p.alters C key) =
      false := h
  rw [if_pos ⟨rfl, hinforms⟩, hloads, Bool.true_and] at h
  exact Option.not_isSome_iff_eq_none.mp (by rw [h]; decide)

/-- Who has an entry to settle after an operation: the call that has altered its key, or the one
    that had it before, and has not settled it. -/
theorem Order.debtor_after (h : (o.after C p).debtor cell = some j) :
    p.alters C cell.2 = true ∧ j = p.call ∨
      p.alters C cell.2 = false ∧ o.debtor cell = some j ∧
        ¬ (j = p.call ∧ settles cell p.op = true) := by
  have h : (if p.alters C cell.2 = true then some p.call
    else if o.debtor cell = some p.call ∧ settles cell p.op = true then none
    else o.debtor cell) = some j := h
  split_ifs at h with halters hsettles
  · exact Or.inl ⟨halters, (Option.some.inj h).symm⟩
  · refine Or.inr ⟨Bool.eq_false_iff.mpr halters, h, ?_⟩
    rintro ⟨rfl, hp⟩
    exact hsettles ⟨h, hp⟩

/-- A call that has an entry to settle has it until it does, while nobody alters the key. -/
theorem Order.debtor_kept (halters : p.alters C cell.2 = false) (h : o.debtor cell = some j)
    (hnot : ¬ (j = p.call ∧ settles cell p.op = true)) : (o.after C p).debtor cell = some j := by
  show (if p.alters C cell.2 = true then some p.call
    else if o.debtor cell = some p.call ∧ settles cell p.op = true then none
    else o.debtor cell) = some j
  rw [if_neg (by rw [halters]; decide), if_neg, h]
  rintro ⟨hdebtor, hp⟩
  exact hnot ⟨Option.some.inj (h.symm.trans hdebtor), hp⟩

/-- Who alters a key has its entries to settle. -/
theorem Order.debtor_of_alters (halters : p.alters C cell.2 = true) :
    (o.after C p).debtor cell = some p.call :=
  if_pos halters

end After

end SocialApi.Services
