/-
A registry after any changes, whatever writes fail.

* `Change` — what can be done to a registry; `Registry.perform` does it, and gives what came of it
  (`Outcome`) and what is told about writes that failed;
* `Registry.after`, `Registry.outcomes` — many changes in a row;
* `Registry.Plan` — what a change comes to, which the miners and their order decide alone;
* `Registry.Consistent` — the miners are in order and summed up;
* `LawfulStore` — a store that keeps what it has taken, one value a key; `FlakyStore` is one whose
  writes fail by any pattern.

A change is its plan and no more (`perform_eq`), so that no write that fails shows in the miners,
their order and their sums. Those are consistent at all times, and a change whose writes were taken
is in the store.
-/
import MinerFleet.Proofs.Fleet.Order
import MinerFleet.Proofs.Registry.Devices
import MinerFleet.Store.File

namespace MinerFleet

/-! ### Stores -/

theorem KeyMap.get?_insert_self {α : Type} (m : KeyMap α) (key : String) (value : α) :
    (m.insert key value).get? key = some value :=
  (get?_insert m key key value).trans (if_pos rfl)

theorem KeyMap.get?_insert_of_ne {α : Type} (m : KeyMap α) {key other : String} (value : α)
    (h : other ≠ key) : (m.insert key value).get? other = m.get? other :=
  (get?_insert m key other value).trans (if_neg h.symm)

/-- A store that keeps what it has taken. A write, whether it fails or not, is about its own key. -/
class LawfulStore (σ : Type) [Store σ] : Prop where
  get?_put_self (s : σ) (key : String) (v : Json) (h : (Store.put s key v).2 = none) :
    Store.get? (Store.put s key v).1 key = some v
  get?_put_of_ne (s : σ) {key key' : String} (v : Json) (h : key' ≠ key) :
    Store.get? (Store.put s key v).1 key' = Store.get? s key'

instance : LawfulStore MemoryStore where
  get?_put_self s key v _ := KeyMap.get?_insert_self s key v
  get?_put_of_ne s _ _ v h := KeyMap.get?_insert_of_ne s v h

instance : LawfulStore ReadOnlyStore where
  get?_put_self _ _ _ h := nomatch h
  get?_put_of_ne _ _ _ _ _ := rfl

instance : LawfulStore FileStore where
  get?_put_self s key v _ := KeyMap.get?_insert_self s.values key v
  get?_put_of_ne s _ _ v h := KeyMap.get?_insert_of_ne s.values v h

/-- Values in memory, and which of the writes to come will fail; after those, all succeed. -/
structure FlakyStore where
  values : MemoryStore
  failing : List Bool

instance : Store FlakyStore where
  get? s key := s.values.get? key
  put s key v :=
    match s.failing with
    | true :: failing => ({ s with failing }, some (.storage "write failed"))
    | failing => ({ values := s.values.insert key v, failing := failing.tail }, none)

instance : LawfulStore FlakyStore where
  get?_put_self s key v h := by
    obtain ⟨values, failing⟩ := s
    cases failing with
    | nil => exact KeyMap.get?_insert_self values key v
    | cons fails failing =>
      cases fails with
      | true => cases h
      | false => exact KeyMap.get?_insert_self values key v
  get?_put_of_ne s key key' v h := by
    obtain ⟨values, failing⟩ := s
    cases failing with
    | nil => exact KeyMap.get?_insert_of_ne values v h
    | cons fails failing =>
      cases fails with
      | true => rfl
      | false => exact KeyMap.get?_insert_of_ne values v h

/-! ### Changes -/

inductive Change where
  | merge (found : List Device)
  | insert (d : Device)
  | remove (name : String)
  | refresh (results : List Device)
  | sortBy (field : SortField)
  | setSort (spec : SortSpec)

/-- A change of the order. -/
def Change.isOrder : Change → Bool
  | .sortBy _ | .setSort _ => true
  | _ => false

/-- What came of a change. -/
inductive Outcome where
  | added (n : Nat)
  | inserted
  | refused (fault : Fault)
  | removed (d : Option Device)
  | refreshed
  | ordered (spec : SortSpec)
deriving DecidableEq

namespace Registry

variable {σ τ : Type}

/-- The miners in order are no others, and they are summed up. -/
structure Consistent (r : Registry σ) : Prop where
  sorted : r.sort.Sorted r.devices
  totals : r.totals = MinerFleet.totals r.devices

/-- All of a registry but its store. -/
def memory (r : Registry σ) : List Device × SortSpec × Totals :=
  (r.devices, r.sort, r.totals)

/-- The same miners over another store. -/
def inStore (r : Registry σ) (store : τ) : Registry τ :=
  ⟨store, r.devices, r.sort, r.totals⟩

theorem memory_eq_iff {r : Registry σ} {s : Registry τ} :
    r.memory = s.memory ↔ s = r.inStore s.store := by
  obtain ⟨_, _, _, _⟩ := r
  obtain ⟨_, _, _, _⟩ := s
  simp [memory, inStore, eq_comm]

/-- What a change does to the miners or to their order. -/
inductive Plan where
  | nothing
  | miners (devices : List Device)
  | order (spec : SortSpec)

/-- What a change of some miners in some order comes to, and what comes of it. -/
def plan (devices : List Device) (sort : SortSpec) : Change → Plan × Outcome
  | .merge found =>
    if (newcomers devices found).length = 0 then (.nothing, .added 0)
    else (.miners (mergeInto devices found), .added (newcomers devices found).length)
  | .insert d =>
    if d.connectionAddress ∈ dialed devices then
      (.nothing, .refused (.duplicate d.connectionAddress))
    else (.miners (devices ++ [d]), .inserted)
  | .remove name =>
    match devices.find? (·.isKnownAs name) with
    | none => (.nothing, .removed none)
    | some d => (.miners (devices.eraseP (·.isKnownAs name)), .removed (some d))
  | .refresh results => (.miners (replaceFrom results [] devices), .refreshed)
  | .sortBy field => (.order (sort.select field), .ordered (sort.select field))
  | .setSort spec => (.order spec, .ordered spec)

theorem resort_consistent (r : Registry σ) : r.resort.Consistent :=
  ⟨r.sort.sorted_sort r.devices, rfl⟩

variable [Store σ] [Store τ]

/-- Makes a change; gives the registry after it, what came of it, and what to tell. -/
def perform (r : Registry σ) : Change → Registry σ × Outcome × List LogEvent
  | .merge found =>
    let (r, added, log) := r.merge found
    (r, .added added, log)
  | .insert d =>
    match r.insert d with
    | .error fault => (r, .refused fault, [])
    | .ok (r, log) => (r, .inserted, log)
  | .remove name =>
    match r.remove name with
    | none => (r, .removed none, [])
    | some (d, r, log) => (r, .removed (some d), log)
  | .refresh results =>
    let (r, log) := r.applyRefresh results
    (r, .refreshed, log)
  | .sortBy field =>
    let (r, log) := r.sortBy field
    (r, .ordered r.sort, log)
  | .setSort spec =>
    let (r, log) := r.setSort spec
    (r, .ordered r.sort, log)

/-- The registry after some changes, one after the other. -/
def after (r : Registry σ) : List Change → Registry σ
  | [] => r
  | c :: cs => (r.perform c).1.after cs

/-- What came of each of them. -/
def outcomes (r : Registry σ) : List Change → List Outcome
  | [] => []
  | c :: cs => (r.perform c).2.1 :: (r.perform c).1.outcomes cs

/-- Carries out a plan. -/
def carryOut (r : Registry σ) : Plan → Registry σ × List LogEvent
  | .nothing => (r, [])
  | .miners devices => { r with devices }.commit
  | .order spec => r.setSort spec

/-- A change is its plan. -/
theorem perform_eq (r : Registry σ) (c : Change) :
    r.perform c =
      ((r.carryOut (plan r.devices r.sort c).1).1, (plan r.devices r.sort c).2,
        (r.carryOut (plan r.devices r.sort c).1).2) := by
  cases c with
  | merge found =>
    -- How much longer the list has become is how many were new.
    have hlen : (mergeInto r.devices found).length - r.devices.length =
        (newcomers r.devices found).length := by
      rw [mergeInto_eq, List.length_append, Nat.add_sub_cancel_left]
    rw [perform, merge, plan, hlen]
    by_cases h : (newcomers r.devices found).length = 0
    · rw [if_pos h, if_pos h]
      rfl
    · rw [if_neg h, if_neg h]
      rfl
  | insert d =>
    rw [perform, insert, plan]
    by_cases h : d.connectionAddress ∈ dialed r.devices
    · rw [if_pos h, if_pos (dials_iff.mpr h)]
      rfl
    · rw [if_neg h, if_neg (mt dials_iff.mp h)]
      rfl
  | remove name =>
    rw [perform, remove, plan, find?]
    cases r.devices.find? (·.isKnownAs name) <;> rfl
  | refresh results => rfl
  | sortBy field => rfl
  | setSort spec => rfl

/-! ### Memory -/

/-- What a plan makes of the miners, their order and their sums does not depend on the store. -/
theorem memory_carryOut (r : Registry σ) (store : τ) (p : Plan) :
    (r.carryOut p).1.memory = ((r.inStore store).carryOut p).1.memory := by
  cases p <;> rfl

/-- Changes come to the same in memory, and the same comes of them, whatever the store does. -/
theorem same_inStore (r : Registry σ) (store : τ) (cs : List Change) :
    (r.after cs).memory = ((r.inStore store).after cs).memory ∧
      r.outcomes cs = (r.inStore store).outcomes cs := by
  induction cs generalizing r store with
  | nil => exact ⟨rfl, rfl⟩
  | cons c cs ih =>
    have hout : (r.perform c).2.1 = ((r.inStore store).perform c).2.1 := by
      rw [perform_eq, perform_eq]
      rfl
    have hmem : (r.perform c).1.memory = ((r.inStore store).perform c).1.memory := by
      rw [perform_eq, perform_eq]
      exact memory_carryOut r store _
    -- The stores differ from here on, but what is in memory does not.
    rw [memory_eq_iff] at hmem
    rw [after, after, outcomes, outcomes, hout, hmem]
    have hrest := ih (r.perform c).1 ((r.inStore store).perform c).1.store
    exact ⟨hrest.1, congrArg _ hrest.2⟩

/-! ### Consistency -/

theorem carryOut_consistent {r : Registry σ} (h : r.Consistent) (p : Plan) :
    (r.carryOut p).1.Consistent := by
  cases p with
  | nothing => exact h
  | miners devices =>
    have hs := resort_consistent { r with devices }
    exact ⟨hs.sorted, hs.totals⟩
  | order spec =>
    have hs := resort_consistent { r with sort := spec }
    exact ⟨hs.sorted, hs.totals⟩

theorem perform_consistent {r : Registry σ} (h : r.Consistent) (c : Change) :
    (r.perform c).1.Consistent := by
  rw [perform_eq]
  exact carryOut_consistent h _

theorem after_consistent {r : Registry σ} (h : r.Consistent) (cs : List Change) :
    (r.after cs).Consistent := by
  induction cs generalizing r with
  | nil => exact h
  | cons c cs ih => exact ih (perform_consistent h c)

theorem open_consistent (store : σ) : (open_ store).1.Consistent :=
  resort_consistent _

/-! ### The store -/

/-- Where a write was told of no fault, the value was taken. -/
theorem get?_save [LawfulStore σ] {r : Registry σ} {key : String} {v : Json}
    (telling : Fault → LogEvent) (h : (r.save key v telling).2 = []) :
    Store.get? (r.save key v telling).1.store key = some v := by
  have hf : (Store.put r.store key v).2 = none := by
    rw [save, List.map_eq_nil_iff, Option.toList_eq_nil_iff] at h
    exact h
  exact LawfulStore.get?_put_self _ _ _ hf

theorem get?_save_of_ne [LawfulStore σ] (r : Registry σ) {key key' : String} (v : Json)
    (telling : Fault → LogEvent) (h : key' ≠ key) :
    Store.get? (r.save key v telling).1.store key' = Store.get? r.store key' :=
  LawfulStore.get?_put_of_ne r.store v h

/-- A list that was committed without a fault is in the store. -/
theorem get?_commit [LawfulStore σ] {r : Registry σ} (h : r.commit.2 = []) :
    Store.get? r.commit.1.store Store.devicesKey = some (devicesJson r.commit.1.devices) :=
  get?_save .devicesNotSaved h

theorem get?_commit_of_ne [LawfulStore σ] (r : Registry σ) {key : String}
    (h : key ≠ Store.devicesKey) :
    Store.get? r.commit.1.store key = Store.get? r.store key :=
  get?_save_of_ne r.resort _ _ h

/-- Whoever carries out a plan without a fault has the miners in the store. -/
theorem get?_carryOut [LawfulStore σ] {r : Registry σ} {p : Plan} (hp : p ≠ .nothing)
    (h : (r.carryOut p).2 = []) :
    Store.get? (r.carryOut p).1.store Store.devicesKey =
      some (devicesJson (r.carryOut p).1.devices) := by
  cases p with
  | nothing => exact absurd rfl hp
  | miners devices => exact get?_commit h
  | order spec => exact get?_commit (List.append_eq_nil_iff.mp h).2

/-- A change that shows in the miners or in their order, and whose writes were taken, is in the
store. -/
theorem get?_perform [LawfulStore σ] {r : Registry σ} {c : Change}
    (hc : (r.perform c).1.devices ≠ r.devices ∨ (r.perform c).1.sort ≠ r.sort)
    (h : (r.perform c).2.2 = []) :
    Store.get? (r.perform c).1.store Store.devicesKey =
      some (devicesJson (r.perform c).1.devices) := by
  rw [perform_eq] at *
  refine get?_carryOut (fun hp => ?_) h
  rw [hp] at hc
  exact hc.elim (fun hd => hd rfl) (fun hs => hs rfl)

/-- An order that was set, and whose write was not told to have failed, is in the store. -/
theorem sort_perform_of_isOrder [LawfulStore σ] {r : Registry σ} {c : Change}
    (hc : c.isOrder = true) (h : ∀ fault, .sortNotSaved fault ∉ (r.perform c).2.2) :
    Store.get? (r.perform c).1.store Store.sortKey = some (r.perform c).1.sort.toJson := by
  -- The order is written before the miners, and either write may fail without the other.
  have hset : ∀ spec, (∀ fault, .sortNotSaved fault ∉ (r.setSort spec).2) →
      Store.get? (r.setSort spec).1.store Store.sortKey = some spec.toJson := by
    intro spec hlog
    have hsave : ({ r with sort := spec }.save Store.sortKey spec.toJson .sortNotSaved).2 = [] := by
      rw [List.eq_nil_iff_forall_not_mem]
      intro e he
      obtain ⟨fault, -, rfl⟩ := List.mem_map.mp he
      exact hlog fault (List.mem_append_left _ he)
    rw [setSort, get?_commit_of_ne _ (by decide)]
    exact get?_save .sortNotSaved hsave
  cases c with
  | sortBy field => exact hset _ h
  | setSort spec => exact hset _ h
  | merge found => cases hc
  | insert d => cases hc
  | remove name => cases hc
  | refresh results => cases hc

/-- Other changes leave the order alone, and what is stored of it. -/
theorem sort_perform_of_not_isOrder [LawfulStore σ] (r : Registry σ) {c : Change}
    (hc : c.isOrder = false) :
    Store.get? (r.perform c).1.store Store.sortKey = Store.get? r.store Store.sortKey ∧
      (r.perform c).1.sort = r.sort := by
  have hplan : ∀ spec, (plan r.devices r.sort c).1 ≠ .order spec := by
    intro spec hp
    cases c with
    | sortBy field => cases hc
    | setSort spec => cases hc
    | refresh results => cases hp
    | merge found =>
      rw [plan] at hp
      split at hp <;> cases hp
    | insert d =>
      rw [plan] at hp
      split at hp <;> cases hp
    | remove name =>
      rw [plan] at hp
      split at hp <;> cases hp
  rw [perform_eq]
  cases hp : (plan r.devices r.sort c).1 with
  | nothing => exact ⟨rfl, rfl⟩
  | miners devices => exact ⟨get?_commit_of_ne _ (by decide), rfl⟩
  | order spec => exact absurd hp (hplan spec)

theorem sort_after_of_not_isOrder [LawfulStore σ] (r : Registry σ) {cs : List Change}
    (h : ∀ c ∈ cs, c.isOrder = false) :
    Store.get? (r.after cs).store Store.sortKey = Store.get? r.store Store.sortKey ∧
      (r.after cs).sort = r.sort := by
  induction cs generalizing r with
  | nil => exact ⟨rfl, rfl⟩
  | cons c cs ih =>
    obtain ⟨hget, hsort⟩ := sort_perform_of_not_isOrder r (h c List.mem_cons_self)
    obtain ⟨hget', hsort'⟩ := ih (r.perform c).1 fun c hc => h c (List.mem_cons_of_mem _ hc)
    exact ⟨hget'.trans hget, hsort'.trans hsort⟩

theorem after_append (r : Registry σ) (as bs : List Change) :
    r.after (as ++ bs) = (r.after as).after bs := by
  induction as generalizing r with
  | nil => rfl
  | cons a as ih => exact ih _

/-- The order in force was set by one of some changes, and its write was not told to have
failed. -/
def OrderWritten (r : Registry σ) (cs : List Change) : Prop :=
  ∃ before c later, cs = before ++ c :: later ∧ c.isOrder = true ∧
    (∀ fault, .sortNotSaved fault ∉ ((r.after before).perform c).2.2) ∧
    ∀ c ∈ later, c.isOrder = false

theorem OrderWritten.get? [LawfulStore σ] {r : Registry σ} {cs : List Change}
    (h : r.OrderWritten cs) :
    Store.get? (r.after cs).store Store.sortKey = some (r.after cs).sort.toJson := by
  obtain ⟨before, c, later, rfl, hc, hlog, hlater⟩ := h
  obtain ⟨hget, hsort⟩ := sort_after_of_not_isOrder ((r.after before).perform c).1 hlater
  rw [after_append, after, hget, hsort]
  exact sort_perform_of_isOrder hc hlog

end Registry

end MinerFleet
