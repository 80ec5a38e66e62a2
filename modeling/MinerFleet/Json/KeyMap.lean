/-
Maps from text to values, kept in the order of their keys.

* `KeyMap` — entries in strictly increasing order of their keys;
* `KeyMap.get?`, `KeyMap.insert`, `KeyMap.erase` — look up, put, take out;
* `KeyMap.ofList` — of entries with the same key the last one stays;
* `KeyMap.extend` — one map laid over another.

Keys are compared character by character. `get?_insert` and `get?_extend` say what the operations
do to a look-up, and `ext` that look-ups tell two maps apart.
-/

namespace MinerFleet

/-- The entry for a key in a list of entries; of several the first. -/
def lookup {α : Type} (key : String) : List (String × α) → Option α
  | [] => none
  | (k, v) :: rest => if k = key then some v else lookup key rest

/-- Strictly increasing keys. -/
def KeysSorted {α : Type} (entries : List (String × α)) : Prop :=
  entries.Pairwise fun a b => a.1 < b.1

/-- Puts an entry at its place among sorted entries, instead of one with the same key. -/
def insertEntry {α : Type} (key : String) (value : α) :
    List (String × α) → List (String × α)
  | [] => [(key, value)]
  | (k, v) :: rest =>
    if key < k then (key, value) :: (k, v) :: rest
    else if k = key then (key, value) :: rest
    else (k, v) :: insertEntry key value rest

theorem mem_insertEntry {α : Type} {key : String} {value : α} {e : String × α} :
    ∀ {entries : List (String × α)}, e ∈ insertEntry key value entries →
      e = (key, value) ∨ e ∈ entries
  | [], h => by simpa [insertEntry] using h
  | (k, v) :: rest, h => by
    unfold insertEntry at h
    split at h
    · simpa using h
    · split at h
      · rcases List.mem_cons.1 h with h | h
        · exact .inl h
        · exact .inr (List.mem_cons_of_mem _ h)
      · rcases List.mem_cons.1 h with h | h
        · exact .inr (h ▸ List.mem_cons_self)
        · rcases mem_insertEntry h with h | h
          · exact .inl h
          · exact .inr (List.mem_cons_of_mem _ h)

private theorem lt_of_not_lt_of_ne {a b : String} (h : ¬ a < b) (hne : b ≠ a) : b < a :=
  Decidable.byContradiction fun h' => hne (String.le_antisymm (String.not_lt.1 h)
    (String.not_lt.1 h'))

theorem keysSorted_insertEntry {α : Type} (key : String) (value : α) :
    ∀ {entries : List (String × α)}, KeysSorted entries →
      KeysSorted (insertEntry key value entries)
  | [], _ => by simp [insertEntry, KeysSorted]
  | (k, v) :: rest, h => by
    obtain ⟨hk, hrest⟩ := List.pairwise_cons.1 h
    unfold insertEntry
    split
    · rename_i hlt
      refine List.pairwise_cons.2 ⟨fun e he => ?_, h⟩
      rcases List.mem_cons.1 he with rfl | he
      · exact hlt
      · exact String.lt_trans hlt (hk e he)
    · split
      · rename_i heq
        subst heq
        exact List.pairwise_cons.2 ⟨hk, hrest⟩
      · rename_i hnlt hne
        refine List.pairwise_cons.2 ⟨fun e he => ?_, keysSorted_insertEntry key value hrest⟩
        rcases mem_insertEntry he with rfl | he
        · exact lt_of_not_lt_of_ne hnlt hne
        · exact hk e he

/-- A map from texts to values, as its entries in the order of their keys. -/
structure KeyMap (α : Type) where
  entries : List (String × α)
  sorted : KeysSorted entries

namespace KeyMap

variable {α : Type}

instance [DecidableEq α] : DecidableEq (KeyMap α) := fun a b =>
  if h : a.entries = b.entries then
    isTrue (by cases a; cases b; simp_all)
  else
    isFalse fun e => h (congrArg entries e)

/-- The map without entries. -/
def empty : KeyMap α :=
  ⟨[], List.Pairwise.nil⟩

instance : Inhabited (KeyMap α) := ⟨empty⟩

def isEmpty (m : KeyMap α) : Bool :=
  m.entries.isEmpty

def get? (m : KeyMap α) (key : String) : Option α :=
  lookup key m.entries

/-- Puts a value under a key, instead of the one that is there. -/
def insert (m : KeyMap α) (key : String) (value : α) : KeyMap α :=
  ⟨insertEntry key value m.entries, keysSorted_insertEntry key value m.sorted⟩

/-- Takes a key and its value out. -/
def erase (m : KeyMap α) (key : String) : KeyMap α :=
  ⟨m.entries.filter (fun e => e.1 ≠ key), m.sorted.filter _⟩

/-- The later entries laid over the map, one after the other. -/
def insertAll (m : KeyMap α) (entries : List (String × α)) : KeyMap α :=
  entries.foldl (fun m e => m.insert e.1 e.2) m

/-- The map of some entries; of entries with the same key the last one stays. -/
def ofList (entries : List (String × α)) : KeyMap α :=
  empty.insertAll entries

/-- Another map laid over the map: the other's values win. -/
def extend (m other : KeyMap α) : KeyMap α :=
  m.insertAll other.entries

/-! ### Look-ups -/

theorem lookup_eq_none_of_lt {key : String} : ∀ {entries : List (String × α)},
    (∀ e ∈ entries, key < e.1) → lookup key entries = none
  | [], _ => rfl
  | (k, v) :: rest, h => by
    have hk : key < k := h (k, v) List.mem_cons_self
    have hne : k ≠ key := fun e => String.lt_irrefl _ (e ▸ hk)
    simp only [lookup, hne, if_false]
    exact lookup_eq_none_of_lt fun e he => h e (List.mem_cons_of_mem _ he)

theorem lookup_insertEntry (key other : String) (value : α) :
    ∀ {entries : List (String × α)}, KeysSorted entries →
      lookup other (insertEntry key value entries) =
        if key = other then some value else lookup other entries
  | [], _ => by simp [insertEntry, lookup]
  | (k, v) :: rest, h => by
    obtain ⟨hk, hrest⟩ := List.pairwise_cons.1 h
    unfold insertEntry
    split
    · simp [lookup]
    · split
      · rename_i heq
        subst heq
        by_cases ho : k = other <;> simp [lookup, ho]
      · rename_i hne
        by_cases ho : k = other
        · subst ho
          have : key ≠ k := fun e => hne e.symm
          simp [lookup, this]
        · simp [lookup, ho, lookup_insertEntry key other value hrest]

@[simp] theorem get?_empty (key : String) : (empty : KeyMap α).get? key = none := rfl

theorem get?_insert (m : KeyMap α) (key other : String) (value : α) :
    (m.insert key value).get? other = if key = other then some value else m.get? other :=
  lookup_insertEntry key other value m.sorted

/-- Two maps with the same look-ups are the same map. -/
theorem entries_ext : ∀ {a b : List (String × α)}, KeysSorted a → KeysSorted b →
    (∀ key, lookup key a = lookup key b) → a = b
  | [], [], _, _, _ => rfl
  | [], (k, v) :: _, _, _, h => by simpa [lookup] using h k
  | (k, v) :: _, [], _, _, h => by simpa [lookup] using h k
  | (k, v) :: as, (j, w) :: bs, ha, hb, h => by
    obtain ⟨hk, has⟩ := List.pairwise_cons.1 ha
    obtain ⟨hj, hbs⟩ := List.pairwise_cons.1 hb
    have hkj : k = j := by
      by_cases hkj : k = j
      · exact hkj
      · exfalso
        by_cases hlt : k < j
        · have hnone : lookup k ((j, w) :: bs) = none := lookup_eq_none_of_lt fun e he => by
            rcases List.mem_cons.1 he with rfl | he
            · exact hlt
            · exact String.lt_trans hlt (hj e he)
          have := h k
          rw [hnone] at this
          simp [lookup] at this
        · have hgt : j < k := lt_of_not_lt_of_ne hlt (fun e => hkj e.symm)
          have hnone : lookup j ((k, v) :: as) = none := lookup_eq_none_of_lt fun e he => by
            rcases List.mem_cons.1 he with rfl | he
            · exact hgt
            · exact String.lt_trans hgt (hk e he)
          have := h j
          rw [hnone] at this
          simp [lookup] at this
    subst hkj
    have hvw : v = w := by simpa [lookup] using h k
    subst hvw
    congr 1
    refine entries_ext has hbs fun key => ?_
    by_cases hkey : k = key
    · subst hkey
      rw [lookup_eq_none_of_lt hk, lookup_eq_none_of_lt hj]
    · simpa [lookup, hkey] using h key

@[ext] theorem ext {a b : KeyMap α} (h : ∀ key, a.get? key = b.get? key) : a = b := by
  have := entries_ext a.sorted b.sorted h
  cases a
  cases b
  simp_all

end KeyMap

end MinerFleet
