/-
The values that a reader gives.

* `Json.Normal` — a value that is the value of its own tree: in each of its objects the fields stand
  in the order of their keys, and no key stands twice.

What a reader takes for a value is normal, whatever the text was (`normal_of_value?`). Objects are
maps throughout, and told by their look-ups: `get?_ofList`, `get?_extend`.
-/
import MinerFleet.Proofs.Json.Fields

namespace MinerFleet

/-! ### Look-ups in maps -/

theorem lookup_of_mem {α : Type} {key : String} {a : α} {entries : List (String × α)}
    (hn : (entries.map Prod.fst).Nodup) (h : (key, a) ∈ entries) :
    lookup key entries = some a := by
  induction entries with
  | nil => exact absurd h List.not_mem_nil
  | cons e entries ih =>
    obtain ⟨k, v⟩ := e
    rw [List.map_cons, List.nodup_cons] at hn
    rw [lookup]
    rcases List.mem_cons.mp h with he | h
    · obtain ⟨rfl, rfl⟩ := Prod.mk.inj he
      exact if_pos rfl
    · rw [if_neg, ih hn.2 h]
      rintro rfl
      exact hn.1 (List.mem_map.mpr ⟨_, h, rfl⟩)

/-- Where no key stands twice, it does not matter from which end one looks. -/
theorem lookup_reverse {α : Type} (key : String) {entries : List (String × α)}
    (hn : (entries.map Prod.fst).Nodup) : lookup key entries.reverse = lookup key entries := by
  have hn' : (entries.reverse.map Prod.fst).Nodup := by
    rw [List.map_reverse]
    exact List.pairwise_reverse.mpr (hn.imp Ne.symm)
  refine Option.ext fun a => ⟨fun h => ?_, fun h => ?_⟩
  · exact lookup_of_mem hn (List.mem_reverse.mp (mem_of_lookup h))
  · exact lookup_of_mem hn' (List.mem_reverse.mpr (mem_of_lookup h))

namespace KeyMap

variable {α : Type}

theorem nodup_keys (m : KeyMap α) : (m.entries.map Prod.fst).Nodup := by
  refine List.pairwise_map.mpr (m.sorted.imp fun hlt he => ?_)
  rw [he] at hlt
  exact String.lt_irrefl _ hlt

/-- An entry of a map is what its key leads to. -/
theorem mem_entries {m : KeyMap α} {key : String} {a : α} :
    (key, a) ∈ m.entries ↔ m.get? key = some a :=
  ⟨lookup_of_mem m.nodup_keys, mem_of_lookup⟩

theorem get?_erase (m : KeyMap α) (key other : String) :
    (m.erase key).get? other = if key = other then none else m.get? other := by
  have herase : ∀ entries : List (String × α),
      lookup other (entries.filter fun e => e.1 ≠ key) =
        if key = other then none else lookup other entries := by
    intro entries
    induction entries with
    | nil =>
      rw [List.filter_nil, lookup]
      split <;> rfl
    | cons e entries ih =>
      obtain ⟨k, v⟩ := e
      by_cases hk : k = key
      · -- The entry is taken out, and there may be more with its key.
        subst hk
        rw [List.filter_cons_of_neg (by simp), ih, lookup]
        split <;> rfl
      · rw [List.filter_cons_of_pos (by simpa using hk), lookup, lookup, ih]
        by_cases ho : k = other
        · have hne : key ≠ other := fun he => hk (ho.trans he.symm)
          rw [if_pos ho, if_neg hne, if_pos ho]
        · rw [if_neg ho, if_neg ho]
  exact herase m.entries

theorem get?_insertAll (m : KeyMap α) (entries : List (String × α)) (key : String) :
    (m.insertAll entries).get? key = (lookup key entries.reverse).or (m.get? key) := by
  induction entries generalizing m with
  | nil => rfl
  | cons e entries ih =>
    have hstep : m.insertAll (e :: entries) = (m.insert e.1 e.2).insertAll entries := rfl
    rw [hstep, ih, List.reverse_cons, lookup_append, get?_insert]
    cases lookup key entries.reverse with
    | some a => rfl
    | none =>
      by_cases hk : e.1 = key
      · simp only [lookup, if_pos hk, Option.none_or, Option.some_or]
      · simp only [lookup, if_neg hk, Option.none_or]

/-- One map laid over another: the values of the other win. -/
theorem get?_extend (m other : KeyMap α) (key : String) :
    (m.extend other).get? key = (other.get? key).or (m.get? key) := by
  rw [extend, get?_insertAll, lookup_reverse key other.nodup_keys]
  rfl

/-- Of entries with the same key the last one stays. -/
theorem get?_ofList (entries : List (String × α)) (key : String) :
    (ofList entries).get? key = lookup key entries.reverse := by
  rw [ofList, get?_insertAll, get?_empty, Option.or_none]

theorem get?_ofList_of_nodup {entries : List (String × α)} (hn : (entries.map Prod.fst).Nodup)
    (key : String) : (ofList entries).get? key = lookup key entries := by
  rw [get?_ofList, lookup_reverse key hn]

/-- The entries of a map make the same map again. -/
@[simp] theorem ofList_entries (m : KeyMap α) : ofList m.entries = m :=
  ext fun key => get?_ofList_of_nodup m.nodup_keys key

/-- Entries that are those of a map, in any order, make this map. -/
theorem ofList_eq {entries : List (String × α)} {m : KeyMap α}
    (h : ∀ key a, (key, a) ∈ entries ↔ m.get? key = some a) : ofList entries = m := by
  refine ext fun key => ?_
  rw [get?_ofList]
  cases hl : lookup key entries.reverse with
  | some a => exact ((h key a).mp (List.mem_reverse.mp (mem_of_lookup hl))).symm
  | none =>
    cases hm : m.get? key with
    | none => rfl
    | some a =>
      have hmem := List.mem_reverse.mpr ((h key a).mpr hm)
      exact absurd rfl (lookup_eq_none.mp hl _ hmem)

theorem mem_of_mem_ofList {entries : List (String × α)} {e : String × α}
    (h : e ∈ (ofList entries).entries) : e ∈ entries := by
  obtain ⟨key, a⟩ := e
  rw [mem_entries, get?_ofList] at h
  exact List.mem_reverse.mp (mem_of_lookup h)

end KeyMap

/-! ### Normal values -/

/-- A value that is the value of its own tree. -/
def Json.Normal (v : Json) : Prop :=
  (Document.ofJson v).value? = some v

namespace Json

theorem normal_number (n : Number) : (Json.number n).Normal := rfl

theorem normal_string (s : String) : (Json.string s).Normal := rfl

theorem valuesOf?_ofItems {items : List Json} (h : ∀ v ∈ items, v.Normal) :
    Document.valuesOf? (Document.ofItems items) = some items := by
  induction items with
  | nil => rfl
  | cons v items ih =>
    obtain ⟨hv, hitems⟩ := List.forall_mem_cons.mp h
    have hv : (Document.ofJson v).value? = some v := hv
    rw [Document.ofItems, Document.valuesOf?, hv, ih hitems]

theorem fieldValues?_ofFields {fields : List (String × Json)} (h : ∀ f ∈ fields, f.2.Normal) :
    Document.fieldValues? (Document.ofFields fields) = some fields := by
  induction fields with
  | nil => rfl
  | cons f fields ih =>
    obtain ⟨hf, hfields⟩ := List.forall_mem_cons.mp h
    obtain ⟨key, v⟩ := f
    have hf : (Document.ofJson v).value? = some v := hf
    rw [Document.ofFields, Document.fieldValues?, hf, ih hfields]

theorem normal_array {items : List Json} (h : ∀ v ∈ items, v.Normal) :
    (Json.array items).Normal := by
  rw [Normal, Document.ofJson, Document.value?, valuesOf?_ofItems h]
  rfl

theorem normal_ofMap {m : KeyMap Json} (h : ∀ e ∈ m.entries, e.2.Normal) : (ofMap m).Normal := by
  rw [Normal, ofMap, Document.ofJson, Document.value?, fieldValues?_ofFields h]
  show some (Json.record m.entries) = some (ofMap m)
  rw [record, KeyMap.ofList_entries]

mutual
/-- What a reader takes for the value of a text is normal. -/
theorem normal_of_value? : ∀ {doc : Document} {v : Json}, doc.value? = some v → v.Normal
  | .null, v, h => by
    rw [← Option.some.inj h]
    rfl
  | .bool b, v, h => by
    rw [← Option.some.inj h]
    rfl
  | .number n, v, h => by
    rw [← Option.some.inj h]
    rfl
  | .string s, v, h => by
    rw [← Option.some.inj h]
    rfl
  | .array items damage, v, h => by
    rw [Document.value?] at h
    split at h
    · cases h
    · obtain ⟨vs, hvs, rfl⟩ := Option.map_eq_some_iff.mp h
      exact normal_array (normal_of_valuesOf? hvs)
  | .object fields damage, v, h => by
    rw [Document.value?] at h
    split at h
    · cases h
    · obtain ⟨es, hes, rfl⟩ := Option.map_eq_some_iff.mp h
      exact normal_ofMap fun e he => normal_of_fieldValues? hes e (KeyMap.mem_of_mem_ofList he)
  | .damaged damage, v, h => by cases h

theorem normal_of_valuesOf? : ∀ {docs : List Document} {vs : List Json},
    Document.valuesOf? docs = some vs → ∀ v ∈ vs, v.Normal
  | [], vs, h => by
    rw [← Option.some.inj h]
    exact List.forall_mem_nil _
  | doc :: docs, vs, h => by
    rw [Document.valuesOf?] at h
    split at h
    · rename_i v' vs' hv' hvs'
      rw [← Option.some.inj h]
      exact List.forall_mem_cons.mpr ⟨normal_of_value? hv', normal_of_valuesOf? hvs'⟩
    · cases h

theorem normal_of_fieldValues? : ∀ {docs : List (String × Document)} {es : List (String × Json)},
    Document.fieldValues? docs = some es → ∀ e ∈ es, e.2.Normal
  | [], es, h => by
    rw [← Option.some.inj h]
    exact List.forall_mem_nil _
  | (key, doc) :: docs, es, h => by
    rw [Document.fieldValues?] at h
    split at h
    · rename_i v' es' hv' hes'
      rw [← Option.some.inj h]
      exact List.forall_mem_cons.mpr ⟨normal_of_value? hv', normal_of_fieldValues? hes'⟩
    · cases h
end

/-- A normal object is a map of normal values. -/
theorem Normal.object {fields : List (String × Json)} (h : (Json.object fields).Normal) :
    ∃ m : KeyMap Json, fields = m.entries ∧ ∀ e ∈ m.entries, e.2.Normal := by
  rw [Normal, Document.ofJson, Document.value?] at h
  obtain ⟨es, hes, he⟩ := Option.map_eq_some_iff.mp h
  refine ⟨KeyMap.ofList es, (Json.object.inj he).symm, fun e hm => ?_⟩
  exact normal_of_fieldValues? hes e (KeyMap.mem_of_mem_ofList hm)

end Json

end MinerFleet
