/-
What the judgement of a record's fields comes to.

* `Judged` — a field may stand in a record;
* `knownFields` — the fields that some rule knows, under the names of their rules;
* `Plainly` — every known field stands under the own name of its rule.

`judgeFields_eq_ok` says exactly which fields are let through. From then on a record is a matter of
look-ups: `lookup_knownFields` for a field whose rule has no other names, and
`lookup_knownFields_of_plainly` where no field stands under another name.
-/
import MinerFleet.Json.Decode

namespace MinerFleet

theorem bind_eq_ok {ε α β : Type} {x : Except ε α} {f : α → Except ε β} {b : β} :
    x >>= f = .ok b ↔ ∃ a, x = .ok a ∧ f a = .ok b := by
  cases x with
  | error e =>
    constructor
    · rintro ⟨⟩
    · rintro ⟨_, ⟨⟩, _⟩
  | ok a =>
    refine ⟨fun h => ⟨a, rfl, h⟩, ?_⟩
    rintro ⟨a', ha, h⟩
    rw [Except.ok.inj ha]
    exact h

theorem bind_eq_error {ε α β : Type} {x : Except ε α} {f : α → Except ε β} {e : ε} :
    x >>= f = .error e ↔ x = .error e ∨ ∃ a, x = .ok a ∧ f a = .error e := by
  cases x with
  | error e' =>
    constructor
    · rintro ⟨⟩
      exact .inl rfl
    · rintro (⟨⟨⟩⟩ | ⟨_, ⟨⟩, _⟩)
      rfl
  | ok a =>
    constructor
    · exact fun h => .inr ⟨a, rfl, h⟩
    · rintro (⟨⟨⟩⟩ | ⟨_, ⟨⟩, h⟩)
      exact h

theorem pure_eq_ok {ε α : Type} {a b : α} : (pure a : Except ε α) = .ok b ↔ a = b :=
  ⟨Except.ok.inj, congrArg Except.ok⟩

theorem check_eq_ok {ε β : Type} {x : Except ε Unit} {y : Except ε β} {b : β} :
    (x >>= fun _ => y) = .ok b ↔ x = .ok () ∧ y = .ok b := by
  rw [bind_eq_ok]
  exact ⟨fun ⟨_, hx, hy⟩ => ⟨hx, hy⟩, fun ⟨hx, hy⟩ => ⟨(), hx, hy⟩⟩

theorem map_eq_ok {ε α β : Type} {x : Except ε α} {f : α → β} {b : β} :
    x.map f = .ok b ↔ ∃ a, x = .ok a ∧ f a = b := by
  cases x with
  | error e =>
    constructor
    · rintro ⟨⟩
    · rintro ⟨_, ⟨⟩, _⟩
  | ok a =>
    refine ⟨fun h => ⟨a, rfl, Except.ok.inj h⟩, ?_⟩
    rintro ⟨a', ha, rfl⟩
    rw [Except.ok.inj ha]
    rfl

/-! ### Look-ups -/

theorem mem_of_lookup {α : Type} {key : String} {a : α} {entries : List (String × α)}
    (h : lookup key entries = some a) : (key, a) ∈ entries := by
  induction entries with
  | nil => cases h
  | cons e entries ih =>
    obtain ⟨k, v⟩ := e
    rw [lookup] at h
    by_cases hk : k = key
    · rw [if_pos hk] at h
      rw [← hk, ← Option.some.inj h]
      exact List.mem_cons_self
    · rw [if_neg hk] at h
      exact List.mem_cons_of_mem _ (ih h)

theorem lookup_eq_none {α : Type} {key : String} {entries : List (String × α)} :
    lookup key entries = none ↔ ∀ e ∈ entries, e.1 ≠ key := by
  induction entries with
  | nil => exact ⟨fun _ e he => absurd he List.not_mem_nil, fun _ => rfl⟩
  | cons e entries ih =>
    obtain ⟨k, v⟩ := e
    rw [lookup, List.forall_mem_cons]
    by_cases hk : k = key
    · rw [if_pos hk]
      exact iff_of_false (Option.some_ne_none v) fun h => h.1 hk
    · rw [if_neg hk, ih]
      exact ⟨fun h => ⟨hk, h⟩, fun h => h.2⟩

theorem lookup_append {α : Type} (key : String) (as bs : List (String × α)) :
    lookup key (as ++ bs) = (lookup key as).or (lookup key bs) := by
  induction as with
  | nil => rfl
  | cons e as ih =>
    obtain ⟨k, v⟩ := e
    rw [List.cons_append, lookup, lookup]
    by_cases hk : k = key
    · rw [if_pos hk, if_pos hk, Option.some_or]
    · rw [if_neg hk, if_neg hk, ih]

/-! ### Rules -/

namespace FieldRule

theorem mem_of_find? {rules : List FieldRule} {key : String} {rule : FieldRule}
    (h : find? rules key = some rule) : rule ∈ rules :=
  List.mem_of_find?_eq_some h

theorem name_of_find? {rules : List FieldRule} {key : String} {rule : FieldRule}
    (h : find? rules key = some rule) : rule.name = key ∨ key ∈ rule.aliases := by
  simpa using List.find?_some h

end FieldRule

/-- A field may stand in a record: its rule lets it, or `other` does where no rule knows it. -/
def Judged (rules : List FieldRule) (other : String → Document → Except DecodeError Unit)
    (field : String × Document) : Prop :=
  match FieldRule.find? rules field.1 with
  | some rule => rule.check field.2 = .ok ()
  | none => other field.1 field.2 = .ok ()

/-- A field under the name of its rule, if there is one. -/
def knownField? (rules : List FieldRule) (field : String × Document) : Option (String × Document) :=
  (FieldRule.find? rules field.1).map fun rule => (rule.name, field.2)

/-- The fields that some rule knows, under the names of their rules. -/
def knownFields (rules : List FieldRule) (fields : List (String × Document)) :
    List (String × Document) :=
  fields.filterMap (knownField? rules)

/-- Names are new and stand once, with another in front of them that is new. -/
theorem nodup_cons_and_new_iff {name : String} {names seen : List String} (h : name ∉ seen) :
    ((name :: names).Nodup ∧ ∀ n ∈ name :: names, n ∉ seen) ↔
      names.Nodup ∧ ∀ n ∈ names, n ∉ name :: seen := by
  rw [List.nodup_cons, List.forall_mem_cons]
  constructor
  · rintro ⟨⟨hname, hnodup⟩, -, hnew⟩
    refine ⟨hnodup, fun n hn hseen => ?_⟩
    rcases List.mem_cons.mp hseen with rfl | hseen
    · exact hname hn
    · exact hnew n hn hseen
  · rintro ⟨hnodup, hnew⟩
    exact ⟨⟨fun hn => hnew name hn List.mem_cons_self, hnodup⟩, h,
      fun n hn hseen => hnew n hn (List.mem_cons_of_mem _ hseen)⟩

/-- Exactly those fields are let through that may stand in the record, where no known field stands
twice. -/
theorem judgeFields_eq_ok {rules : List FieldRule}
    {other : String → Document → Except DecodeError Unit} {seen : List String}
    {fields known : List (String × Document)} :
    judgeFields rules other seen fields = .ok known ↔
      known = knownFields rules fields ∧ (∀ f ∈ fields, Judged rules other f) ∧
        (known.map Prod.fst).Nodup ∧ ∀ n ∈ known.map Prod.fst, n ∉ seen := by
  induction fields generalizing seen known with
  | nil =>
    rw [judgeFields]
    constructor
    · intro h
      obtain rfl := Except.ok.inj h
      exact ⟨rfl, List.forall_mem_nil _, List.nodup_nil, List.forall_mem_nil _⟩
    · rintro ⟨rfl, -⟩
      rfl
  | cons f fields ih =>
    obtain ⟨key, doc⟩ := f
    rw [List.forall_mem_cons, judgeFields, knownFields, List.filterMap_cons, Judged, knownField?]
    cases hr : FieldRule.find? rules key with
    | none =>
      simp only [check_eq_ok, ih, Option.map_none]
      rw [← knownFields]
      constructor
      · rintro ⟨hother, rfl, hj, hn⟩
        exact ⟨rfl, ⟨hother, hj⟩, hn⟩
      · rintro ⟨rfl, ⟨hother, hj⟩, hn⟩
        exact ⟨hother, rfl, hj, hn⟩
    | some rule =>
      simp only [Option.map_some]
      rw [← knownFields]
      by_cases hs : seen.contains rule.name
      · rw [if_pos hs]
        refine iff_of_false nofun ?_
        rintro ⟨rfl, -, -, hn⟩
        exact hn rule.name List.mem_cons_self (by simpa using hs)
      · have hs' : rule.name ∉ seen := by simpa using hs
        rw [if_neg hs, check_eq_ok]
        simp only [bind_eq_ok, pure_eq_ok, ih]
        constructor
        · rintro ⟨hcheck, rest, ⟨rfl, hj, hnew⟩, rfl⟩
          exact ⟨rfl, ⟨hcheck, hj⟩, (nodup_cons_and_new_iff hs').mpr hnew⟩
        · rintro ⟨rfl, ⟨hcheck, hj⟩, hnew⟩
          exact ⟨hcheck, _, ⟨rfl, hj, (nodup_cons_and_new_iff hs').mp hnew⟩, rfl⟩

/-! ### Known fields -/

/-- A field whose rule has no other names is found as it was written. -/
theorem lookup_knownFields {rules : List FieldRule} {rule : FieldRule}
    (hfind : FieldRule.find? rules rule.name = some rule)
    (halias : ∀ r ∈ rules, r.name = rule.name → r.aliases = [])
    (fields : List (String × Document)) :
    lookup rule.name (knownFields rules fields) = lookup rule.name fields := by
  induction fields with
  | nil => rfl
  | cons f fields ih =>
    obtain ⟨key, doc⟩ := f
    rw [knownFields, List.filterMap_cons, knownField?, ← knownFields, lookup]
    by_cases hk : key = rule.name
    · subst hk
      rw [hfind, if_pos rfl]
      exact if_pos rfl
    · rw [if_neg hk]
      cases hr : FieldRule.find? rules key with
      | none => exact ih
      | some r =>
        -- Another rule has found the key: it is not the one of this name, which has no aliases.
        have hne : r.name ≠ rule.name := by
          intro he
          rcases FieldRule.name_of_find? hr with hn | ha
          · exact hk (hn.symm.trans he)
          · rw [halias r (FieldRule.mem_of_find? hr) he] at ha
            exact absurd ha List.not_mem_nil
        rw [Option.map_some, lookup, if_neg hne]
        exact ih

/-- No known field stands under another name than its own. -/
def Plainly (rules : List FieldRule) (fields : List (String × Document)) : Prop :=
  ∀ f ∈ fields, ∀ rule, FieldRule.find? rules f.1 = some rule → rule.name = f.1

theorem lookup_knownFields_of_plainly {rules : List FieldRule} {fields : List (String × Document)}
    (h : Plainly rules fields) {name : String} (hname : (FieldRule.find? rules name).isSome) :
    lookup name (knownFields rules fields) = lookup name fields := by
  induction fields with
  | nil => rfl
  | cons f fields ih =>
    obtain ⟨key, doc⟩ := f
    obtain ⟨hf, hfields⟩ := List.forall_mem_cons.mp h
    have ih := ih hfields
    rw [knownFields, List.filterMap_cons, knownField?, ← knownFields, lookup]
    cases hr : FieldRule.find? rules key with
    | none =>
      have hk : key ≠ name := by
        rintro rfl
        rw [hr] at hname
        cases hname
      rw [if_neg hk]
      exact ih
    | some r =>
      rw [Option.map_some, lookup, hf r hr, ih]

/-- Known fields that stand under their own names are a part of all fields. -/
theorem map_fst_knownFields_sublist {rules : List FieldRule} {fields : List (String × Document)}
    (h : Plainly rules fields) :
    ((knownFields rules fields).map Prod.fst).Sublist (fields.map Prod.fst) := by
  induction fields with
  | nil => exact List.Sublist.refl _
  | cons f fields ih =>
    obtain ⟨key, doc⟩ := f
    obtain ⟨hf, hfields⟩ := List.forall_mem_cons.mp h
    rw [knownFields, List.filterMap_cons, knownField?, ← knownFields, List.map_cons]
    cases hr : FieldRule.find? rules key with
    | none => exact (ih hfields).cons _
    | some r =>
      rw [Option.map_some, List.map_cons, hf r hr]
      exact (ih hfields).cons_cons _

/-- Fields that all may stand in a record, in which no key is repeated, are let through. -/
theorem judgeFields_of_plainly {rules : List FieldRule}
    {other : String → Document → Except DecodeError Unit} {fields : List (String × Document)}
    (h : Plainly rules fields) (hj : ∀ f ∈ fields, Judged rules other f)
    (hn : (fields.map Prod.fst).Nodup) :
    judgeFields rules other [] fields = .ok (knownFields rules fields) :=
  judgeFields_eq_ok.mpr
    ⟨rfl, hj, (map_fst_knownFields_sublist h).nodup hn, fun _ _ => List.not_mem_nil⟩

end MinerFleet
