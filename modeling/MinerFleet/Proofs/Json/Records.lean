/-
What is read from a record that was written.

* `Shape.Lists` — fields that are those of a shape, one for each of its rules;
* `ReadBy` — something is made from the fields of a record by reading each of them.

A record is written with its fields in the order of their keys and judged by its shape before
anything is made from them. What is read for a field comes from the value that was written under
its name (`readField_clip`, `readOptional_clip`), and a field that can be read passes its judgement:
so what is made from the record is what is made from these values (`Shape.Lists.make_eq_ok`,
`Tagged.decode_eq_ok`).
-/
import Mathlib.Data.List.Forall2
import Mathlib.Data.List.Nodup
import MinerFleet.Proofs.Json.Nesting

namespace MinerFleet

open Json

/-! ### Fields of a tree -/

theorem lookup_clipFields (room : Nat) (key : String) (fields : List (String × Json)) :
    lookup key (clipFields room fields) = (lookup key fields).map (clip room) := by
  induction fields with
  | nil => rfl
  | cons f fields ih =>
    obtain ⟨k, v⟩ := f
    rw [clipFields, lookup, lookup]
    by_cases hk : k = key
    · rw [if_pos hk, if_pos hk, Option.map_some]
    · rw [if_neg hk, if_neg hk, ih]

theorem map_fst_clipFields (room : Nat) (fields : List (String × Json)) :
    (clipFields room fields).map Prod.fst = fields.map Prod.fst := by
  induction fields with
  | nil => rfl
  | cons f fields ih =>
    obtain ⟨k, v⟩ := f
    rw [clipFields, List.map_cons, List.map_cons, ih]

theorem mem_clipFields {room : Nat} {fields : List (String × Json)} {f : String × Document} :
    f ∈ clipFields room fields ↔ ∃ v, (f.1, v) ∈ fields ∧ f.2 = clip room v := by
  induction fields with
  | nil => exact iff_of_false List.not_mem_nil fun ⟨_, h, _⟩ => List.not_mem_nil h
  | cons g fields ih =>
    obtain ⟨k, w⟩ := g
    obtain ⟨key, doc⟩ := f
    rw [clipFields, List.mem_cons, ih]
    constructor
    · rintro (he | ⟨v, hm, hv⟩)
      · obtain ⟨rfl, rfl⟩ := Prod.mk.inj he
        exact ⟨w, List.mem_cons_self, rfl⟩
      · exact ⟨v, List.mem_cons_of_mem _ hm, hv⟩
    · rintro ⟨v, hm, hv⟩
      rcases List.mem_cons.mp hm with he | hm
      · obtain ⟨rfl, rfl⟩ := Prod.mk.inj he
        exact .inl (Prod.ext rfl hv)
      · exact .inr ⟨v, hm, hv⟩

theorem clipItems_eq_map (room : Nat) (items : List Json) :
    clipItems room items = items.map (clip room) := by
  induction items with
  | nil => rfl
  | cons v items ih => rw [clipItems, ih, List.map_cons]

theorem clip_array (room : Nat) (items : List Json) :
    clip (room + 1) (.array items) = .array (items.map (clip room)) none := by
  rw [← clipItems_eq_map]
  rfl

/-- A normal value that is not nested too deep is the value of its tree. -/
theorem value?_clip_of_normal {room : Nat} {v : Json} (hv : v.Normal) (hd : v.depth ≤ room) :
    (clip room v).value? = some v := by
  rw [clip_eq_ofJson hd]
  exact hv

/-! ### Reading fields -/

section

variable {α : Type} {fs : List (String × Json)} {name : String} {v : Json}

theorem lookup_record (hn : (fs.map Prod.fst).Nodup) (room : Nat) (name : String) :
    lookup name (clipFields room (KeyMap.ofList fs).entries) =
      (lookup name fs).map (clip room) := by
  rw [lookup_clipFields]
  exact congrArg _ (KeyMap.get?_ofList_of_nodup hn name)

theorem readField_clip (hn : (fs.map Prod.fst).Nodup) (hv : lookup name fs = some v) (room : Nat)
    (d : Decoder α) :
    readField (clipFields room (KeyMap.ofList fs).entries) name d = d (clip room v) := by
  rw [readField, lookup_record hn, hv]
  rfl

theorem readOptional_clip (hn : (fs.map Prod.fst).Nodup) (hv : lookup name fs = some v)
    (room : Nat) (d : Decoder α) :
    readOptional (clipFields room (KeyMap.ofList fs).entries) name d =
      Decoder.option d (clip room v) := by
  rw [readOptional, lookup_record hn, hv]
  rfl

end

/-! ### Plain values -/

namespace Decoder

variable {room : Nat}

/-- Any value is read from a tree that has one. -/
theorem value_eq_ok {doc : Document} {v : Json} : value doc = .ok v ↔ doc.value? = some v := by
  rw [value]
  cases doc.value? with
  | none => exact iff_of_false nofun nofun
  | some w =>
    exact ⟨fun h => congrArg some (Except.ok.inj h), fun h => congrArg _ (Option.some.inj h)⟩

/-- A float is read back if it is finite: others are not written. -/
theorem float_eq_ok {x y : Float} :
    float (clip room (.ofFloat x)) = .ok y ↔ x.isFinite = true ∧ y = x := by
  rw [Json.ofFloat]
  by_cases hx : x.isFinite = true
  · rw [if_pos hx]
    exact ⟨fun h => ⟨hx, (Except.ok.inj h).symm⟩, fun h => congrArg _ h.2.symm⟩
  · rw [if_neg hx]
    exact ⟨nofun, fun h => absurd h.1 hx⟩

theorem natBelow_eq_ok {bound n m : Nat} {name : String} :
    natBelow bound name (clip room (.ofNat n)) = .ok m ↔ n < bound ∧ m = n := by
  show (if 0 ≤ (n : Int) ∧ (n : Int) < bound then _ else _) = _ ↔ _
  by_cases hn : n < bound
  · rw [if_pos ⟨Int.natCast_nonneg n, Int.ofNat_lt.mpr hn⟩]
    exact ⟨fun h => ⟨hn, (Except.ok.inj h).symm⟩, fun h => congrArg _ h.2.symm⟩
  · rw [if_neg fun h => hn (Int.ofNat_lt.mp h.2)]
    exact ⟨nofun, fun h => absurd h.1 hn⟩

theorem uint32_ofNat (n : UInt32) : uint32 (clip room (.ofNat n.toNat)) = .ok n := by
  have h : natBelow UInt32.size "u32" (clip room (.ofNat n.toNat)) = .ok n.toNat := by
    rw [natBelow_eq_ok]
    exact ⟨UInt32.toNat_lt_size n, rfl⟩
  rw [uint32, h, Except.map, UInt32.ofNat_toNat]

theorem uint64_ofNat (n : UInt64) : uint64 (clip room (.ofNat n.toNat)) = .ok n := by
  have h : natBelow UInt64.size "u64" (clip room (.ofNat n.toNat)) = .ok n.toNat := by
    rw [natBelow_eq_ok]
    exact ⟨UInt64.toNat_lt_size n, rfl⟩
  rw [uint64, h, Except.map, UInt64.ofNat_toNat]

theorem option_text (s : Option String) :
    option text (clip room (.ofOption .string s)) = .ok s := by
  cases s <;> rfl

theorem option_uint32 (n : Option UInt32) :
    option uint32 (clip room (.ofOption (fun n => .ofNat n.toNat) n)) = .ok n := by
  cases n with
  | none => rfl
  | some n =>
    show (uint32 (clip room (.ofNat n.toNat))).map some = _
    rw [uint32_ofNat]
    rfl

theorem option_uint64 (n : Option UInt64) :
    option uint64 (clip room (.ofOption (fun n => .ofNat n.toNat) n)) = .ok n := by
  cases n with
  | none => rfl
  | some n =>
    show (uint64 (clip room (.ofNat n.toNat))).map some = _
    rw [uint64_ofNat]
    rfl

/-- Of a float that may be absent, what is not finite is absent afterwards. -/
theorem option_float (x : Option Float) :
    option float (clip room (.ofOption .ofFloat x)) = .ok (x.filter Float.isFinite) := by
  cases x with
  | none => rfl
  | some x =>
    rw [Json.ofOption, Json.ofFloat, Option.filter]
    by_cases hx : x.isFinite = true
    · rw [if_pos hx, if_pos hx]
      rfl
    · rw [if_neg hx, if_neg hx]
      rfl

/-- A record is never taken for one that is absent. -/
theorem option_record {α : Type} {d : Decoder α} {v : Json} (hv : ∃ fs, v = .record fs) :
    option d (clip (room + 1) v) = (d (clip (room + 1) v)).map some := by
  obtain ⟨fs, rfl⟩ := hv
  rfl

end Decoder

/-! ### Shapes -/

theorem Decoder.check_eq_ok {α : Type} {d : Decoder α} {doc : Document} :
    d.check doc = .ok () ↔ ∃ a, d doc = .ok a := by
  rw [check, map_eq_ok]
  exact ⟨fun ⟨a, h, _⟩ => ⟨a, h⟩, fun ⟨a, h⟩ => ⟨a, h, rfl⟩⟩

/-- A field that was read passes the check of its rule. -/
theorem check_of_readField {α : Type} {known : List (String × Document)} {name : String}
    {d : Decoder α} {a : α} (h : readField known name d = .ok a) :
    ∀ doc, lookup name known = some doc → d.check doc = .ok () := by
  intro doc hl
  rw [readField, hl] at h
  exact Decoder.check_eq_ok.mpr ⟨a, h⟩

theorem check_of_readOptional {α : Type} {known : List (String × Document)} {name : String}
    {d : Decoder α} {a : Option α} (h : readOptional known name d = .ok a) :
    ∀ doc, lookup name known = some doc → (Decoder.option d).check doc = .ok () := by
  intro doc hl
  rw [readOptional, hl] at h
  exact Decoder.check_eq_ok.mpr ⟨a, h⟩

/-- Each field that has a rule is read when something is made from the fields. -/
def ReadBy {α : Type} (rules : List FieldRule)
    (make : List (String × Document) → Except DecodeError α) : Prop :=
  ∀ known a, make known = .ok a →
    ∀ rule ∈ rules, ∀ doc, lookup rule.name known = some doc → rule.check doc = .ok ()

theorem knownFields_eq_self {rules : List FieldRule} {fields : List (String × Document)}
    (h : Plainly rules fields) (hk : ∀ f ∈ fields, (FieldRule.find? rules f.1).isSome) :
    knownFields rules fields = fields := by
  induction fields with
  | nil => rfl
  | cons f fields ih =>
    obtain ⟨hf, hfields⟩ := List.forall_mem_cons.mp h
    obtain ⟨hkf, hkfields⟩ := List.forall_mem_cons.mp hk
    obtain ⟨rule, hr⟩ := Option.isSome_iff_exists.mp hkf
    rw [knownFields, List.filterMap_cons, knownField?, hr]
    have he : (rule.name, f.2) = f := Prod.ext (hf rule hr) rfl
    show (rule.name, f.2) :: knownFields rules fields = f :: fields
    rw [ih hfields hkfields, he]

theorem plainly_of_aliases {rules : List FieldRule} (h : ∀ rule ∈ rules, rule.aliases = [])
    (fields : List (String × Document)) : Plainly rules fields := by
  intro f _ rule hr
  rcases FieldRule.name_of_find? hr with hn | ha
  · exact hn
  · rw [h rule (FieldRule.mem_of_find? hr)] at ha
    exact absurd ha List.not_mem_nil

/-- The fields of a shape, one for each of its rules, none of which has another name. -/
structure Shape.Lists (s : Shape) (fs : List (String × Json)) : Prop where
  names : fs.map Prod.fst = s.rules.map (·.name)
  nodup : (fs.map Prod.fst).Nodup
  plain : ∀ rule ∈ s.rules, rule.aliases = []

namespace Shape.Lists

variable {s : Shape} {fs : List (String × Json)}

theorem of_names (names : fs.map Prod.fst = s.rules.map (·.name))
    (nodup : (s.rules.map (·.name)).Nodup) (plain : ∀ rule ∈ s.rules, rule.aliases = []) :
    s.Lists fs :=
  ⟨names, names ▸ nodup, plain⟩

/-- Some rule knows the key of each field. -/
theorem find? (h : s.Lists fs) {key : String} {v : Json} (hv : lookup key fs = some v) :
    ∃ rule ∈ s.rules, FieldRule.find? s.rules key = some rule ∧ rule.name = key := by
  have hkey : key ∈ s.rules.map (·.name) := by
    rw [← h.names]
    exact List.mem_map.mpr ⟨_, mem_of_lookup hv, rfl⟩
  obtain ⟨rule, hm, hname⟩ := List.mem_map.mp hkey
  have hsome : (FieldRule.find? s.rules key).isSome :=
    List.find?_isSome.mpr ⟨rule, hm, by simp [hname]⟩
  obtain ⟨rule', hr⟩ := Option.isSome_iff_exists.mp hsome
  refine ⟨rule', FieldRule.mem_of_find? hr, hr, ?_⟩
  rcases FieldRule.name_of_find? hr with hn | ha
  · exact hn
  · rw [h.plain _ (FieldRule.mem_of_find? hr)] at ha
    exact absurd ha List.not_mem_nil

/-- The rule of a name is the only one. -/
theorem eq_of_name (h : s.Lists fs) {rule rule' : FieldRule} (hm : rule ∈ s.rules)
    (hm' : rule' ∈ s.rules) (hn : rule.name = rule'.name) : rule = rule' := by
  have hnodup := h.nodup
  rw [h.names] at hnodup
  exact List.inj_on_of_nodup_map hnodup hm hm' hn

theorem mem_record (h : s.Lists fs) {key : String} {v : Json} :
    (key, v) ∈ (KeyMap.ofList fs).entries ↔ lookup key fs = some v := by
  rw [KeyMap.mem_entries, KeyMap.get?_ofList_of_nodup h.nodup]

/-- Written fields are let through where each passes the check of its rule. -/
theorem ofFields_eq_ok (h : s.Lists fs) {room : Nat} {known : List (String × Document)} :
    s.ofFields (clipFields room (KeyMap.ofList fs).entries) none = .ok known ↔
      known = clipFields room (KeyMap.ofList fs).entries ∧
        ∀ rule ∈ s.rules, ∀ v, lookup rule.name fs = some v →
          rule.check (clip room v) = .ok () := by
  have hplain := plainly_of_aliases h.plain (clipFields room (KeyMap.ofList fs).entries)
  have hfind : ∀ f ∈ clipFields room (KeyMap.ofList fs).entries, ∃ v rule,
      lookup f.1 fs = some v ∧ f.2 = clip room v ∧ rule ∈ s.rules ∧
        FieldRule.find? s.rules f.1 = some rule ∧ rule.name = f.1 := by
    intro f hf
    obtain ⟨v, hm, hv⟩ := mem_clipFields.mp hf
    have hl := h.mem_record.mp hm
    obtain ⟨rule, hrule, hr, hn⟩ := h.find? hl
    exact ⟨v, rule, hl, hv, hrule, hr, hn⟩
  -- All written fields are known, so that none is filtered out.
  have hself := knownFields_eq_self hplain fun f hf => by
    obtain ⟨_, rule, -, -, -, hr, -⟩ := hfind f hf
    rw [hr]
    rfl
  -- Every rule has its field, so that none is missing.
  have hrequired : requireFields s.rules (clipFields room (KeyMap.ofList fs).entries) = .ok () := by
    have hnone : s.rules.find? (fun rule => rule.required &&
        (lookup rule.name (clipFields room (KeyMap.ofList fs).entries)).isNone) = none := by
      refine List.find?_eq_none.mpr fun rule hm => ?_
      have hkey : rule.name ∈ fs.map Prod.fst := by
        rw [h.names]
        exact List.mem_map_of_mem hm
      obtain ⟨f, hf, hn⟩ := List.mem_map.mp hkey
      rw [← hn, lookup_record h.nodup, lookup_of_mem h.nodup hf]
      simp
    rw [requireFields, hnone]
  have hnodup : ((clipFields room (KeyMap.ofList fs).entries).map Prod.fst).Nodup := by
    rw [map_fst_clipFields]
    exact KeyMap.nodup_keys _
  simp only [Shape.ofFields, bind_eq_ok, pure_eq_ok, judgeFields_eq_ok, Option.isSome_none,
    Bool.false_eq_true, if_false, hself]
  constructor
  · rintro ⟨_, ⟨rfl, hj, -⟩, -, -, rfl⟩
    refine ⟨rfl, fun rule hm v hv => ?_⟩
    have hf := hj (rule.name, clip room v) (mem_clipFields.mpr ⟨v, h.mem_record.mpr hv, rfl⟩)
    obtain ⟨rule', hm', hr, hn⟩ := h.find? hv
    rw [Judged, hr, h.eq_of_name hm' hm hn] at hf
    exact hf
  · rintro ⟨rfl, hc⟩
    refine ⟨_, ⟨rfl, fun f hf => ?_, hnodup, fun _ _ => List.not_mem_nil⟩, (), hrequired, rfl⟩
    obtain ⟨v, rule, hl, hv, hm, hr, hn⟩ := hfind f hf
    rw [Judged, hr, hv]
    exact hc rule hm v (hn ▸ hl)

theorem fields_eq_ok (h : s.Lists fs) {room : Nat} {known : List (String × Document)} :
    s.fields (clip (room + 1) (.record fs)) = .ok known ↔
      known = clipFields room (KeyMap.ofList fs).entries ∧
        ∀ rule ∈ s.rules, ∀ v, lookup rule.name fs = some v → rule.check (clip room v) = .ok () :=
  h.ofFields_eq_ok

theorem check_of_make (h : s.Lists fs) {α : Type} {a : α} {room : Nat}
    {make : List (String × Document) → Except DecodeError α} (hread : ReadBy s.rules make)
    (hmake : make (clipFields room (KeyMap.ofList fs).entries) = .ok a) :
    ∀ rule ∈ s.rules, ∀ v, lookup rule.name fs = some v → rule.check (clip room v) = .ok () := by
  intro rule hm v hv
  refine hread _ a hmake rule hm _ ?_
  rw [lookup_record h.nodup, hv]
  rfl

/-- What is made from written fields that are all read. -/
theorem make_eq_ok (h : s.Lists fs) {α : Type} {a : α} {room : Nat}
    {make : List (String × Document) → Except DecodeError α} (hread : ReadBy s.rules make) :
    (s.fields (clip (room + 1) (.record fs)) >>= make) = .ok a ↔
      make (clipFields room (KeyMap.ofList fs).entries) = .ok a := by
  rw [bind_eq_ok]
  constructor
  · rintro ⟨known, hk, hmake⟩
    rw [← (h.fields_eq_ok.mp hk).1]
    exact hmake
  · intro hmake
    exact ⟨_, h.fields_eq_ok.mpr ⟨rfl, h.check_of_make hread hmake⟩, hmake⟩

end Shape.Lists

/-! ### Lists -/

theorem exists_of_mem_forall₂ {α β : Type} {R : α → β → Prop} {as : List α} {bs : List β}
    (h : List.Forall₂ R as bs) {b : β} (hb : b ∈ bs) : ∃ a ∈ as, R a b := by
  induction h with
  | nil => exact absurd hb List.not_mem_nil
  | cons hr _ ih =>
    rcases List.mem_cons.mp hb with rfl | hb
    · exact ⟨_, List.mem_cons_self, hr⟩
    · obtain ⟨a, ha, hab⟩ := ih hb
      exact ⟨a, List.mem_cons_of_mem _ ha, hab⟩

theorem mapM_eq_ok {ε α β : Type} {f : α → Except ε β} {as : List α} {bs : List β} :
    as.mapM f = .ok bs ↔ List.Forall₂ (fun a b => f a = .ok b) as bs := by
  induction as generalizing bs with
  | nil =>
    rw [List.mapM_nil, pure_eq_ok, List.forall₂_nil_left_iff]
    exact eq_comm
  | cons a as ih =>
    simp only [List.mapM_cons, bind_eq_ok, pure_eq_ok, List.forall₂_cons_left_iff, ih]
    constructor
    · rintro ⟨b, hb, bs', hbs, rfl⟩
      exact ⟨b, bs', hb, hbs, rfl⟩
    · rintro ⟨b, bs', hb, hbs, rfl⟩
      exact ⟨b, hb, bs', hbs, rfl⟩

/-- A list is read where each of its items is. -/
theorem Decoder.list_eq_ok {α : Type} {d : Decoder α} {room : Nat} {items : List Json}
    {as : List α} :
    Decoder.list d (clip (room + 1) (.array items)) = .ok as ↔
      List.Forall₂ (fun v a => d (clip room v) = .ok a) items as := by
  rw [clip_array]
  simp only [Decoder.list, bind_eq_ok, pure_eq_ok, mapM_eq_ok, Option.isSome_none,
    Bool.false_eq_true, if_false, List.forall₂_map_left_iff]
  exact ⟨fun ⟨_, h, he⟩ => he ▸ h, fun h => ⟨as, h, rfl⟩⟩

/-- What stands in a list that was read is read from some document. -/
theorem Decoder.mem_of_list {α : Type} {d : Decoder α} {doc : Document} {as : List α}
    (h : Decoder.list d doc = .ok as) {a : α} (ha : a ∈ as) : ∃ doc', d doc' = .ok a := by
  cases doc with
  | array items damage =>
    rw [Decoder.list, bind_eq_ok] at h
    obtain ⟨all, hall, h⟩ := h
    have he : all = as := by
      split at h
      · cases h
      · exact Except.ok.inj h
    rw [mapM_eq_ok, he] at hall
    obtain ⟨doc', -, hdoc'⟩ := exists_of_mem_forall₂ hall ha
    exact ⟨doc', hdoc'⟩
  | _ => cases h

/-! ### Records of several kinds -/

namespace Tagged

variable {α : Type} {t : Tagged α} {kind : RecordKind α}

theorem split_of_not_mem {fields : List (String × Document)}
    (hkey : ∀ f ∈ fields, f.1 ≠ t.tag) (hv : ∀ f ∈ fields, f.2.value?.isSome)
    (k : Option (RecordKind α)) : t.split k fields = .ok (k, fields) := by
  induction fields with
  | nil => rfl
  | cons f fields ih =>
    obtain ⟨key, doc⟩ := f
    obtain ⟨hk, hkeys⟩ := List.forall_mem_cons.mp hkey
    obtain ⟨hvalue, hvalues⟩ := List.forall_mem_cons.mp hv
    obtain ⟨v, hvalue⟩ := Option.isSome_iff_exists.mp hvalue
    rw [split, if_neg hk, Decoder.value_eq_ok.mpr hvalue, ih hkeys hvalues]
    rfl

/-- The kind is found among the fields, and the others are left. -/
theorem split_of_mem {fields : List (String × Document)} {doc : Document}
    (hn : (fields.map Prod.fst).Nodup) (hdoc : t.kindOf doc = .ok kind)
    (hm : (t.tag, doc) ∈ fields) (hv : ∀ f ∈ fields, f.1 ≠ t.tag → f.2.value?.isSome) :
    t.split none fields = .ok (some kind, fields.filter fun f => f.1 ≠ t.tag) := by
  induction fields with
  | nil => exact absurd hm List.not_mem_nil
  | cons f fields ih =>
    obtain ⟨key, doc'⟩ := f
    rw [List.map_cons, List.nodup_cons] at hn
    obtain ⟨hvalue, hvalues⟩ := List.forall_mem_cons.mp hv
    by_cases hk : key = t.tag
    · -- Here it stands, and nowhere behind.
      have hrest : ∀ f ∈ fields, f.1 ≠ t.tag := by
        intro f hf he
        exact hn.1 (List.mem_map.mpr ⟨f, hf, he.trans hk.symm⟩)
      have hd : doc' = doc := by
        rcases List.mem_cons.mp hm with he | hm
        · exact (Prod.mk.inj he).2.symm
        · exact absurd rfl (hrest _ hm)
      have hfilter : ((key, doc') :: fields).filter (fun f => f.1 ≠ t.tag) = fields := by
        rw [List.filter_cons_of_neg (by simpa using hk)]
        exact List.filter_eq_self.mpr fun f hf => by simpa using hrest f hf
      have hvalued : ∀ f ∈ fields, f.2.value?.isSome := fun f hf => hvalues f hf (hrest f hf)
      rw [hfilter, split, if_pos hk, hd, hdoc]
      exact split_of_not_mem hrest hvalued (some kind)
    · obtain ⟨v, hvalue⟩ := Option.isSome_iff_exists.mp (hvalue hk)
      have hm' : (t.tag, doc) ∈ fields := by
        rcases List.mem_cons.mp hm with he | hm
        · exact absurd (Prod.mk.inj he).1.symm hk
        · exact hm
      rw [split, if_neg hk, Decoder.value_eq_ok.mpr hvalue, ih hn.2 hm' hvalues,
        List.filter_cons_of_pos (by simpa using hk)]
      rfl

theorem filter_clipFields (room : Nat) (key : String) (fields : List (String × Json)) :
    (clipFields room fields).filter (fun f => f.1 ≠ key) =
      clipFields room (fields.filter fun f => f.1 ≠ key) := by
  induction fields with
  | nil => rfl
  | cons f fields ih =>
    obtain ⟨k, v⟩ := f
    by_cases hk : k = key
    · rw [clipFields, List.filter_cons_of_neg (by simpa using hk),
        List.filter_cons_of_neg (by simpa using hk), ih]
    · rw [clipFields, List.filter_cons_of_pos (by simpa using hk),
        List.filter_cons_of_pos (by simpa using hk), ih, clipFields]

theorem erase_ofList_cons {fs : List (String × Json)} {tag : String} (v : Json)
    (hn : (((tag, v) :: fs).map Prod.fst).Nodup) :
    (KeyMap.ofList ((tag, v) :: fs)).erase tag = KeyMap.ofList fs := by
  have hn' := hn
  rw [List.map_cons, List.nodup_cons] at hn'
  refine KeyMap.ext fun key => ?_
  rw [KeyMap.get?_erase, KeyMap.get?_ofList_of_nodup hn'.2]
  by_cases hk : tag = key
  · rw [if_pos hk, eq_comm, lookup_eq_none]
    intro e he hkey
    exact hn'.1 (List.mem_map.mpr ⟨e, he, hkey.trans hk.symm⟩)
  · rw [if_neg hk, KeyMap.get?_ofList_of_nodup hn, lookup, if_neg hk]

/-- A record that is written with its kind in front is made from its fields, which are all
read. -/
theorem decode_eq_ok {name : String} {fs : List (String × Json)}
    (hkind : lookup name t.kinds = some kind) (h : (Shape.mk kind.title kind.rules).Lists fs)
    (hread : ReadBy kind.rules kind.make) (htag : t.tag ∉ kind.rules.map (·.name)) {room : Nat}
    (hv : ∀ f ∈ fs, f.2.Normal ∧ f.2.depth ≤ room) {a : α} :
    t.decode (clip (room + 1) (.record ((t.tag, .string name) :: fs))) = .ok a ↔
      kind.make (clipFields room (KeyMap.ofList fs).entries) = .ok a := by
  have hn : (((t.tag, Json.string name) :: fs).map Prod.fst).Nodup := by
    refine List.nodup_cons.mpr ⟨?_, h.nodup⟩
    rw [h.names]
    exact htag
  -- The kind is taken out wherever the order of the keys has put it.
  have hsplit : t.split none
      (clipFields room (KeyMap.ofList ((t.tag, .string name) :: fs)).entries) =
        .ok (some kind, clipFields room (KeyMap.ofList fs).entries) := by
    have hkindOf : t.kindOf (.string name) = .ok kind := by
      rw [kindOf, hkind]
    have hm : (t.tag, Document.string name) ∈
        clipFields room (KeyMap.ofList ((t.tag, .string name) :: fs)).entries := by
      refine mem_clipFields.mpr ⟨.string name, ?_, rfl⟩
      rw [KeyMap.mem_entries, KeyMap.get?_ofList_of_nodup hn]
      exact if_pos rfl
    have hnodup : ((clipFields room
        (KeyMap.ofList ((t.tag, .string name) :: fs)).entries).map Prod.fst).Nodup := by
      rw [map_fst_clipFields]
      exact KeyMap.nodup_keys _
    rw [split_of_mem hnodup hkindOf hm, filter_clipFields]
    · show Except.ok (some kind, clipFields room
        ((KeyMap.ofList ((t.tag, Json.string name) :: fs)).erase t.tag).entries) = _
      rw [erase_ofList_cons _ hn]
    · intro f hf hne
      obtain ⟨v, hmem, hdoc⟩ := mem_clipFields.mp hf
      rw [KeyMap.mem_entries, KeyMap.get?_ofList_of_nodup hn, lookup, if_neg (Ne.symm hne)] at hmem
      obtain ⟨hnormal, hdepth⟩ := hv _ (mem_of_lookup hmem)
      rw [hdoc, value?_clip_of_normal hnormal hdepth]
      rfl
  have hdoc : clip (room + 1) (.record ((t.tag, .string name) :: fs)) =
      .object (clipFields room (KeyMap.ofList ((t.tag, .string name) :: fs)).entries) none := rfl
  simp only [hdoc, decode, bind_eq_ok, hsplit, Option.isSome_none, Bool.false_eq_true, if_false]
  constructor
  · rintro ⟨_, he, ha⟩
    obtain rfl := Except.ok.inj he
    exact (h.make_eq_ok hread).mp ha
  · intro hmake
    exact ⟨_, rfl, (h.make_eq_ok hread).mpr hmake⟩

/-- A record of a kind without fields. -/
theorem decode_bare {name title : String} {make : List (String × Document) → Except DecodeError α}
    (hkind : lookup name t.kinds = some ⟨title, [], make⟩) {room : Nat} {a : α} :
    t.decode (clip (room + 1) (.record [(t.tag, .string name)])) = .ok a ↔ make [] = .ok a := by
  have hl : (Shape.mk title []).Lists [] := ⟨rfl, List.nodup_nil, nofun⟩
  exact decode_eq_ok hkind hl nofun List.not_mem_nil nofun

/-- A record of a kind with one field. -/
theorem decode_single {β : Type} {name title field : String} {d : Decoder β} {f : β → α}
    (hkind : lookup name t.kinds =
      some ⟨title, [.needed field d], fun fields => do return f (← readField fields field d)⟩)
    (htag : t.tag ≠ field) {room : Nat} {v : Json} (hv : v.Normal) (hd : v.depth ≤ room) {a : α} :
    t.decode (clip (room + 1) (.record [(t.tag, .string name), (field, v)])) = .ok a ↔
      ∃ b, d (clip room v) = .ok b ∧ f b = a := by
  have hl : (Shape.mk title [.needed field d]).Lists [(field, v)] :=
    .of_names rfl (List.nodup_singleton _) fun rule hm => by rw [List.mem_singleton.mp hm]; rfl
  have hread : ReadBy [.needed field d] fun fields => do return f (← readField fields field d) := by
    intro known b h
    obtain ⟨_, ha, -⟩ := bind_eq_ok.mp h
    exact List.forall_mem_singleton.mpr (check_of_readField ha)
  refine (decode_eq_ok hkind hl hread (fun hm => htag (List.mem_singleton.mp hm))
    fun f hf => ?_).trans ?_
  · rw [List.mem_singleton.mp hf]
    exact ⟨hv, hd⟩
  · dsimp only
    rw [readField_clip hl.nodup (if_pos rfl)]
    simp only [bind_eq_ok, pure_eq_ok]

end Tagged

end MinerFleet
