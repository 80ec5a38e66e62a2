/-
How deep the brackets of a value are nested.

* `Json.depth` — the depth of a value; `Json.numbers` — the numbers in it;
* `Json.clip` — the tree of a value in a reader that takes brackets only so deep: those that are
  deeper are unreadable.

A tree that is clipped somewhere has no value (`value?_clip`), and no value that the reader accepts
is nested deeper than it may be (`ofText?_eq_some`). What the reader goes through is gone through
once, for whatever is said of values by what they hold (`Accepted`).
-/
import MinerFleet.Json.Reader
import MinerFleet.Proofs.Json.Normal

namespace MinerFleet.Json

/-! ### What a value holds -/

mutual
/-- How deep brackets are nested. -/
def depth : Json → Nat
  | .array items => itemsDepth items + 1
  | .object fields => fieldsDepth fields + 1
  | .null | .bool _ | .number _ | .string _ => 0

def itemsDepth : List Json → Nat
  | [] => 0
  | v :: vs => max (depth v) (itemsDepth vs)

def fieldsDepth : List (String × Json) → Nat
  | [] => 0
  | (_, v) :: fields => max (depth v) (fieldsDepth fields)
end

mutual
/-- All numbers that stand anywhere in a value. -/
def numbers : Json → List Number
  | .number n => [n]
  | .array items => itemsNumbers items
  | .object fields => fieldsNumbers fields
  | .null | .bool _ | .string _ => []

def itemsNumbers : List Json → List Number
  | [] => []
  | v :: vs => numbers v ++ itemsNumbers vs

def fieldsNumbers : List (String × Json) → List Number
  | [] => []
  | (_, v) :: fields => numbers v ++ fieldsNumbers fields
end

theorem itemsDepth_le {items : List Json} {n : Nat} :
    itemsDepth items ≤ n ↔ ∀ v ∈ items, v.depth ≤ n := by
  induction items with
  | nil => exact iff_of_true (Nat.zero_le n) (List.forall_mem_nil _)
  | cons v items ih => rw [itemsDepth, Nat.max_le, ih, List.forall_mem_cons]

theorem fieldsDepth_le {fields : List (String × Json)} {n : Nat} :
    fieldsDepth fields ≤ n ↔ ∀ f ∈ fields, f.2.depth ≤ n := by
  induction fields with
  | nil => exact iff_of_true (Nat.zero_le n) (List.forall_mem_nil _)
  | cons f fields ih =>
    obtain ⟨key, v⟩ := f
    rw [fieldsDepth, Nat.max_le, ih, List.forall_mem_cons]

theorem mem_fieldsNumbers {n : Number} {fields : List (String × Json)} :
    n ∈ fieldsNumbers fields ↔ ∃ f ∈ fields, n ∈ f.2.numbers := by
  induction fields with
  | nil => exact iff_of_false List.not_mem_nil fun ⟨_, hf, _⟩ => List.not_mem_nil hf
  | cons f fields ih =>
    obtain ⟨key, v⟩ := f
    rw [fieldsNumbers, List.mem_append, ih]
    simp only [List.mem_cons, exists_eq_or_imp]

/-! ### Trees of limited depth -/

mutual
/-- The tree of a value, as far as it may be nested. -/
def clip (room : Nat) : Json → Document
  | .null => .null
  | .bool b => .bool b
  | .number n => .number n
  | .string s => .string s
  | .array items => limit room (.array (clipItems (room - 1) items) none)
  | .object fields => limit room (.object (clipFields (room - 1) fields) none)

def clipItems (room : Nat) : List Json → List Document
  | [] => []
  | v :: vs => clip room v :: clipItems room vs

def clipFields (room : Nat) : List (String × Json) → List (String × Document)
  | [] => []
  | (key, v) :: fields => (key, clip room v) :: clipFields room fields
end

theorem isWhole_limit {room : Nat} {doc : Document} (h : doc.isWhole = true) :
    (limit room doc).isWhole = true := by
  rw [limit]
  split
  · rfl
  · exact h

mutual
/-- Nothing breaks off where brackets are nested too deep. -/
theorem isWhole_clip : ∀ (room : Nat) (v : Json), (clip room v).isWhole = true
  | _, .null => rfl
  | _, .bool _ => rfl
  | _, .number _ => rfl
  | _, .string _ => rfl
  | room, .array items => isWhole_limit (areWhole_clipItems (room - 1) items)
  | room, .object fields => isWhole_limit (fieldsWhole_clipFields (room - 1) fields)

theorem areWhole_clipItems : ∀ (room : Nat) (items : List Json),
    Document.areWhole (clipItems room items) = true
  | _, [] => rfl
  | room, v :: vs => by
    rw [clipItems, Document.areWhole, isWhole_clip, areWhole_clipItems]
    rfl

theorem fieldsWhole_clipFields : ∀ (room : Nat) (fields : List (String × Json)),
    Document.fieldsWhole (clipFields room fields) = true
  | _, [] => rfl
  | room, (_, v) :: fields => by
    rw [clipFields, Document.fieldsWhole, isWhole_clip, fieldsWhole_clipFields]
    rfl
end

mutual
/-- Where nothing is nested too deep, the tree is that of the value. -/
theorem clip_eq_ofJson : ∀ {room : Nat} {v : Json}, v.depth ≤ room → clip room v = .ofJson v
  | _, .null, _ => rfl
  | _, .bool _, _ => rfl
  | _, .number _, _ => rfl
  | _, .string _, _ => rfl
  | room, .array items, h => by
    rw [depth] at h
    rw [clip, clipItems_eq_ofItems (by omega), limit, if_neg (by omega), Document.ofJson]
  | room, .object fields, h => by
    rw [depth] at h
    rw [clip, clipFields_eq_ofFields (by omega), limit, if_neg (by omega), Document.ofJson]

theorem clipItems_eq_ofItems : ∀ {room : Nat} {items : List Json}, itemsDepth items ≤ room →
    clipItems room items = Document.ofItems items
  | _, [], _ => rfl
  | room, v :: vs, h => by
    rw [itemsDepth] at h
    rw [clipItems, clip_eq_ofJson (by omega), clipItems_eq_ofItems (by omega), Document.ofItems]

theorem clipFields_eq_ofFields : ∀ {room : Nat} {fields : List (String × Json)},
    fieldsDepth fields ≤ room → clipFields room fields = Document.ofFields fields
  | _, [], _ => rfl
  | room, (key, v) :: fields, h => by
    rw [fieldsDepth] at h
    rw [clipFields, clip_eq_ofJson (by omega), clipFields_eq_ofFields (by omega),
      Document.ofFields]
end

mutual
/-- What is nested too deep has no value. -/
theorem value?_clip : ∀ {room : Nat} {v : Json}, room < v.depth → (clip room v).value? = none
  | _, .null, h => absurd h (Nat.not_lt_zero _)
  | _, .bool _, h => absurd h (Nat.not_lt_zero _)
  | _, .number _, h => absurd h (Nat.not_lt_zero _)
  | _, .string _, h => absurd h (Nat.not_lt_zero _)
  | room, .array items, h => by
    rw [depth] at h
    rw [clip, limit]
    split
    · rfl
    · rw [Document.value?, valuesOf?_clipItems (by omega)]
      rfl
  | room, .object fields, h => by
    rw [depth] at h
    rw [clip, limit]
    split
    · rfl
    · rw [Document.value?, fieldValues?_clipFields (by omega)]
      rfl

theorem valuesOf?_clipItems : ∀ {room : Nat} {items : List Json}, room < itemsDepth items →
    Document.valuesOf? (clipItems room items) = none
  | _, [], h => absurd h (Nat.not_lt_zero _)
  | room, v :: vs, h => by
    rw [itemsDepth] at h
    rw [clipItems, Document.valuesOf?]
    -- Either the first item is too deep, or one behind it is.
    by_cases hv : room < v.depth
    · rw [value?_clip hv]
    · rw [valuesOf?_clipItems (by omega)]
      cases (clip room v).value? <;> rfl

theorem fieldValues?_clipFields : ∀ {room : Nat} {fields : List (String × Json)},
    room < fieldsDepth fields → Document.fieldValues? (clipFields room fields) = none
  | _, [], h => absurd h (Nat.not_lt_zero _)
  | room, (key, v) :: fields, h => by
    rw [fieldsDepth] at h
    rw [clipFields, Document.fieldValues?]
    by_cases hv : room < v.depth
    · rw [value?_clip hv]
    · rw [fieldValues?_clipFields (by omega)]
      cases (clip room v).value? <;> rfl
end

/-! ### What the reader accepts -/

theorem value?_limit_array {room : Nat} {items : List Document} {damage : Option Damage} {v : Json}
    (h : (limit room (.array items damage)).value? = some v) :
    room ≠ 0 ∧ ∃ vs, Document.valuesOf? items = some vs ∧ v = .array vs := by
  rw [limit] at h
  split at h
  · cases h
  · rename_i hroom
    rw [Document.value?] at h
    split at h
    · cases h
    · obtain ⟨vs, hvs, rfl⟩ := Option.map_eq_some_iff.mp h
      exact ⟨hroom, vs, hvs, rfl⟩

theorem value?_limit_object {room : Nat} {fields : List (String × Document)}
    {damage : Option Damage} {v : Json} (h : (limit room (.object fields damage)).value? = some v) :
    room ≠ 0 ∧ ∃ es, Document.fieldValues? fields = some es ∧ v = Json.record es := by
  rw [limit] at h
  split at h
  · cases h
  · rename_i hroom
    rw [Document.value?] at h
    split at h
    · cases h
    · obtain ⟨es, hes, rfl⟩ := Option.map_eq_some_iff.mp h
      exact ⟨hroom, es, hes, rfl⟩

theorem valuesOf?_cons {doc : Document} {docs : List Document} {vs : List Json}
    (h : Document.valuesOf? (doc :: docs) = some vs) :
    ∃ w ws, doc.value? = some w ∧ Document.valuesOf? docs = some ws ∧ vs = w :: ws := by
  rw [Document.valuesOf?] at h
  split at h
  · rename_i w ws hw hws
    exact ⟨w, ws, hw, hws, (Option.some.inj h).symm⟩
  · cases h

theorem fieldValues?_cons {key : String} {doc : Document} {docs : List (String × Document)}
    {es : List (String × Json)} (h : Document.fieldValues? ((key, doc) :: docs) = some es) :
    ∃ w ws, doc.value? = some w ∧ Document.fieldValues? docs = some ws ∧ es = (key, w) :: ws := by
  rw [Document.fieldValues?] at h
  split at h
  · rename_i w ws hw hws
    exact ⟨w, ws, hw, hws, (Option.some.inj h).symm⟩
  · cases h

/-- What holds of a value in a reader that takes brackets so deep: of a value without brackets
anyway, and of an array or an object if it holds of what is in it, where it is one level less. -/
structure Accepted (P : Nat → Json → Prop) : Prop where
  null : ∀ room, P room .null
  bool : ∀ room b, P room (.bool b)
  string : ∀ room s, P room (.string s)
  number : ∀ room (l : Literal) n, l.value? = some n → P room (.number n)
  array : ∀ room vs, (∀ v ∈ vs, P room v) → P (room + 1) (.array vs)
  object : ∀ room es, (∀ e ∈ es, P room e.2) → P (room + 1) (Json.record es)

namespace Accepted

variable {P : Nat → Json → Prop} {room : Nat}

theorem of_readWord {word : String} {doc : Document} {cs : List Char} {v : Json}
    (hdoc : ∀ v, doc.value? = some v → P room v)
    (hv : (readWord word doc cs).1.value? = some v) : P room v := by
  rw [readWord] at hv
  split at hv
  · exact hdoc v hv
  · cases hv

theorem of_valuesOf?_nil {vs : List Json} (hv : Document.valuesOf? [] = some vs) :
    ∀ v ∈ vs, P room v := by
  rw [← Option.some.inj hv]
  exact List.forall_mem_nil _

theorem of_fieldValues?_nil {es : List (String × Json)}
    (hv : Document.fieldValues? [] = some es) : ∀ e ∈ es, P room e.2 := by
  rw [← Option.some.inj hv]
  exact List.forall_mem_nil _

theorem of_readNumber (h : Accepted P) {cs : List Char} {v : Json}
    (hv : (readNumber cs).1.value? = some v) : P room v := by
  rw [readNumber] at hv
  split at hv
  · cases hv
  · rename_i l rest _
    split at hv
    · cases hv
    · rename_i n hn
      rw [← Option.some.inj hv]
      exact h.number room l n hn

mutual
/-- It holds of what the reader accepts. -/
theorem of_readValue (h : Accepted P) : ∀ (fuel : Nat) {room : Nat} {cs : List Char} {v : Json},
    (readValue fuel room cs).1.value? = some v → P room v
  | 0, _, _, _, hv => nomatch hv
  | fuel + 1, room, cs, v, hv => by
    rw [readValue] at hv
    split at hv
    · obtain ⟨hroom, vs, hvs, rfl⟩ := value?_limit_array hv
      obtain ⟨room, rfl⟩ := Nat.exists_eq_succ_of_ne_zero hroom
      refine h.array room vs ?_
      split at hvs
      · exact of_valuesOf?_nil hvs
      · exact of_readItems h fuel hvs
    · obtain ⟨hroom, es, hes, rfl⟩ := value?_limit_object hv
      obtain ⟨room, rfl⟩ := Nat.exists_eq_succ_of_ne_zero hroom
      refine h.object room es ?_
      split at hes
      · exact of_fieldValues?_nil hes
      · exact of_readFields h fuel hes
    · split at hv
      · rw [← Option.some.inj hv]
        exact h.string room _
      · cases hv
    · refine of_readWord (fun v hv => ?_) hv
      rw [← Option.some.inj hv]
      exact h.null room
    · refine of_readWord (fun v hv => ?_) hv
      rw [← Option.some.inj hv]
      exact h.bool room true
    · refine of_readWord (fun v hv => ?_) hv
      rw [← Option.some.inj hv]
      exact h.bool room false
    · exact of_readNumber h hv
termination_by structural fuel => fuel

theorem of_readItems (h : Accepted P) : ∀ (fuel : Nat) {room : Nat} {cs : List Char}
    {vs : List Json},
    Document.valuesOf? (readItems fuel room cs).1 = some vs → ∀ v ∈ vs, P room v
  | 0, _, _, _, hv => of_valuesOf?_nil hv
  | fuel + 1, room, cs, vs, hv => by
    -- The item in front, and those behind the comma, if there are any.
    have hcons : ∃ docs, (readItems (fuel + 1) room cs).1 = (readValue fuel room cs).1 :: docs ∧
        ∀ ws, Document.valuesOf? docs = some ws → ∀ w ∈ ws, P room w := by
      rw [readItems]
      cases readValue fuel room cs with
      | mk item rest =>
        dsimp only
        split
        · exact ⟨[], rfl, fun _ => of_valuesOf?_nil⟩
        · split
          · exact ⟨[], rfl, fun _ => of_valuesOf?_nil⟩
          · exact ⟨_, rfl, fun ws hws => of_readItems h fuel hws⟩
          · exact ⟨[], rfl, fun _ => of_valuesOf?_nil⟩
    obtain ⟨docs, he, hdocs⟩ := hcons
    rw [he] at hv
    obtain ⟨w, ws, hw, hws, rfl⟩ := valuesOf?_cons hv
    exact List.forall_mem_cons.mpr ⟨of_readValue h fuel hw, hdocs ws hws⟩
termination_by structural fuel => fuel

theorem of_readFields (h : Accepted P) : ∀ (fuel : Nat) {room : Nat} {cs : List Char}
    {es : List (String × Json)},
    Document.fieldValues? (readFields fuel room cs).1 = some es → ∀ e ∈ es, P room e.2
  | 0, _, _, _, hv => of_fieldValues?_nil hv
  | fuel + 1, room, cs, es, hv => by
    rw [readFields] at hv
    split at hv
    · rename_i cs' _
      cases hkey : readString cs' with
      | mk key rest =>
        simp only [hkey] at hv
        split at hv
        · rename_i rest' _
          cases hvalue : readValue fuel room rest' with
          | mk value rest'' =>
            simp only [hvalue] at hv
            cases key with
            | error damage => exact of_fieldValues?_nil hv
            | ok key =>
              -- The field in front, and those behind the comma, if there are any.
              obtain ⟨w, ws, hw, hws, rfl⟩ := fieldValues?_cons hv
              have hfirst : (readValue fuel room rest').1.value? = some w := by
                rw [hvalue]
                exact hw
              refine List.forall_mem_cons.mpr ⟨of_readValue h fuel hfirst, ?_⟩
              split at hws
              · exact of_fieldValues?_nil hws
              · split at hws
                · exact of_fieldValues?_nil hws
                · exact of_readFields h fuel hws
                · exact of_fieldValues?_nil hws
        · exact of_fieldValues?_nil hv
    · exact of_fieldValues?_nil hv
termination_by structural fuel => fuel
end

theorem of_ofText? (h : Accepted P) {s : String} {v : Json} (hv : Json.ofText? s = some v) :
    P maxDepth v := by
  rw [Json.ofText?] at hv
  split at hv
  · rename_i doc hdoc
    have he : (readValue (2 * s.toList.length + 2) maxDepth s.toList).1 = doc :=
      congrArg Prod.fst hdoc
    rw [← he] at hv
    exact of_readValue h _ hv
  · cases hv

end Accepted

/-- What the reader accepts is nested no deeper than it may be. -/
theorem accepted_depth : Accepted fun room v => v.depth ≤ room where
  null room := Nat.zero_le room
  bool room _ := Nat.zero_le room
  string room _ := Nat.zero_le room
  number room _ _ _ := Nat.zero_le room
  array room vs h := by
    rw [depth]
    exact Nat.succ_le_succ (itemsDepth_le.mpr h)
  object room es h := by
    rw [record, ofMap, depth]
    refine Nat.succ_le_succ (fieldsDepth_le.mpr fun e he => ?_)
    exact h e (KeyMap.mem_of_mem_ofList he)

/-- A value that was read from a text is normal, and nested at most `maxDepth` deep. -/
theorem ofText?_eq_some {s : String} {v : Json} (h : Json.ofText? s = some v) :
    v.Normal ∧ v.depth ≤ maxDepth := by
  refine ⟨?_, accepted_depth.of_ofText? h⟩
  rw [Json.ofText?] at h
  split at h
  · exact normal_of_value? h
  · cases h

end MinerFleet.Json
