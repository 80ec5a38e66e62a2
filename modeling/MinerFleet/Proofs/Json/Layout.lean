/-
Values, written and read back.

* `Json.Layout` — a way to put blanks between the parts of a text; `Layout.oneLine` and
  `Layout.indented` are those of the two printers.

The reader passes over blanks, so that it makes the same tree of a value in every layout
(`readValue_text`). What it makes of a printed value is therefore the value itself, where this is
normal, its numbers are read back and its brackets are nested at most `maxDepth` deep; deeper ones
are not read at all (`ofText?_pretty`).
-/
import MinerFleet.Proofs.Json.Nesting
import MinerFleet.Proofs.Json.Tokens

namespace MinerFleet.Json

/-! ### Layouts -/

/-- A way to put blanks between the parts of a text. -/
structure Layout where
  /-- What stands in front of an item or a closing bracket, so many levels deep. -/
  line : Nat → List Char
  /-- What stands between a key and its value, behind the colon. -/
  gap : List Char
  isGap_line : ∀ depth, ∀ c ∈ line depth, isGap c = true
  isGap_gap : ∀ c ∈ gap, isGap c = true

namespace Layout

mutual
/-- The text of a value whose brackets stand so many levels deep. -/
def text (l : Layout) (depth : Nat) : Json → List Char
  | .array [] => ['[', ']']
  | .object [] => ['\x7b', '\x7d']
  | .array items => '[' :: (itemsText l (depth + 1) items ++ (l.line depth ++ [']']))
  | .object fields => '\x7b' :: (fieldsText l (depth + 1) fields ++ (l.line depth ++ ['\x7d']))
  | .null => "null".toList
  | .bool b => (if b then "true" else "false").toList
  | .number n => n.text.toList
  | .string s => (stringText s).toList

def itemsText (l : Layout) (depth : Nat) : List Json → List Char
  | [] => []
  | [v] => l.line depth ++ text l depth v
  | v :: vs => l.line depth ++ (text l depth v ++ ',' :: itemsText l depth vs)

def fieldsText (l : Layout) (depth : Nat) : List (String × Json) → List Char
  | [] => []
  | [(key, v)] => l.line depth ++ ((stringText key).toList ++ ':' :: (l.gap ++ text l depth v))
  | (key, v) :: fields =>
    l.line depth ++ ((stringText key).toList ++
      ':' :: (l.gap ++ (text l depth v ++ ',' :: fieldsText l depth fields)))
end

theorem text_array (l : Layout) (depth : Nat) (v : Json) (vs : List Json) :
    l.text depth (.array (v :: vs)) =
      '[' :: (l.itemsText (depth + 1) (v :: vs) ++ (l.line depth ++ [']'])) :=
  text.eq_3 l depth (v :: vs) nofun

theorem text_object (l : Layout) (depth : Nat) (f : String × Json)
    (fields : List (String × Json)) :
    l.text depth (.object (f :: fields)) =
      '\x7b' :: (l.fieldsText (depth + 1) (f :: fields) ++ (l.line depth ++ ['\x7d'])) :=
  text.eq_4 l depth (f :: fields) nofun

theorem itemsText_cons_cons (l : Layout) (depth : Nat) (v w : Json) (vs : List Json) :
    l.itemsText depth (v :: w :: vs) =
      l.line depth ++ (l.text depth v ++ ',' :: l.itemsText depth (w :: vs)) :=
  itemsText.eq_3 l depth v (w :: vs) nofun

theorem fieldsText_cons_cons (l : Layout) (depth : Nat) (key : String) (v : Json)
    (f : String × Json) (fields : List (String × Json)) :
    l.fieldsText depth ((key, v) :: f :: fields) =
      l.line depth ++ ((stringText key).toList ++
        ':' :: (l.gap ++ (l.text depth v ++ ',' :: l.fieldsText depth (f :: fields)))) :=
  fieldsText.eq_3 l depth key v (f :: fields) nofun

/-- Everything on one line, without blanks. -/
def oneLine : Layout where
  line _ := []
  gap := []
  isGap_line _ _ h := absurd h List.not_mem_nil
  isGap_gap _ h := absurd h List.not_mem_nil

/-- Each item on a line of its own, two blanks deeper for each level. -/
def indented : Layout where
  line depth := (newLine depth).toList
  gap := [' ']
  isGap_line depth c h := by
    rw [newLine, String.toList_append] at h
    rcases List.mem_append.mp h with h | h
    · rw [List.mem_singleton.mp h]
      rfl
    · rw [String.toList_ofList] at h
      rw [List.eq_of_mem_replicate h]
      rfl
  isGap_gap c h := by
    rw [List.mem_singleton.mp h]
    rfl

end Layout

mutual
theorem toList_compact : ∀ (depth : Nat) (v : Json), v.compact.toList = Layout.oneLine.text depth v
  | _, .null => rfl
  | _, .bool b => by cases b <;> rfl
  | _, .number n => rfl
  | _, .string s => rfl
  | _, .array [] => rfl
  | _, .object [] => rfl
  | depth, .array (v :: vs) => by
    rw [compact, Layout.text_array, String.toList_append, String.toList_append,
      toList_compactItems (depth + 1)]
    rfl
  | depth, .object (f :: fields) => by
    rw [compact, Layout.text_object, String.toList_append, String.toList_append,
      toList_compactFields (depth + 1)]
    rfl

theorem toList_compactItems : ∀ (depth : Nat) (items : List Json),
    (compactItems items).toList = Layout.oneLine.itemsText depth items
  | _, [] => rfl
  | depth, [v] => by
    rw [compactItems, Layout.itemsText, toList_compact depth]
    rfl
  | depth, v :: w :: vs => by
    rw [compactItems.eq_3 v (w :: vs) nofun, Layout.itemsText_cons_cons, String.toList_append,
      String.toList_append, toList_compact depth, toList_compactItems depth (w :: vs),
      List.append_assoc]
    rfl

theorem toList_compactFields : ∀ (depth : Nat) (fields : List (String × Json)),
    (compactFields fields).toList = Layout.oneLine.fieldsText depth fields
  | _, [] => rfl
  | depth, [(key, v)] => by
    rw [compactFields, Layout.fieldsText, String.toList_append, String.toList_append,
      toList_compact depth, List.append_assoc]
    rfl
  | depth, (key, v) :: f :: fields => by
    rw [compactFields.eq_3 key v (f :: fields) nofun, Layout.fieldsText_cons_cons]
    simp only [String.toList_append, toList_compact depth, toList_compactFields depth (f :: fields),
      List.append_assoc]
    rfl
end

mutual
theorem toList_prettyAt : ∀ (depth : Nat) (v : Json),
    (v.prettyAt depth).toList = Layout.indented.text depth v
  | _, .null => rfl
  | _, .bool b => by cases b <;> rfl
  | _, .number n => rfl
  | _, .string s => rfl
  | _, .array [] => by
    rw [prettyAt, Layout.text]
    rfl
  | _, .object [] => by
    rw [prettyAt, Layout.text]
    rfl
  | depth, .array (v :: vs) => by
    rw [prettyAt.eq_3 depth (v :: vs) nofun, Layout.text_array]
    simp only [String.toList_append, toList_prettyItems, List.append_assoc]
    rfl
  | depth, .object (f :: fields) => by
    rw [prettyAt.eq_4 depth (f :: fields) nofun, Layout.text_object]
    simp only [String.toList_append, toList_prettyFields, List.append_assoc]
    rfl

theorem toList_prettyItems : ∀ (depth : Nat) (items : List Json),
    (prettyItems depth items).toList = Layout.indented.itemsText depth items
  | _, [] => rfl
  | depth, [v] => by
    rw [prettyItems, Layout.itemsText, String.toList_append, toList_prettyAt]
    rfl
  | depth, v :: w :: vs => by
    rw [prettyItems.eq_3 depth v (w :: vs) nofun, Layout.itemsText_cons_cons]
    simp only [String.toList_append, toList_prettyAt, toList_prettyItems depth (w :: vs),
      List.append_assoc]
    rfl

theorem toList_prettyFields : ∀ (depth : Nat) (fields : List (String × Json)),
    (prettyFields depth fields).toList = Layout.indented.fieldsText depth fields
  | _, [] => rfl
  | depth, [(key, v)] => by
    rw [prettyFields, Layout.fieldsText]
    simp only [String.toList_append, toList_prettyAt, List.append_assoc]
    rfl
  | depth, (key, v) :: f :: fields => by
    rw [prettyFields.eq_3 depth key v (f :: fields) nofun, Layout.fieldsText_cons_cons]
    simp only [String.toList_append, toList_prettyAt, toList_prettyFields depth (f :: fields),
      List.append_assoc]
    rfl
end

theorem toList_pretty (v : Json) : v.pretty.toList = Layout.indented.text 0 v :=
  toList_prettyAt 0 v

/-! ### Blanks -/

theorem skipGap_append {gap : List Char} (h : ∀ c ∈ gap, isGap c = true) (cs : List Char) :
    skipGap (gap ++ cs) = skipGap cs := by
  rw [skipGap, List.dropWhile_append_of_pos h]
  rfl

theorem skipGap_cons {c : Char} (h : isGap c = false) (cs : List Char) :
    skipGap (c :: cs) = c :: cs := by
  rw [skipGap, List.dropWhile_cons_of_neg (by rw [h]; exact Bool.false_ne_true)]

/-- Blanks in front of a value are passed over. -/
theorem readValue_append {gap : List Char} (h : ∀ c ∈ gap, isGap c = true) (fuel room : Nat)
    (cs : List Char) : readValue fuel room (gap ++ cs) = readValue fuel room cs := by
  cases fuel with
  | zero => rfl
  | succ fuel => rw [readValue, readValue, skipGap_append h]

theorem isDigit_eq_false_of_isGap {c : Char} (h : isGap c = true) :
    c.isDigit = false ∧ c ≠ '.' ∧ c ≠ 'e' ∧ c ≠ 'E' := by
  rw [isGap] at h
  simp only [Bool.or_eq_true, beq_iff_eq] at h
  rcases h with ((rfl | rfl) | rfl) | rfl <;> decide

theorem endsToken_append {gap : List Char} (h : ∀ c ∈ gap, isGap c = true) {cs : List Char}
    (hcs : EndsToken cs) : EndsToken (gap ++ cs) := by
  cases gap with
  | nil => exact hcs
  | cons c gap => exact endsToken_cons (isDigit_eq_false_of_isGap (h c List.mem_cons_self))

/-! ### Reading -/

theorem isGap_eq_false_of_number {c : Char} (hc : c = '-' ∨ c.isDigit = true) :
    isGap c = false := by
  cases hg : isGap c with
  | false => rfl
  | true =>
    rcases hc with rfl | hd
    · cases hg
    · rw [(isDigit_eq_false_of_isGap hg).1] at hd
      cases hd

theorem readValue_number {c : Char} (hc : c = '-' ∨ c.isDigit = true) (fuel room : Nat)
    (cs : List Char) : readValue (fuel + 1) room (c :: cs) = readNumber (c :: cs) := by
  rw [readValue, skipGap_cons (isGap_eq_false_of_number hc)]
  split
  case h_7 => rfl
  all_goals
    rename_i he
    obtain ⟨rfl, -⟩ := List.cons.inj he
    exact absurd hc (by decide)

/-- Behind the bracket of an array that is not empty, its items are read. -/
theorem readValue_array {gap : List Char} (h : ∀ c ∈ gap, isGap c = true) {c : Char}
    (hgap : isGap c = false) (hc : c ≠ ']') (fuel room : Nat) (cs : List Char) :
    readValue (fuel + 1) room ('[' :: (gap ++ c :: cs)) =
      (limit room (.array (readItems fuel (room - 1) (c :: cs)).1
          (readItems fuel (room - 1) (c :: cs)).2.1),
        (readItems fuel (room - 1) (c :: cs)).2.2) := by
  rw [readValue, skipGap_cons rfl]
  simp only [skipGap_append h, skipGap_cons hgap]
  split
  · rename_i he
    exact absurd (List.cons.inj he).1 hc
  · rfl

/-- Behind the bracket of an object that is not empty, its fields are read. -/
theorem readValue_object {gap : List Char} (h : ∀ c ∈ gap, isGap c = true) (fuel room : Nat)
    (cs : List Char) :
    readValue (fuel + 1) room ('\x7b' :: (gap ++ '"' :: cs)) =
      (limit room (.object (readFields fuel (room - 1) ('"' :: cs)).1
          (readFields fuel (room - 1) ('"' :: cs)).2.1),
        (readFields fuel (room - 1) ('"' :: cs)).2.2) := by
  rw [readValue, skipGap_cons rfl]
  simp only [skipGap_append h]
  rw [skipGap_cons rfl]
  rfl

theorem readItems_append {gap : List Char} (h : ∀ c ∈ gap, isGap c = true) (fuel room : Nat)
    (cs : List Char) : readItems fuel room (gap ++ cs) = readItems fuel room cs := by
  cases fuel with
  | zero => rfl
  | succ fuel => rw [readItems, readItems, readValue_append h]

theorem readFields_append {gap : List Char} (h : ∀ c ∈ gap, isGap c = true) (fuel room : Nat)
    (cs : List Char) : readFields fuel room (gap ++ cs) = readFields fuel room cs := by
  cases fuel with
  | zero => rfl
  | succ fuel => rw [readFields, readFields, skipGap_append h]

theorem stringText_eq_cons (s : String) : ∃ cs, (stringText s).toList = '"' :: cs :=
  ⟨_, toList_stringText s⟩

/-- The first character of a value is neither a blank nor a closing bracket. -/
theorem text_eq_cons (l : Layout) (depth : Nat) {v : Json} (hn : ∀ n ∈ v.numbers, n.ReadBack) :
    ∃ c cs, l.text depth v = c :: cs ∧ isGap c = false ∧ c ≠ ']' := by
  cases v with
  | null => exact ⟨'n', _, rfl, rfl, by decide⟩
  | bool b => cases b with
    | false => exact ⟨'f', _, rfl, rfl, by decide⟩
    | true => exact ⟨'t', _, rfl, rfl, by decide⟩
  | number n =>
    obtain ⟨c, cs, he, hc⟩ := (hn n (List.mem_singleton.mpr rfl)).head
    refine ⟨c, cs, he, isGap_eq_false_of_number hc, ?_⟩
    rintro rfl
    exact absurd hc (by decide)
  | string s =>
    obtain ⟨cs, he⟩ := stringText_eq_cons s
    exact ⟨'"', cs, he, rfl, by decide⟩
  | array items => cases items <;> exact ⟨'[', _, rfl, rfl, by decide⟩
  | object fields => cases fields <;> exact ⟨'\x7b', _, rfl, rfl, by decide⟩

theorem itemsText_eq_cons (l : Layout) (depth : Nat) {v : Json} (vs : List Json)
    (hn : ∀ n ∈ v.numbers, n.ReadBack) :
    ∃ c cs, l.itemsText depth (v :: vs) = l.line depth ++ c :: cs ∧ isGap c = false ∧ c ≠ ']' := by
  obtain ⟨c, cs, he, hc⟩ := text_eq_cons l depth hn
  cases vs with
  | nil => exact ⟨c, cs, by rw [Layout.itemsText, he], hc⟩
  | cons w vs =>
    refine ⟨c, cs ++ ',' :: l.itemsText depth (w :: vs), ?_, hc⟩
    rw [Layout.itemsText_cons_cons, he]
    rfl

theorem fieldsText_eq_cons (l : Layout) (depth : Nat) (f : String × Json)
    (fields : List (String × Json)) :
    ∃ cs, l.fieldsText depth (f :: fields) = l.line depth ++ '"' :: cs := by
  obtain ⟨key, v⟩ := f
  obtain ⟨cs, he⟩ := stringText_eq_cons key
  cases fields with
  | nil => exact ⟨_, by rw [Layout.fieldsText, he]; rfl⟩
  | cons f fields =>
    refine ⟨cs ++ ':' :: (l.gap ++ (l.text depth v ++ ',' :: l.fieldsText depth (f :: fields))), ?_⟩
    rw [Layout.fieldsText_cons_cons, he]
    rfl

mutual
/-- The text of a value is read as the tree of the value, whatever the layout. -/
theorem readValue_text (l : Layout) :
    ∀ (fuel : Nat) (v : Json) {room depth : Nat} {rest : List Char},
      (∀ n ∈ v.numbers, n.ReadBack) → 2 * (l.text depth v).length ≤ fuel → EndsToken rest →
        readValue fuel room (l.text depth v ++ rest) = (clip room v, rest)
  | 0, v, room, depth, rest, hn, hf, _ => by
    -- No value is written as the empty text.
    obtain ⟨c, cs, he, -⟩ := text_eq_cons l depth hn
    rw [he, List.length_cons] at hf
    omega
  | fuel + 1, .null, room, depth, rest, _, _, _ => by
    rw [Layout.text]
    rfl
  | fuel + 1, .bool true, room, depth, rest, _, _, _ => by
    rw [Layout.text]
    rfl
  | fuel + 1, .bool false, room, depth, rest, _, _, _ => by
    rw [Layout.text]
    rfl
  | fuel + 1, .number n, room, depth, rest, hn, _, hr => by
    have hback := hn n (List.mem_singleton.mpr rfl)
    obtain ⟨c, cs, he, hc⟩ := hback.head
    rw [Layout.text, he, List.cons_append, readValue_number hc, ← List.cons_append, ← he]
    exact readNumber_append hback hr
  | fuel + 1, .string s, room, depth, rest, _, _, _ => by
    obtain ⟨cs, he, hs⟩ := readString_stringText s rest
    rw [Layout.text, he, readValue, skipGap_cons rfl]
    simp only [hs]
    rfl
  | fuel + 1, .array [], room, depth, rest, _, _, _ => by
    rw [Layout.text]
    rfl
  | fuel + 1, .object [], room, depth, rest, _, _, _ => by
    rw [Layout.text]
    rfl
  | fuel + 1, .array (v :: vs), room, depth, rest, hn, hf, _ => by
    rw [Layout.text_array, List.length_cons, List.length_append, List.length_append] at hf
    have hitems : readItems fuel (room - 1)
        (l.itemsText (depth + 1) (v :: vs) ++ (l.line depth ++ ']' :: rest)) =
          (clipItems (room - 1) (v :: vs), none, rest) :=
      readItems_text l fuel v vs hn (by omega)
    have hv : ∀ n ∈ v.numbers, n.ReadBack := fun n hm => hn n (List.mem_append_left _ hm)
    -- The reader skips the blanks before it looks whether the array is empty.
    obtain ⟨c, cs, he, hgap, hc⟩ := itemsText_eq_cons l (depth + 1) vs hv
    have hline := l.isGap_line (depth + 1)
    rw [he, List.append_assoc, readItems_append hline, List.cons_append] at hitems
    rw [Layout.text_array, he]
    simp only [List.cons_append, List.append_assoc, List.nil_append]
    rw [readValue_array hline hgap hc, hitems]
    rfl
  | fuel + 1, .object (f :: fields), room, depth, rest, hn, hf, _ => by
    rw [Layout.text_object, List.length_cons, List.length_append, List.length_append] at hf
    have hfields : readFields fuel (room - 1)
        (l.fieldsText (depth + 1) (f :: fields) ++ (l.line depth ++ '\x7d' :: rest)) =
          (clipFields (room - 1) (f :: fields), none, rest) :=
      readFields_text l fuel f fields hn (by omega)
    obtain ⟨cs, he⟩ := fieldsText_eq_cons l (depth + 1) f fields
    have hline := l.isGap_line (depth + 1)
    rw [he, List.append_assoc, readFields_append hline, List.cons_append] at hfields
    rw [Layout.text_object, he]
    simp only [List.cons_append, List.append_assoc, List.nil_append]
    rw [readValue_object hline, hfields]
    rfl
termination_by structural fuel => fuel

theorem readItems_text (l : Layout) : ∀ (fuel : Nat) (v : Json) (vs : List Json)
    {room depth outer : Nat} {rest : List Char},
    (∀ n ∈ itemsNumbers (v :: vs), n.ReadBack) →
      2 * (l.itemsText depth (v :: vs)).length < fuel →
      readItems fuel room (l.itemsText depth (v :: vs) ++ (l.line outer ++ ']' :: rest)) =
        (clipItems room (v :: vs), none, rest)
  | 0, _, _, _, _, _, _, _, hf => absurd hf (Nat.not_lt_zero _)
  | fuel + 1, v, [], room, depth, outer, rest, hn, hf => by
    have hv : ∀ n ∈ v.numbers, n.ReadBack := fun n hm => hn n (List.mem_append_left _ hm)
    have hend : EndsToken (l.line outer ++ ']' :: rest) :=
      endsToken_append (l.isGap_line outer) (endsToken_cons (by decide))
    rw [Layout.itemsText, List.length_append] at hf
    rw [Layout.itemsText, List.append_assoc, readItems_append (l.isGap_line depth), readItems,
      readValue_text l fuel v hv (by omega) hend]
    simp only [isWhole_clip, Bool.not_true, Bool.false_eq_true, if_false]
    rw [skipGap_append (l.isGap_line outer), skipGap_cons rfl]
    rfl
  | fuel + 1, v, w :: vs, room, depth, outer, rest, hn, hf => by
    have hv : ∀ n ∈ v.numbers, n.ReadBack := fun n hm => hn n (List.mem_append_left _ hm)
    have hvs : ∀ n ∈ itemsNumbers (w :: vs), n.ReadBack :=
      fun n hm => hn n (List.mem_append_right _ hm)
    have hend : EndsToken (',' :: (l.itemsText depth (w :: vs) ++ (l.line outer ++ ']' :: rest))) :=
      endsToken_cons (by decide)
    rw [Layout.itemsText_cons_cons, List.length_append, List.length_append, List.length_cons] at hf
    have hitems : readItems fuel room
        (l.itemsText depth (w :: vs) ++ (l.line outer ++ ']' :: rest)) =
          (clipItems room (w :: vs), none, rest) :=
      readItems_text l fuel w vs hvs (by omega)
    rw [Layout.itemsText_cons_cons]
    simp only [List.append_assoc, List.cons_append]
    rw [readItems_append (l.isGap_line depth), readItems,
      readValue_text l fuel v hv (by omega) hend]
    simp only [isWhole_clip, Bool.not_true, Bool.false_eq_true, if_false]
    rw [skipGap_cons rfl]
    simp only [hitems]
    rfl
termination_by structural fuel => fuel

theorem readFields_text (l : Layout) : ∀ (fuel : Nat) (f : String × Json)
    (fields : List (String × Json)) {room depth outer : Nat} {rest : List Char},
    (∀ n ∈ fieldsNumbers (f :: fields), n.ReadBack) →
      2 * (l.fieldsText depth (f :: fields)).length < fuel →
      readFields fuel room (l.fieldsText depth (f :: fields) ++ (l.line outer ++ '\x7d' :: rest)) =
        (clipFields room (f :: fields), none, rest)
  | 0, _, _, _, _, _, _, _, hf => absurd hf (Nat.not_lt_zero _)
  | fuel + 1, (key, v), [], room, depth, outer, rest, hn, hf => by
    have hv : ∀ n ∈ v.numbers, n.ReadBack := fun n hm => hn n (List.mem_append_left _ hm)
    have hend : EndsToken (l.line outer ++ '\x7d' :: rest) :=
      endsToken_append (l.isGap_line outer) (endsToken_cons (by decide))
    obtain ⟨cs, he, hs⟩ := readString_stringText key
      (':' :: (l.gap ++ (l.text depth v ++ (l.line outer ++ '\x7d' :: rest))))
    rw [Layout.fieldsText, List.length_append, List.length_append, List.length_cons,
      List.length_append] at hf
    have hvalue : readValue fuel room
        (l.gap ++ (l.text depth v ++ (l.line outer ++ '\x7d' :: rest))) =
          (clip room v, l.line outer ++ '\x7d' :: rest) := by
      rw [readValue_append l.isGap_gap]
      exact readValue_text l fuel v hv (by omega) hend
    rw [Layout.fieldsText]
    simp only [List.append_assoc, List.cons_append]
    rw [readFields_append (l.isGap_line depth), he, readFields, skipGap_cons rfl]
    simp only [hs]
    rw [skipGap_cons rfl]
    simp only [hvalue, isWhole_clip, Bool.not_true, Bool.false_eq_true, if_false]
    rw [skipGap_append (l.isGap_line outer), skipGap_cons rfl]
    rfl
  | fuel + 1, (key, v), f :: fields, room, depth, outer, rest, hn, hf => by
    have hv : ∀ n ∈ v.numbers, n.ReadBack := fun n hm => hn n (List.mem_append_left _ hm)
    have hfs : ∀ n ∈ fieldsNumbers (f :: fields), n.ReadBack :=
      fun n hm => hn n (List.mem_append_right _ hm)
    have hend : EndsToken
        (',' :: (l.fieldsText depth (f :: fields) ++ (l.line outer ++ '\x7d' :: rest))) :=
      endsToken_cons (by decide)
    obtain ⟨cs, he, hs⟩ := readString_stringText key
      (':' :: (l.gap ++ (l.text depth v ++
        ',' :: (l.fieldsText depth (f :: fields) ++ (l.line outer ++ '\x7d' :: rest)))))
    rw [Layout.fieldsText_cons_cons, List.length_append, List.length_append, List.length_cons,
      List.length_append, List.length_append, List.length_cons] at hf
    have hfields : readFields fuel room
        (l.fieldsText depth (f :: fields) ++ (l.line outer ++ '\x7d' :: rest)) =
          (clipFields room (f :: fields), none, rest) :=
      readFields_text l fuel f fields hfs (by omega)
    have hvalue : readValue fuel room (l.gap ++ (l.text depth v ++
        ',' :: (l.fieldsText depth (f :: fields) ++ (l.line outer ++ '\x7d' :: rest)))) =
          (clip room v,
            ',' :: (l.fieldsText depth (f :: fields) ++ (l.line outer ++ '\x7d' :: rest))) := by
      rw [readValue_append l.isGap_gap]
      exact readValue_text l fuel v hv (by omega) hend
    rw [Layout.fieldsText_cons_cons]
    simp only [List.append_assoc, List.cons_append]
    rw [readFields_append (l.isGap_line depth), he, readFields, skipGap_cons rfl]
    simp only [hs]
    rw [skipGap_cons rfl]
    simp only [hvalue, isWhole_clip, Bool.not_true, Bool.false_eq_true, if_false]
    rw [skipGap_cons rfl]
    simp only [hfields]
    rfl
termination_by structural fuel => fuel
end

/-- A text in which a value stands alone is read to its end. -/
theorem ofText_text {l : Layout} {depth : Nat} {v : Json} {s : String}
    (hs : s.toList = l.text depth v) (hn : ∀ n ∈ v.numbers, n.ReadBack) :
    Document.ofText s = (clip maxDepth v, true) := by
  have hread : readValue (2 * (l.text depth v).length + 2) maxDepth (l.text depth v) =
      (clip maxDepth v, []) := by
    rw [← List.append_nil (l.text depth v)]
    exact readValue_text l _ v hn (by rw [List.append_nil]; omega) endsToken_nil
  rw [Document.ofText, hs]
  simp only [hread]
  rfl

theorem ofText_compact {v : Json} (hn : ∀ n ∈ v.numbers, n.ReadBack) :
    Document.ofText v.compact = (clip maxDepth v, true) :=
  ofText_text (toList_compact 0 v) hn

theorem ofText_pretty {v : Json} (hn : ∀ n ∈ v.numbers, n.ReadBack) :
    Document.ofText v.pretty = (clip maxDepth v, true) :=
  ofText_text (toList_pretty v) hn

/-- A normal value that has been printed is read back, unless it is nested too deep. -/
theorem ofText?_pretty {v : Json} (hv : v.Normal) (hn : ∀ n ∈ v.numbers, n.ReadBack) :
    Json.ofText? v.pretty = if v.depth ≤ maxDepth then some v else none := by
  rw [Json.ofText?, ofText_pretty hn]
  show (clip maxDepth v).value? = _
  by_cases hd : v.depth ≤ maxDepth
  · rw [clip_eq_ofJson hd, if_pos hd]
    exact hv
  · rw [value?_clip (by omega), if_neg hd]

end MinerFleet.Json

namespace MinerFleet

/-- What is read from the text of a value is read from its tree. -/
theorem Decoder.ofText_compact {α : Type} {d : Decoder α} {v : Json}
    (hn : ∀ n ∈ v.numbers, n.ReadBack) :
    Decoder.ofText d v.compact = d (Json.clip Json.maxDepth v) := by
  rw [Decoder.ofText, Json.ofText_compact hn]
  show (d (Json.clip Json.maxDepth v) >>= fun a => pure a) = _
  exact bind_pure _

end MinerFleet
