/-
Strings and numbers, written and read back.

* `unitOf` — the unit of a string as which the printer writes a character;
* `EndsToken` — what may stand behind a number: nothing that would go on with it;
* `Number.ReadBack` — the text of a number is read as this number.

Every string is read back, whatever characters it has (`readString_stringText`). Of a number it is
enough that it is read back alone: then it is so in front of anything that ends it
(`readNumber_append`).
-/
import MinerFleet.Json.Printer
import MinerFleet.Json.Reader

namespace MinerFleet.Json

open Text Decimal

/-! ### Strings -/

/-- The unit as which the printer writes a character: control characters that have no short escape
are written by their number. -/
def unitOf (c : Char) : CodeUnit :=
  if c = '\n' ∨ c = '\r' ∨ c = '\t' ∨ c = '\x08' ∨ c = '\x0c' then .char c
  else if c.toNat < 0x20 then .escape c.toNat
  else .char c

theorem hexBits?_hex4 {n : Nat} (h : n < 0x20) :
    ∃ a b c d, (hex4 n).toList = [a, b, c, d] ∧ hexBits? a b c d = some n := by
  have hall : ∀ n : Fin 0x20, ∃ a b c d, (hex4 n).toList = [a, b, c, d] ∧
      hexBits? a b c d = some n.val := by
    intro n
    refine ⟨_, _, _, _, String.toList_ofList, ?_⟩
    revert n
    decide
  exact hall ⟨n, h⟩

theorem readUnits_short {e c : Char} (he : e ≠ 'u') (hc : shortEscape? e = some c)
    (cs : List Char) :
    readUnits ('\\' :: e :: cs) =
      (readUnits cs).map fun (units, rest) => (.char c :: units, rest) := by
  rw [readUnits.eq_4 _ _ fun _ _ _ _ _ hu => absurd hu he, hc]
  cases readUnits cs <;> rfl

theorem readUnits_plain {c : Char} (hq : c ≠ '"') (hb : c ≠ '\\') (hc : ¬ c.toNat < 0x20)
    (cs : List Char) :
    readUnits (c :: cs) = (readUnits cs).map fun (units, rest) => (.char c :: units, rest) := by
  have hlt : ¬ c < ' ' := hc
  rw [readUnits.eq_5 _ _ hq (fun _ _ _ _ _ h => absurd h hb) (fun _ _ h => absurd h hb),
    if_neg hlt]

/-- A character is read as the unit as which it was written. -/
theorem readUnits_escapeChar (c : Char) (cs : List Char) :
    readUnits ((escapeChar c).toList ++ cs) =
      (readUnits cs).map fun (units, rest) => (unitOf c :: units, rest) := by
  unfold escapeChar
  split
  · subst c
    exact readUnits_short (by decide) rfl cs
  split
  · subst c
    exact readUnits_short (by decide) rfl cs
  split
  · subst c
    exact readUnits_short (by decide) rfl cs
  split
  · subst c
    exact readUnits_short (by decide) rfl cs
  split
  · subst c
    exact readUnits_short (by decide) rfl cs
  split
  · subst c
    exact readUnits_short (by decide) rfl cs
  split
  · subst c
    exact readUnits_short (by decide) rfl cs
  -- No short escape is left: a control character is written by its number, any other as it is.
  rename_i hq hb hn hr ht h8 hc
  have hshort : ¬ (c = '\n' ∨ c = '\r' ∨ c = '\t' ∨ c = '\x08' ∨ c = '\x0c') := by
    simp only [hn, hr, ht, h8, hc, or_self, not_false_eq_true]
  rw [unitOf, if_neg hshort]
  split
  · rename_i hctrl
    obtain ⟨w, x, y, z, hhex, hbits⟩ := hexBits?_hex4 hctrl
    rw [String.toList_append, hhex]
    show readUnits ('\\' :: 'u' :: w :: x :: y :: z :: cs) = _
    rw [readUnits.eq_3, hbits]
    cases readUnits cs <;> rfl
  · rename_i hctrl
    rw [String.toList_singleton]
    exact readUnits_plain hq hb hctrl cs

theorem readUnits_escaped (cs rest : List Char) :
    readUnits (cs.flatMap (fun c => (escapeChar c).toList) ++ '"' :: rest) =
      some (cs.map unitOf, rest) := by
  induction cs with
  | nil => rfl
  | cons c cs ih =>
    rw [List.flatMap_cons, List.append_assoc, readUnits_escapeChar, ih]
    rfl

/-- An escape that is no half of a surrogate pair stands for its own character. -/
theorem joinUnits_escape {bits : Nat} (h : bits < 0xd800) (units : List CodeUnit) :
    joinUnits (.escape bits :: units) = (joinUnits units).map (Char.ofNat bits :: ·) := by
  -- The reader looks for a first half, for a second half, and for any half, in different cases.
  have hlow : ¬ (0xd800 ≤ bits ∧ bits < 0xdc00) := by omega
  have hhigh : ¬ (0xdc00 ≤ bits ∧ bits < 0xe000) := by omega
  have hany : ¬ (0xd800 ≤ bits ∧ bits < 0xe000) := by omega
  cases units with
  | nil => rw [joinUnits.eq_4 _ _ (fun _ _ he => by cases he), if_neg hany]
  | cons u units =>
    cases u with
    | char c => rw [joinUnits.eq_4 _ _ (fun _ _ he => by cases he), if_neg hany]
    | escape low => rw [joinUnits, if_neg hlow, if_neg hhigh]

theorem joinUnits_map_unitOf (cs : List Char) : joinUnits (cs.map unitOf) = some cs := by
  induction cs with
  | nil => rfl
  | cons c cs ih =>
    rw [List.map_cons, unitOf]
    split
    · rw [joinUnits, ih]
      rfl
    · split
      · rw [joinUnits_escape (by omega), ih, Char.ofNat_toNat]
        rfl
      · rw [joinUnits, ih]
        rfl

theorem toList_stringText (s : String) :
    (stringText s).toList =
      '"' :: (s.toList.flatMap (fun c => (escapeChar c).toList) ++ ['"']) := by
  rw [stringText, String.toList_append, String.toList_append, String.toList_join, List.flatMap_map]
  rfl

/-- A string is read back, whatever stands in it and behind it. -/
theorem readString_stringText (s : String) (rest : List Char) :
    ∃ cs, (stringText s).toList ++ rest = '"' :: cs ∧ readString cs = (.ok s, rest) := by
  refine ⟨_, by rw [toList_stringText, List.cons_append], ?_⟩
  rw [List.append_assoc, List.singleton_append, readString, readUnits_escaped]
  simp only [joinUnits_map_unitOf, String.ofList_toList]

/-! ### Numbers -/

/-- What stands behind a number does not go on with it. -/
def EndsToken (rest : List Char) : Prop :=
  ∀ c cs, rest = c :: cs → c.isDigit = false ∧ c ≠ '.' ∧ c ≠ 'e' ∧ c ≠ 'E'

theorem endsToken_nil : EndsToken [] := by
  intro c cs h
  cases h

theorem endsToken_cons {c : Char} {cs : List Char}
    (h : c.isDigit = false ∧ c ≠ '.' ∧ c ≠ 'e' ∧ c ≠ 'E') : EndsToken (c :: cs) := by
  intro c' cs' he
  obtain ⟨rfl, -⟩ := List.cons.inj he
  exact h

variable {rest : List Char}

theorem spanDigits_append (h : EndsToken rest) (cs : List Char) :
    spanDigits (cs ++ rest) = ((spanDigits cs).1, (spanDigits cs).2 ++ rest) := by
  induction cs with
  | nil =>
    cases rest with
    | nil => rfl
    | cons c cs =>
      have hc : ¬ c.isDigit := by
        rw [(h c cs rfl).1]
        exact Bool.false_ne_true
      rw [List.nil_append, spanDigits, List.takeWhile_cons_of_neg hc, List.dropWhile_cons_of_neg hc]
      rfl
  | cons c cs ih =>
    obtain ⟨htake, hdrop⟩ := Prod.mk.inj ih
    rw [List.cons_append, spanDigits, spanDigits]
    by_cases hc : c.isDigit
    · rw [List.takeWhile_cons_of_pos hc, List.takeWhile_cons_of_pos hc,
        List.dropWhile_cons_of_pos hc, List.dropWhile_cons_of_pos hc, htake, hdrop]
      rfl
    · rw [List.takeWhile_cons_of_neg hc, List.takeWhile_cons_of_neg hc,
        List.dropWhile_cons_of_neg hc, List.dropWhile_cons_of_neg hc]
      rfl

theorem readFraction_append (h : EndsToken rest) {cs cs' : List Char} {f : Option (List Char)}
    (hf : readFraction cs = some (f, cs')) : readFraction (cs ++ rest) = some (f, cs' ++ rest) := by
  unfold readFraction at hf
  split at hf
  · rename_i cs
    rw [List.cons_append, readFraction, spanDigits_append h]
    cases hs : spanDigits cs with
    | mk digits cs'' =>
      rw [hs] at hf
      cases digits with
      | nil => cases hf
      | cons d ds =>
        obtain ⟨rfl, rfl⟩ := Prod.mk.inj (Option.some.inj hf)
        rfl
  · rename_i hne
    obtain ⟨rfl, rfl⟩ := Prod.mk.inj (Option.some.inj hf)
    unfold readFraction
    split
    · rename_i cs' he
      cases cs with
      | nil =>
        -- The point would be the first character behind the number, which ends it.
        exact absurd rfl (h _ _ he).2.1
      | cons c cs =>
        obtain ⟨rfl, -⟩ := List.cons.inj he
        exact (hne cs rfl).elim
    · rfl

theorem sign_append {cs : List Char} (hne : cs ≠ []) (rest : List Char) :
    Numeral.sign (cs ++ rest) = ((Numeral.sign cs).1, (Numeral.sign cs).2 ++ rest) := by
  cases cs with
  | nil => exact absurd rfl hne
  | cons c cs =>
    by_cases hp : c = '+'
    · subst c
      rfl
    · by_cases hm : c = '-'
      · subst c
        rfl
      · have hsign : ∀ cs, Numeral.sign (c :: cs) = (false, c :: cs) := fun cs =>
          Numeral.sign.eq_3 _ (fun _ he => hp (List.cons.inj he).1)
            fun _ he => hm (List.cons.inj he).1
        rw [List.cons_append, hsign, hsign]
        rfl

theorem readExponent_append (h : EndsToken rest) {cs cs' : List Char} {e : Option Int}
    (he : readExponent cs = some (e, cs')) : readExponent (cs ++ rest) = some (e, cs' ++ rest) := by
  cases cs with
  | nil =>
    obtain ⟨rfl, rfl⟩ := Prod.mk.inj (Option.some.inj he)
    cases rest with
    | nil => rfl
    | cons c cs =>
      have hc : ¬ (c = 'e' ∨ c = 'E') := not_or.mpr (h c cs rfl).2.2
      rw [List.nil_append, readExponent, if_neg hc]
  | cons c cs =>
    rw [List.cons_append, readExponent]
    rw [readExponent] at he
    by_cases hc : c = 'e' ∨ c = 'E'
    · rw [if_pos hc] at he ⊢
      cases cs with
      | nil => cases he
      | cons d ds =>
        rw [sign_append (List.cons_ne_nil d ds)]
        simp only [spanDigits_append h] at he ⊢
        cases hs : spanDigits (Numeral.sign (d :: ds)).2 with
        | mk digits cs'' =>
          rw [hs] at he
          cases digits with
          | nil => cases he
          | cons _ _ =>
            obtain ⟨rfl, rfl⟩ := Prod.mk.inj (Option.some.inj he)
            rfl
    · rw [if_neg hc] at he ⊢
      obtain ⟨rfl, rfl⟩ := Prod.mk.inj (Option.some.inj he)
      rfl

/-- A number behind its sign. -/
def readParts (negative : Bool) (cs : List Char) : Option (Literal × List Char) :=
  let (whole, cs) := spanDigits cs
  if whole = [] ∨ (whole.head? = some '0' ∧ whole.length ≠ 1) then none
  else
    match readFraction cs with
    | none => none
    | some (fraction, cs) =>
      match readExponent cs with
      | none => none
      | some (exponent, cs) => some (⟨negative, whole, fraction, exponent⟩, cs)

theorem readLiteral_plain {c : Char} (hc : c ≠ '-') (cs : List Char) :
    readLiteral (c :: cs) = readParts false (c :: cs) := by
  unfold readLiteral
  split
  rename_i he
  split at he
  · rename_i hminus
    exact absurd (List.cons.inj hminus).1 hc
  · obtain ⟨rfl, rfl⟩ := Prod.mk.inj he
    rfl

theorem readParts_append (h : EndsToken rest) {negative : Bool} {cs cs' : List Char} {l : Literal}
    (hl : readParts negative cs = some (l, cs')) :
    readParts negative (cs ++ rest) = some (l, cs' ++ rest) := by
  rw [readParts, spanDigits_append h]
  rw [readParts] at hl
  cases hs : spanDigits cs with
  | mk whole cs =>
    simp only [hs] at hl ⊢
    split at hl
    · cases hl
    · rename_i hw
      rw [if_neg hw]
      cases hf : readFraction cs with
      | none =>
        rw [hf] at hl
        cases hl
      | some p =>
        obtain ⟨fraction, cs⟩ := p
        rw [hf] at hl
        rw [readFraction_append h hf]
        simp only at hl ⊢
        cases he : readExponent cs with
        | none =>
          rw [he] at hl
          cases hl
        | some p =>
          obtain ⟨exponent, cs⟩ := p
          rw [he] at hl
          rw [readExponent_append h he]
          obtain ⟨rfl, rfl⟩ := Prod.mk.inj (Option.some.inj hl)
          rfl

theorem readLiteral_append (h : EndsToken rest) {cs cs' : List Char} {l : Literal}
    (hl : readLiteral cs = some (l, cs')) : readLiteral (cs ++ rest) = some (l, cs' ++ rest) := by
  cases cs with
  | nil => cases hl
  | cons c cs =>
    by_cases hc : c = '-'
    · subst c
      exact readParts_append h hl
    · rw [List.cons_append, readLiteral_plain hc]
      rw [readLiteral_plain hc] at hl
      exact readParts_append h hl

theorem head_of_readLiteral {c : Char} {cs cs' : List Char} {l : Literal}
    (hl : readLiteral (c :: cs) = some (l, cs')) : c = '-' ∨ c.isDigit = true := by
  by_cases hc : c = '-'
  · exact .inl hc
  · by_cases hd : c.isDigit = true
    · exact .inr hd
    · rw [readLiteral_plain hc, readParts, spanDigits, List.takeWhile_cons_of_neg hd] at hl
      cases hl

end MinerFleet.Json

namespace MinerFleet

/-- The text of a number is read as this number. -/
def Number.ReadBack (n : Number) : Prop :=
  Json.readNumber n.text.toList = (.number n, [])

theorem Number.ReadBack.literal {n : Number} (h : n.ReadBack) :
    ∃ l, Json.readLiteral n.text.toList = some (l, []) ∧ l.value? = some n := by
  rw [ReadBack, Json.readNumber] at h
  cases hl : Json.readLiteral n.text.toList with
  | none =>
    rw [hl] at h
    cases h
  | some p =>
    obtain ⟨l, cs⟩ := p
    rw [hl] at h
    simp only at h
    cases hv : l.value? with
    | none =>
      rw [hv] at h
      cases h
    | some n' =>
      rw [hv] at h
      obtain ⟨he, rfl⟩ := Prod.mk.inj h
      refine ⟨l, rfl, ?_⟩
      rw [hv, Document.number.inj he]

/-- A number begins with its sign or with a digit. -/
theorem Number.ReadBack.head {n : Number} (h : n.ReadBack) :
    ∃ c cs, n.text.toList = c :: cs ∧ (c = '-' ∨ c.isDigit = true) := by
  obtain ⟨l, hl, -⟩ := h.literal
  cases ht : n.text.toList with
  | nil =>
    rw [ht] at hl
    cases hl
  | cons c cs =>
    rw [ht] at hl
    exact ⟨c, cs, rfl, Json.head_of_readLiteral hl⟩

/-- A number is read back in front of anything that ends it. -/
theorem Json.readNumber_append {n : Number} (hn : n.ReadBack) {rest : List Char}
    (h : EndsToken rest) : readNumber (n.text.toList ++ rest) = (.number n, rest) := by
  obtain ⟨l, hl, hv⟩ := hn.literal
  rw [readNumber, readLiteral_append h hl]
  simp only [hv]
  rfl

end MinerFleet
