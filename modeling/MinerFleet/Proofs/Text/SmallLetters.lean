/-
Small letters of a part of a text.

* `lowerWithin` — the small letters of a part, given what stands around it;
* `OpenSigma` — the small letters of a part depend on what stands around it;
* `lowerWithin_of_not_open` — they do so for no other part;
* `lowerChars_map_toLower` — the case of ASCII letters makes no difference.

A capital sigma is the only letter that looks around: it becomes the final sigma where a letter
stands before it and none behind it. Some characters are passed over in this. So what stands around
a part matters to a sigma with nothing but such characters between it and an end of the part, and
then only if the other side does not decide by itself (`isFinal_append`).
-/
import MinerFleet.Fleet.Filter
import MinerFleet.Proofs.Text.Walk

namespace MinerFleet.Text

/-! ### Small letters in a place -/

/-- Whether a capital sigma is the last letter of a word. -/
def isFinal (before after : List Char) : Bool :=
  letterNext before && !letterNext after

/-- The small letters for one character in a text. -/
def smallIn (before : List Char) (c : Char) (after : List Char) : List Char :=
  if c = 'Σ' then if isFinal before after then ['ς'] else ['σ'] else smallChar c

/-- The small letters for a part of a text; of what precedes it the nearest comes first. -/
def lowerWithin (before after : List Char) : List Char → List Char
  | [] => []
  | c :: cs => smallIn before c (cs ++ after) ++ lowerWithin (c :: before) after cs

theorem lowerFrom_eq (before cs : List Char) : lowerFrom before cs = lowerWithin before [] cs := by
  induction cs generalizing before with
  | nil => rfl
  | cons c cs ih =>
    rw [lowerWithin, ← ih, List.append_nil]
    rfl

theorem lowerChars_eq (cs : List Char) : lowerChars cs = lowerWithin [] [] cs :=
  lowerFrom_eq [] cs

theorem lowerWithin_append (before after u v : List Char) :
    lowerWithin before after (u ++ v) =
      lowerWithin before (v ++ after) u ++ lowerWithin (u.reverse ++ before) after v := by
  induction u generalizing before with
  | nil => rfl
  | cons c u ih =>
    rw [List.cons_append, lowerWithin, ih, lowerWithin, List.append_assoc, List.append_assoc,
      List.reverse_cons, List.append_assoc, List.singleton_append]

/-- Only what the sigmas of a part see of its surroundings matters. -/
theorem lowerWithin_congr {before after before' after' cs : List Char}
    (h : ∀ u v, cs = u ++ 'Σ' :: v → isFinal (u.reverse ++ before) (v ++ after) =
      isFinal (u.reverse ++ before') (v ++ after')) :
    lowerWithin before after cs = lowerWithin before' after' cs := by
  induction cs generalizing before before' with
  | nil => rfl
  | cons c cs ih =>
    have hrest : lowerWithin (c :: before) after cs = lowerWithin (c :: before') after' cs := by
      refine ih fun u v huv => ?_
      have := h (c :: u) v (by rw [huv, List.cons_append])
      simpa only [List.reverse_cons, List.append_assoc, List.singleton_append] using this
    rw [lowerWithin, lowerWithin, hrest, smallIn, smallIn]
    split
    · rename_i hc
      rw [show isFinal before (cs ++ after) = isFinal before' (cs ++ after') from
        h [] cs (by rw [hc, List.nil_append])]
    · rfl

/-! ### Surroundings -/

/-- Characters that are passed over. -/
def Passed (cs : List Char) : Prop :=
  ∀ c ∈ cs, isIgnorable c = true

instance : DecidablePred Passed := fun _ =>
  decidable_of_iff _ List.all_eq_true

theorem not_passed_sigma (u v : List Char) : ¬Passed (u ++ 'Σ' :: v) := fun h =>
  absurd (h 'Σ' (List.mem_append_right u List.mem_cons_self)) (by decide +kernel)

theorem letterNext_append_of_passed {u : List Char} (h : Passed u) (v : List Char) :
    letterNext (u ++ v) = letterNext v := by
  rw [letterNext, List.dropWhile_append_of_pos h]
  rfl

theorem letterNext_append_of_not_passed {u : List Char} (h : ¬Passed u) (v : List Char) :
    letterNext (u ++ v) = letterNext u := by
  induction u with
  | nil => exact absurd nofun h
  | cons c u ih =>
    by_cases hc : isIgnorable c = true
    · have hu : ¬Passed u := fun hu => h (List.forall_mem_cons.mpr ⟨hc, hu⟩)
      have hdrop (cs : List Char) : letterNext (c :: cs) = letterNext cs := by
        rw [letterNext, List.dropWhile_cons_of_pos hc]
        rfl
      rw [List.cons_append, hdrop, hdrop, ih hu]
    · rw [letterNext, letterNext, List.cons_append, List.dropWhile_cons_of_neg hc,
        List.dropWhile_cons_of_neg hc]

theorem letterNext_of_passed {u : List Char} (h : Passed u) : letterNext u = false := by
  have := letterNext_append_of_passed h []
  rwa [List.append_nil] at this

theorem passed_reverse {u : List Char} : Passed u.reverse ↔ Passed u := by
  simp only [Passed, List.mem_reverse]

/-- A capital sigma between `u` and `v` may be final or not, depending on what stands beyond them: a
letter precedes it and all behind it is passed over, or all in front of it is passed over and no
letter follows. -/
def LooksBeyond (u v : List Char) : Prop :=
  (letterNext u.reverse = true ∧ Passed v) ∨ (Passed u ∧ letterNext v = false)

instance (u v : List Char) : Decidable (LooksBeyond u v) :=
  inferInstanceAs (Decidable (_ ∨ _))

theorem isFinal_append {u v : List Char} (h : ¬LooksBeyond u v) (before after : List Char) :
    isFinal (u.reverse ++ before) (v ++ after) = isFinal u.reverse v := by
  simp only [LooksBeyond, not_or, not_and, Bool.not_eq_false] at h
  rw [isFinal, isFinal]
  cases hv : letterNext v with
  | true =>
    have hword : ¬Passed v := fun hp => by simp [letterNext_of_passed hp] at hv
    rw [letterNext_append_of_not_passed hword, hv, Bool.not_true, Bool.and_false, Bool.and_false]
  | false =>
    have hword : ¬Passed u.reverse := fun hp =>
      absurd (h.2 (passed_reverse.mp hp)) (by simp [hv])
    rw [letterNext_append_of_not_passed hword]
    cases hu : letterNext u.reverse with
    | true => rw [letterNext_append_of_not_passed (h.1 hu), hv]
    | false => rw [Bool.false_and, Bool.false_and]

/-- There is a capital sigma among the characters that looks beyond them. -/
def OpenSigma (cs : List Char) : Prop :=
  ∃ u v, cs = u ++ 'Σ' :: v ∧ LooksBeyond u v

theorem openSigma_iff {cs : List Char} :
    OpenSigma cs ↔ ∃ n ∈ List.range cs.length, cs[n]? = some 'Σ' ∧
      LooksBeyond (cs.take n) (cs.drop (n + 1)) := by
  simp only [List.mem_range]
  constructor
  · rintro ⟨u, v, rfl, hb⟩
    refine ⟨u.length, by simp, by simp, ?_⟩
    rwa [List.take_left, List.drop_length_add_append, List.drop_one, List.tail_cons]
  · rintro ⟨n, -, hn, hb⟩
    obtain ⟨hlt, hget⟩ := List.getElem?_eq_some_iff.mp hn
    refine ⟨cs.take n, cs.drop (n + 1), ?_, hb⟩
    rw [← hget, List.getElem_cons_drop, List.take_append_drop]

instance : DecidablePred OpenSigma := fun _ =>
  decidable_of_iff _ openSigma_iff.symm

/-- The small letters of a part are those that it has by itself, unless it has a sigma that looks
beyond it. -/
theorem lowerWithin_of_not_open {cs : List Char} (h : ¬OpenSigma cs) (before after : List Char) :
    lowerWithin before after cs = lowerChars cs := by
  rw [lowerChars_eq]
  refine lowerWithin_congr fun u v huv => ?_
  have hclosed : ¬LooksBeyond u v := fun hb => h ⟨u, v, huv, hb⟩
  rw [isFinal_append hclosed, isFinal_append hclosed]

/-- Without such a sigma a part has its small letters in the small letters of the whole. -/
theorem lowerChars_infix {cs text : List Char} (h : ¬OpenSigma cs) (hcs : cs <:+: text) :
    lowerChars cs <:+: lowerChars text := by
  obtain ⟨front, back, rfl⟩ := hcs
  rw [lowerChars_eq (front ++ cs ++ back), lowerWithin_append, lowerWithin_append,
    lowerWithin_of_not_open h]
  exact List.infix_append _ _ _

/-! ### A letter more -/

theorem lowerWithin_around (before after u v : List Char) :
    lowerWithin before after (u ++ 'Σ' :: v) =
      lowerWithin before ('Σ' :: v ++ after) u ++
        ((if isFinal (u.reverse ++ before) (v ++ after) then 'ς' else 'σ') ::
          lowerWithin ('Σ' :: (u.reverse ++ before)) after v) := by
  rw [lowerWithin_append, lowerWithin, smallIn, if_pos rfl]
  split <;> rfl

/-- What stands behind a sigma is the same to all that stands in front of it. -/
theorem isFinal_before_sigma (before u v after : List Char) :
    isFinal before (u ++ 'Σ' :: v ++ after) = isFinal before (u ++ 'Σ' :: v) := by
  rw [isFinal, isFinal, letterNext_append_of_not_passed (not_passed_sigma u v)]

theorem isFinal_behind_sigma (u v before after : List Char) :
    isFinal (u ++ 'Σ' :: (v ++ before)) after = isFinal (u ++ 'Σ' :: v) after := by
  have := letterNext_append_of_not_passed (not_passed_sigma u v) before
  rw [List.append_assoc, List.cons_append] at this
  rw [isFinal, isFinal, this]

theorem letterNext_a (cs : List Char) : letterNext ('a' :: cs) = true := by
  have hcased : isCased 'a' = true := by decide +kernel
  rw [letterNext, List.dropWhile_cons_of_neg (by decide +kernel)]
  exact hcased

theorem smallIn_a (before after : List Char) : smallIn before 'a' after = ['a'] := by
  rw [smallIn, if_neg (by decide)]
  decide +kernel

/-- A sigma at the end of a word is no longer final when the word goes on. -/
theorem lowerChars_goes_on {u v : List Char} (hu : letterNext u.reverse = true) (hv : Passed v) :
    ∃ xs ys, lowerChars (u ++ 'Σ' :: v) = xs ++ 'ς' :: ys ∧
      lowerChars (u ++ 'Σ' :: v ++ ['a']) = xs ++ 'σ' :: ys ++ ['a'] := by
  refine ⟨lowerWithin [] ('Σ' :: v) u, lowerWithin ('Σ' :: u.reverse) [] v, ?_, ?_⟩
  · have hfinal : isFinal (u.reverse ++ []) (v ++ []) = true := by
      rw [List.append_nil, List.append_nil, isFinal, hu, letterNext_of_passed hv]
      rfl
    rw [lowerChars_eq, lowerWithin_around, if_pos hfinal, List.append_nil, List.append_nil]
  · have hplain : isFinal (u.reverse ++ []) (v ++ ['a']) = false := by
      rw [isFinal, letterNext_append_of_passed hv, letterNext_a, Bool.not_true, Bool.and_false]
    have hfront : lowerWithin [] ('Σ' :: v ++ ['a']) u = lowerWithin [] ('Σ' :: v) u :=
      lowerWithin_congr fun w z _ => by
        rw [← List.append_assoc, isFinal_before_sigma]
    have hback : lowerWithin ('Σ' :: u.reverse) ['a'] v = lowerWithin ('Σ' :: u.reverse) [] v :=
      lowerWithin_congr fun w z hwz => absurd (hwz ▸ hv) (not_passed_sigma w z)
    have hlast : ∀ before, lowerWithin before [] ['a'] = ['a'] := fun before => by
      rw [lowerWithin, smallIn_a]
      rfl
    rw [lowerChars_eq, lowerWithin_append, List.append_nil, lowerWithin_around,
      if_neg (Bool.eq_false_iff.mp hplain), List.append_nil, hfront, hback, hlast]

/-- A sigma that no letter precedes becomes final when one does and the word ends. -/
theorem lowerChars_goes_before {u v : List Char} (hu : Passed u) (hv : letterNext v = false) :
    ∃ xs ys, lowerChars (u ++ 'Σ' :: v) = xs ++ 'σ' :: ys ∧
      lowerChars ('a' :: (u ++ 'Σ' :: v)) = 'a' :: xs ++ 'ς' :: ys := by
  have hpassed := passed_reverse.mpr hu
  refine ⟨lowerWithin [] ('Σ' :: v) u, lowerWithin ('Σ' :: u.reverse) [] v, ?_, ?_⟩
  · have hplain : isFinal (u.reverse ++ []) (v ++ []) = false := by
      rw [List.append_nil, isFinal, letterNext_of_passed hpassed, Bool.false_and]
    rw [lowerChars_eq, lowerWithin_around, if_neg (Bool.eq_false_iff.mp hplain), List.append_nil,
      List.append_nil]
  · have hfinal : isFinal (u.reverse ++ ['a']) (v ++ []) = true := by
      rw [List.append_nil, isFinal, letterNext_append_of_passed hpassed, letterNext_a, hv]
      rfl
    have hfront : lowerWithin ['a'] ('Σ' :: v) u = lowerWithin [] ('Σ' :: v) u :=
      lowerWithin_congr fun w z hwz => absurd (hwz ▸ hu) (not_passed_sigma w z)
    have hback : lowerWithin ('Σ' :: (u.reverse ++ ['a'])) [] v =
        lowerWithin ('Σ' :: u.reverse) [] v :=
      lowerWithin_congr fun w z _ => isFinal_behind_sigma _ _ _ _
    rw [lowerChars_eq, lowerWithin, smallIn_a, lowerWithin_around, if_pos hfinal, List.append_nil,
      hfront, hback]
    rfl

/-! ### Case of ASCII letters -/

/-- What makes no difference between the two cases of an ASCII letter. -/
theorem toLower_congr {α : Type} {f : Char → α}
    (h : ∀ n : Fin 26, f (Char.ofNat ('A'.toNat + n)).toLower = f (Char.ofNat ('A'.toNat + n)))
    (c : Char) : f c.toLower = f c := by
  by_cases hc : c.val ≥ 'A'.val ∧ c.val ≤ 'Z'.val
  · have hfirst : 'A'.toNat ≤ c.toNat := UInt32.le_iff_toNat_le.mp hc.1
    have hlast : c.toNat ≤ 'A'.toNat + 25 := UInt32.le_iff_toNat_le.mp hc.2
    have := h ⟨c.toNat - 'A'.toNat, by omega⟩
    rwa [Nat.add_sub_cancel' hfirst, Char.ofNat_toNat] at this
  · have hsame : c.toLower = c := dif_neg hc
    rw [hsame]

theorem isBlank_toLower (c : Char) : isBlank c.toLower = isBlank c :=
  toLower_congr (by decide +kernel) c

theorem dropWhile_map_toLower {p : Char → Bool} (hp : ∀ c : Char, p c.toLower = p c)
    (cs : List Char) : (cs.map Char.toLower).dropWhile p = (cs.dropWhile p).map Char.toLower := by
  rw [List.dropWhile_map]
  congr 2
  exact funext hp

theorem letterNext_map_toLower (cs : List Char) :
    letterNext (cs.map Char.toLower) = letterNext cs := by
  have hcased : ∀ c : Char, isCased c.toLower = isCased c := toLower_congr (by decide +kernel)
  rw [letterNext, letterNext, dropWhile_map_toLower (toLower_congr (by decide +kernel))]
  cases cs.dropWhile isIgnorable with
  | nil => rfl
  | cons c rest => exact hcased c

theorem smallIn_map_toLower (before : List Char) (c : Char) (after : List Char) :
    smallIn (before.map Char.toLower) c.toLower (after.map Char.toLower) =
      smallIn before c after := by
  have hsmall : smallChar c.toLower = smallChar c := toLower_congr (by decide +kernel) c
  have hsigma : (c.toLower = 'Σ') = (c = 'Σ') :=
    toLower_congr (f := fun c => c = 'Σ') (fun n => propext (by revert n; decide +kernel)) c
  have hfinal : isFinal (before.map Char.toLower) (after.map Char.toLower) =
      isFinal before after := by
    rw [isFinal, letterNext_map_toLower, letterNext_map_toLower, isFinal]
  simp only [smallIn, hfinal, hsmall, hsigma]

theorem lowerWithin_map_toLower (before after cs : List Char) :
    lowerWithin (before.map Char.toLower) (after.map Char.toLower) (cs.map Char.toLower) =
      lowerWithin before after cs := by
  induction cs generalizing before with
  | nil => rfl
  | cons c cs ih =>
    have hrest := ih (c :: before)
    rw [List.map_cons] at hrest
    rw [List.map_cons, lowerWithin, hrest, ← List.map_append, smallIn_map_toLower, lowerWithin]

/-- The case of ASCII letters makes no difference to the small letters of a text. -/
theorem lowerChars_map_toLower (cs : List Char) :
    lowerChars (cs.map Char.toLower) = lowerChars cs := by
  rw [lowerChars_eq, lowerChars_eq]
  exact lowerWithin_map_toLower [] [] cs

theorem trimChars_map_toLower (cs : List Char) :
    trimChars (cs.map Char.toLower) = (trimChars cs).map Char.toLower := by
  rw [trimChars, trimChars, dropWhile_map_toLower isBlank_toLower, ← List.map_reverse,
    dropWhile_map_toLower isBlank_toLower, List.map_reverse]

/-- Two texts that differ in the case of ASCII letters at most. -/
def SameLetters (s t : String) : Prop :=
  s.toList.map Char.toLower = t.toList.map Char.toLower

instance (s t : String) : Decidable (SameLetters s t) :=
  inferInstanceAs (Decidable (_ = _))

/-- Such texts have the same small letters, also without the blanks around them. -/
theorem SameLetters.lower_trim {s t : String} (h : SameLetters s t) :
    lower (trim s) = lower (trim t) := by
  rw [lower, lower, trim, trim, String.toList_ofList, String.toList_ofList,
    ← lowerChars_map_toLower, ← trimChars_map_toLower, h, trimChars_map_toLower,
    lowerChars_map_toLower]

end MinerFleet.Text
