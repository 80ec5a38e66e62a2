/-
Looking for miners by text finds what contains it.

* `occursIn_iff` — characters in a row somewhere among others;
* `found_where_contained_iff` — for which texts a miner is found whenever the text stands in one of
  its names or models.

Both sides are put into small letters as a whole, and then one is looked for in the other. So a text
is found unless its own small letters differ from those that it has in a name. That can only happen
with a capital sigma that looks beyond the text (`Text.OpenSigma`), and then it does happen in some
name: a letter more makes a final sigma of another one, or the other way round. As no sigma makes up
for that, the text is not found anywhere in this name (`not_infix_of_fewer`).
-/
import MinerFleet.Proofs.Text.SmallLetters

namespace MinerFleet

open Text

theorem occursIn_iff {needle cs : List Char} : occursIn needle cs = true ↔ needle <:+: cs := by
  induction cs with
  | nil => rw [occursIn, List.isEmpty_iff, List.infix_nil]
  | cons c cs ih =>
    rw [occursIn, Bool.or_eq_true, ih, List.isPrefixOf_iff_prefix, List.infix_cons_iff]

/-- A part has no character more often than the whole. -/
theorem not_infix_of_fewer {c : Char} {needle cs : List Char} (h : cs.count c < needle.count c) :
    ¬needle <:+: cs :=
  fun hin => absurd (hin.sublist.count_le c) (Nat.not_le_of_lt h)

namespace Text

/-- With a sigma that looks beyond it a text is not found in each text in which it stands. -/
theorem exists_not_infix {cs : List Char} (h : OpenSigma cs) :
    ∃ text, cs <:+: text ∧ ¬lowerChars cs <:+: lowerChars text := by
  obtain ⟨u, v, rfl, ⟨hu, hv⟩ | ⟨hu, hv⟩⟩ := h
  · obtain ⟨xs, ys, hpart, hwhole⟩ := lowerChars_goes_on hu hv
    refine ⟨u ++ 'Σ' :: v ++ ['a'], List.infix_append [] _ _, ?_⟩
    rw [hpart, hwhole]
    refine not_infix_of_fewer (c := 'ς') ?_
    simp [List.count_append]
  · obtain ⟨xs, ys, hpart, hwhole⟩ := lowerChars_goes_before hu hv
    refine ⟨'a' :: (u ++ 'Σ' :: v), (List.suffix_cons _ _).isInfix, ?_⟩
    rw [hpart, hwhole]
    refine not_infix_of_fewer (c := 'σ') ?_
    simp [List.count_append]

end Text

namespace Device

theorem mem_searchTexts {d : Device} {s : String} :
    s ∈ d.searchTexts ↔ s = d.shortName ∨ d.displayName = some s ∨ d.asicModel = some s ∨
      d.deviceModel = some s ∨ s = d.address := by
  simp only [searchTexts, List.mem_filterMap, List.mem_cons, List.not_mem_nil, or_false, id_eq,
    exists_eq_right, Option.some.injEq]
  simp only [eq_comm]

theorem isMatch_iff {d : Device} {text : String} :
    d.isMatch text = true ↔ lowerChars (trim text).toList = [] ∨
      ∃ s ∈ d.searchTexts, lowerChars (trim text).toList <:+: lowerChars s.toList := by
  simp only [isMatch, lower, String.toList_ofList, Bool.or_eq_true, List.isEmpty_iff,
    List.any_eq_true, occursIn_iff]

/-- A miner is found by a text in one of its names or models, if no sigma looks beyond the text. -/
theorem isMatch_of_contained {d : Device} {text s : String} (hs : s ∈ d.searchTexts)
    (hin : (trim text).toList <:+: s.toList) (h : ¬OpenSigma (trim text).toList) :
    d.isMatch text = true :=
  isMatch_iff.mpr (.inr ⟨s, hs, lowerChars_infix h hin⟩)

/-- A miner that has nothing but an address is found by nothing else. -/
theorem isMatch_at {address text : String} (h : (at_ address "").isMatch text = true) :
    lowerChars (trim text).toList <:+: lowerChars address.toList := by
  rcases isMatch_iff.mp h with hnil | ⟨s, hs, hin⟩
  · rw [hnil]
    exact List.nil_infix
  · rcases mem_searchTexts.mp hs with rfl | hs | hs | hs | rfl
    · exact hin
    · cases hs
    · cases hs
    · cases hs
    · exact hin

end Device

/-- Looking for miners by text finds what contains it.

* A text, but for blanks around it, is found in each name or model in which it stands, if and only
  if it has no capital sigma that looks beyond the text. The names and models are the short name,
  the name to show, the chips, the model and the address.
* The case of ASCII letters in the text makes no difference.
* Nothing but blanks is found everywhere.
* Of a fleet the miners that are found stay, as often as they are there and in their order. -/
theorem found_where_contained_iff (text : String) :
    ((∀ (d : Device) (s : String), (s = d.shortName ∨ d.displayName = some s ∨
        d.asicModel = some s ∨ d.deviceModel = some s ∨ s = d.address) →
        (trim text).toList <:+: s.toList → d.isMatch text = true) ↔
      ¬OpenSigma (trim text).toList) ∧
    (∀ (d : Device) (text' : String), SameLetters text text' →
      d.isMatch text' = d.isMatch text) ∧
    (trim text = "" → ∀ d : Device, d.isMatch text = true) ∧
    ∀ devices, (filterDevices devices text).Sublist devices ∧
      ∀ d, (filterDevices devices text).count d =
        if d.isMatch text then devices.count d else 0 := by
  refine ⟨⟨fun h hopen => ?_, fun h d s hs hin => ?_⟩, fun d text' h => ?_, fun h d => ?_,
    fun devices => ⟨List.filter_sublist, fun d => ?_⟩⟩
  · obtain ⟨name, hin, hnot⟩ := exists_not_infix hopen
    have hmatch := h (Device.at_ (String.ofList name) "") (String.ofList name) (.inl rfl)
      (by rwa [String.toList_ofList])
    have hfound := Device.isMatch_at hmatch
    rw [String.toList_ofList] at hfound
    exact hnot hfound
  · exact Device.isMatch_of_contained (Device.mem_searchTexts.mpr hs) hin h
  · simp only [Device.isMatch, h.lower_trim]
  · rw [Device.isMatch_iff, h]
    exact .inl rfl
  · split
    · rename_i hmatch
      exact List.count_filter hmatch
    · rename_i hmatch
      exact List.count_eq_zero.mpr fun hmem => hmatch (List.mem_filter.mp hmem).2

/-- A part of a name that ends in a sigma is not found in this name. -/
theorem not_found_by_its_beginning :
    let d : Device := { address := "10.1.1.50", hostname := some "ΟΣΙΡΙΣ" }
    trim "ΟΣ" = "ΟΣ" ∧ "ΟΣ".toList <:+: d.shortName.toList ∧ d.isMatch "ΟΣ" = false := by
  decide +kernel

/-- A sigma that is the last letter of a word in the text itself is one in the name as well, and the
case of ASCII letters around it makes no difference. -/
theorem found_by_a_whole_word :
    let d : Device := { address := "10.1.1.50", hostname := some "ΟΔΟΣ-Rig.local" }
    let text := " ΟΔΟΣ-Ri "
    ¬OpenSigma (trim text).toList ∧ (trim text).toList <:+: d.shortName.toList ∧
      d.isMatch text = true ∧ SameLetters text " ΟΔΟΣ-rI " ∧ d.isMatch " ΟΔΟΣ-rI " = true ∧
      trim "\t" = "" ∧ d.isMatch "\t" = true := by
  intro d text
  obtain ⟨hfound, hcase, -, -⟩ := found_where_contained_iff text
  have hclosed : ¬OpenSigma (trim text).toList := by decide +kernel
  have hin : (trim text).toList <:+: d.shortName.toList := by decide +kernel
  have hsame : SameLetters text " ΟΔΟΣ-rI " := by decide +kernel
  have hmatch := hfound.mpr hclosed d _ (.inl rfl) hin
  have hblank := (found_where_contained_iff "\t").2.2.1 (by decide +kernel) d
  exact ⟨hclosed, hin, hmatch, hsame, (hcase d _ hsame).trans hmatch, by decide +kernel, hblank⟩

end MinerFleet
