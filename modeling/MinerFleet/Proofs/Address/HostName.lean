/-
What a miner may be called when it is added.

* `hostPattern` — the names of hosts as a pattern;
* `HostLabel` — the names of hosts by what stands in them;
* `peers_are_exact` — which texts are taken for the address or the name of a miner.

A label in the pattern is a letter or digit, which may be followed by up to 61 characters and a
letter or digit again. That is a row of one to 63 characters without a hyphen at either end
(`mem_labelPattern_iff`). Hyphens and dots apart, nothing but letters and digits stands in a name or
an address, so that the host in a web address ends where the name does.
-/
import Mathlib.Computability.Language
import MinerFleet.Http.Url
import MinerFleet.Proofs.Address.Canonical

namespace MinerFleet

/-! ### Characters -/

/-- A letter or a digit, of ASCII. -/
def IsLetterOrDigit (c : Char) : Prop :=
  ('a' ≤ c ∧ c ≤ 'z') ∨ ('A' ≤ c ∧ c ≤ 'Z') ∨ ('0' ≤ c ∧ c ≤ '9')

theorem isAlphanum_iff {c : Char} : c.isAlphanum = true ↔ IsLetterOrDigit c := by
  have hrange (first last : Char) : (decide (c.val ≥ first.val) && decide (c.val ≤ last.val)) =
      true ↔ first ≤ c ∧ c ≤ last := by
    rw [Bool.and_eq_true, decide_eq_true_iff, decide_eq_true_iff, Char.le_def, Char.le_def]
  have hupper : c.isUpper = true ↔ 'A' ≤ c ∧ c ≤ 'Z' := decide_eq_true_iff
  have hlower : c.isLower = true ↔ 'a' ≤ c ∧ c ≤ 'z' := hrange 'a' 'z'
  have hdigit : c.isDigit = true ↔ '0' ≤ c ∧ c ≤ '9' := hrange '0' '9'
  show (c.isUpper || c.isLower || c.isDigit) = true ↔ _
  rw [Bool.or_eq_true, Bool.or_eq_true, hupper, hlower, hdigit, IsLetterOrDigit, ← or_assoc,
    or_comm (a := 'A' ≤ c ∧ c ≤ 'Z')]

theorem isLabelChar_iff {c : Char} : isLabelChar c = true ↔ IsLetterOrDigit c ∨ c = '-' := by
  rw [isLabelChar, Bool.or_eq_true, isAlphanum_iff, beq_iff_eq]

theorem isAlphanum_of_isLabelChar {c : Char} (h : isLabelChar c = true) (hc : c ≠ '-') :
    c.isAlphanum = true :=
  (Bool.or_eq_true_iff.mp h).resolve_right fun he => hc (beq_iff_eq.mp he)

theorem isLabelChar_of_isAlphanum {c : Char} (h : c.isAlphanum = true) : isLabelChar c = true :=
  Bool.or_eq_true_iff.mpr (.inl h)

theorem ne_hyphen_of_isAlphanum {c : Char} (h : c.isAlphanum = true) : c ≠ '-' := by
  rintro rfl
  exact absurd h (by decide)

/-! ### The pattern -/

/-- One character of a kind. -/
def oneOf (p : Char → Bool) : Language Char :=
  {cs | ∃ c, p c = true ∧ cs = [c]}

/-- Up to `n` repetitions. -/
def upTo (n : Nat) (l : Language Char) : Language Char :=
  {cs | ∃ k ≤ n, cs ∈ l ^ k}

/-- One label: a letter or digit, or two of them with at most 61 characters between them. -/
def labelPattern : Language Char :=
  oneOf Char.isAlphanum * (upTo 61 (oneOf isLabelChar) * oneOf Char.isAlphanum + 1)

/-- A label, alone or in the domain `.local`. -/
def hostPattern : Language Char :=
  labelPattern * ({".local".toList} + 1)

theorem mem_oneOf_pow {p : Char → Bool} {n : Nat} {cs : List Char} :
    cs ∈ oneOf p ^ n ↔ cs.length = n ∧ ∀ c ∈ cs, p c = true := by
  induction n generalizing cs with
  | zero =>
    rw [pow_zero, Language.mem_one, List.length_eq_zero_iff]
    exact ⟨fun h => ⟨h, h ▸ nofun⟩, And.left⟩
  | succ n ih =>
    rw [pow_succ', Language.mem_mul]
    constructor
    · rintro ⟨_, ⟨c, hc, rfl⟩, rest, hrest, rfl⟩
      obtain ⟨hlength, hall⟩ := ih.mp hrest
      exact ⟨congrArg (· + 1) hlength, List.forall_mem_cons.mpr ⟨hc, hall⟩⟩
    · rintro ⟨hlength, hall⟩
      obtain ⟨c, rest, rfl⟩ := List.exists_cons_of_length_eq_add_one hlength
      rw [List.forall_mem_cons] at hall
      exact ⟨[c], ⟨c, hall.1, rfl⟩, rest, ih.mpr ⟨Nat.succ.inj hlength, hall.2⟩, rfl⟩

theorem isLabel_iff {cs : List Char} :
    isLabel cs = true ↔ (1 ≤ cs.length ∧ cs.length ≤ 63) ∧ (∀ c ∈ cs, isLabelChar c = true) ∧
      cs.head? ≠ some '-' ∧ cs.getLast? ≠ some '-' := by
  simp only [isLabel, Bool.and_eq_true, decide_eq_true_eq, List.all_eq_true, bne_iff_ne, and_assoc]

/-- The pattern allows for any row of one to 63 characters without a hyphen at either end. -/
theorem mem_labelPattern_iff {cs : List Char} : cs ∈ labelPattern ↔ isLabel cs = true := by
  rw [isLabel_iff, labelPattern, Language.mem_mul]
  constructor
  · rintro ⟨_, ⟨c, hc, rfl⟩, rest, hrest, rfl⟩
    have hhead : (c :: rest).head? ≠ some '-' :=
      fun h => ne_hyphen_of_isAlphanum hc (Option.some.inj h)
    rcases (Language.mem_add ..).mp hrest with hrest | hrest
    · obtain ⟨middle, hmiddle, _, ⟨d, hd, rfl⟩, rfl⟩ := Language.mem_mul.mp hrest
      obtain ⟨n, hlimit, hn⟩ := hmiddle
      obtain ⟨hlength, hall⟩ := mem_oneOf_pow.mp hn
      have hlast : ([c] ++ (middle ++ [d])).getLast? = some d := by
        rw [← List.append_assoc, List.getLast?_concat]
      refine ⟨⟨?_, ?_⟩, ?_, hhead, ?_⟩
      · simp
      · simp only [List.length_append, List.length_singleton]
        omega
      · intro e he
        simp only [List.mem_append, List.mem_singleton] at he
        rcases he with rfl | he | rfl
        · exact isLabelChar_of_isAlphanum hc
        · exact hall e he
        · exact isLabelChar_of_isAlphanum hd
      · rw [hlast]
        exact fun h => ne_hyphen_of_isAlphanum hd (Option.some.inj h)
    · obtain rfl := (Language.mem_one _).mp hrest
      exact ⟨⟨by simp, by simp⟩, List.forall_mem_singleton.mpr (isLabelChar_of_isAlphanum hc),
        hhead, hhead⟩
  · rintro ⟨⟨hpos, hlimit⟩, hall, hhead, hlast⟩
    obtain ⟨c, rest, rfl⟩ := List.exists_cons_of_length_pos hpos
    rw [List.forall_mem_cons] at hall
    refine ⟨[c], ⟨c, isAlphanum_of_isLabelChar hall.1 fun h => hhead (h ▸ rfl), rfl⟩, rest, ?_, rfl⟩
    rw [Language.mem_add]
    rcases List.eq_nil_or_concat' rest with rfl | ⟨middle, d, rfl⟩
    · exact .inr (Language.nil_mem_one)
    · rw [List.forall_mem_append, List.forall_mem_singleton] at hall
      simp only [List.length_cons, List.length_append, List.length_nil] at hlimit
      have hmiddle : middle ∈ upTo 61 (oneOf isLabelChar) :=
        ⟨middle.length, by omega, mem_oneOf_pow.mpr ⟨rfl, hall.2.1⟩⟩
      have hd : d ≠ '-' := by
        rintro rfl
        rw [← List.cons_append, List.getLast?_concat] at hlast
        exact hlast rfl
      exact .inl (Language.append_mem_mul hmiddle
        ⟨d, isAlphanum_of_isLabelChar hall.2.2 hd, rfl⟩)

theorem localLabel?_eq_some {cs label : List Char} :
    localLabel? cs = some label ↔ cs = label ++ ".local".toList := by
  rw [localLabel?]
  constructor
  · intro h
    obtain ⟨hsuffix, hlabel⟩ := Option.ite_none_right_eq_some.mp h
    obtain ⟨front, rfl⟩ := List.isSuffixOf_iff_suffix.mp hsuffix
    rw [← Option.some.inj hlabel, List.length_append, Nat.add_sub_cancel, List.take_left]
  · rintro rfl
    rw [if_pos (List.isSuffixOf_iff_suffix.mpr (List.suffix_append _ _)), List.length_append,
      Nat.add_sub_cancel, List.take_left]

/-- A name that is no address is a label, alone or in the domain `.local`. -/
theorem isHostName_iff {s : String} :
    isHostName s = true ↔ isIpLiteral s = false ∧ ∃ label, isLabel label = true ∧
      (s.toList = label ∨ s.toList = label ++ ".local".toList) := by
  rw [isHostName, Bool.and_eq_true, Bool.not_eq_true', Bool.or_eq_true, Option.any_eq_true]
  refine and_congr_right fun _ => ?_
  constructor
  · rintro (h | ⟨label, hlocal, h⟩)
    · exact ⟨s.toList, h, .inl rfl⟩
    · exact ⟨label, h, .inr (localLabel?_eq_some.mp hlocal)⟩
  · rintro ⟨label, h, hs | hs⟩
    · exact .inl (hs ▸ h)
    · exact .inr ⟨label, localLabel?_eq_some.mpr hs, h⟩

theorem mem_hostPattern_iff {cs : List Char} :
    cs ∈ hostPattern ↔ ∃ label, isLabel label = true ∧
      (cs = label ∨ cs = label ++ ".local".toList) := by
  rw [hostPattern, Language.mem_mul]
  constructor
  · rintro ⟨label, hlabel, domain, hdomain, rfl⟩
    refine ⟨label, mem_labelPattern_iff.mp hlabel, ?_⟩
    rcases (Language.mem_add ..).mp hdomain with hdomain | hdomain
    · exact .inr (by rw [Set.mem_singleton_iff.mp hdomain])
    · exact .inl (by rw [(Language.mem_one _).mp hdomain, List.append_nil])
  · rintro ⟨label, hlabel, rfl | rfl⟩
    · exact ⟨_, mem_labelPattern_iff.mpr hlabel, [], .inr Language.nil_mem_one, List.append_nil _⟩
    · exact ⟨_, mem_labelPattern_iff.mpr hlabel, _, .inl (Set.mem_singleton _), rfl⟩

/-! ### Names -/

/-- A label: one to 63 letters, digits and hyphens, of which neither the first nor the last is a
hyphen. -/
structure HostLabel (label : String) : Prop where
  length : 1 ≤ label.length ∧ label.length ≤ 63
  chars : ∀ c ∈ label.toList, IsLetterOrDigit c ∨ c = '-'
  head : label.toList.head? ≠ some '-'
  last : label.toList.getLast? ≠ some '-'

theorem hostLabel_iff {label : String} : HostLabel label ↔ isLabel label.toList = true := by
  simp only [isLabel_iff, isLabelChar_iff, String.length_toList]
  exact ⟨fun h => ⟨h.length, h.chars, h.head, h.last⟩, fun h => ⟨h.1, h.2.1, h.2.2.1, h.2.2.2⟩⟩

/-- A peer is an address or the name of a host; whether it is both need not be asked. -/
theorem isPeer_iff {s : String} :
    isPeer s = true ↔ (∃ a, Ipv4.DottedQuad s a) ∨
      ∃ label, HostLabel label ∧ (s = label ∨ s = label ++ ".local") := by
  simp only [isPeer, Bool.or_eq_true, isHostName_iff, Ipv4.dottedQuad_iff, isIpLiteral_iff,
    hostLabel_iff]
  constructor
  · rintro (h | ⟨-, label, h, hs⟩)
    · exact .inl h
    · refine .inr ⟨String.ofList label, by rwa [String.toList_ofList], ?_⟩
      simpa only [← String.toList_inj, String.toList_append, String.toList_ofList] using hs
  · rintro (h | ⟨label, h, hs⟩)
    · exact .inl h
    · simp only [← String.toList_inj, String.toList_append] at hs
      by_cases hip : isIpLiteral s = true
      · exact .inl (isIpLiteral_iff.mp hip)
      · exact .inr ⟨Bool.eq_false_iff.mpr hip, label.toList, h, hs⟩

/-! ### Hosts in web addresses -/

/-- What stands in the name or in the address of a miner. -/
def IsPeerChar (c : Char) : Prop :=
  IsLetterOrDigit c ∨ c = '-' ∨ c = '.'

theorem isPeerChar_iff {c : Char} :
    IsPeerChar c ↔ (c.isAlphanum || c == '-' || c == '.') = true := by
  simp only [IsPeerChar, ← isAlphanum_iff, Bool.or_eq_true, beq_iff_eq, or_assoc]

/-- All of that can stand in the host of a web address. -/
theorem IsPeerChar.not_forbidden {c : Char} (h : IsPeerChar c) :
    Http.Url.isHostForbidden c = false := by
  have hascii : ∀ n : Fin 128, ((Char.ofNat n).isAlphanum || Char.ofNat n == '-' ||
      Char.ofNat n == '.') = true → Http.Url.isHostForbidden (Char.ofNat n) = false := by
    decide +kernel
  have hlt : c.toNat < 128 := by
    rcases h with (h | h | h) | rfl | rfl
    · exact Nat.lt_of_le_of_lt (UInt32.le_iff_toNat_le.mp (Char.le_def.mp h.2)) (by decide)
    · exact Nat.lt_of_le_of_lt (UInt32.le_iff_toNat_le.mp (Char.le_def.mp h.2)) (by decide)
    · exact Nat.lt_of_le_of_lt (UInt32.le_iff_toNat_le.mp (Char.le_def.mp h.2)) (by decide)
    · decide
    · decide
  have hc := hascii ⟨c.toNat, hlt⟩
  rw [Char.ofNat_toNat] at hc
  exact hc (isPeerChar_iff.mp h)

/-- An address has nothing but digits and dots in it. -/
theorem Ipv4.isPeerChar_of_mem_text {a : Ipv4} {c : Char} (h : c ∈ a.text.toList) :
    IsPeerChar c := by
  have hdigit {n : Nat} (hc : c ∈ (toString n).toList) : IsPeerChar c := by
    rw [Nat.toString_eq_repr, Nat.toList_repr] at hc
    have := Nat.isDigit_of_mem_toDigits (by decide) (by decide) hc
    exact .inl (isAlphanum_iff.mp (by rw [Char.isAlphanum, this, Bool.or_true]))
  simp only [toList_text, octets, List.map_cons, List.map_nil, List.intercalate_cons_cons,
    List.intercalate_singleton, List.mem_append, List.mem_singleton] at h
  rcases h with (h | h) | (h | h) | (h | h) | h
  all_goals first | exact hdigit h | exact .inr (.inr h)

theorem isPeerChar_of_isPeer {s : String} (h : isPeer s = true) {c : Char} (hc : c ∈ s.toList) :
    IsPeerChar c := by
  rcases isPeer_iff.mp h with ⟨a, ha⟩ | ⟨label, hlabel, hs⟩
  · rw [Ipv4.dottedQuad_iff] at ha
    exact Ipv4.isPeerChar_of_mem_text (ha ▸ hc)
  · have hchar : ∀ c ∈ label.toList, IsPeerChar c := fun c hc =>
      (hlabel.chars c hc).imp_right .inl
    have hdomain : ∀ c ∈ ".local".toList, IsPeerChar c := by
      simp only [isPeerChar_iff, ← List.all_eq_true]
      decide
    rcases hs with rfl | rfl
    · exact hchar c hc
    · rw [String.toList_append, List.mem_append] at hc
      exact hc.elim (hchar c) (hdomain c)

/-- Which texts are taken for the address or the name of a miner.

* They are those that spell an address, octet by octet, and labels of one to 63 letters, digits and
  hyphens without a hyphen at either end, alone or in the domain `.local`.
* Names are those that the pattern for names allows for and that are no addresses.
* Nothing but letters, digits, hyphens and dots stands in them. So none of them has a character that
  ends a host, and in front of a path the host is the whole text. -/
theorem peers_are_exact :
    (∀ s, isPeer s = true ↔ (∃ a, Ipv4.DottedQuad s a) ∨
      ∃ label, HostLabel label ∧ (s = label ∨ s = label ++ ".local")) ∧
    (∀ s, isHostName s = true ↔ isIpLiteral s = false ∧ s.toList ∈ hostPattern) ∧
    (∀ s, ¬(isHostName s = true ∧ isIpLiteral s = true)) ∧
    (∀ s, isPeer s = true → (∀ c ∈ s.toList, IsPeerChar c) ∧
      ∀ path : String, path.toList.head? = some '/' →
        (s ++ path).toList.takeWhile (fun c => !Http.Url.isHostForbidden c) = s.toList) := by
  refine ⟨fun _ => isPeer_iff, fun s => ?_, fun s h => ?_, fun s h => ⟨fun _ => ?_, ?_⟩⟩
  · rw [isHostName_iff, mem_hostPattern_iff]
  · rw [(isHostName_iff.mp h.1).1] at h
    exact absurd h.2 (by decide)
  · exact isPeerChar_of_isPeer h
  · intro path hpath
    obtain ⟨rest, hrest⟩ := List.head?_eq_some_iff.mp hpath
    have hhost : ∀ c ∈ s.toList, (!Http.Url.isHostForbidden c) = true := fun c hc => by
      rw [(isPeerChar_of_isPeer h hc).not_forbidden, Bool.not_false]
    rw [String.toList_append, hrest, List.takeWhile_append_of_pos hhost,
      List.takeWhile_cons_of_neg (by decide), List.append_nil]

/-- A label as long as labels get, in the domain `.local`. Its name is the host of a request, and
one character more would make it no name. -/
theorem longest_name_is_a_peer :
    let label := String.ofList ('a' :: List.replicate 62 '9')
    HostLabel label ∧ isPeer (label ++ ".local") = true ∧
      ((label ++ ".local") ++ "/api/system/info").toList.takeWhile
        (fun c => !Http.Url.isHostForbidden c) = (label ++ ".local").toList ∧
      isPeer (label ++ "9") = false := by
  intro label
  have hlabel : HostLabel label := hostLabel_iff.mpr (by decide +kernel)
  obtain ⟨hpeer, -, -, hhost⟩ := peers_are_exact
  have h := (hpeer (label ++ ".local")).mpr (.inr ⟨label, hlabel, .inr rfl⟩)
  exact ⟨hlabel, h, (hhost _ h).2 "/api/system/info" (by decide), by decide +kernel⟩

end MinerFleet
