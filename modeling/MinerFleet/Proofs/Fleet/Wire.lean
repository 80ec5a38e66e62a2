/-
What is read from the JSON of a snapshot.

* `Totals.Finite`, `Notice.Finite` — sums and conditions without a float that is not finite;
* `Snapshot.Readable` — the sums are finite, and no number of things needs more than 64 bits;
* `Snapshot.written` — the snapshot that is read from the JSON of a snapshot.

`Snapshot.decode_toJson` says when the JSON of a snapshot is read at all, and as what. Sums have to
be there, and those that are not finite are written as `null`: they are the only readings of a fleet
that make all of it unreadable.
-/
import MinerFleet.Fleet.Snapshot
import MinerFleet.Proofs.Device.Wire

namespace MinerFleet

open Json

/-! ### Sums -/

/-- No sum is infinite, or no number. -/
structure Totals.Finite (t : Totals) : Prop where
  hashRate : t.hashRate.isFinite = true
  power : t.power.isFinite = true
  bestDiff : t.bestDiff.isFinite = true

namespace FleetTotals

theorem lists (t : FleetTotals) :
    (Shape.mk "struct TotalsState" (.needed "deviceCount" Decoder.count :: Totals.rules)).Lists
      (("deviceCount", .ofNat t.deviceCount) :: t.totals.wireFields) :=
  .of_names rfl (by decide) (by decide)

theorem readBy : ReadBy (.needed "deviceCount" Decoder.count :: Totals.rules) fun fields => do
    return FleetTotals.mk (← readField fields "deviceCount" Decoder.count)
      (← Totals.ofFields fields) := by
  intro known t h
  simp only [Totals.ofFields, bind_eq_ok, pure_eq_ok] at h
  obtain ⟨_, hcount, _, ⟨_, hrate, _, hpower, _, hbest, -⟩, -⟩ := h
  simp only [Totals.rules, List.forall_mem_cons]
  exact ⟨check_of_readField hcount, check_of_readField hrate, check_of_readField hpower,
    check_of_readField hbest, List.forall_mem_nil _⟩

/-- Sums are read where all of them are finite. -/
theorem decode_toJson {room : Nat} {t t' : FleetTotals} :
    decode (clip (room + 1) t.toJson) = .ok t' ↔
      t' = t ∧ t.totals.Finite ∧ t.deviceCount < UInt64.size := by
  have hl := t.lists
  refine (hl.make_eq_ok readBy).trans ?_
  rw [readField_clip hl.nodup rfl]
  simp only [Totals.ofFields]
  rw [readField_clip hl.nodup rfl, readField_clip hl.nodup rfl, readField_clip hl.nodup rfl]
  simp only [bind_eq_ok, pure_eq_ok, Decoder.count, Decoder.natBelow_eq_ok, Decoder.float_eq_ok]
  constructor
  · rintro ⟨_, ⟨hcount, rfl⟩, _, ⟨_, ⟨hrate, rfl⟩, _, ⟨hpower, rfl⟩, _, ⟨hbest, rfl⟩, rfl⟩, rfl⟩
    exact ⟨rfl, ⟨hrate, hpower, hbest⟩, hcount⟩
  · rintro ⟨rfl, h, hcount⟩
    exact ⟨_, ⟨hcount, rfl⟩, _,
      ⟨_, ⟨h.hashRate, rfl⟩, _, ⟨h.power, rfl⟩, _, ⟨h.bestDiff, rfl⟩, rfl⟩, rfl⟩

end FleetTotals

/-! ### Names -/

theorem ViewMode.decode_name {room : Nat} (v : ViewMode) :
    ViewMode.names.decode (clip room (.string v.name)) = .ok v := by
  cases v <;> rfl

theorem Severity.decode_name {room : Nat} (s : Severity) :
    Severity.names.decode (clip room (.string s.name)) = .ok s := by
  cases s <;> rfl

theorem SortField.decode_name {room : Nat} (f : SortField) :
    SortField.names.decode (clip room (.string f.name)) = .ok f := by
  cases f <;> rfl

theorem Direction.decode_name {room : Nat} (d : Direction) :
    Direction.names.decode (clip room (.string d.name)) = .ok d := by
  cases d <;> rfl

namespace SortSpec

theorem decode_toJson {room : Nat} (spec : SortSpec) :
    decode (clip (room + 1) spec.toJson) = .ok spec := by
  have hl : shape.Lists
      [("field", .string spec.field.name), ("direction", .string spec.direction.name)] :=
    .of_names rfl (by decide) (by decide)
  refine (hl.make_eq_ok fun known t h => ?_).mpr ?_
  · simp only [bind_eq_ok, pure_eq_ok] at h
    obtain ⟨_, hfield, _, hdirection, -⟩ := h
    simp only [shape, List.forall_mem_cons]
    exact ⟨check_of_readField hfield, check_of_readField hdirection, List.forall_mem_nil _⟩
  · rw [readField_clip hl.nodup rfl, readField_clip hl.nodup rfl, SortField.decode_name,
      Direction.decode_name]
    rfl

end SortSpec

/-! ### Conditions -/

section

open Float.Model

theorem not_infinity_lt (y : UnpackedFloat) : ¬ (UnpackedFloat.infinity .positive).lt y := by
  cases y with
  | infinity sign => cases sign <;> nofun
  | notANumber => nofun
  | zero sign => nofun
  | finite sign mantissa exponent hm => nofun

theorem not_lt_infinity (y : UnpackedFloat) : ¬ y.lt (UnpackedFloat.infinity .negative) := by
  cases y with
  | infinity sign => cases sign <;> nofun
  | notANumber => nofun
  | zero sign => nofun
  | finite sign mantissa exponent hm => nofun

theorem not_lt_notANumber (y : UnpackedFloat) : ¬ y.lt .notANumber := by
  cases y <;> nofun

/-- What lies between two floats is finite. -/
theorem isFinite_of_lt_of_lt {a x b : Float} (ha : a < x) (hb : x < b) : x.isFinite = true := by
  have ha : a.toModel.unpack.lt x.toModel.unpack = true :=
    of_decide_eq_true (show a.lt x = true from ha)
  have hb : x.toModel.unpack.lt b.toModel.unpack = true :=
    of_decide_eq_true (show x.lt b = true from hb)
  show x.toModel.unpack.isFinite = true
  cases hx : x.toModel.unpack with
  | zero sign => rfl
  | finite sign mantissa exponent hm => rfl
  | notANumber =>
    rw [hx] at ha
    exact absurd ha (not_lt_notANumber _)
  | infinity sign =>
    rw [hx] at ha hb
    cases sign with
    | positive => exact absurd hb (not_infinity_lt _)
    | negative => exact absurd ha (not_lt_infinity _)

end

/-- A low clock is some clock. -/
def Notice.Finite (n : Notice) : Prop :=
  ∀ x, n = .lowFrequency x → x.isFinite = true

/-- A clock that is found to be low is finite. -/
theorem Device.finite_of_notice {d : Device} {staleAfter : UInt32} {n : Notice}
    (h : d.notice staleAfter = some n) : n.Finite := by
  rintro x rfl
  unfold Device.notice at h
  dsimp only at h
  split at h
  · cases h
  split at h
  · cases h
  split at h
  · rename_i hlow
    obtain rfl := Notice.lowFrequency.inj (Option.some.inj h)
    exact isFinite_of_lt_of_lt hlow.1 hlow.2
  split at h
  · cases h
  split at h
  · cases h
  split at h
  · cases h
  · cases h

namespace Notice

/-- Every condition is read, unless its clock is not finite. -/
theorem decode_toJson {room : Nat} {n : Notice} (h : n.Finite) :
    decode (clip (room + 1) n.toJson) = .ok n := by
  cases n with
  | overheat => exact (kinds.decode_bare rfl).mpr rfl
  | fallbackPool => exact (kinds.decode_bare rfl).mpr rfl
  | blockFound => exact (kinds.decode_bare rfl).mpr rfl
  | powerFault fault =>
    refine (kinds.decode_single rfl (by decide) (normal_string fault) (Nat.zero_le _)).mpr ?_
    exact ⟨fault, rfl, rfl⟩
  | lowFrequency x =>
    rw [toJson, Json.ofFloat, if_pos (h x rfl)]
    refine (kinds.decode_single rfl (by decide) (normal_number _) (Nat.zero_le _)).mpr ?_
    exact ⟨x, rfl, rfl⟩
  | stale n =>
    refine (kinds.decode_single rfl (by decide) (normal_number _) (Nat.zero_le _)).mpr ?_
    exact ⟨n, Decoder.uint32_ofNat n, rfl⟩

end Notice

/-! ### Passes -/

namespace PassSummary

/-- The numbers of things in a summary. -/
def counts : PassSummary → List Nat
  | .discovery found added => [found, added]
  | .discoveryFailed _ => []
  | .refresh polled _ => [polled]

theorem texts_eq_ok {room : Nat} {texts texts' : List String} :
    Decoder.list Decoder.text (clip (room + 1) (.array (texts.map .string))) = .ok texts' ↔
      texts' = texts := by
  rw [Decoder.list_eq_ok, List.forall₂_map_left_iff]
  have hiff : ∀ a b, Decoder.text (clip room (.string a)) = .ok b ↔ a = b :=
    fun a b => ⟨Except.ok.inj, congrArg Except.ok⟩
  simp only [hiff, List.forall₂_eq_eq_eq]
  exact eq_comm

/-- A summary is read where its numbers have at most 64 bits. -/
theorem decode_toJson {room : Nat} {p p' : PassSummary} :
    decode (clip (room + 2) p.toJson) = .ok p' ↔ p' = p ∧ ∀ n ∈ p.counts, n < UInt64.size := by
  cases p with
  | discovery found added =>
    have hl : (Shape.mk "struct variant PassSummary::Discovery"
        [.needed "found" Decoder.count, .needed "added" Decoder.count]).Lists
        [("found", .ofNat found), ("added", .ofNat added)] :=
      .of_names rfl (by decide) (by decide)
    refine (kinds.decode_eq_ok rfl hl (fun known a h => ?_) (by decide) ?_).trans ?_
    · simp only [bind_eq_ok] at h
      obtain ⟨_, hfound, _, hadded, -⟩ := h
      simp only [List.forall_mem_cons]
      exact ⟨check_of_readField hfound, check_of_readField hadded, List.forall_mem_nil _⟩
    · simp only [List.forall_mem_cons]
      exact ⟨⟨normal_number _, Nat.zero_le _⟩, ⟨normal_number _, Nat.zero_le _⟩,
        List.forall_mem_nil _⟩
    · dsimp only
      rw [readField_clip hl.nodup rfl, readField_clip hl.nodup rfl]
      simp only [bind_eq_ok, pure_eq_ok, Decoder.count, Decoder.natBelow_eq_ok, counts,
        List.forall_mem_cons]
      constructor
      · rintro ⟨_, ⟨hfound, rfl⟩, _, ⟨hadded, rfl⟩, rfl⟩
        exact ⟨rfl, hfound, hadded, List.forall_mem_nil _⟩
      · rintro ⟨rfl, hfound, hadded, -⟩
        exact ⟨_, ⟨hfound, rfl⟩, _, ⟨hadded, rfl⟩, rfl⟩
  | discoveryFailed error =>
    refine (kinds.decode_single rfl (by decide) (normal_string error) (Nat.zero_le _)).trans ?_
    constructor
    · rintro ⟨_, he, rfl⟩
      rw [← Except.ok.inj he]
      exact ⟨rfl, nofun⟩
    · rintro ⟨rfl, -⟩
      exact ⟨error, rfl, rfl⟩
  | refresh polled warnings =>
    have hl : (Shape.mk "struct variant PassSummary::Refresh"
        [.needed "polled" Decoder.count, .needed "warnings" (Decoder.list Decoder.text)]).Lists
        [("polled", .ofNat polled), ("warnings", .array (warnings.map .string))] :=
      .of_names rfl (by decide) (by decide)
    refine (kinds.decode_eq_ok rfl hl (fun known a h => ?_) (by decide) ?_).trans ?_
    · simp only [bind_eq_ok] at h
      obtain ⟨_, hpolled, _, hwarnings, -⟩ := h
      simp only [List.forall_mem_cons]
      exact ⟨check_of_readField hpolled, check_of_readField hwarnings, List.forall_mem_nil _⟩
    · simp only [List.forall_mem_cons]
      refine ⟨⟨normal_number _, Nat.zero_le _⟩, ⟨normal_array ?_, ?_⟩, List.forall_mem_nil _⟩
      · exact List.forall_mem_map.mpr fun s _ => normal_string s
      · rw [depth]
        refine Nat.succ_le_succ (itemsDepth_le.mpr ?_)
        exact List.forall_mem_map.mpr fun s _ => Nat.zero_le _
    · dsimp only
      rw [readField_clip hl.nodup rfl, readField_clip hl.nodup rfl]
      simp only [bind_eq_ok, pure_eq_ok, Decoder.count, Decoder.natBelow_eq_ok, texts_eq_ok, counts,
        List.forall_mem_cons]
      constructor
      · rintro ⟨_, ⟨hpolled, rfl⟩, _, rfl, rfl⟩
        exact ⟨rfl, hpolled, List.forall_mem_nil _⟩
      · rintro ⟨rfl, hpolled, -⟩
        exact ⟨_, ⟨hpolled, rfl⟩, _, rfl, rfl⟩

end PassSummary

/-! ### Members -/

namespace Member

/-- The member that is read from the JSON of a member. -/
def written (m : Member) : Member :=
  { m with device := m.device.written }

theorem lists (m : Member) : (Shape.mk "struct DeviceState"
    [.needed "device" Device.decode, .optional "notification" Notice.decode,
     .optional "severity" Severity.names.decode, .needed "stale" Decoder.bool]).Lists
    [("device", m.device.toJson), ("notification", .ofOption Notice.toJson m.notice),
     ("severity", .ofOption (fun s => .string s.name) m.severity), ("stale", .bool m.stale)] :=
  .of_names rfl (by decide) (by decide)

theorem option_notice {room : Nat} {n : Option Notice} (h : ∀ n', n = some n' → n'.Finite) :
    Decoder.option Notice.decode (clip (room + 1) (.ofOption Notice.toJson n)) = .ok n := by
  cases n with
  | none => rfl
  | some n =>
    have hrecord : ∃ fs, n.toJson = .record fs := by cases n <;> exact ⟨_, rfl⟩
    rw [ofOption, Decoder.option_record hrecord, Notice.decode_toJson (h n rfl)]
    rfl

theorem option_severity {room : Nat} (s : Option Severity) :
    Decoder.option Severity.names.decode (clip room (.ofOption (fun s => .string s.name) s)) =
      .ok s := by
  cases s with
  | none => rfl
  | some s => exact congrArg (Except.map some) s.decode_name

/-- A member is read where its record is, unless its clock is not finite. -/
theorem decode_toJson {room : Nat} {m m' : Member} (hd : m.device.Sealed)
    (hn : ∀ n, m.notice = some n → n.Finite) :
    decode (clip (room + 2) m.toJson) = .ok m' ↔
      m' = m.written ∧ ∀ key v, m.device.extra.get? key = some v → v.depth ≤ room := by
  have hl := m.lists
  refine (hl.make_eq_ok fun known a h => ?_).trans ?_
  · simp only [bind_eq_ok] at h
    obtain ⟨_, hdevice, _, hnotice, _, hseverity, _, hstale, -⟩ := h
    simp only [List.forall_mem_cons]
    exact ⟨check_of_readField hdevice, check_of_readOptional hnotice,
      check_of_readOptional hseverity, check_of_readField hstale, List.forall_mem_nil _⟩
  · rw [readField_clip hl.nodup rfl, readOptional_clip hl.nodup rfl, readOptional_clip hl.nodup rfl,
      readField_clip hl.nodup rfl, option_notice hn, option_severity]
    simp only [bind_eq_ok, pure_eq_ok, Device.decode_toJson hd]
    constructor
    · rintro ⟨_, ⟨rfl, hdepth⟩, _, he, _, he', _, he'', rfl⟩
      rw [← Except.ok.inj he, ← Except.ok.inj he', ← Except.ok.inj he'']
      exact ⟨rfl, hdepth⟩
    · rintro ⟨rfl, hdepth⟩
      exact ⟨_, ⟨rfl, hdepth⟩, _, rfl, _, rfl, _, rfl, rfl⟩

end Member

/-! ### Snapshots -/

namespace Snapshot

/-- The sums are finite, and no number of things needs more than 64 bits. -/
structure Readable (s : Snapshot) : Prop where
  totals : s.totals.totals.Finite
  deviceCount : s.totals.deviceCount < UInt64.size
  lastPass : ∀ p, s.lastPass = some p → ∀ n ∈ p.counts, n < UInt64.size

/-- The snapshot that is read from the JSON of a snapshot. -/
def written (s : Snapshot) : Snapshot :=
  { s with members := s.members.map Member.written }

theorem option_lastPass {room : Nat} {p p' : Option PassSummary} :
    Decoder.option PassSummary.decode (clip (room + 2) (.ofOption PassSummary.toJson p)) = .ok p' ↔
      p' = p ∧ ∀ q, p = some q → ∀ n ∈ q.counts, n < UInt64.size := by
  cases p with
  | none => exact ⟨fun h => ⟨(Except.ok.inj h).symm, nofun⟩, fun h => congrArg _ h.1.symm⟩
  | some p =>
    have hrecord : ∃ fs, p.toJson = .record fs := by cases p <;> exact ⟨_, rfl⟩
    rw [ofOption, Decoder.option_record hrecord, map_eq_ok]
    simp only [PassSummary.decode_toJson]
    constructor
    · rintro ⟨_, ⟨rfl, hn⟩, rfl⟩
      exact ⟨rfl, fun q hq => Option.some.inj hq ▸ hn⟩
    · rintro ⟨rfl, hn⟩
      exact ⟨p, ⟨rfl, hn p rfl⟩, rfl⟩

theorem members_eq_ok {room : Nat} {members members' : List Member}
    (hm : ∀ m ∈ members, m.device.Sealed ∧ ∀ n, m.notice = some n → n.Finite) :
    Decoder.list Member.decode (clip (room + 3) (.array (members.map Member.toJson))) =
        .ok members' ↔
      members' = members.map Member.written ∧
        ∀ m ∈ members, ∀ key v, m.device.extra.get? key = some v → v.depth ≤ room := by
  rw [Decoder.list_eq_ok, List.forall₂_map_left_iff]
  induction members generalizing members' with
  | nil =>
    rw [List.forall₂_nil_left_iff]
    exact ⟨fun h => ⟨h, fun _ h => absurd h List.not_mem_nil⟩, fun h => h.1⟩
  | cons m members ih =>
    obtain ⟨⟨hd, hn⟩, hm⟩ := List.forall_mem_cons.mp hm
    simp only [List.forall₂_cons_left_iff, ih hm, Member.decode_toJson hd hn, List.forall_mem_cons,
      List.map_cons]
    constructor
    · rintro ⟨_, _, ⟨rfl, hdepth⟩, ⟨rfl, hall⟩, rfl⟩
      exact ⟨rfl, hdepth, hall⟩
    · rintro ⟨rfl, hdepth, hall⟩
      exact ⟨_, _, ⟨rfl, hdepth⟩, ⟨rfl, hall⟩, rfl⟩

theorem lists (s : Snapshot) : shape.Lists
    [("devices", .array (s.members.map Member.toJson)), ("totals", s.totals.toJson),
     ("sort", s.sort.toJson), ("refreshInterval", .ofNat s.refreshInterval.toNat),
     ("countdown", .ofNat s.countdown.toNat), ("scanning", .bool s.scanning),
     ("refreshing", .bool s.refreshing), ("view", .string s.view.name),
     ("lastPass", .ofOption PassSummary.toJson s.lastPass)] :=
  .of_names rfl (by decide) (by decide)

/-- A snapshot of sealed records is read where it is readable and nothing that a miner reported is
nested too deep, and then as what is written of it. -/
theorem decode_toJson {room : Nat} {s t : Snapshot}
    (hm : ∀ m ∈ s.members, m.device.Sealed ∧ ∀ n, m.notice = some n → n.Finite) :
    decode (clip (room + 4) s.toJson) = .ok t ↔
      t = s.written ∧ s.Readable ∧
        ∀ m ∈ s.members, ∀ key v, m.device.extra.get? key = some v → v.depth ≤ room := by
  have hl := s.lists
  refine (hl.make_eq_ok fun known a h => ?_).trans ?_
  · simp only [bind_eq_ok] at h
    obtain ⟨_, hdevices, _, htotals, _, hsort, _, hinterval, _, hcountdown, _, hscanning,
      _, hrefreshing, _, hview, _, hpass, -⟩ := h
    simp only [shape, List.forall_mem_cons]
    exact ⟨check_of_readField hdevices, check_of_readField htotals, check_of_readField hsort,
      check_of_readField hinterval, check_of_readField hcountdown, check_of_readField hscanning,
      check_of_readField hrefreshing, check_of_readField hview, check_of_readOptional hpass,
      List.forall_mem_nil _⟩
  · rw [readField_clip hl.nodup rfl, readField_clip hl.nodup rfl, readField_clip hl.nodup rfl,
      readField_clip hl.nodup rfl, readField_clip hl.nodup rfl, readField_clip hl.nodup rfl,
      readField_clip hl.nodup rfl, readField_clip hl.nodup rfl, readOptional_clip hl.nodup rfl,
      SortSpec.decode_toJson, Decoder.uint32_ofNat, Decoder.uint32_ofNat, ViewMode.decode_name]
    simp only [bind_eq_ok, pure_eq_ok, members_eq_ok hm, FleetTotals.decode_toJson,
      option_lastPass]
    constructor
    · rintro ⟨_, ⟨rfl, hdepth⟩, _, ⟨rfl, htotals, hcount⟩, _, he₁, _, he₂, _, he₃, _, he₄, _, he₅,
        _, he₆, _, ⟨rfl, hpass⟩, rfl⟩
      rw [← Except.ok.inj he₁, ← Except.ok.inj he₂, ← Except.ok.inj he₃, ← Except.ok.inj he₄,
        ← Except.ok.inj he₅, ← Except.ok.inj he₆]
      exact ⟨rfl, ⟨htotals, hcount, hpass⟩, hdepth⟩
    · rintro ⟨rfl, h, hdepth⟩
      exact ⟨_, ⟨rfl, hdepth⟩, _, ⟨rfl, h.totals, h.deviceCount⟩, _, rfl, _, rfl, _, rfl, _, rfl,
        _, rfl, _, rfl, _, ⟨rfl, h.lastPass⟩, rfl⟩

end Snapshot

end MinerFleet
