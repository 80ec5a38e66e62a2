/-
In every run, no two miners are dialed at the same address.

* `Sent.Added`, `Sent.Removed` — a reply that gives a miner, to a request to add or to remove one;
* `FleetTurn` — what a turn does to the miners, and which of its replies gives one;
* `Present` — a miner has been added at an address, and none has been taken out there since;
* `Alternates` — a miner is added at an address only where none is present.

`dialed_once_in_every_run` is an induction over the run: whoever is present among the replies is
dialed (`Run.guarded`), and a miner is added only at an address that is not dialed.
-/
import Mathlib.Data.List.Basic
import MinerFleet.Proofs.System.Run

namespace MinerFleet

/-- A reply that gives a miner, to a request to add one; `cs` are the commands of the run. -/
def Sent.Added (cs : List Command) (r : Sent) (d : Device) : Prop :=
  (∃ name, cs[r.ticket]? = some (.add name)) ∧ r.answer = .ok (.device d)

/-- A reply that gives a miner, to a request to take it out. -/
def Sent.Removed (cs : List Command) (r : Sent) (d : Device) : Prop :=
  (∃ name, cs[r.ticket]? = some (.remove name)) ∧ r.answer = .ok (.device d)

theorem Sent.Removed.not_added {cs : List Command} {r : Sent} {d d' : Device}
    (h : r.Removed cs d) : ¬ r.Added cs d' := by
  rintro ⟨⟨name', ha⟩, -⟩
  obtain ⟨⟨name, hr⟩, -⟩ := h
  rw [hr] at ha
  cases ha

theorem Sent.Added.eq_of_added {cs : List Command} {r : Sent} {d d' : Device} (h : r.Added cs d)
    (h' : r.Added cs d') : d = d' := by
  have he := h.2.symm.trans h'.2
  cases he
  rfl

/-- What a reply was about does not change with the commands that come later. -/
theorem Sent.added_append {cs : List Command} {r : Sent} (h : r.ticket < cs.length)
    (cs' : List Command) (d : Device) : r.Added (cs ++ cs') d ↔ r.Added cs d := by
  rw [Sent.Added, Sent.Added, List.getElem?_append_left h]

theorem Sent.removed_append {cs : List Command} {r : Sent} (h : r.ticket < cs.length)
    (cs' : List Command) (d : Device) : r.Removed (cs ++ cs') d ↔ r.Removed cs d := by
  rw [Sent.Removed, Sent.Removed, List.getElem?_append_left h]

namespace System

/-! ### Turns -/

/-- What a turn does to the miners, and the replies that it sends. -/
inductive FleetTurn (cs : List Command) (before : List Device) :
    Turn → List Sent → List Device → Prop
  | kept {t : Turn} {new : List Sent} {after : List Device} (hp : after.Perm before)
      (ha : ∀ r ∈ new, ∀ d, r.answer ≠ .ok (.device d)) : FleetTurn cs before t new after
  | removed {name : String} {r : Sent} {d : Device} {after : List Device} (hr : r.Removed cs d)
      (hp : before.Perm (d :: after)) : FleetTurn cs before (.command (.remove name)) [r] after
  | added {id : Nat} {r : Sent} {d : Device} {after : List Device} (hr : r.Added cs d)
      (hd : d.connectionAddress ∉ dialed before) (hp : after.Perm (d :: before)) :
      FleetTurn cs before (.finish id (.probed (.ok d) r.ticket)) [r] after
  | discovered {id : Nat} {report : Report} {after : List Device}
      (hp : after.Perm (before ++ Registry.newcomers before report.devices)) :
      FleetTurn cs before (.finish id (.discovered (.ok report))) [] after
  | refreshed {id : Nat} {report : Report} {after : List Device}
      (hp : after.Perm (Registry.replaceFrom report.devices [] before)) :
      FleetTurn cs before (.finish id (.refreshed report)) [] after

variable {σ : Type} [Store σ] {W : Network → Prop}

omit [Store σ] in
/-- The turn of an event that ends a job. -/
theorem finish_of_event? {s : System σ} {t : Turn} {result : JobResult}
    (h : s.event? t = some (.finished result)) : ∃ id, t = .finish id result := by
  have he := (event?_eq_some.mp h).2
  cases t with
  | finish id result' =>
    cases he
    exact ⟨id, rfl⟩
  | tick => cases he
  | command c => cases he
  | stop => cases he

omit [Store σ] in
/-- The turn of an event that is a request. -/
theorem command_of_event? {s : System σ} {t : Turn} {ticket : Nat} {c : Command}
    (h : s.event? t = some (.command ticket c)) : t = .command c ∧ ticket = s.tickets := by
  have he := (event?_eq_some.mp h).2
  cases t with
  | command c' =>
    cases he
    exact ⟨rfl, rfl⟩
  | tick => cases he
  | finish id result => cases he
  | stop => cases he

/-- What a turn does to the miners, where the replies are told by the commands of the run. -/
theorem Tracked.fleetTurn {cs : List Command} {s : System σ} (h : Tracked cs s) {t : Turn}
    (ht : s.Possible W t) :
    ∃ new, (s.turn t).replies = new ++ s.replies ∧
      FleetTurn (cs ++ asked [t]) s.devices t new (s.turn t).devices := by
  obtain ⟨new, hnew, -, hf⟩ := turn_fleet s t
  refine ⟨new, hnew, ?_⟩
  rcases hf with ⟨event, he, hf⟩ | ⟨hd, herr⟩
  · generalize hs : new.map Sent.said = said at hf
    cases hf with
    | kept hp _ _ ha =>
      refine .kept hp fun r hr d hd => ?_
      have hsaid : (r.ticket, .ok (.device d)) ∈ said := by
        rw [← hs, ← hd]
        exact List.mem_map_of_mem hr
      exact not_given ha hsaid
    | removed hd _ hp =>
      -- The reply is to the command of this turn, which has the next ticket.
      obtain ⟨r, rfl, hr⟩ := List.map_eq_singleton_iff.mp hs
      obtain ⟨rfl, rfl⟩ := command_of_event? he
      obtain ⟨hticket, hanswer⟩ := Prod.mk.inj hr
      refine .removed ⟨?_, hanswer⟩ hp
      rw [hticket, h.tickets, List.getElem?_append_right (Nat.le_refl _), Nat.sub_self]
      exact ⟨_, rfl⟩
    | added hd hp =>
      obtain ⟨r, rfl, hr⟩ := List.map_eq_singleton_iff.mp hs
      obtain ⟨rfl, hanswer⟩ := Prod.mk.inj hr
      obtain ⟨id, rfl⟩ := finish_of_event? he
      -- The question to this miner was launched for a request to add it.
      rcases h.command_of_ticket? ht rfl with ⟨c, hc, -⟩ | ⟨-, hname⟩
      · cases hc
      · exact .added ⟨hname, hanswer⟩ hd hp
    | discovered hp =>
      rw [List.map_eq_nil_iff.mp hs]
      obtain ⟨id, rfl⟩ := finish_of_event? he
      exact .discovered hp
    | refreshed hp =>
      rw [List.map_eq_nil_iff.mp hs]
      obtain ⟨id, rfl⟩ := finish_of_event? he
      exact .refreshed hp
  · refine .kept (.of_eq hd) fun r hr d ha => ?_
    rw [herr r hr] at ha
    cases ha

/-! ### Replies -/

/-- A miner has been added at an address, and none has been taken out there since. The replies
are the latest first. -/
def Present (cs : List Command) (a : String) : List Sent → Prop
  | [] => False
  | r :: rs =>
    (∃ d, r.Added cs d ∧ d.connectionAddress = a) ∨
    (Present cs a rs ∧ ∀ d, r.Removed cs d → d.connectionAddress ≠ a)

/-- A miner is added only at an address where none is present. -/
def Alternates (cs : List Command) : List Sent → Prop
  | [] => True
  | r :: rs => (∀ d, r.Added cs d → ¬ Present cs d.connectionAddress rs) ∧ Alternates cs rs

theorem present_append {cs : List Command} {rs : List Sent} (h : ∀ r ∈ rs, r.ticket < cs.length)
    (cs' : List Command) (a : String) : Present (cs ++ cs') a rs ↔ Present cs a rs := by
  induction rs with
  | nil => exact Iff.rfl
  | cons r rs ih =>
    have hr := h r List.mem_cons_self
    rw [Present, Present, ih fun r hm => h r (List.mem_cons_of_mem _ hm)]
    simp only [Sent.added_append hr, Sent.removed_append hr]

theorem alternates_append {cs : List Command} {rs : List Sent}
    (h : ∀ r ∈ rs, r.ticket < cs.length) (cs' : List Command) :
    Alternates (cs ++ cs') rs ↔ Alternates cs rs := by
  induction rs with
  | nil => exact Iff.rfl
  | cons r rs ih =>
    have hr := h r List.mem_cons_self
    have hrs : ∀ r ∈ rs, r.ticket < cs.length := fun r hm => h r (List.mem_cons_of_mem _ hm)
    rw [Alternates, Alternates, ih hrs]
    simp only [Sent.added_append hr, present_append hrs]

/-- Replies that give no miner change nothing. -/
theorem present_of_silent {cs : List Command} {a : String} {new rs : List Sent}
    (hn : ∀ r ∈ new, ∀ d, r.answer ≠ .ok (.device d)) (h : Present cs a (new ++ rs)) :
    Present cs a rs := by
  induction new with
  | nil => exact h
  | cons r new ih =>
    rcases h with ⟨d, hr, -⟩ | ⟨h, -⟩
    · exact absurd hr.2 (hn r List.mem_cons_self d)
    · exact ih (fun r hm => hn r (List.mem_cons_of_mem _ hm)) h

theorem alternates_of_silent {cs : List Command} {new rs : List Sent}
    (hn : ∀ r ∈ new, ∀ d, r.answer ≠ .ok (.device d)) (h : Alternates cs rs) :
    Alternates cs (new ++ rs) := by
  induction new with
  | nil => exact h
  | cons r new ih =>
    refine ⟨fun d hr => absurd hr.2 (hn r List.mem_cons_self d), ?_⟩
    exact ih fun r hm => hn r (List.mem_cons_of_mem _ hm)

/-- Where a miner is added, none was present. -/
theorem Alternates.not_present {cs : List Command} {later rs : List Sent} {r : Sent} {d : Device}
    (h : Alternates cs (later ++ r :: rs)) (hr : r.Added cs d) :
    ¬ Present cs d.connectionAddress rs := by
  induction later with
  | nil => exact h.1 d hr
  | cons _ later ih => exact ih h.2

/-- A miner that was added and is not present any more has been taken out. -/
theorem removed_of_not_present {cs : List Command} {mid earlier : List Sent} {r : Sent}
    {d : Device} (hr : r.Added cs d)
    (h : ¬ Present cs d.connectionAddress (mid ++ r :: earlier)) :
    ∃ r' ∈ mid, ∃ d', r'.Removed cs d' ∧ d'.connectionAddress = d.connectionAddress := by
  -- Induction on the replies since then, of which the newest is in front.
  induction mid with
  | nil => exact absurd (.inl ⟨d, hr, rfl⟩) h
  | cons m mid ih =>
    by_cases hm : ∃ d', m.Removed cs d' ∧ d'.connectionAddress = d.connectionAddress
    · obtain ⟨d', hd⟩ := hm
      exact ⟨m, List.mem_cons_self, d', hd⟩
    · obtain ⟨r', hr', hd⟩ := ih fun hp => h (.inr ⟨hp, fun d' hd' ha => hm ⟨d', hd', ha⟩⟩)
      exact ⟨r', List.mem_cons_of_mem _ hr', hd⟩

/-! ### Runs -/

/-- Whoever is present is dialed, and miners are added where none is present. -/
structure Guarded (cs : List Command) (s : System σ) : Prop where
  present : ∀ a, Present cs a s.replies → a ∈ dialed s.devices
  alternates : Alternates cs s.replies

theorem Guarded.turn {cs : List Command} {s : System σ} (h : Guarded cs s) (hs : Tracked cs s)
    {t : Turn} (ht : s.Possible W t) : Guarded (cs ++ asked [t]) (s.turn t) := by
  obtain ⟨new, hnew, hf⟩ := hs.fleetTurn ht
  have hpresent : ∀ a, Present (cs ++ asked [t]) a s.replies → a ∈ dialed s.devices :=
    fun a ha => h.present a ((present_append hs.replies _ a).mp ha)
  have halternates := (alternates_append hs.replies (asked [t])).mpr h.alternates
  -- Only who is taken out is not dialed any more, and this takes the address from those present.
  suffices hc : (∀ a, Present (cs ++ asked [t]) a (new ++ s.replies) →
      a ∈ dialed (s.turn t).devices) ∧ Alternates (cs ++ asked [t]) (new ++ s.replies) by
    rw [← hnew] at hc
    exact ⟨hc.1, hc.2⟩
  cases hf with
  | kept hp hn =>
    refine ⟨fun a ha => ?_, alternates_of_silent hn halternates⟩
    exact (perm_dialed hp).mem_iff.mpr (hpresent a (present_of_silent hn ha))
  | removed hr hp =>
    refine ⟨fun a ha => ?_, fun d' hd' => absurd hd' hr.not_added, halternates⟩
    rcases ha with ⟨d', hd', -⟩ | ⟨ha, hne⟩
    · exact absurd hd' hr.not_added
    · have hm := (perm_dialed hp).mem_iff.mp (hpresent a ha)
      exact (List.mem_cons.mp hm).resolve_left (hne _ hr).symm
  | added hr hd hp =>
    refine ⟨fun a ha => ?_, fun d' hd' hpr => ?_, halternates⟩
    · rw [(perm_dialed hp).mem_iff, dialed_cons]
      rcases ha with ⟨d', hd', rfl⟩ | ⟨ha, -⟩
      · rw [hr.eq_of_added hd']
        exact List.mem_cons_self
      · exact List.mem_cons_of_mem _ (hpresent a ha)
    · rw [← hr.eq_of_added hd'] at hpr
      exact hd (hpresent _ hpr)
  | discovered hp =>
    refine ⟨fun a ha => ?_, halternates⟩
    rw [(perm_dialed hp).mem_iff, dialed_append]
    exact List.mem_append_left _ (hpresent a ha)
  | refreshed hp =>
    refine ⟨fun a ha => ?_, halternates⟩
    rw [(perm_dialed hp).mem_iff, Registry.dialed_replaceFrom]
    exact hpresent a ha

theorem guarded_started (config : Config) (store : σ) : Guarded [] (started config store) := by
  have hr := (started_cases config store).1
  constructor
  · rw [hr]
    exact fun a ha => ha.elim
  · rw [hr]
    trivial

/-- In every run, whoever is present is dialed. -/
theorem Run.guarded {config : Config} {store : σ} {s : System σ} {ts : List Turn}
    (h : Run W (started config store) ts s) : Guarded (asked ts) s := by
  induction h with
  | refl => exact guarded_started config store
  | turn h ht ih =>
    rw [asked_append]
    exact ih.turn h.tracked ht

/-- No turn makes two miners be dialed at the same address. -/
theorem FleetTurn.dialedOnce {cs : List Command} {before after : List Device} {t : Turn}
    {new : List Sent} (h : FleetTurn cs before t new after) (hb : DialedOnce before) :
    DialedOnce after := by
  cases h with
  | kept hp _ => exact (dialedOnce_congr hp).mpr hb
  | removed _ hp => exact (List.nodup_cons.mp ((dialedOnce_congr hp).mp hb)).2
  | added _ hd hp => exact (dialedOnce_congr hp).mpr (List.nodup_cons.mpr ⟨hd, hb⟩)
  | discovered hp =>
    exact (dialedOnce_congr hp).mpr (Registry.dialedOnce_append_newcomers hb _)
  | refreshed hp =>
    rw [dialedOnce_congr hp, DialedOnce, Registry.dialed_replaceFrom]
    exact hb

theorem Run.dialedOnce {config : Config} {store : σ} {s : System σ} {ts : List Turn}
    (h : Run W (started config store) ts s) (hs : DialedOnce (stored store)) :
    DialedOnce s.devices := by
  induction h with
  | refl => exact (dialedOnce_congr (started_cases config store).2).mpr hs
  | turn h ht ih =>
    obtain ⟨new, -, hf⟩ := h.tracked.fleetTurn ht
    exact hf.dialedOnce ih

/-- However the turns follow each other over a store where every miner is dialed once, every miner
of the fleet is; and between two replies that add a miner at the same address, one is taken out
there. -/
theorem dialed_once_in_every_run {config : Config} {store : σ} (hs : DialedOnce (stored store)) :
    (∀ s, Reachable W config store s → DialedOnce s.devices) ∧
    ∀ ts s, Run W (started config store) ts s →
      ∀ later r₂ mid r₁ earlier d₁ d₂,
        s.replies = later ++ r₂ :: (mid ++ r₁ :: earlier) →
        r₁.Added (asked ts) d₁ → r₂.Added (asked ts) d₂ →
        d₁.connectionAddress = d₂.connectionAddress →
        ∃ r ∈ mid, ∃ d, r.Removed (asked ts) d ∧ d.connectionAddress = d₁.connectionAddress := by
  constructor
  · rintro s ⟨ts, h⟩
    exact h.dialedOnce hs
  · intro ts s h later r₂ mid r₁ earlier d₁ d₂ he h₁ h₂ ha
    have halt := h.guarded.alternates
    rw [he] at halt
    have hnot := halt.not_present h₂
    rw [← ha] at hnot
    exact removed_of_not_present h₁ hnot

/-- A network where everybody answers at once, and where all hosts have one address. -/
def lan : Network where
  info _ := .after 0 (.ok (.object [("ASICModel", .string "BM1370")]))
  asic _ := .after 0 (.ok (.object []))
  act _ _ := .never
  resolve _ := .after 0 (.ok "10.1.1.50")

/-- What becomes of a miner of this network that is asked. -/
def found (name address : String) : Device where
  address := name
  connectionAddress := address
  displayName := some name
  asicModel := some "BM1370"
  deviceModel := some "Other"
  swarmColor := some "gray"

/-- A miner is added to two others, taken out, and added again. -/
def addedTwice : List Turn :=
  [.command (.add "10.1.1.70"), .finish 1 (.probed (.ok (found "10.1.1.70" "10.1.1.70")) 0),
    .command (.remove "10.1.1.70"), .command (.add "10.1.1.70"),
    .finish 2 (.probed (.ok (found "10.1.1.70" "10.1.1.70")) 2)]

/-- A miner that has been added twice was taken out in between. -/
theorem dialed_once_after_adding_twice :
    let s := addedTwice.foldl turn (started default twoMiners)
    let d := found "10.1.1.70" "10.1.1.70"
    DialedOnce (stored twoMiners) ∧ Run (· = lan) (started default twoMiners) addedTwice s ∧
      dialed s.devices = ["10.1.1.50", "10.1.1.60", "10.1.1.70"] ∧ DialedOnce s.devices ∧
      ∃ r₂ r r₁, s.replies = [r₂, r, r₁] ∧ r₁.Added (asked addedTwice) d ∧
        r₂.Added (asked addedTwice) d ∧
        ∃ d', r.Removed (asked addedTwice) d' ∧ d'.connectionAddress = "10.1.1.70" := by
  intro s d
  have hs : DialedOnce (stored twoMiners) := by decide +kernel
  have hrun : Run (· = lan) (started default twoMiners) addedTwice s :=
    run_of_comesOn lan (started default twoMiners) addedTwice (by decide +kernel) rfl
  obtain ⟨honce, hbetween⟩ := @dialed_once_in_every_run _ _ (· = lan) default _ hs
  obtain ⟨r₂, r, r₁, hreplies⟩ := List.length_eq_three.mp
    (show s.replies.length = 3 by decide +kernel)
  have hsaid : s.replies.map Sent.said =
      [(2, .ok (.device d)), (1, .ok (.device d)), (0, .ok (.device d))] := by decide +kernel
  rw [hreplies] at hsaid
  simp only [List.map_cons, List.map_nil, List.cons.injEq, and_true] at hsaid
  obtain ⟨h₂, -, h₁⟩ := hsaid
  have hadds {x : Sent} {ticket : Nat} (hx : x.said = (ticket, .ok (.device d)))
      (hc : (asked addedTwice)[ticket]? = some (.add "10.1.1.70")) :
      x.Added (asked addedTwice) d :=
    ⟨⟨_, (congrArg _ (congrArg Prod.fst hx)).trans hc⟩, congrArg Prod.snd hx⟩
  have hadded₁ := hadds h₁ rfl
  have hadded₂ := hadds h₂ rfl
  obtain ⟨r', hr', d', hremoved, hd'⟩ :=
    hbetween addedTwice s hrun [] r₂ [r] r₁ [] d d hreplies hadded₁ hadded₂ rfl
  rw [List.mem_singleton.mp hr'] at hremoved
  exact ⟨hs, hrun, by decide +kernel, honce s ⟨_, hrun⟩, r₂, r, r₁, hreplies, hadded₁, hadded₂,
    d', hremoved, hd'⟩

end System

end MinerFleet
