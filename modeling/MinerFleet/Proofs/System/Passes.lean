/-
Passes exclude each other.

* `System.discoveries`, `System.refreshes`, `System.questions` — how many jobs of each kind are
  under way;
* `System.Coherent` — the flags and the counter of an engine agree with the jobs under way;
* `System.Grants` — a request for a pass is granted under a condition, and otherwise changes
  nothing;
* `System.PassesExclude` — at most one pass is under way, and the flags say which one.

`Run.coherent` is the invariant: what a turn launches and what ends is counted on both sides.
`passes_exclude_each_other` is drawn from it for every system that a run leads to.
-/
import MinerFleet.Proofs.System.Run

namespace MinerFleet

/-- A question to a miner that is to be added. -/
def Job.isPeer : Job → Bool
  | .peer .. => true
  | _ => false

namespace System

variable {σ : Type}

theorem countP_cons_toNat {α : Type} (p : α → Bool) (a : α) (as : List α) :
    (a :: as).countP p = as.countP p + (p a).toNat := by
  rw [List.countP_cons]
  cases p a <;> rfl

theorem eq_toNat_and_not {a b : Bool} {n : Nat} (h : n + b.toNat = a.toNat) :
    n = (a && !b).toNat := by
  cases a <;> cases b <;> simp at h ⊢ <;> omega

theorem eq_true_of_toNat_pos {b : Bool} (h : 0 < b.toNat) : b = true := by
  cases b with
  | true => rfl
  | false => exact absurd h (by decide)

/-- How many discoveries are under way. -/
def discoveries (s : System σ) : Nat :=
  s.jobs.countP (·.job.isDiscovery)

/-- How many refreshes are under way. -/
def refreshes (s : System σ) : Nat :=
  s.jobs.countP (·.job.isRefresh)

/-- How many miners are being asked in order to add them. -/
def questions (s : System σ) : Nat :=
  s.jobs.countP (·.job.isPeer)

/-- A pass under way is a discovery or a refresh. -/
theorem countP_isPass (s : System σ) :
    s.jobs.countP (·.job.isPass) = s.discoveries + s.refreshes := by
  rw [discoveries, refreshes]
  induction s.jobs with
  | nil => rfl
  | cons o jobs ih =>
    have hone : o.job.isPass.toNat = o.job.isDiscovery.toNat + o.job.isRefresh.toNat := by
      cases o.job <;> rfl
    rw [countP_cons_toNat, countP_cons_toNat, countP_cons_toNat]
    omega

/-- Each job under way is of one kind. -/
theorem length_jobs (s : System σ) :
    s.jobs.length = s.discoveries + s.refreshes + s.questions := by
  rw [discoveries, refreshes, questions]
  induction s.jobs with
  | nil => rfl
  | cons o jobs ih =>
    have hone : 1 = o.job.isDiscovery.toNat + o.job.isRefresh.toNat + o.job.isPeer.toNat := by
      cases o.job <;> rfl
    rw [List.length_cons, countP_cons_toNat, countP_cons_toNat, countP_cons_toNat]
    omega

/-- The flags and the counter of the engine agree with the jobs under way. -/
structure Coherent (s : System σ) : Prop where
  inFlight : s.engine.inFlight = s.jobs.length
  scanning : s.discoveries = s.engine.scanning.toNat
  refreshing : s.refreshes = s.engine.refreshing.toNat
  exclusive : s.engine.scanning = true → s.engine.refreshing = false

/-- The job with a number, and all others. -/
theorem perm_filter_id {jobs : List Ongoing} {o : Ongoing} (hn : (jobs.map (·.id)).Nodup)
    (ho : o ∈ jobs) : jobs.Perm (o :: jobs.filter fun o' => o'.id ≠ o.id) := by
  induction jobs with
  | nil => exact absurd ho List.not_mem_nil
  | cons a jobs ih =>
    rw [List.map_cons, List.nodup_cons] at hn
    rcases List.mem_cons.mp ho with rfl | ho
    · -- The job is in front, and no other has its number.
      have hrest : jobs.filter (fun o' => o'.id ≠ o.id) = jobs := by
        refine List.filter_eq_self.mpr fun o' ho' => ?_
        have hne : o'.id ≠ o.id := fun he => hn.1 (List.mem_map.mpr ⟨o', ho', he⟩)
        simpa using hne
      rw [List.filter_cons_of_neg (by simp), hrest]
    · have hne : a.id ≠ o.id := fun he => hn.1 (List.mem_map.mpr ⟨o, ho, he.symm⟩)
      rw [List.filter_cons_of_pos (by simpa using hne)]
      exact ((ih hn.2 ho).cons a).trans (List.Perm.swap o a _)

theorem countP_numbered (p : Job → Bool) (n : Nat) (jobs : List Job) :
    (numbered n jobs).countP (fun o => p o.job) = jobs.countP p := by
  have h := List.countP_map (p := p) (f := Ongoing.job) (l := numbered n jobs)
  rw [map_job_numbered] at h
  exact h.symm

/-- What is launched is counted, and sets the flag of its kind. -/
theorem counts_of_launched {e e' : Engine σ} {event : Event} {jobs : List Job}
    (h : Engine.Launched e event jobs e') :
    e'.inFlight = e.inFlight + jobs.length ∧
    e'.scanning.toNat = e.scanning.toNat + jobs.countP Job.isDiscovery ∧
    e'.refreshing.toNat = e.refreshing.toNat + jobs.countP Job.isRefresh := by
  -- Where a pass is launched no flag was set, since the engine was not busy.
  cases h with
  | nothing hu =>
    obtain ⟨h1, h2, h3⟩ := Engine.underWay_eq hu
    rw [h1, h2, h3]
    exact ⟨rfl, rfl, rfl⟩
  | discovery _ hb hu =>
    obtain ⟨h1, h2, h3⟩ := Engine.underWay_eq hu
    obtain ⟨hb1, hb2⟩ := Bool.or_eq_false_iff.mp hb
    rw [h1, h2, h3, hb1, hb2]
    exact ⟨rfl, rfl, rfl⟩
  | refresh fetchAsic hb hu =>
    obtain ⟨h1, h2, h3⟩ := Engine.underWay_eq hu
    obtain ⟨hb1, hb2⟩ := Bool.or_eq_false_iff.mp hb
    rw [h1, h2, h3, hb1, hb2]
    exact ⟨rfl, rfl, rfl⟩
  | peer _ hu =>
    obtain ⟨h1, h2, h3⟩ := Engine.underWay_eq hu
    rw [h1, h2, h3]
    exact ⟨rfl, rfl, rfl⟩

/-- No pass is launched beside another. -/
theorem exclusive_of_launched {e e' : Engine σ} {event : Event} {jobs : List Job}
    (h : Engine.Launched e event jobs e') (hx : e.scanning = true → e.refreshing = false) :
    e'.scanning = true → e'.refreshing = false := by
  cases h with
  | nothing hu =>
    obtain ⟨h1, h2, -⟩ := Engine.underWay_eq hu
    rw [h1, h2]
    exact hx
  | discovery _ hb hu =>
    obtain ⟨-, h2, -⟩ := Engine.underWay_eq hu
    rw [h2, (Bool.or_eq_false_iff.mp hb).2]
    exact fun _ => rfl
  | refresh fetchAsic hb hu =>
    obtain ⟨h1, -, -⟩ := Engine.underWay_eq hu
    rw [h1, (Bool.or_eq_false_iff.mp hb).1]
    exact fun hs => absurd hs Bool.false_ne_true
  | peer _ hu =>
    obtain ⟨h1, h2, -⟩ := Engine.underWay_eq hu
    rw [h1, h2]
    exact hx

variable [Store σ] {W : Network → Prop}

/-- An engine that has not ended by a turn has handled it. -/
theorem event_of_running {s : System σ} {t : Turn} (h : (s.turn t).running = true) :
    ∃ event, s.event? t = some event ∧ s.turn t = (s.before t).happen event := by
  rcases turn_cases s t with ⟨event, he, hs⟩ | ⟨-, hs⟩
  · exact ⟨event, he, hs⟩
  · rw [hs.running] at h
    exact absurd h Bool.false_ne_true

theorem running_of_turn {s : System σ} {t : Turn} (h : (s.turn t).running = true) :
    s.running = true := by
  obtain ⟨event, he, -⟩ := event_of_running h
  exact (event?_eq_some.mp he).1

/-- The jobs that an event launches are counted with those under way. -/
theorem countP_happen (p : Job → Bool) (s : System σ) (event : Event) :
    (s.happen event).jobs.countP (fun o => p o.job) =
      s.jobs.countP (fun o => p o.job) + (launches (s.engine.step event).2).countP p := by
  rw [happen_jobs, List.countP_append, countP_numbered]

/-- What is launched is counted on both sides. -/
theorem Coherent.launched {s : System σ} (h : Coherent s) {event : Event}
    (he : ∀ result, event ≠ .finished result) : Coherent (s.happen event) := by
  have hl := Engine.step_launched s.engine he
  obtain ⟨hn, hs, hr⟩ := counts_of_launched hl
  constructor
  · rw [happen_engine, hn, h.inFlight, happen_jobs, List.length_append, length_numbered]
  · rw [discoveries, countP_happen, ← discoveries, h.scanning, happen_engine, hs]
  · rw [refreshes, countP_happen, ← refreshes, h.refreshing, happen_engine, hr]
  · rw [happen_engine]
    exact exclusive_of_launched hl h.exclusive

/-- What ends is taken off on both sides. -/
theorem Coherent.finished {s : System σ} (h : Coherent s) (hnodup : (s.jobs.map (·.id)).Nodup)
    {id : Nat} {result : JobResult} (ht : s.Possible W (.finish id result)) :
    Coherent ((s.before (.finish id result)).happen (.finished result)) := by
  obtain ⟨job, hj, hy⟩ := ht
  obtain ⟨hn, hs, hr, hx⟩ := h
  obtain ⟨hl, hu⟩ := Engine.step_finished s.engine result
  obtain ⟨h1, h2, h3⟩ := Engine.underWay_eq hu
  rw [hy.fits.isDiscovery] at h1
  rw [hy.fits.isRefresh] at h2
  -- The job that ends is the only one with its number, so that one is taken off each count.
  have hperm : s.jobs.Perm (⟨id, job⟩ :: s.jobs.filter fun o => o.id ≠ id) :=
    perm_filter_id hnodup hj
  have hd := hperm.countP_eq (fun o => o.job.isDiscovery)
  have hf := hperm.countP_eq (fun o => o.job.isRefresh)
  have hlen := hperm.length_eq
  rw [countP_cons_toNat] at hd hf
  rw [List.length_cons] at hlen
  rw [discoveries] at hs
  rw [refreshes] at hr
  rw [hd] at hs
  rw [hf] at hr
  have hjobs : ((s.before (.finish id result)).happen (.finished result)).jobs =
      s.jobs.filter fun o => o.id ≠ id := by
    rw [happen_jobs, before_engine, hl, numbered, List.append_nil]
    rfl
  have hengine : ((s.before (.finish id result)).happen (.finished result)).engine =
      (s.engine.step (.finished result)).1 := by
    rw [happen_engine, before_engine]
  constructor
  · rw [hjobs, hengine, h3]
    omega
  · rw [discoveries, hjobs, hengine, h1]
    exact eq_toNat_and_not hs
  · rw [refreshes, hjobs, hengine, h2]
    exact eq_toNat_and_not hr
  · rw [hengine, h1, h2]
    intro hscan
    rw [hx (Bool.and_eq_true_iff.mp hscan).1, Bool.false_and]

/-- A turn after which the engine goes on keeps the engine and its jobs together. -/
theorem Coherent.turn {s : System σ} (h : Coherent s) (hnodup : (s.jobs.map (·.id)).Nodup)
    {t : Turn} (ht : s.Possible W t) (hr : (s.turn t).running = true) : Coherent (s.turn t) := by
  obtain ⟨event, he, hs⟩ := event_of_running hr
  have he := (event?_eq_some.mp he).2
  rw [hs]
  cases t with
  | tick =>
    cases he
    exact h.launched fun _ => by simp
  | command c =>
    cases he
    have hb : Coherent (s.before (.command c)) :=
      ⟨h.inFlight, h.scanning, h.refreshing, h.exclusive⟩
    exact hb.launched fun _ => by simp
  | finish id result =>
    cases he
    exact h.finished hnodup ht
  | stop => cases he

theorem coherent_started (config : Config) (store : σ) : Coherent (started config store) := by
  have hm : Coherent (System.make config store) := ⟨rfl, rfl, rfl, fun _ => rfl⟩
  show Coherent ((System.make config store).happen .start)
  exact hm.launched fun _ => by simp

/-- In every run, the engine and its jobs stay together until the engine ends. -/
theorem Run.coherent {config : Config} {store : σ} {s : System σ} {ts : List Turn}
    (h : Run W (started config store) ts s) (hr : s.running = true) : Coherent s := by
  induction h with
  | refl => exact coherent_started config store
  | turn h ht ih => exact (ih (running_of_turn hr)).turn h.tracked.nodup ht hr

omit [Store σ] in
/-- Two passes that are under way are the same. -/
theorem Coherent.eq_of_isPass {s : System σ} (h : Coherent s) {o o' : Ongoing}
    (ho : o ∈ s.jobs) (ho' : o' ∈ s.jobs) (hp : o.job.isPass = true) (hp' : o'.job.isPass = true) :
    o' = o := by
  -- The flags allow for one pass at most, and each pass under way is counted by a flag.
  have hlen : (s.jobs.filter (·.job.isPass)).length ≤ 1 := by
    rw [← List.countP_eq_length_filter, countP_isPass, h.scanning, h.refreshing]
    cases hs : s.engine.scanning with
    | false => simpa using Bool.toNat_le _
    | true => rw [h.exclusive hs]; decide
  have hm : o ∈ s.jobs.filter (·.job.isPass) := List.mem_filter.mpr ⟨ho, hp⟩
  have hm' : o' ∈ s.jobs.filter (·.job.isPass) := List.mem_filter.mpr ⟨ho', hp'⟩
  generalize s.jobs.filter (·.job.isPass) = passes at hlen hm hm'
  match passes, hlen with
  | [a], _ => rw [List.mem_singleton.mp hm, List.mem_singleton.mp hm']

/-! ### Requests for a pass -/

/-- A request for a pass is answered at once, and granted under a condition. Granted, it launches
the pass; refused, it changes nothing but that it has been answered. -/
structure Grants (s : System σ) (c : Command) (pass : Job → Bool) (condition : Prop) : Prop where
  answered : ∃ answer, (s.turn (.command c)).replies =
    ⟨s.tickets, answer, (s.turn (.command c)).engine.snapshot⟩ :: s.replies ∧
    (answer = .ok (.started true) ↔ condition)
  granted : condition → ∃ job, pass job = true ∧
    (s.turn (.command c)).jobs = s.jobs ++ [⟨s.launched, job⟩]
  refused : ¬ condition → ∃ reply, s.turn (.command c) =
    { s with tickets := s.tickets + 1, replies := reply :: s.replies }

/-- What a request does that is answered at once, after some effects. -/
theorem turn_of_replying {s : System σ} (hr : s.running = true) {c : Command} {e : Engine σ}
    {effects : List Effect} {answer : Except Fault Answer}
    (hc : s.engine.command s.tickets c = (e, effects ++ e.replying s.tickets answer)) :
    s.turn (.command c) =
      (effects ++ e.replying s.tickets answer ++ [Effect.publish e.snapshot]).foldl apply
        { s with tickets := s.tickets + 1, engine := e } := by
  rw [turn, System.command, if_pos hr, happen_eq, Engine.step, Engine.handle]
  simp only [hc]

theorem Grants.of_granted {s : System σ} (hr : s.running = true) {c : Command}
    {pass : Job → Bool} {condition : Prop} {e : Engine σ} (job : Job) (hpass : pass job = true)
    (hcond : condition)
    (hc : s.engine.command s.tickets c =
      (e, [.launch job] ++ e.replying s.tickets (.ok (.started true)))) :
    s.Grants c pass condition := by
  have hturn := turn_of_replying hr hc
  refine ⟨⟨_, ?_, iff_of_true rfl hcond⟩, fun _ => ⟨job, hpass, ?_⟩, fun h => absurd hcond h⟩
  · rw [hturn]
    rfl
  · rw [hturn]
    rfl

theorem Grants.of_refused {s : System σ} (hr : s.running = true)
    (hp : s.published = s.engine.snapshot) {c : Command} {pass : Job → Bool} {condition : Prop}
    (answer : Except Fault Answer) (ha : answer ≠ .ok (.started true)) (hcond : ¬ condition)
    (hc : s.engine.command s.tickets c = (s.engine, [] ++ s.engine.replying s.tickets answer)) :
    s.Grants c pass condition := by
  have hturn := turn_of_replying hr hc
  refine ⟨⟨answer, ?_, iff_of_false ha hcond⟩, fun h => absurd h hcond,
    fun _ => ⟨⟨s.tickets, answer, s.engine.snapshot⟩, ?_⟩⟩
  · rw [hturn]
    rfl
  · rw [hturn]
    -- What the effects publish was published already.
    show { s with tickets := s.tickets + 1, published := s.engine.snapshot,
                  replies := ⟨s.tickets, answer, s.engine.snapshot⟩ :: s.replies } = _
    rw [← hp]

/-- A discovery is granted where there is a seed and no pass is under way. -/
theorem grants_scan {s : System σ} (hr : s.running = true) (hp : s.published = s.engine.snapshot) :
    s.Grants .scan Job.isDiscovery
      (s.engine.config.seed.isSome = true ∧ s.engine.busy = false) := by
  rcases Engine.startScan_cases s.engine with ⟨hs, fault, h⟩ | ⟨hs, hb, h⟩ | ⟨seed, hs, hb, h⟩
  · refine .of_refused hr hp (.error fault) (by simp) (by simp [hs]) ?_
    rw [Engine.command, h]
    rfl
  · refine .of_refused hr hp (.ok (.started false)) (by simp) (by simp [hb]) ?_
    rw [Engine.command, h]
    rfl
  · obtain ⟨e, job, hj, hc⟩ : ∃ e job, Job.isDiscovery job = true ∧
        s.engine.command s.tickets .scan =
          (e, [.launch job] ++ e.replying s.tickets (.ok (.started true))) := by
      rw [Engine.command, h]
      exact ⟨_, _, rfl, rfl⟩
    exact .of_granted hr job hj ⟨by simp [hs], hb⟩ hc

/-- A refresh is granted where no pass is under way and there are miners. -/
theorem grants_refresh {s : System σ} (hr : s.running = true)
    (hp : s.published = s.engine.snapshot) :
    s.Grants .refresh Job.isRefresh (s.engine.busy = false ∧ s.devices ≠ []) := by
  rcases Engine.startRefresh_cases s.engine true with ⟨hb, h⟩ | ⟨hb, hd, h⟩
  · have hcond : ¬ (s.engine.busy = false ∧ s.devices ≠ []) := by
      rintro ⟨hb', hd⟩
      rcases hb with hb | hb
      · rw [hb] at hb'
        exact absurd hb' (by decide)
      · exact hd hb
    refine .of_refused hr hp (.ok (.started false)) (by simp) hcond ?_
    rw [Engine.command, h]
  · obtain ⟨e, job, hj, hc⟩ : ∃ e job, Job.isRefresh job = true ∧
        s.engine.command s.tickets .refresh =
          (e, [.launch job] ++ e.replying s.tickets (.ok (.started true))) := by
      rw [Engine.command, h]
      exact ⟨_, _, rfl, rfl⟩
    exact .of_granted hr job hj ⟨hb, hd⟩ hc

/-! ### Passes exclude each other -/

/-- How the flags, the counter and the jobs of a system go together. -/
structure PassesExclude (W : Network → Prop) (s : System σ) : Prop where
  exclusive : ¬ (s.engine.scanning = true ∧ s.engine.refreshing = true)
  scanning : s.engine.scanning = true ↔ s.discoveries = 1
  refreshing : s.engine.refreshing = true ↔ s.refreshes = 1
  single : s.discoveries + s.refreshes ≤ 1
  inFlight : s.engine.inFlight = s.discoveries + s.refreshes + s.questions
  /-- Once a pass has ended, well or not, no flag is left set. -/
  cleared : ∀ id result, s.Possible W (.finish id result) → result.isPass = true →
    (s.turn (.finish id result)).engine.scanning = false ∧
    (s.turn (.finish id result)).engine.refreshing = false
  scan : s.Grants .scan Job.isDiscovery
    (s.engine.config.seed.isSome = true ∧ s.discoveries + s.refreshes = 0)
  refresh : s.Grants .refresh Job.isRefresh (s.discoveries + s.refreshes = 0 ∧ s.devices ≠ [])

omit [Store σ] in
/-- No pass is under way exactly if the engine is not busy. -/
theorem Coherent.busy_eq_false {s : System σ} (h : Coherent s) :
    s.engine.busy = false ↔ s.discoveries + s.refreshes = 0 := by
  rw [h.scanning, h.refreshing, Engine.busy]
  cases s.engine.scanning <;> cases s.engine.refreshing <;> simp

/-- A pass that ends was the only one. -/
theorem Coherent.cleared {s : System σ} (h : Coherent s) (hr : s.running = true) {id : Nat}
    {result : JobResult} (ht : s.Possible W (.finish id result)) (hp : result.isPass = true) :
    (s.turn (.finish id result)).engine.scanning = false ∧
    (s.turn (.finish id result)).engine.refreshing = false := by
  obtain ⟨job, hj, hy⟩ := ht
  have he : s.event? (.finish id result) = some (.finished result) :=
    event?_eq_some.mpr ⟨hr, rfl⟩
  have hengine : (s.turn (.finish id result)).engine = (s.engine.step (.finished result)).1 := by
    rw [turn_of_event? he, happen_engine, before_engine]
  obtain ⟨h1, h2, -⟩ := Engine.underWay_eq (Engine.step_finished s.engine result).2
  rw [hengine, h1, h2]
  rcases Bool.or_eq_true_iff.mp hp with hd | hf
  · -- A discovery is under way, so that no refresh is.
    have hpos : 0 < s.discoveries :=
      List.countP_pos_iff.mpr ⟨_, hj, hy.fits.isDiscovery.symm.trans hd⟩
    have hs : s.engine.scanning = true := eq_true_of_toNat_pos (h.scanning ▸ hpos)
    rw [hd, h.exclusive hs]
    simp
  · have hpos : 0 < s.refreshes :=
      List.countP_pos_iff.mpr ⟨_, hj, hy.fits.isRefresh.symm.trans hf⟩
    have hs : s.engine.scanning = false := by
      refine eq_false_of_ne_true fun hs => ?_
      rw [h.refreshing, h.exclusive hs] at hpos
      exact absurd hpos (by decide)
    rw [hf, hs]
    simp

/-- In every system that runs, a discovery and a refresh are never under way together, the flags
say which of them is, and a request for one is granted exactly when it can be begun. -/
theorem passes_exclude_each_other {config : Config} {store : σ} {s : System σ}
    (h : Reachable W config store s) (hr : s.running = true) : s.PassesExclude W := by
  obtain ⟨ts, h⟩ := h
  have hc := h.coherent hr
  have hp := h.tracked.published
  have hscan := hc.scanning
  have hrefresh := hc.refreshing
  have hx := hc.exclusive
  refine ⟨?_, ?_, ?_, ?_, ?_, fun id result ht hpass => hc.cleared hr ht hpass, ?_, ?_⟩
  · rintro ⟨h1, h2⟩
    rw [hx h1] at h2
    exact absurd h2 Bool.false_ne_true
  · rw [hscan, Bool.toNat_eq_one]
  · rw [hrefresh, Bool.toNat_eq_one]
  · rw [hscan, hrefresh]
    cases hs : s.engine.scanning with
    | false => simpa using Bool.toNat_le _
    | true => rw [hx hs]; decide
  · rw [hc.inFlight, length_jobs]
  · rw [← hc.busy_eq_false]
    exact grants_scan hr hp
  · rw [← hc.busy_eq_false]
    exact grants_refresh hr hp

/-- A refresh is under way from the start over a store with miners. -/
theorem passes_exclude_over_two_miners :
    (started default twoMiners).running = true ∧ (started default twoMiners).refreshes = 1 ∧
      (started default twoMiners).PassesExclude fun _ => True := by
  refine ⟨by decide +kernel, by decide +kernel, ?_⟩
  exact passes_exclude_each_other ⟨[], .refl⟩ (by decide +kernel)

end System

end MinerFleet
