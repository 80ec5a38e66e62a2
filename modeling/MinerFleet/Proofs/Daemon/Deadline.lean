/-
Requests that wait for the engine, and their deadline.

* `Network.FindsInTime` — the address of a miner need not be looked up, or is found so soon that
  there is time left to ask the miner;
* `Stage.EndsBefore` — a stage of the question to a miner after which there is still enough time;
* `Daemon.Promised` — the engine has replied to a request, or will in time;
* `Daemon.Handled` — how far a request is that waits for the engine: it waits, has the response to
  its reply, or was answered after its deadline.

A miner is asked for five seconds at most (`Network.probe_le`), but nobody limits how long it may
take to find its address. So a request to add a miner has its reply in time if the address is found
in time (`promised_command`), and then it is never answered before its reply (`Handled.move`).
-/
import MinerFleet.Proofs.Address.Literal
import MinerFleet.Proofs.Daemon.Clock
import MinerFleet.Proofs.Daemon.Sound

namespace MinerFleet

open Api Http

/-! ### The question to a miner -/

namespace Network

/-- The address of a miner need not be looked up, or is found so soon that there is time left to
ask the miner before a request to add it is given up. -/
def FindsInTime (net : Network) (address : String) : Prop :=
  isIpLiteral address = true ∨
    ∃ delay result, net.resolve address = .after delay result ∧
      delay + probeLimit < Daemon.commandLimit

end Network

namespace Stage

variable {ticket deadline now : Nat}

/-- A stage of the question to the miner of a request, which is not over. With all that may follow
it, it ends before a deadline. -/
inductive EndsBefore (ticket deadline now : Nat) : Stage → Prop
  | resolving {host : String} {ends : Nat} {result : Except ProbeFailure String}
      (hle : now ≤ ends) (hlt : ends + probeLimit < deadline) :
      EndsBefore ticket deadline now (.resolving host ticket (some ends) result)
  | probing {address : String} {ends : Nat} {outcome : Except ProbeFailure Device}
      (hle : now ≤ ends) (hlt : ends < deadline) :
      EndsBefore ticket deadline now (.probing address ticket ends outcome)

/-- The question to the miner of a request has a result, or a stage that ends before a deadline. -/
inductive InTime (ticket deadline now : Nat) : Stage ⊕ JobResult → Prop
  | stage {s : Stage} (h : s.EndsBefore ticket deadline now) :
      InTime ticket deadline now (.inl s)
  | result {outcome : Except Fault Device} :
      InTime ticket deadline now (.inr (.probed outcome ticket))

/-- There is a moment at which the stage ends, not before now and in time. -/
theorem EndsBefore.nextEnd {stage : Stage} (h : stage.EndsBefore ticket deadline now) :
    ∃ e, stage.nextEnd? = some e ∧ now ≤ e ∧ e < deadline := by
  cases h with
  | resolving hle hlt => exact ⟨_, rfl, hle, by omega⟩
  | probing hle hlt => exact ⟨_, rfl, hle, hlt⟩

/-- Time passes, but not past the end of the stage. -/
theorem EndsBefore.later {stage : Stage} (h : stage.EndsBefore ticket deadline now) {now' : Nat}
    (hle : ∀ e, stage.nextEnd? = some e → now' ≤ e) : stage.EndsBefore ticket deadline now' := by
  cases h with
  | resolving _ hlt => exact .resolving (hle _ rfl) hlt
  | probing _ hlt => exact .probing (hle _ rfl) hlt

theorem inTime_stepProbe {ends : Nat} (hle : now ≤ ends) (hlt : ends < deadline)
    (address : String) (outcome : Except ProbeFailure Device) :
    InTime ticket deadline now (stepProbe now address ticket ends outcome).next := by
  rw [stepProbe]
  by_cases he : ends ≤ now
  · rw [if_pos he]
    exact .result
  · rw [if_neg he]
    exact .stage (.probing hle hlt)

theorem inTime_beginProbe (net : Network) (h : now + probeLimit < deadline)
    (address connectionAddress : String) :
    InTime ticket deadline now (beginProbe net now address connectionAddress ticket).next := by
  let target : Target := ⟨connectionAddress, some (Device.at_ address connectionAddress)⟩
  have hends : now + (net.probe true target).1 < deadline :=
    Nat.lt_of_le_of_lt (Nat.add_le_add_left (net.probe_le true target) now) h
  exact inTime_stepProbe (Nat.le_add_right _ _) hends address (net.probe true target).2

theorem inTime_stepResolve (net : Network) {ends : Nat} (hle : now ≤ ends)
    (hlt : ends + probeLimit < deadline) (host : String) (result : Except ProbeFailure String) :
    InTime ticket deadline now (stepResolve net now host ticket (some ends) result).next := by
  unfold stepResolve
  by_cases he : ends ≤ now
  · rw [if_pos (by simpa using he)]
    cases result with
    | ok connectionAddress => exact inTime_beginProbe net (by omega) host connectionAddress
    | error failure => exact .result
  · rw [if_neg (by simpa using he)]
    exact .stage (.resolving hle hlt)

/-- A stage that ends before a deadline gives way to another one that does, or to a result. -/
theorem inTime_step (net : Network) {stage : Stage} (h : stage.EndsBefore ticket deadline now) :
    InTime ticket deadline now (stage.step net now).next := by
  cases h with
  | resolving hle hlt => exact inTime_stepResolve net hle hlt _ _
  | probing hle hlt => exact inTime_stepProbe hle hlt _ _

/-- If the address of a miner is found in time, so is the miner. -/
theorem inTime_begins {net : Network} {name : String} (h : net.FindsInTime (Text.trim name)) :
    InTime ticket (now + Daemon.commandLimit) now
      ((Job.peer name ticket).begins net now).next := by
  rw [Job.begins, Job.beginPeer]
  cases isPeer (Text.trim name) with
  | false => exact .result
  | true =>
    have hlimit : probeLimit < Daemon.commandLimit := by decide
    cases hip : isIpLiteral (Text.trim name) with
    | true => exact inTime_beginProbe net (by omega) _ _
    | false =>
      rcases h with h | ⟨delay, result, hr, hd⟩
      · rw [hip] at h
        cases h
      · simp only [Bool.not_true, Bool.false_eq_true, if_false, hr]
        exact inTime_stepResolve net (Nat.le_add_right _ _) (by omega) _ result

end Stage

namespace Daemon

variable {σ : Type} {d d' : Daemon σ} {ticket deadline : Nat}

/-! ### Promises -/

/-- The engine has replied to a request, or will before a deadline. -/
def Promised (ticket deadline : Nat) (d : Daemon σ) : Prop :=
  d.now < deadline ∧
    ((∃ sent ∈ d.system.replies, sent.ticket = ticket) ∨
      ∃ t ∈ d.tasks, t.stage.EndsBefore ticket deadline d.now)

theorem Promised.of_extends (h : Promised ticket deadline d) (hx : Extends d d') :
    Promised ticket deadline d' := by
  rw [Promised, hx.now]
  refine ⟨h.1, h.2.imp ?_ ?_⟩
  · rintro ⟨sent, hs, ht⟩
    exact ⟨sent, hx.replies.subset hs, ht⟩
  · rintro ⟨t, ht, he⟩
    exact ⟨t, hx.tasks.subset ht, he⟩

variable [Store σ]

/-- The promise of a job that goes on is kept. -/
theorem promised_progress (hn : d.now < deadline) {p : Progress}
    (hp : Stage.InTime ticket deadline d.now p.next) (id : Nat) :
    Promised ticket deadline (d.progress id p) := by
  obtain ⟨s, calls, -, ⟨stage, hnext, he⟩ | ⟨result, hnext, he⟩⟩ := progress_cases d id p
  · rw [hnext] at hp
    rw [he]
    cases hp with
    | stage hs =>
      exact ⟨hn, .inr ⟨⟨id, stage⟩, List.mem_append_right _ (List.mem_singleton_self _), hs⟩⟩
  · rw [hnext] at hp
    rw [he]
    cases hp with
    | result => exact ⟨hn, .inl (System.answered_of_finish s id _ ticket)⟩

omit [Store σ] in
/-- A loop over jobs makes a promise if one of them does when it has its turn. -/
theorem promised_foldl {α : Type} {id : α → Nat} {f : Daemon σ → α → Daemon σ}
    (hf : ∀ d a, Advances [id a] d (f d a)) {l : List α} {a : α} (ha : a ∈ l)
    (hstep : ∀ d', Extends d d' → Promised ticket deadline (f d' a)) :
    Promised ticket deadline (l.foldl f d) := by
  obtain ⟨front, back, rfl⟩ := List.append_of_mem ha
  rw [List.foldl_append, List.foldl_cons]
  have hfront := (advances_foldl hf front d).toExtends
  exact (hstep _ hfront).of_extends (advances_foldl hf back _).toExtends

/-- Tasks go on, and keep their promises. -/
theorem promised_stepTasks {t : StagedJob} (ht : t ∈ d.tasks)
    (he : t.stage.EndsBefore ticket deadline d.now) : Promised ticket deadline d.stepTasks := by
  obtain ⟨e, -, hle, hlt⟩ := he.nextEnd
  refine promised_foldl advances_stepTask ht fun d' hx => ?_
  have hnow : d'.now = d.now := hx.now
  have hlt' : d'.now < deadline := by omega
  rw [← hnow] at he
  rw [stepTask]
  split
  · exact promised_progress hlt' (Stage.inTime_step d'.network he) t.id
  · exact ⟨hlt', .inr ⟨t, List.mem_append_right _ (List.mem_singleton_self t), he⟩⟩

/-- The promise of a job that begins is kept. -/
theorem promised_beginJobs {o : Ongoing} (ho : o ∈ d.system.jobs) (hid : d.begun ≤ o.id)
    (hn : d.now < deadline)
    (hp : Stage.InTime ticket deadline d.now (o.job.begins d.network d.now).next) :
    Promised ticket deadline d.beginJobs := by
  have hnew : o ∈ d.system.jobs.filter fun o => d.begun ≤ o.id :=
    List.mem_filter.mpr ⟨ho, by simpa using hid⟩
  rw [beginJobs]
  refine promised_foldl (fun d o => advances_progress d (Ongoing.id o) _) hnew fun d' hx => ?_
  have hnow : d'.now = d.now := hx.now
  have hnet : d'.network = d.network := hx.network
  refine promised_progress (hnow.symm ▸ hn) ?_ o.id
  rw [hnow, hnet]
  exact hp

variable {W : Network → Prop} {config : Config} {store : σ} {cs : List Command}

/-- A request to add a miner whose address is found in time has its reply in time. -/
theorem promised_command (h : Sound W config store cs d) {address : String}
    (hfind : d.network.FindsInTime (Text.trim address)) :
    Promised d.system.tickets (d.now + commandLimit)
      (d.happen fun s => s.turn (.command (.add address))) := by
  have hturn := h.system.turn (t := .command (.add address)) trivial
  obtain ⟨new, jobs, hnew, hjobs, hp⟩ := System.turn_tickets d.system (.command (.add address))
  have hnow : d.now < d.now + commandLimit := Nat.lt_add_of_pos_right (by decide)
  rw [happen]
  generalize d.system.turn (.command (.add address)) = s at hturn hnew hjobs
  have hmem : d.system.tickets ∈ new.map (·.ticket) ++ jobs.filterMap Job.ticket? :=
    hp.mem_iff.mpr (List.mem_singleton_self _)
  rcases List.mem_append.mp hmem with hmem | hmem
  · -- The engine has refused at once.
    obtain ⟨sent, hs, ht⟩ := List.mem_map.mp hmem
    have hsent : sent ∈ s.replies := by
      rw [hnew]
      exact List.mem_append_left _ hs
    have hrefused : Promised d.system.tickets (d.now + commandLimit) { d with system := s } :=
      ⟨hnow, .inl ⟨sent, hsent, ht⟩⟩
    exact hrefused.of_extends (extends_beginJobs _)
  · -- The miner is asked, by the name in the request.
    obtain ⟨job, hj, ht⟩ := List.mem_filterMap.mp hmem
    rw [← System.map_job_numbered d.system.launched jobs] at hj
    obtain ⟨o, ho, rfl⟩ := List.mem_map.mp hj
    have hmem : o ∈ s.jobs := by
      rw [hjobs]
      exact List.mem_append_right _ ho
    obtain ⟨name, hname⟩ := Job.eq_peer_of_ticket? ht
    obtain ⟨name', hcommand, htrim⟩ := hturn.tracked.peers o hmem name _ hname
    rw [h.system.tracked.tickets, List.getElem?_append_right (Nat.le_refl _), Nat.sub_self]
      at hcommand
    cases hcommand
    have hid : d.begun ≤ o.id := h.begun ▸ (System.mem_numbered ho).1
    have hfind' : d.network.FindsInTime (Text.trim name) := by
      rw [← htrim, Text.trim_trim]
      exact hfind
    refine promised_beginJobs (d := { d with system := s }) hmem hid hnow ?_
    rw [hname]
    exact Stage.inTime_begins hfind'

/-! ### Requests that wait -/

variable {number : Nat} {route : Route} {inTime : Prop}

/-- A request waits for the reply to its ticket, which will come before its deadline if it is one
that is in time. -/
def Waits (number : Nat) (route : Route) (ticket deadline : Nat) (inTime : Prop) (d : Daemon σ) :
    Prop :=
  ⟨number, route, .reply ticket deadline⟩ ∈ d.openRequests ∧
    (inTime → ∃ t ∈ d.tasks, t.stage.EndsBefore ticket deadline d.now)

/-- A request that waited for the reply to its ticket has the response to this reply, or was
answered after its deadline. -/
def Answered (number : Nat) (route : Route) (ticket : Nat) (inTime : Prop) (d : Daemon σ) :
    Prop :=
  (∃ sent ∈ d.system.replies, sent.ticket = ticket ∧
    (number, route.replied sent) ∈ d.responses) ∨
  (¬ inTime ∧ (number, faultResponse .stopped) ∈ d.responses)

/-- A request waits for the reply to its ticket, or it is answered. -/
def Handled (number : Nat) (route : Route) (ticket deadline : Nat) (inTime : Prop)
    (d : Daemon σ) : Prop :=
  Waits number route ticket deadline inTime d ∨ Answered number route ticket inTime d

omit [Store σ] in
theorem Answered.later (h : Answered number route ticket inTime d) (hd : Later d d') :
    Answered number route ticket inTime d' := by
  rcases h with ⟨sent, hs, ht, hr⟩ | ⟨hnot, hr⟩
  · exact .inl ⟨sent, hd.replies.subset hs, ht, hd.responses.subset hr⟩
  · exact .inr ⟨hnot, hd.responses.subset hr⟩

omit [Store σ] in
/-- A request that is open when the requests are settled waits for a job, or is answered. -/
theorem handled_settleRequests
    (ho : ⟨number, route, .reply ticket deadline⟩ ∈ d.openRequests)
    (hp : inTime → Promised ticket deadline d) :
    Handled number route ticket deadline inTime d.settleRequests := by
  have hsettles := settles_settleRequests d
  have hreplies : d.settleRequests.system.replies = d.system.replies := by
    rw [System.eq_of_quiet hsettles.system.symm]
  rcases settleRequests_cases ho rfl with ⟨hlate, hr⟩ | ⟨-, sent, hs, ht, hr⟩ | ⟨hnone, hopen⟩
  · refine .inr (.inr ⟨fun hin => ?_, hr⟩)
    have hnow := (hp hin).1
    omega
  · exact .inr (.inl ⟨sent, hreplies ▸ hs, ht, hr⟩)
  · refine .inl ⟨hopen, fun hin => ?_⟩
    rw [hsettles.tasks, hsettles.now]
    rcases (hp hin).2 with ⟨sent, hs, ht⟩ | htask
    · exact absurd ht (hnone sent hs)
    · exact htask

theorem Handled.moment (h : Handled number route ticket deadline inTime d) :
    Handled number route ticket deadline inTime d.moment := by
  rcases h with ⟨ho, hin⟩ | h
  · obtain ⟨d', hx, -, hm⟩ := exists_moment d
    have hopen : d'.openRequests = d.openRequests :=
      hx.openRequests.trans (advances_stepTasks d).openRequests
    rw [hm]
    refine handled_settleRequests (hopen ▸ ho) fun hi => ?_
    obtain ⟨t, ht, he⟩ := hin hi
    exact (promised_stepTasks ht he).of_extends hx
  · exact .inr (h.later (keeps_moment d).later)

omit [Store σ] in
/-- Another request comes, and all are settled. -/
theorem Handled.keepOpen (h : Handled number route ticket deadline inTime d) (hx : Extends d d')
    (o : OpenRequest) :
    Handled number route ticket deadline inTime (d'.keepOpen o).settleRequests := by
  rcases h with ⟨ho, hin⟩ | h
  · refine handled_settleRequests (List.mem_append_left _ (hx.openRequests ▸ ho)) fun hi => ?_
    obtain ⟨t, ht, he⟩ := hin hi
    obtain ⟨e, -, hle, hlt⟩ := he.nextEnd
    have hp : Promised ticket deadline d := ⟨by omega, .inr ⟨t, ht, he⟩⟩
    have hp' : Promised ticket deadline d' := hp.of_extends hx
    exact hp'
  · have hlater : Later d (d'.keepOpen o) := ⟨hx.responses ▸ List.suffix_refl _, hx.replies⟩
    exact .inr (h.later (hlater.trans (keeps_settleRequests _).later))

theorem Handled.carryOut (h : Handled number route ticket deadline inTime d) (number' : Nat)
    (method : Method) (route' : Route) :
    Handled number route ticket deadline inTime (d.carryOut number' method route') := by
  rcases carryOut_cases d number' method route' with ⟨x, he⟩ | ⟨d₀, d₁, o, h₀, hx, -, he⟩
  · rw [he]
    exact h.imp id fun h => h.later ⟨List.suffix_cons _ _, List.suffix_refl _⟩
  · rw [he]
    refine Handled.keepOpen ?_ hx o
    rcases h₀ with rfl | rfl
    · exact h
    · rw [catchUp]
      split
      · exact h.moment
      · exact h

theorem Handled.request (h : Handled number route ticket deadline inTime d) (r : Request) :
    Handled number route ticket deadline inTime (d.request r) := by
  rw [Daemon.request]
  cases Route.ofRequest r with
  | error rejection =>
    exact h.imp id fun h => h.later ⟨List.suffix_cons _ _, List.suffix_refl _⟩
  | ok route' => exact Handled.carryOut (d := { d with requests := d.requests + 1 }) h _ _ _

omit [Store σ] in
/-- Time passes, but not past the next moment. -/
theorem Handled.wait (h : Handled number route ticket deadline inTime d) {now : Nat}
    (hnow : now ≤ max d.now d.nextMoment) :
    Handled number route ticket deadline inTime { d with now } := by
  refine h.imp ?_ id
  rintro ⟨ho, hin⟩
  refine ⟨ho, fun hi => ?_⟩
  obtain ⟨t, ht, he⟩ := hin hi
  refine ⟨t, ht, he.later fun e hend => ?_⟩
  obtain ⟨e', hend', hle, -⟩ := he.nextEnd
  obtain rfl : e' = e := Option.some.inj (hend'.symm.trans hend)
  have hnext := d.nextMoment_le.2.1 t ht _ hend
  exact Nat.le_trans hnow (Nat.max_le.mpr ⟨hle, hnext⟩)

/-- Whatever happens, a request that waits is answered only as it may be. -/
theorem Handled.move (h : Handled number route ticket deadline inTime d) {m : Move}
    (hm : d.Possible W m) : Handled number route ticket deadline inTime (d.move m) := by
  cases m with
  | request r => exact h.request r
  | wait time => exact h.wait (Nat.le_trans hm (Nat.le_max_right _ _))
  | proceed => exact (h.wait (Nat.le_refl _)).moment
  | stop =>
    refine h.imp id fun h => h.later ⟨List.suffix_refl _, ?_⟩
    exact System.replies_suffix_turn d.system .stop
  | rewire network => exact h

theorem Handled.run (h : Handled number route ticket deadline inTime d) {ms : List Move}
    (hrun : Run W d ms d') : Handled number route ticket deadline inTime d' := by
  induction hrun with
  | refl => exact h
  | move _ hm ih => exact ih.move hm

/-- A request to add a miner that comes waits for the reply to the next ticket, which it takes. -/
theorem handled_request (h : Sound W config store cs d) {r : Request} {address : String}
    (hr : Route.ofRequest r = .ok (.add address)) :
    Handled d.requests (.add address) d.system.tickets (d.now + commandLimit)
      (d.network.FindsInTime (Text.trim address)) (d.request r) ∧
    (d.request r).system.tickets = d.system.tickets + 1 := by
  have hnext : Sound W config store cs { d with requests := d.requests + 1 } :=
    h.of_sameWork ⟨rfl, rfl, rfl, rfl⟩
  have hkeeps := keeps_catchUp { d with requests := d.requests + 1 }
  have hsound := hnext.catchUp
  let o : OpenRequest :=
    ⟨d.requests, .add address, .reply d.system.tickets (d.now + commandLimit)⟩
  have heq : d.request r = (((Daemon.catchUp { d with requests := d.requests + 1 }).happen
      fun s => s.turn (.command (.add address))).keepOpen o).settleRequests := by
    unfold Daemon.request
    rw [hr]
    rfl
  generalize Daemon.catchUp { d with requests := d.requests + 1 } = d₀ at hkeeps hsound heq
  have hnow : d₀.now = d.now := hkeeps.now
  have htickets : d₀.system.tickets = d.system.tickets := hkeeps.tickets
  have hnetwork : d₀.network = d.network := hkeeps.network
  rw [heq]
  refine ⟨handled_settleRequests (List.mem_append_right _ (List.mem_singleton_self _)) fun hi => ?_,
    ?_⟩
  · rw [← hnow, ← htickets]
    exact promised_command hsound (hnetwork ▸ hi)
  · refine (keeps_settleRequests _).tickets.trans ?_
    exact (tickets_happen d₀ (.command (.add address))).trans (congrArg (· + 1) htickets)

end Daemon

end MinerFleet
