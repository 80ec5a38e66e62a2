/-
What the answer to a request to add a miner says.

* `Daemon.AsksToAdd` — a request to add a miner, whatever its body says;
* `Daemon.Shows` — whoever asks for the fleet reads of a miner at an address;
* `Daemon.InFleet` — a miner has been added for a request, and is shown unless it has been taken
  out since.

`answer_to_add` is what the answer says in every run: with 201 the miner is in the fleet until it
is taken out, and with any other status no miner has been or will be added for the request. The one
exception is a request that is given up while the address of its miner is still looked up: it is
answered with 503, and the miner is added when it has been found (`added_after_giving_up`).
-/
import Mathlib.Logic.Function.Iterate
import MinerFleet.Proofs.Daemon.Deadline
import MinerFleet.Proofs.System.Overlap

namespace MinerFleet.Daemon

open Api Http

variable {σ : Type} [Store σ] {W : Network → Prop}

/-! ### Requests to add a miner -/

/-- A request to add a miner, whatever its body says. -/
def AsksToAdd (r : Request) : Prop :=
  r.method = .post ∧ r.path = "/api/v0/swarm/devices"

theorem route_of_asksToAdd {r : Request} (h : AsksToAdd r) {route : Route}
    (hr : Route.ofRequest r = .ok route) : ∃ address, route = .add address := by
  have hparts : partsBelow? "/api/v0/swarm/devices" = some ["swarm", "devices"] := by
    decide +kernel
  rw [Route.ofRequest, h.2, hparts] at hr
  simp only [Route.ofParts, Route.ofParts.ordering, h.1, if_true] at hr
  cases hbody : readBody r AddRequest.decode with
  | error rejection =>
    rw [hbody] at hr
    cases hr
  | ok body =>
    rw [hbody] at hr
    cases hr
    exact ⟨_, rfl⟩

theorem rejection_status_ne (rejection : Rejection) : rejection.response.status ≠ 201 := by
  cases rejection <;> simp [Rejection.response, Rejection.status, Response.json, Response.bare]

theorem faultStatus_ne (fault : Fault) : faultStatus fault ≠ 201 := by
  cases fault <;> simp [faultStatus]

/-! ### The fleet as it is read -/

/-- Whoever asks for the fleet reads of a miner that is dialed at an address. -/
def Shows (d : Daemon σ) (a : String) : Prop :=
  ∀ r : Request, r.method = .get → Route.ofRequest r = .ok (.fleet none) →
    ∃ s : Snapshot, (d.request r).responseTo? d.requests = some ⟨200, .json s.toJson⟩ ∧
      ∃ m ∈ s.members, m.device.connectionAddress = a

theorem shows_of_mem_published {d : Daemon σ} {a : String}
    (h : ∃ m ∈ d.published.members, m.device.connectionAddress = a) : Shows d a := by
  intro r hmethod hroute
  refine ⟨d.published, ?_, h⟩
  unfold request
  rw [hroute]
  simp only [carryOut, Route.plan, hmethod]
  exact List.lookup_cons_self

/-- A miner has been added for the request with a ticket, and is shown unless it has been taken out
since. The replies are the latest first. -/
def InFleet (cs : List Command) (d : Daemon σ) (ticket : Nat) (m : Device) : Prop :=
  ∃ later sent earlier, d.system.replies = later ++ sent :: earlier ∧ sent.ticket = ticket ∧
    sent.Added cs m ∧
    (Shows d m.connectionAddress ∨
      ∃ r ∈ later, ∃ m', r.Removed cs m' ∧ m'.connectionAddress = m.connectionAddress)

theorem Sound.inFleet {config : Config} {store : σ} {cs : List Command} {d : Daemon σ}
    (h : Sound W config store cs d) {sent : Sent} {m : Device} (hs : sent ∈ d.system.replies)
    (hadd : sent.Added cs m) : InFleet cs d sent.ticket m := by
  obtain ⟨later, earlier, hsplit⟩ := List.append_of_mem hs
  refine ⟨later, sent, earlier, hsplit, rfl, hadd, ?_⟩
  by_cases hp : System.Present cs m.connectionAddress d.system.replies
  · left
    -- Whoever is present is dialed, and what is published is up to date.
    have hdialed := h.system.guarded.present _ hp
    obtain ⟨m', hm', ha⟩ := mem_dialed.mp hdialed
    refine shows_of_mem_published ⟨Member.ofDevice d.system.engine.config.staleAfter m', ?_, ha⟩
    rw [published, h.system.tracked.published]
    exact List.mem_map_of_mem hm'
  · right
    rw [hsplit] at hp
    exact System.removed_of_not_present hadd hp

/-! ### Answers -/

variable {config : Config} {store : σ} {network : Network} {before during : List Move}
  {d₀ d : Daemon σ} {r : Request} {x : Response}

omit [Store σ] in
/-- A request that has its response is not open any more. -/
theorem Numbered.not_waits (h : Numbered d) {number : Nat} (hx : (number, x) ∈ d.responses)
    {route : Route} {ticket deadline : Nat} {inTime : Prop} :
    ¬ Waits number route ticket deadline inTime d := by
  rintro ⟨ho, -⟩
  have hn := List.nodup_append.mp (h.nodup_iff.mpr List.nodup_range)
  exact hn.2.2 number (List.mem_map_of_mem ho) number (List.mem_map_of_mem hx) rfl

/-- The response to a request to add a miner that is well-formed: it is that to the reply of the
engine, or the request was given up while the address of its miner was still looked up. -/
theorem response_to_add (hn : W network) (h₀ : Run W (launch config store network) before d₀)
    {address : String} (hr : Route.ofRequest r = .ok (.add address))
    (h : Run W (d₀.request r) during d) (hx : d.responseTo? d₀.requests = some x) :
    (∃ sent ∈ d.system.replies, sent.ticket = d₀.system.tickets ∧
      x = (Route.add address).replied sent) ∨
    (¬ d₀.network.FindsInTime (Text.trim address) ∧ x = faultResponse .stopped) := by
  have hmem := mem_of_responseTo? hx
  have hnumbered := ((h₀.move (m := .request r) trivial).trans h).numbered
  have hhandled := (handled_request (h₀.sound hn) hr).1.run h
  rcases hhandled with hwaits | ⟨sent, hs, ht, hresponse⟩ | ⟨hnot, hresponse⟩
  · exact absurd hwaits (hnumbered.not_waits hmem)
  · exact .inl ⟨sent, hs, ht, hnumbered.eq_of_mem hmem hresponse⟩
  · exact .inr ⟨hnot, hnumbered.eq_of_mem hmem hresponse⟩

/-- The response to a request that asks for nothing, and takes no ticket. -/
theorem response_to_rejected (h₀ : Run W (launch config store network) before d₀)
    {rejection : Rejection} (hr : Route.ofRequest r = .error rejection)
    (h : Run W (d₀.request r) during d) (hx : d.responseTo? d₀.requests = some x) :
    x = rejection.response ∧ (d₀.request r).system.tickets = d₀.system.tickets := by
  have hnumbered := ((h₀.move (m := .request r) trivial).trans h).numbered
  have heq : d₀.request r =
      Daemon.respond { d₀ with requests := d₀.requests + 1 } d₀.requests rejection.response := by
    unfold request
    rw [hr]
  have hmem : (d₀.requests, rejection.response) ∈ (d₀.request r).responses := by
    rw [heq]
    exact List.mem_cons_self
  refine ⟨hnumbered.eq_of_mem (mem_of_responseTo? hx) (h.later.responses.subset hmem), ?_⟩
  rw [heq]
  rfl

/-- The command of a request has the ticket that was the next when the request came. -/
theorem command_of_request (hn : W network) (h₀ : Run W (launch config store network) before d₀)
    {address : String} (hr : Route.ofRequest r = .ok (.add address)) (after : List Move) :
    (given (before ++ [.request r] ++ after))[d₀.system.tickets]? = some (.add address) := by
  have htickets := (h₀.sound hn).system.tracked.tickets
  have hcommand : (Move.request r).command? = some (.add address) := by
    rw [Move.command?, hr]
    rfl
  rw [given_append, given_append, given_singleton, hcommand, htickets, List.append_assoc,
    List.getElem?_append_right (Nat.le_refl _), Nat.sub_self]
  rfl

/-- In every run, the answer to a request to add a miner says what has become of it. With any
status but 201 no miner has been added for the request, and none will be; this leaves open only
what becomes of a request that was answered with 503 although the address of its miner was not to
be found in time. With 201 the miner has been added, and is in the fleet until it is taken out. -/
theorem answer_to_add (hn : W network) (h₀ : Run W (launch config store network) before d₀)
    (hr : AsksToAdd r) (h : Run W (d₀.request r) during d)
    (hx : d.responseTo? d₀.requests = some x) :
    (x.status ≠ 201 →
      (x.status = 503 → ∀ address, Route.ofRequest r = .ok (.add address) →
        d₀.network.FindsInTime (Text.trim address)) →
      ∀ after d', Run W d after d' → ∀ ticket m,
        d₀.system.tickets ≤ ticket → ticket < (d₀.request r).system.tickets →
        ¬ d'.system.AddedFor (given (before ++ [.request r] ++ (during ++ after))) ticket m) ∧
    (x.status = 201 → ∃ m, x = ⟨201, .json m.toJson⟩ ∧ ∀ after d', Run W d after d' →
      InFleet (given (before ++ [.request r] ++ (during ++ after))) d' d₀.system.tickets m) := by
  have hall : ∀ {after : List Move} {d' : Daemon σ}, Run W d after d' →
      Sound W config store (given (before ++ [.request r] ++ (during ++ after))) d' :=
    fun hafter => ((h₀.move (m := .request r) trivial).trans (h.trans hafter)).sound hn
  cases hroute : Route.ofRequest r with
  | error rejection =>
    obtain ⟨rfl, htickets⟩ := response_to_rejected h₀ hroute h hx
    refine ⟨fun _ _ after d' _ ticket m hle hlt => ?_, fun hs => ?_⟩
    · omega
    · exact absurd hs (rejection_status_ne rejection)
  | ok route =>
    obtain ⟨address, rfl⟩ := route_of_asksToAdd hr hroute
    have htickets := (handled_request (h₀.sound hn) hroute).2
    rcases response_to_add hn h₀ hroute h hx with ⟨sent, hsent, hticket, rfl⟩ | ⟨hlate, rfl⟩
    · have hkept : ∀ {after : List Move} {d' : Daemon σ}, Run W d after d' →
          sent ∈ d'.system.replies := fun hafter => hafter.later.replies.subset hsent
      refine ⟨fun hs _ after d' hafter ticket m hle hlt => ?_, fun hs => ?_⟩
      · -- The reply is a refusal, and no request has two replies.
        rintro ⟨sent', hsent', rfl, hadd⟩
        have he : sent'.ticket = sent.ticket := by omega
        obtain rfl := (hall hafter).system.accounted.eq_of_ticket hsent' (hkept hafter) he
        rw [Route.replied, hadd.2] at hs
        exact hs rfl
      · have hcommand := command_of_request hn h₀ hroute
        have hsuits : (Command.add address).Suits sent.answer := by
          obtain ⟨c, hc, hsuits⟩ := (hall .refl).system.suited sent hsent
          rw [hticket, hcommand] at hc
          cases hc
          exact hsuits
        rcases Command.suits_add hsuits with ⟨fault, ha⟩ | ⟨m, ha⟩
        · rw [Route.replied, ha] at hs
          exact absurd hs (faultStatus_ne fault)
        · refine ⟨m, by rw [Route.replied, ha]; rfl, fun after d' hafter => ?_⟩
          rw [← hticket]
          refine (hall hafter).inFleet (hkept hafter) ⟨⟨address, ?_⟩, ha⟩
          rw [hticket]
          exact hcommand _
    · refine ⟨fun _ hin => absurd (hin rfl address rfl) hlate, fun hs => ?_⟩
      exact absurd hs (faultStatus_ne .stopped)

/-! ### Three runs -/

/-- The request to add a miner by a name. -/
def addition (name : String) : Request where
  method := .post
  path := "/api/v0/swarm/devices"
  contentType := some "application/json"
  body := (AddRequest.mk name).toJson.compact

/-- A daemon without miners. -/
def without (network : Network) : Daemon MemoryStore :=
  launch default KeyMap.empty network

/-- A network where nobody answers. -/
def silent : Network where
  info _ := .never
  asic _ := .never
  act _ _ := .never
  resolve _ := .never

/-- A network where it takes sixteen seconds to find the address of a host. -/
def slow : Network :=
  { System.lan with resolve := fun _ => .after 16000 (.ok "10.1.1.50") }

theorem run_proceed (d : Daemon σ) (n : Nat) :
    Run W d (List.replicate n .proceed) (Daemon.proceed^[n] d) := by
  induction n with
  | zero => exact .refl
  | succ n ih =>
    rw [List.replicate_succ', Function.iterate_succ_apply']
    exact ih.move trivial

/-- A miner that answers at once is in the fleet. One that does not answer is not added, however
long one waits. -/
theorem answer_to_add_of_two :
    let r := addition "10.1.1.50"
    let d := (without System.lan).request r
    let d' := Daemon.proceed^[5] ((without silent).request r)
    (∃ x, d.responseTo? 0 = some x ∧ x.status = 201 ∧ ∃ m, InFleet (given [.request r]) d 0 m) ∧
    (∃ x, d'.responseTo? 0 = some x ∧ x.status = 502 ∧ ∀ n m,
      ¬ (Daemon.proceed^[n] d').system.AddedFor
        (given (.request r :: (List.replicate 5 .proceed ++ List.replicate n .proceed))) 0 m) := by
  intro r d d'
  constructor
  · have hstatus : (d.responseTo? 0).map (·.status) = some 201 := by decide +kernel
    obtain ⟨x, hx, hs⟩ := Option.map_eq_some_iff.mp hstatus
    have hlan : (· = System.lan) System.lan := rfl
    obtain ⟨m, -, hin⟩ := (answer_to_add hlan .refl ⟨rfl, rfl⟩ .refl hx).2 hs
    exact ⟨x, hx, hs, m, hin [] d .refl⟩
  · have hstatus : (d'.responseTo? 0).map (·.status) = some 502 := by decide +kernel
    obtain ⟨x, hx, hs⟩ := Option.map_eq_some_iff.mp hstatus
    have hsilent : (· = silent) silent := rfl
    have hnone := (answer_to_add hsilent .refl ⟨rfl, rfl⟩ (run_proceed _ 5) hx).1
    refine ⟨x, hx, hs, fun n m => ?_⟩
    refine hnone (by omega) (fun h => absurd h (by omega)) _ _ (run_proceed d' n) 0 m ?_ ?_
    · decide +kernel
    · decide +kernel

/-- The address of a miner is found when the request to add it has been given up. The answer is
503, and the miner is added. -/
theorem added_after_giving_up :
    let r := addition "gamma.local"
    let d := Daemon.proceed^[15] ((without slow).request r)
    AsksToAdd r ∧ Run (· = slow) ((without slow).request r) (List.replicate 15 .proceed) d ∧
      (d.responseTo? 0).map (·.status) = some 503 ∧ Run (· = slow) d [.proceed] d.proceed ∧
      d.proceed.system.AddedFor
        (given (.request r :: (List.replicate 15 .proceed ++ [.proceed]))) 0
        (System.found "gamma.local" "10.1.1.50") := by
  intro r d
  refine ⟨⟨rfl, rfl⟩, run_proceed _ 15, by decide +kernel, .move .refl trivial, ?_⟩
  have hsaid : d.proceed.system.replies.map Sent.said =
      [(0, .ok (.device (System.found "gamma.local" "10.1.1.50")))] := by
    decide +kernel
  obtain ⟨sent, hs, hsaid⟩ := List.map_eq_singleton_iff.mp hsaid
  obtain ⟨hticket, hanswer⟩ := Prod.mk.inj hsaid
  refine ⟨sent, by rw [hs]; exact List.mem_singleton_self _, hticket, ⟨"gamma.local", ?_⟩, hanswer⟩
  rw [show sent.ticket = 0 from hticket]
  decide +kernel

end MinerFleet.Daemon
