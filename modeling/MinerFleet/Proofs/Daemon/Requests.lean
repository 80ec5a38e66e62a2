/-
What becomes of the requests to a daemon.

* `Daemon.numbers` — the numbers of the requests that are open or answered;
* `Daemon.Numbered` — every request that came is open or answered, and in all this is so once;
* `Daemon.Keeps` — what a moment leaves alone;
* `Daemon.Later` — what was replied and answered stays.

`settleRequests_cases` says what becomes of a request that waits for the engine, `carryOut_cases`
what happens while a request is taken up. `Run.numbered` says that no request is lost or answered
twice.
-/
import MinerFleet.Proofs.Daemon.Run

namespace MinerFleet.Daemon

open Api Http

variable {σ : Type} {d d' d'' : Daemon σ}

/-! ### Requests that are settled -/

/-- The numbers of the requests that are open or answered. -/
def numbers (d : Daemon σ) : List Nat :=
  d.openRequests.map (·.number) ++ d.responses.map (·.1)

theorem perm_numbers_keepOpen (d : Daemon σ) (o : OpenRequest) :
    (d.keepOpen o).numbers.Perm (o.number :: d.numbers) := by
  rw [numbers, keepOpen, List.map_append, List.append_assoc]
  exact List.perm_middle

theorem perm_numbers_respond (d : Daemon σ) (number : Nat) (x : Response) :
    (d.respond number x).numbers.Perm (number :: d.numbers) :=
  List.perm_middle

theorem perm_numbers_settleRequest (d : Daemon σ) (o : OpenRequest) :
    (d.settleRequest o).numbers.Perm (o.number :: d.numbers) := by
  rcases settleRequest_cases d o with ⟨-, h⟩ | ⟨s, x, -, h⟩
  · rw [h]
    exact perm_numbers_keepOpen d o
  · rw [h]
    exact perm_numbers_respond d o.number x

/-- The open requests are answered or kept, and none is lost. -/
theorem perm_numbers_settleRequests (d : Daemon σ) :
    d.settleRequests.numbers.Perm d.numbers := by
  -- A request that has had its turn is among those that are open or answered now.
  have hfold : ∀ (l : List OpenRequest) (d : Daemon σ),
      (l.foldl settleRequest d).numbers.Perm (l.map (·.number) ++ d.numbers) := by
    intro l
    induction l with
    | nil => exact fun d => .refl _
    | cons o l ih =>
      intro d
      refine (ih _).trans ?_
      refine ((perm_numbers_settleRequest d o).append_left _).trans ?_
      exact List.perm_middle
  exact hfold d.openRequests _

/-- What becomes of an open request that waits for the engine: after its deadline it is answered
that the engine is not running, even if a reply has come; else it gets the reply, or stays open. -/
theorem settleRequests_cases {o : OpenRequest} (ho : o ∈ d.openRequests) {ticket deadline : Nat}
    (hw : o.wait = .reply ticket deadline) :
    (deadline ≤ d.now ∧ (o.number, faultResponse .stopped) ∈ d.settleRequests.responses) ∨
    (d.now < deadline ∧ ∃ sent ∈ d.system.replies, sent.ticket = ticket ∧
      (o.number, o.route.replied sent) ∈ d.settleRequests.responses) ∨
    ((∀ sent ∈ d.system.replies, sent.ticket ≠ ticket) ∧ o ∈ d.settleRequests.openRequests) := by
  obtain ⟨front, back, hsplit⟩ := List.append_of_mem ho
  have heq : d.settleRequests =
      back.foldl settleRequest
        ((front.foldl settleRequest { d with openRequests := [] }).settleRequest o) := by
    rw [settleRequests, hsplit, List.foldl_append, List.foldl_cons]
  -- What is settled before it changes nothing that it depends on, and what is settled after it
  -- takes nothing away from it.
  have hfront := settles_foldl front { d with openRequests := [] }
  generalize front.foldl settleRequest { d with openRequests := [] } = d₁ at heq hfront
  have hreplies : d₁.system.replies = d.system.replies := by
    rw [System.eq_of_quiet hfront.system.symm]
  have hnow : d₁.now = d.now := hfront.now
  have hback := settles_foldl back (d₁.settleRequest o)
  rw [← heq] at hback
  by_cases hd : deadline ≤ d.now
  · refine .inl ⟨hd, hback.responses.subset ?_⟩
    have hlate : d₁.settleRequest o = d₁.respond o.number (faultResponse .stopped) := by
      rw [settleRequest, hw]
      exact if_pos (hnow ▸ hd)
    rw [hlate]
    exact List.mem_cons_self
  · cases hreply : d₁.system.replyTo? ticket with
    | some sent =>
      have hmem := List.mem_of_find?_eq_some hreply
      have hticket := List.find?_some hreply
      refine .inr (.inl ⟨Nat.lt_of_not_le hd, sent, hreplies ▸ hmem, by simpa using hticket,
        hback.responses.subset ?_⟩)
      have hanswered : d₁.settleRequest o = d₁.respond o.number (o.route.replied sent) := by
        rw [settleRequest, hw]
        simp only [hnow, hd, if_false, hreply]
      rw [hanswered]
      exact List.mem_cons_self
    | none =>
      refine .inr (.inr ⟨fun sent hs => ?_, hback.openRequests.subset ?_⟩)
      · have hnone := List.find?_eq_none.mp hreply sent (hreplies ▸ hs)
        simpa using hnone
      · have hkept : d₁.settleRequest o = d₁.keepOpen o := by
          rw [settleRequest, hw]
          simp only [hnow, hd, if_false, hreply]
        rw [hkept]
        exact List.mem_append_right _ (List.mem_singleton_self o)

/-! ### Moments -/

/-- What a moment leaves alone: requests are open or answered as before, and what was replied and
answered stays. -/
structure Keeps (d d' : Daemon σ) : Prop where
  now : d'.now = d.now
  network : d'.network = d.network
  requests : d'.requests = d.requests
  tickets : d'.system.tickets = d.system.tickets
  numbers : d'.numbers.Perm d.numbers
  responses : d.responses <:+ d'.responses
  replies : d.system.replies <:+ d'.system.replies

theorem Keeps.refl (d : Daemon σ) : Keeps d d :=
  ⟨rfl, rfl, rfl, rfl, .refl _, List.suffix_refl _, List.suffix_refl _⟩

theorem Keeps.trans (h : Keeps d d') (h' : Keeps d' d'') : Keeps d d'' :=
  ⟨h'.now.trans h.now, h'.network.trans h.network, h'.requests.trans h.requests,
    h'.tickets.trans h.tickets, h'.numbers.trans h.numbers, h.responses.trans h'.responses,
    h.replies.trans h'.replies⟩

theorem Extends.numbers (h : Extends d d') : d'.numbers = d.numbers := by
  rw [Daemon.numbers, h.openRequests, h.responses, Daemon.numbers]

theorem Extends.keeps (h : Extends d d') (ht : d'.system.tickets = d.system.tickets) :
    Keeps d d' :=
  ⟨h.now, h.network, h.requests, ht, .of_eq h.numbers, h.responses ▸ List.suffix_refl _, h.replies⟩

theorem keeps_settleRequests (d : Daemon σ) : Keeps d d.settleRequests := by
  have h := settles_settleRequests d
  have hs := System.eq_of_quiet h.system.symm
  have htickets : d.settleRequests.system.tickets = d.system.tickets := by rw [hs]
  have hreplies : d.settleRequests.system.replies = d.system.replies := by rw [hs]
  exact ⟨h.now, h.network, h.requests, htickets, perm_numbers_settleRequests d, h.responses,
    hreplies ▸ List.suffix_refl _⟩

variable [Store σ]

theorem keeps_stepTasks (d : Daemon σ) : Keeps d d.stepTasks := by
  have h := advances_stepTasks d
  have hempty : Keeps d { d with tasks := [] } :=
    ⟨rfl, rfl, rfl, rfl, .refl _, List.suffix_refl _, List.suffix_refl _⟩
  exact hempty.trans (h.toExtends.keeps h.tickets)

theorem keeps_moment (d : Daemon σ) : Keeps d d.moment := by
  obtain ⟨d', hx, ht, hm⟩ := exists_moment d
  have hstep := keeps_stepTasks d
  rw [hm]
  exact (hstep.trans (hx.keeps (ht.trans hstep.tickets.symm))).trans (keeps_settleRequests d')

theorem keeps_catchUp (d : Daemon σ) : Keeps d d.catchUp := by
  rw [catchUp]
  split
  · exact keeps_moment d
  · exact .refl d

/-- What is left alone while what is due may happen. -/
theorem keeps_of_caughtUp {d₀ : Daemon σ} (h : d₀ = d ∨ d₀ = d.catchUp) : Keeps d d₀ := by
  rcases h with rfl | rfl
  · exact .refl d₀
  · exact keeps_catchUp d

/-! ### Requests that come -/

/-- A request is answered at once, or is settled with those that are open. Before that, what is due
may happen, and the engine may have its turn. -/
theorem carryOut_cases (d : Daemon σ) (number : Nat) (method : Method) (route : Route) :
    (∃ x, d.carryOut number method route = d.respond number x) ∨
    ∃ d₀ d₁ o, (d₀ = d ∨ d₀ = d.catchUp) ∧ Extends d₀ d₁ ∧ o.number = number ∧
      d.carryOut number method route = (d₁.keepOpen o).settleRequests := by
  rw [carryOut]
  cases route.plan d.published with
  | respond r => exact .inl ⟨_, rfl⟩
  | command c => exact .inr ⟨_, _, _, .inr rfl, extends_happen _ (.command c), rfl, rfl⟩
  | act device action =>
    have hcall : Extends d
        { d with calls := d.network.actCall d.now device.connectionAddress action :: d.calls } :=
      ⟨rfl, List.prefix_refl _, List.suffix_refl _⟩
    exact .inr ⟨d, _, ⟨number, route, _⟩, .inl rfl, hcall, rfl, rfl⟩

/-- What was replied and answered stays. -/
structure Later (d d' : Daemon σ) : Prop where
  responses : d.responses <:+ d'.responses
  replies : d.system.replies <:+ d'.system.replies

omit [Store σ] in
theorem Later.refl (d : Daemon σ) : Later d d :=
  ⟨List.suffix_refl _, List.suffix_refl _⟩

omit [Store σ] in
theorem Later.trans (h : Later d d') (h' : Later d' d'') : Later d d'' :=
  ⟨h.responses.trans h'.responses, h.replies.trans h'.replies⟩

omit [Store σ] in
theorem Keeps.later (h : Keeps d d') : Later d d' :=
  ⟨h.responses, h.replies⟩

/-- What a request that is taken up leaves alone; its own number is open or answered then. -/
theorem carryOut_keeps (d : Daemon σ) (number : Nat) (method : Method) (route : Route) :
    Later d (d.carryOut number method route) ∧
      (d.carryOut number method route).requests = d.requests ∧
      (d.carryOut number method route).numbers.Perm (number :: d.numbers) := by
  rcases carryOut_cases d number method route with ⟨x, h⟩ | ⟨d₀, d₁, o, h₀, hx, rfl, h⟩
  · rw [h]
    exact ⟨⟨List.suffix_cons _ _, List.suffix_refl _⟩, rfl, perm_numbers_respond d number x⟩
  · have hkeeps := keeps_of_caughtUp h₀
    have hopen : Later d₁ (d₁.keepOpen o) := ⟨List.suffix_refl _, List.suffix_refl _⟩
    have hmid : Later d₀ d₁ := ⟨hx.responses ▸ List.suffix_refl _, hx.replies⟩
    have hsettle := keeps_settleRequests (d₁.keepOpen o)
    rw [h]
    refine ⟨((hkeeps.later.trans hmid).trans hopen).trans hsettle.later, ?_, ?_⟩
    · exact hsettle.requests.trans (hx.requests.trans hkeeps.requests)
    · refine hsettle.numbers.trans ((perm_numbers_keepOpen d₁ o).trans ?_)
      rw [hx.numbers]
      exact hkeeps.numbers.cons _

/-- The next number is that of the request. -/
theorem request_keeps (d : Daemon σ) (r : Request) :
    Later d (d.request r) ∧ (d.request r).requests = d.requests + 1 ∧
      (d.request r).numbers.Perm (d.requests :: d.numbers) := by
  rw [request]
  cases Route.ofRequest r with
  | error rejection =>
    exact ⟨⟨List.suffix_cons _ _, List.suffix_refl _⟩, rfl, perm_numbers_respond _ _ _⟩
  | ok route =>
    obtain ⟨hlater, hrequests, hnumbers⟩ :=
      carryOut_keeps { d with requests := d.requests + 1 } d.requests r.method route
    exact ⟨⟨hlater.responses, hlater.replies⟩, hrequests, hnumbers⟩

/-! ### Runs -/

/-- Every request that came is open or answered, and in all this is so once. -/
def Numbered (d : Daemon σ) : Prop :=
  d.numbers.Perm (List.range d.requests)

omit [Store σ] in
theorem Numbered.of_keeps (h : Numbered d) (hk : Keeps d d') : Numbered d' := by
  rw [Numbered, hk.requests]
  exact hk.numbers.trans h

theorem Numbered.move (h : Numbered d) (m : Move) : Numbered (d.move m) := by
  cases m with
  | request r =>
    obtain ⟨-, hrequests, hnumbers⟩ := request_keeps d r
    rw [Daemon.move, Numbered, hrequests, List.range_succ]
    exact hnumbers.trans ((h.cons _).trans (List.perm_append_singleton _ _).symm)
  | proceed =>
    have hwait : Numbered { d with now := max d.now d.nextMoment } := h
    exact hwait.of_keeps (keeps_moment _)
  | wait time => exact h
  | stop => exact h
  | rewire network => exact h

theorem later_move (d : Daemon σ) (m : Move) : Later d (d.move m) := by
  cases m with
  | request r => exact (request_keeps d r).1
  | proceed =>
    have h := keeps_moment { d with now := max d.now d.nextMoment }
    exact ⟨h.responses, h.replies⟩
  | stop => exact ⟨List.suffix_refl _, System.replies_suffix_turn d.system .stop⟩
  | wait time => exact ⟨List.suffix_refl _, List.suffix_refl _⟩
  | rewire network => exact ⟨List.suffix_refl _, List.suffix_refl _⟩

variable {W : Network → Prop} {ms : List Move}

theorem Run.later (h : Run W d ms d') : Later d d' := by
  induction h with
  | refl => exact .refl d
  | move _ _ ih => exact ih.trans (later_move _ _)

theorem Numbered.run (h : Numbered d) (hrun : Run W d ms d') : Numbered d' := by
  induction hrun with
  | refl => exact h
  | move _ _ ih => exact ih.move _

theorem numbered_launch (config : Config) (store : σ) (network : Network) :
    Numbered (launch config store network) := by
  let started := System.started config store
  have hx : Extends { system := started, network, begun := started.launched }
      (launch config store network) :=
    (advances_beginJobs { system := started, network }).toExtends
  rw [Numbered, hx.numbers, hx.requests]
  exact .refl _

/-- No request is lost, and none is answered twice. -/
theorem Run.numbered {config : Config} {store : σ} {network : Network}
    (h : Run W (launch config store network) ms d) : Numbered d :=
  (numbered_launch config store network).run h

omit [Store σ] in
theorem mem_of_responseTo? {number : Nat} {x : Response} (h : d.responseTo? number = some x) :
    (number, x) ∈ d.responses := by
  obtain ⟨front, back, hsplit, -⟩ := List.lookup_eq_some_iff.mp h
  rw [hsplit]
  exact List.mem_append_right _ List.mem_cons_self

omit [Store σ] in
theorem Numbered.eq_of_mem (h : Numbered d) {number : Nat} {x y : Response}
    (hx : (number, x) ∈ d.responses) (hy : (number, y) ∈ d.responses) : x = y := by
  have hn : (d.responses.map (·.1)).Nodup :=
    (List.nodup_append.mp (h.nodup_iff.mpr List.nodup_range)).2.1
  exact congrArg Prod.snd (List.inj_on_of_nodup_map hn hx hy rfl)

end MinerFleet.Daemon
