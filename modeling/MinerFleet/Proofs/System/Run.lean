/-
The runs of a system.

* `System.Run` — turns that follow each other, in whatever order;
* `System.Reachable` — a system that a run leads to from its start;
* `System.Tracked` — what every run keeps track of: the request with ticket `n` is command number
  `n` of the run, jobs have numbers of their own, and what is published is up to date.

`Run.tracked` says so of every run; `started_cases` says what there is before the first turn. What
every event keeps of an engine is so in every run (`Run.engine_keeps`). The turns of a run with the
systems to which they come are its `moments`, so that one can count those since the last of some
kind.
-/
import MinerFleet.Proofs.System.Turn

namespace MinerFleet.System

variable {σ : Type} [Store σ]

/-! ### Runs -/

/-- A system over a store whose engine has been started. -/
def started (config : Config) (store : σ) : System σ :=
  (System.make config store).start

/-- Turns that follow each other in any order, as far as they can come. -/
inductive Run (W : Network → Prop) (s : System σ) : List Turn → System σ → Prop
  | refl : Run W s [] s
  | turn {ts : List Turn} {s' : System σ} {t : Turn} (h : Run W s ts s') (ht : s'.Possible W t) :
      Run W s (ts ++ [t]) (s'.turn t)

/-- A system that a run leads to after its start. -/
def Reachable (W : Network → Prop) (config : Config) (store : σ) (s : System σ) : Prop :=
  ∃ ts, Run W (started config store) ts s

variable {W : Network → Prop}

/-! ### What a run keeps track of -/

/-- What every run keeps track of, after the commands `cs`. -/
structure Tracked (cs : List Command) (s : System σ) : Prop where
  /-- The next ticket is the number of commands. -/
  tickets : s.tickets = cs.length
  /-- Only what was asked is answered. -/
  replies : ∀ r ∈ s.replies, r.ticket < cs.length
  /-- A miner is being asked for a request to add one, by the name without blanks. -/
  peers : ∀ o ∈ s.jobs, ∀ name ticket, o.job = .peer name ticket →
    ∃ name', cs[ticket]? = some (.add name') ∧ Text.trim name' = name
  /-- Jobs have the numbers that were given out, and no two the same. -/
  ids : ∀ o ∈ s.jobs, o.id < s.launched
  nodup : (s.jobs.map (·.id)).Nodup
  /-- What is published is what the fleet looks like. -/
  published : s.published = s.engine.snapshot

theorem nodup_numbered (n : Nat) (jobs : List Job) : ((numbered n jobs).map (·.id)).Nodup := by
  induction jobs generalizing n with
  | nil => exact List.nodup_nil
  | cons job jobs ih =>
    rw [numbered, List.map_cons, List.nodup_cons]
    refine ⟨fun h => ?_, ih (n + 1)⟩
    obtain ⟨o, ho, he⟩ := List.mem_map.mp h
    have hlt := (mem_numbered ho).1
    have hn : o.id = n := he
    omega

omit [Store σ] in
/-- The ticket that a turn may answer is that of a command that was given, and if a job ends, of a
request to add a miner. -/
theorem Tracked.command_of_ticket? {cs : List Command} {s : System σ} (h : Tracked cs s) {t : Turn}
    (ht : s.Possible W t) {ticket : Nat} (hk : s.ticket? t = some ticket) :
    (∃ c, t = .command c ∧ (cs ++ asked [t])[ticket]? = some c) ∨
    ((∃ id result, t = .finish id result) ∧
      ∃ name, (cs ++ asked [t])[ticket]? = some (.add name)) := by
  cases t with
  | tick => cases hk
  | stop => cases hk
  | command c =>
    cases hk
    refine .inl ⟨c, rfl, ?_⟩
    rw [h.tickets, List.getElem?_append_right (Nat.le_refl _), Nat.sub_self]
    rfl
  | finish id result =>
    cases result with
    | discovered result => cases hk
    | refreshed report => cases hk
    | probed result ticket' =>
      cases hk
      obtain ⟨job, hj, hy⟩ := ht
      obtain ⟨name, rfl⟩ : ∃ name, job = .peer name ticket := hy.fits
      obtain ⟨name', hc, -⟩ := h.peers _ hj name ticket rfl
      refine .inr ⟨⟨_, _, rfl⟩, name', ?_⟩
      rw [List.getElem?_append_left (List.getElem?_eq_some_iff.mp hc).choose]
      exact hc

theorem Tracked.tickets_turn {cs : List Command} {s : System σ} (h : Tracked cs s) (t : Turn) :
    (s.turn t).tickets = (cs ++ asked [t]).length := by
  rw [System.tickets_turn, List.length_append, ← h.tickets]
  cases t <;> rfl

/-- What a turn answers is its own command, or the one that a miner was asked for. -/
theorem Tracked.replies_turn {cs : List Command} {s : System σ} (h : Tracked cs s) {t : Turn}
    (ht : s.Possible W t) : ∀ r ∈ (s.turn t).replies, r.ticket < (cs ++ asked [t]).length := by
  obtain ⟨new, hnew, hone, -⟩ := turn_fleet s t
  intro r hr
  rw [hnew] at hr
  rcases List.mem_append.mp hr with hr | hr
  · rcases hone with rfl | ⟨r', rfl, hk⟩
    · exact absurd hr List.not_mem_nil
    · rw [List.mem_singleton.mp hr]
      rcases h.command_of_ticket? ht hk with ⟨c, -, hc⟩ | ⟨-, name, hc⟩
      · exact (List.getElem?_eq_some_iff.mp hc).choose
      · exact (List.getElem?_eq_some_iff.mp hc).choose
  · have hlt := h.replies r hr
    rw [List.length_append]
    omega

/-- A question that is new was launched for the command of this turn. -/
theorem Tracked.peers_turn {cs : List Command} {s : System σ} (h : Tracked cs s) {t : Turn}
    (ht : s.Possible W t) : ∀ o ∈ (s.turn t).jobs, ∀ name ticket, o.job = .peer name ticket →
      ∃ name', (cs ++ asked [t])[ticket]? = some (.add name') ∧ Text.trim name' = name := by
  obtain ⟨jobs, hjobs, -, hlaunch⟩ := turn_jobs s t
  intro o ho name ticket hj
  rw [hjobs] at ho
  rcases List.mem_append.mp ho with ho | ho
  · obtain ⟨name', hc, hname⟩ := h.peers o ((before_jobs_sublist s t).subset ho) name ticket hj
    refine ⟨name', ?_, hname⟩
    rw [List.getElem?_append_left (List.getElem?_eq_some_iff.mp hc).choose]
    exact hc
  · obtain ⟨event, he, hl⟩ := hlaunch o.job (mem_numbered ho).2.2
    rw [hj] at hl
    obtain ⟨name', rfl, hname, -⟩ := Engine.eq_add_of_peer_mem_launches hl
    have hk : s.ticket? t = some ticket := by
      rw [← ticket?_of_event? he]
      rfl
    rcases h.command_of_ticket? ht hk with ⟨c, rfl, hc⟩ | ⟨⟨id, result, rfl⟩, -⟩
    · cases (event?_eq_some.mp he).2
      exact ⟨name', hc, hname⟩
    · cases (event?_eq_some.mp he).2

/-- New jobs have the numbers that come next, so that they share none with the others. -/
theorem Tracked.ids_turn {cs : List Command} {s : System σ} (h : Tracked cs s) (t : Turn) :
    (∀ o ∈ (s.turn t).jobs, o.id < (s.turn t).launched) ∧
      ((s.turn t).jobs.map (·.id)).Nodup := by
  obtain ⟨jobs, hjobs, hlaunched, -⟩ := turn_jobs s t
  have hsub := before_jobs_sublist s t
  have hold : ∀ o ∈ (s.before t).jobs, o.id < s.launched := fun o ho => h.ids o (hsub.subset ho)
  rw [hjobs, hlaunched]
  constructor
  · intro o ho
    rcases List.mem_append.mp ho with ho | ho
    · exact Nat.lt_of_lt_of_le (hold o ho) (Nat.le_add_right _ _)
    · exact (mem_numbered ho).2.1
  · rw [List.map_append, List.nodup_append]
    refine ⟨(hsub.map _).nodup h.nodup, nodup_numbered _ _, ?_⟩
    intro a ha b hb he
    obtain ⟨o, ho, rfl⟩ := List.mem_map.mp ha
    obtain ⟨o', ho', rfl⟩ := List.mem_map.mp hb
    have h1 := hold o ho
    have h2 := (mem_numbered ho').1
    omega

theorem Tracked.published_turn {cs : List Command} {s : System σ} (h : Tracked cs s) (t : Turn) :
    (s.turn t).published = (s.turn t).engine.snapshot := by
  rcases turn_cases s t with ⟨event, -, hs⟩ | ⟨-, hs⟩
  · rw [hs]
    exact happen_published _ _
  · rw [hs.published, hs.engine]
    exact h.published

theorem Tracked.turn {cs : List Command} {s : System σ} (h : Tracked cs s) {t : Turn}
    (ht : s.Possible W t) : Tracked (cs ++ asked [t]) (s.turn t) where
  tickets := h.tickets_turn t
  replies := h.replies_turn ht
  peers := h.peers_turn ht
  ids := (h.ids_turn t).1
  nodup := (h.ids_turn t).2
  published := h.published_turn t

/-! ### The start -/

/-- The miners that a store holds. -/
def stored (store : σ) : List Device :=
  (Store.load store Store.devicesKey (Decoder.list Device.decode)).1.getD []

theorem perm_made (config : Config) (store : σ) :
    (System.make config store).devices.Perm (stored store) :=
  SortSpec.perm_sort _ _

/-- The start answers nothing and leaves the fleet as it was stored, up to its order. -/
theorem started_cases (config : Config) (store : σ) :
    (started config store).replies = [] ∧ (started config store).devices.Perm (stored store) := by
  obtain ⟨new, hnew, hsaid⟩ := happen_replies (System.make config store) .start
  have hf := Engine.step_fleet (System.make config store).engine .start
  have hd : (started config store).devices =
      ((System.make config store).engine.step .start).1.registry.devices := by
    rw [started, System.start, devices, happen_engine]
  rw [← hd] at hf
  generalize answers ((System.make config store).engine.step .start).2 = replies at hf hsaid
  cases hf with
  | kept hp _ _ ha =>
    rcases ha with rfl | ⟨ticket, answer, ht, -⟩
    · refine ⟨?_, hp.trans (perm_made config store)⟩
      rw [started, System.start, hnew, List.map_eq_nil_iff.mp hsaid]
      rfl
    · cases ht

/-- What is under way from the start has been launched by it. -/
theorem jobs_started (config : Config) (store : σ) :
    (started config store).jobs =
      numbered 0 (launches ((System.make config store).engine.step .start).2) := by
  rw [started, System.start, happen_jobs]
  rfl

theorem tracked_started (config : Config) (store : σ) : Tracked [] (started config store) := by
  have hjobs := jobs_started config store
  have hlaunched : (started config store).launched =
      (launches ((System.make config store).engine.step .start).2).length := by
    rw [started, System.start, happen_launched]
    exact Nat.zero_add _
  constructor
  · rw [started, System.start, happen_tickets]
    rfl
  · intro r hr
    rw [(started_cases config store).1] at hr
    exact absurd hr List.not_mem_nil
  · intro o ho name ticket hj
    rw [hjobs] at ho
    have hm := (mem_numbered ho).2.2
    rw [hj] at hm
    obtain ⟨name', he, -⟩ := Engine.eq_add_of_peer_mem_launches hm
    cases he
  · intro o ho
    rw [hjobs] at ho
    rw [hlaunched]
    exact Nat.lt_of_lt_of_eq (mem_numbered ho).2.1 (Nat.zero_add _)
  · rw [hjobs]
    exact nodup_numbered _ _
  · exact happen_published _ _

/-- Every run is tracked. -/
theorem Run.tracked {config : Config} {store : σ} {s : System σ} {ts : List Turn}
    (h : Run W (started config store) ts s) : Tracked (asked ts) s := by
  induction h with
  | refl => exact tracked_started config store
  | turn _ ht ih =>
    rw [asked_append]
    exact ih.turn ht

/-! ### Engines in a run -/

/-- What the start and every event keep is so of the engine in every run. -/
theorem Run.engine_keeps {P : Engine σ → Prop} {config : Config} {store : σ}
    (hmake : P (Engine.make config store).1)
    (hstep : ∀ e event, P e → P (e.step event).1) {ts : List Turn} {s : System σ}
    (h : Run W (started config store) ts s) : P s.engine := by
  induction h with
  | refl =>
    rw [started, System.start, happen_engine]
    exact hstep _ .start hmake
  | @turn ts s t _ _ ih =>
    rcases turn_cases s t with ⟨event, -, hs⟩ | ⟨-, hs⟩
    · rw [hs, happen_engine, before_engine]
      exact hstep _ event ih
    · rw [hs.engine]
      exact ih

/-! ### Moments -/

theorem Run.trans {s s' s'' : System σ} {ts us : List Turn} (h : Run W s ts s')
    (h' : Run W s' us s'') : Run W s (ts ++ us) s'' := by
  induction h' with
  | refl =>
    rw [List.append_nil]
    exact h
  | turn _ ht ih =>
    rw [← List.append_assoc]
    exact ih.turn ht

/-- The turns with the systems to which they come, the first turn first. -/
def moments (s : System σ) : List Turn → List (System σ × Turn)
  | [] => []
  | t :: ts => (s, t) :: (s.turn t).moments ts

theorem moments_append (s : System σ) (ts us : List Turn) :
    s.moments (ts ++ us) = s.moments ts ++ (ts.foldl System.turn s).moments us := by
  induction ts generalizing s with
  | nil => rfl
  | cons t ts ih => exact congrArg ((s, t) :: ·) (ih (s.turn t))

theorem Run.eq_foldl {s s' : System σ} {ts : List Turn} (h : Run W s ts s') :
    s' = ts.foldl System.turn s := by
  induction h with
  | refl => rfl
  | turn _ _ ih => rw [List.foldl_append, ← ih, List.foldl_cons, List.foldl_nil]

/-- One more turn comes to the system that the run has led to. -/
theorem Run.moments_turn {s s' : System σ} {ts : List Turn} (h : Run W s ts s') (t : Turn) :
    s.moments (ts ++ [t]) = s.moments ts ++ [(s', t)] := by
  rw [moments_append, ← h.eq_foldl]
  rfl

/-- A turn comes on one network: a job that ends does so with what comes of it there. -/
def comesOn (net : Network) (s : System σ) : Turn → Bool
  | .finish id result => s.jobs.any fun o => o.id == id && (o.job.run net).2.2 == some result
  | _ => true

omit [Store σ] in
theorem possible_of_comesOn {net : Network} (hn : W net) {s : System σ} {t : Turn}
    (h : s.comesOn net t = true) : s.Possible W t := by
  cases t with
  | finish id result =>
    obtain ⟨⟨id', job⟩, hj, ho⟩ := List.any_eq_true.mp h
    rw [Bool.and_eq_true, beq_iff_eq, beq_iff_eq] at ho
    obtain ⟨rfl, hrun⟩ := ho
    exact possible_finish net job hj hrun hn
  | tick => trivial
  | command c => trivial
  | stop => trivial

/-- Turns that all come on one network are a run. -/
theorem run_of_comesOn (net : Network) (s : System σ) (ts : List Turn)
    (h : ((s.moments ts).all fun m => m.1.comesOn net m.2) = true) (hn : W net) :
    Run W s ts (ts.foldl System.turn s) := by
  induction ts generalizing s with
  | nil => exact .refl
  | cons t ts ih =>
    rw [moments, List.all_cons, Bool.and_eq_true] at h
    have hfirst : Run W s ([] ++ [t]) (s.turn t) := .turn .refl (possible_of_comesOn hn h.1)
    exact hfirst.trans (ih _ h.2)

end MinerFleet.System
