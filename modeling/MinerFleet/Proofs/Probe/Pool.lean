/-
What a pool of workers keeps.

* `Pool.targets` — all targets of a pool: those that wait, those that are being worked on, and
  those that are settled;
* `Pool.Holds` — every outcome in a pool is one that its target can have.

A moment moves targets on but loses none and asks none twice (`perm_step`), and what it takes up
has outcomes of the work (`holds_step`). It leaves nothing that is due (`lt_ends_step`). A pool
that is done has settled the targets that it started with (`perm_settled`).
-/
import MinerFleet.Probe.Pool

namespace MinerFleet.Pool

variable {τ ο : Type}

/-- The targets of a pool, wherever they are. -/
def targets (p : Pool τ ο) : List τ :=
  p.waiting ++ p.running.map (·.target) ++ p.settledLast.map (·.1)

/-- Every outcome is one that its target can have. -/
structure Holds (Q : τ → ο → Prop) (p : Pool τ ο) : Prop where
  running : ∀ r ∈ p.running, Q r.target r.outcome
  settled : ∀ s ∈ p.settledLast, Q s.1 s.2

theorem targets_start (limit : Nat) (ts : List τ) : (start limit ts : Pool τ ο).targets = ts := by
  simp [start, targets]

theorem holds_start (Q : τ → ο → Prop) (limit : Nat) (ts : List τ) :
    (start limit ts : Pool τ ο).Holds Q := by
  constructor
  · intro r hr
    exact absurd hr List.not_mem_nil
  · intro s hs
    exact absurd hs List.not_mem_nil

/-! ### Settling -/

theorem perm_settle (p : Pool τ ο) (now : Nat) : (p.settle now).targets.Perm p.targets := by
  have hcompl : (fun r : Running τ ο => !decide (r.ends ≤ now)) =
      fun r => decide (now < r.ends) := by
    funext r
    rw [← decide_not]
    simp only [Nat.not_le]
  have hsplit := List.filter_append_perm (fun r : Running τ ο => decide (r.ends ≤ now)) p.running
  rw [hcompl] at hsplit
  have hrunning := hsplit.map (·.target)
  rw [List.map_append] at hrunning
  simp only [targets, settle, List.map_append, List.map_reverse, List.map_map]
  rw [List.append_assoc, List.append_assoc]
  refine List.Perm.append_left p.waiting ?_
  rw [← List.append_assoc]
  refine List.Perm.append_right _ (List.Perm.trans ?_ hrunning)
  exact List.perm_append_comm.trans ((List.reverse_perm _).append_right _)

theorem holds_settle {Q : τ → ο → Prop} {p : Pool τ ο} (h : p.Holds Q) (now : Nat) :
    (p.settle now).Holds Q := by
  constructor
  · intro r hr
    exact h.running r ((List.mem_filter.mp hr).1)
  · intro s hs
    rcases List.mem_append.mp hs with hs | hs
    · obtain ⟨r, hr, rfl⟩ := List.mem_map.mp (List.mem_reverse.mp hs)
      exact h.running r ((List.mem_filter.mp hr).1)
    · exact h.settled s hs

/-! ### Taking up -/

theorem perm_takeUpFrom (now : Nat) (work : τ → Nat × ο) (p : Pool τ ο) (ts : List τ) :
    (takeUpFrom now work p ts).1.targets.Perm
      (ts ++ p.running.map (·.target) ++ p.settledLast.map (·.1)) := by
  induction ts generalizing p with
  | nil => exact List.Perm.refl _
  | cons t ts ih =>
    rw [takeUpFrom]
    by_cases hroom : p.running.length < p.limit
    · rw [if_pos hroom]
      refine (ih _).trans ?_
      by_cases htime : (work t).1 = 0
      · simp only [if_pos htime, List.map_cons]
        exact List.perm_middle
      · simp only [if_neg htime, List.map_append, List.map_cons, List.map_nil]
        rw [← List.append_assoc, List.append_assoc _ [t], List.singleton_append]
        exact List.perm_middle
    · rw [if_neg hroom]
      exact List.Perm.refl _

theorem holds_takeUpFrom {Q : τ → ο → Prop} {now : Nat} {work : τ → Nat × ο} {p : Pool τ ο}
    (hw : ∀ t, Q t (work t).2) (h : p.Holds Q) (ts : List τ) :
    (takeUpFrom now work p ts).1.Holds Q := by
  induction ts generalizing p with
  | nil => exact ⟨h.running, h.settled⟩
  | cons t ts ih =>
    rw [takeUpFrom]
    by_cases hroom : p.running.length < p.limit
    · rw [if_pos hroom]
      refine ih ?_
      by_cases htime : (work t).1 = 0
      · simp only [if_pos htime]
        refine ⟨h.running, fun s hs => ?_⟩
        rcases List.mem_cons.mp hs with rfl | hs
        · exact hw t
        · exact h.settled s hs
      · simp only [if_neg htime]
        refine ⟨fun r hr => ?_, h.settled⟩
        rcases List.mem_append.mp hr with hr | hr
        · exact h.running r hr
        · rw [List.mem_singleton.mp hr]
          exact hw t
    · rw [if_neg hroom]
      exact ⟨h.running, h.settled⟩

theorem lt_ends_takeUpFrom {now : Nat} {work : τ → Nat × ο} {p : Pool τ ο}
    (h : ∀ r ∈ p.running, now < r.ends) (ts : List τ) :
    ∀ r ∈ (takeUpFrom now work p ts).1.running, now < r.ends := by
  induction ts generalizing p with
  | nil => exact h
  | cons t ts ih =>
    rw [takeUpFrom]
    by_cases hroom : p.running.length < p.limit
    · rw [if_pos hroom]
      refine ih ?_
      by_cases htime : (work t).1 = 0
      · simp only [if_pos htime]
        exact h
      · simp only [if_neg htime]
        intro r hr
        rcases List.mem_append.mp hr with hr | hr
        · exact h r hr
        · rw [List.mem_singleton.mp hr]
          exact Nat.lt_add_of_pos_right (Nat.pos_of_ne_zero htime)
    · rw [if_neg hroom]
      exact h

/-! ### Moments -/

/-- A moment neither loses a target nor asks one twice. -/
theorem perm_step (p : Pool τ ο) (now : Nat) (work : τ → Nat × ο) :
    (p.step now work).1.targets.Perm p.targets :=
  (perm_takeUpFrom now work (p.settle now) _).trans (perm_settle p now)

theorem holds_step {Q : τ → ο → Prop} {work : τ → Nat × ο} {p : Pool τ ο}
    (hw : ∀ t, Q t (work t).2) (h : p.Holds Q) (now : Nat) : (p.step now work).1.Holds Q :=
  holds_takeUpFrom hw (holds_settle h now) _

/-- What is still being worked on after a moment ends later. -/
theorem lt_ends_step (p : Pool τ ο) (now : Nat) (work : τ → Nat × ο) :
    ∀ r ∈ (p.step now work).1.running, now < r.ends :=
  lt_ends_takeUpFrom (fun _ hr => by simpa using (List.mem_filter.mp hr).2) _

theorem lt_of_nextEnd?_step {p : Pool τ ο} {now e : Nat} {work : τ → Nat × ο}
    (h : (p.step now work).1.nextEnd? = some e) : now < e := by
  obtain ⟨r, hr, rfl⟩ := List.mem_map.mp (List.min?_mem h)
  exact lt_ends_step p now work r hr

/-- A pool that is done has settled all its targets. -/
theorem perm_settled {p : Pool τ ο} (h : p.isDone = true) :
    (p.settled.map (·.1)).Perm p.targets := by
  rw [isDone, Bool.and_eq_true, List.isEmpty_iff, List.isEmpty_iff] at h
  rw [targets, h.1, h.2, settled]
  exact (List.reverse_perm _).map _

theorem mem_settled {p : Pool τ ο} {s : τ × ο} : s ∈ p.settled ↔ s ∈ p.settledLast := by
  rw [settled, List.mem_reverse]

end MinerFleet.Pool
