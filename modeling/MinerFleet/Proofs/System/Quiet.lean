/-
Systems up to what they have told.

* `System.quiet` — a system without what it has told;
* `System.After` — a system that a run of turns leads to, up to that.

Telling is no turn, and whoever tells something between the turns of a run changes nothing that is
known of it: `After` carries over what every run keeps track of.
-/
import MinerFleet.Proofs.System.Tickets

namespace MinerFleet.System

variable {σ : Type}

/-- A system without what it has told. -/
def quiet (s : System σ) : System σ :=
  { s with log := [] }

theorem eq_of_quiet {s s' : System σ} (h : s'.quiet = s.quiet) : s = { s' with log := s.log } := by
  have he : s = { s.quiet with log := s.log } := rfl
  rw [← h] at he
  exact he

theorem quiet_apply (s : System σ) (effect : Effect) :
    (s.apply effect).quiet = (s.quiet.apply effect).quiet := by
  cases effect <;> rfl

theorem quiet_foldl_apply (effects : List Effect) (s : System σ) :
    (effects.foldl apply s).quiet = (effects.foldl apply s.quiet).quiet := by
  induction effects generalizing s with
  | nil => rfl
  | cons effect effects ih => rw [List.foldl_cons, List.foldl_cons, ih, quiet_apply, ← ih]

/-- What is told changes nothing else. -/
theorem quiet_foldl_tell (log : List LogEvent) (s : System σ) :
    (log.foldl (fun s e => s.apply (.tell e)) s).quiet = s.quiet := by
  induction log generalizing s with
  | nil => rfl
  | cons e log ih =>
    rw [List.foldl_cons, ih]
    rfl

theorem possible_of_quiet {W : Network → Prop} {s s' : System σ} (h : s'.quiet = s.quiet)
    (t : Turn) : s'.Possible W t ↔ s.Possible W t := by
  rw [eq_of_quiet h]
  cases t <;> exact Iff.rfl

variable [Store σ]

theorem quiet_happen (s : System σ) (event : Event) :
    (s.happen event).quiet = (s.quiet.happen event).quiet :=
  quiet_foldl_apply _ _

/-- What a turn does does not depend on what was told. -/
theorem quiet_turn (s : System σ) (t : Turn) : (s.turn t).quiet = (s.quiet.turn t).quiet := by
  have hquiet : s.quiet.running = s.running := rfl
  cases t with
  | tick =>
    simp only [turn, tick, hquiet]
    cases s.running with
    | true => exact quiet_happen s .tick
    | false => rfl
  | command c =>
    simp only [turn, command, hquiet]
    cases s.running with
    | true =>
      exact quiet_happen { s with tickets := s.tickets + 1, running := true }
        (.command s.tickets c)
    | false => rfl
  | finish id result =>
    simp only [turn, finish, hquiet]
    cases s.running with
    | true =>
      exact quiet_happen { s with jobs := s.jobs.filter fun o => o.id ≠ id, running := true }
        (.finished result)
    | false => cases result <;> rfl
  | stop =>
    simp only [turn, stop, hquiet]
    cases s.running <;> rfl

variable {W : Network → Prop} {config : Config} {store : σ} {cs : List Command} {s : System σ}

/-- A system that a run of turns with the commands `cs` leads to, up to what it has told. -/
def After (W : Network → Prop) (config : Config) (store : σ) (cs : List Command) (s : System σ) :
    Prop :=
  ∃ ts s', Run W (started config store) ts s' ∧ asked ts = cs ∧ s'.quiet = s.quiet

namespace After

theorem of_quiet {s' : System σ} (h : After W config store cs s) (hq : s'.quiet = s.quiet) :
    After W config store cs s' := by
  obtain ⟨ts, t, hrun, hcs, he⟩ := h
  exact ⟨ts, t, hrun, hcs, he.trans hq.symm⟩

theorem turn (h : After W config store cs s) {t : Turn} (ht : s.Possible W t) :
    After W config store (cs ++ asked [t]) (s.turn t) := by
  obtain ⟨ts, s', hrun, hcs, he⟩ := h
  refine ⟨ts ++ [t], s'.turn t, hrun.turn ((possible_of_quiet he t).mpr ht), ?_, ?_⟩
  · rw [asked_append, hcs]
  · rw [quiet_turn, he, ← quiet_turn]

theorem tracked (h : After W config store cs s) : Tracked cs s := by
  obtain ⟨ts, s', hrun, rfl, he⟩ := h
  have ht := hrun.tracked
  rw [eq_of_quiet he]
  exact ⟨ht.tickets, ht.replies, ht.peers, ht.ids, ht.nodup, ht.published⟩

theorem guarded (h : After W config store cs s) : Guarded cs s := by
  obtain ⟨ts, s', hrun, rfl, he⟩ := h
  have hg := hrun.guarded
  rw [eq_of_quiet he]
  exact ⟨hg.present, hg.alternates⟩

theorem accounted (h : After W config store cs s) : Accounted s := by
  obtain ⟨ts, s', hrun, rfl, he⟩ := h
  have ha := hrun.accounted
  rw [eq_of_quiet he]
  exact ha

theorem suited (h : After W config store cs s) : Suited cs s := by
  obtain ⟨ts, s', hrun, rfl, he⟩ := h
  have hsuited := hrun.suited
  rw [eq_of_quiet he]
  exact hsuited

end After

end MinerFleet.System
