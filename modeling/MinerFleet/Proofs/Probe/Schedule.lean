/-
When a pool works on what.

* `Pool.Runs` — the moments of a pool follow each other until nothing is worked on;
* `Pool.busyAt`, `workedOnAt` — how much of some work goes on at a moment;
* `Pool.Schedule` — how a pool goes on from a moment at which it may have been working for long;
* `Pool.Orderly` — how it goes from the beginning.

A moment settles and takes up as much as it can (`takenUp_takeUpFrom`), and what it takes up counts
as much from then on as what was running before (`busyAt_step`). So a moment goes in front of a
schedule (`schedule_of_runs`), and a pool that starts with nothing is orderly (`orderly_of_runs`):
it works in the order of its targets, never on more than it may, on less only when nothing waits,
and until all is settled.
-/
import Mathlib.Data.List.Induction
import MinerFleet.Proofs.Probe.Pool

namespace MinerFleet.Pool

variable {τ ο : Type}

/-! ### Taking up -/

/-- What taking up makes of a pool in which `ts` waits. -/
structure TakenUp (now : Nat) (work : τ → Nat × ο) (p : Pool τ ο) (ts : List τ) (q : Pool τ ο)
    (taken : List τ) : Prop where
  waiting : ts = taken ++ q.waiting
  running : q.running = p.running ++
    (taken.filter fun t => 0 < (work t).1).map fun t => ⟨t, now + (work t).1, (work t).2⟩
  limit : q.limit = p.limit
  /-- Whatever was taken up, there was room for it. -/
  room : ∀ earlier t later, taken = earlier ++ t :: later →
    p.running.length + earlier.countP (fun t => 0 < (work t).1) < p.limit
  /-- It stops where nothing waits or there is no room. -/
  full : q.waiting = [] ∨ p.limit ≤ q.running.length
  settled : p.settledLast.length ≤ q.settledLast.length

theorem takenUp_takeUpFrom (now : Nat) (work : τ → Nat × ο) (p : Pool τ ο) (ts : List τ) :
    TakenUp now work p ts (takeUpFrom now work p ts).1 (takeUpFrom now work p ts).2 := by
  induction ts generalizing p with
  | nil =>
    refine ⟨rfl, (List.append_nil _).symm, rfl, ?_, .inl rfl, Nat.le_refl _⟩
    intro earlier t later h
    exact absurd h (by simp [takeUpFrom])
  | cons t ts ih =>
    rw [takeUpFrom]
    by_cases hroom : p.running.length < p.limit
    · rw [if_pos hroom]
      by_cases htime : (work t).1 = 0
      · -- What takes no time is settled at once and leaves its room.
        have h := ih { p with settledLast := (t, (work t).2) :: p.settledLast }
        simp only [if_pos htime]
        refine ⟨congrArg (t :: ·) h.waiting, ?_, h.limit, ?_, h.full, ?_⟩
        · rw [h.running, List.filter_cons_of_neg (by simp [htime])]
        · intro earlier t' later he
          cases earlier with
          | nil => simpa using hroom
          | cons x earlier =>
            obtain ⟨rfl, htail⟩ := List.cons.inj he
            have := h.room earlier t' later htail
            rwa [List.countP_cons_of_neg (by simp [htime])]
        · exact Nat.le_of_succ_le h.settled
      · have h := ih { p with running := p.running ++ [⟨t, now + (work t).1, (work t).2⟩] }
        have hpos : 0 < (work t).1 := Nat.pos_of_ne_zero htime
        simp only [if_neg htime]
        refine ⟨congrArg (t :: ·) h.waiting, ?_, h.limit, ?_, h.full, h.settled⟩
        · rw [h.running, List.filter_cons_of_pos (by simpa using hpos), List.map_cons,
            List.append_assoc, List.singleton_append]
        · intro earlier t' later he
          cases earlier with
          | nil => simpa using hroom
          | cons x earlier =>
            obtain ⟨rfl, htail⟩ := List.cons.inj he
            have hlt := h.room earlier t' later htail
            rw [List.countP_cons_of_pos (by simpa using hpos)]
            simp only [List.length_append, List.length_singleton] at hlt
            omega
    · rw [if_neg hroom]
      refine ⟨rfl, (List.append_nil _).symm, rfl, ?_, .inr (Nat.not_lt.mp hroom), Nat.le_refl _⟩
      intro earlier t' later h
      exact absurd h (by simp)

/-! ### Moments -/

/-- How much is being worked on that still goes on at a moment. -/
def busyAt (p : Pool τ ο) (now : Nat) : Nat :=
  p.running.countP fun r => now < r.ends

/-- How much is worked on at a moment, of what was taken up at some moments. -/
def workedOnAt (work : τ → Nat × ο) (begun : List (Nat × τ)) (now : Nat) : Nat :=
  begun.countP fun b => b.1 ≤ now ∧ now < b.1 + (work b.2).1

/-- What was taken up at one moment. -/
def begunAt (now : Nat) (taken : List τ) : List (Nat × τ) :=
  taken.map fun t => (now, t)

theorem map_fst_begunAt (now : Nat) (taken : List τ) :
    (begunAt now taken).map (·.1) = List.replicate taken.length now := by
  rw [begunAt, List.map_map]
  exact List.map_const'

theorem map_snd_begunAt (now : Nat) (taken : List τ) : (begunAt now taken).map (·.2) = taken := by
  simp [begunAt, Function.comp_def]

theorem workedOnAt_append (work : τ → Nat × ο) (before after : List (Nat × τ)) (now : Nat) :
    workedOnAt work (before ++ after) now =
      workedOnAt work before now + workedOnAt work after now :=
  List.countP_append

section

variable (p : Pool τ ο) (now : Nat) (work : τ → Nat × ο)

theorem takenUp_step :
    TakenUp now work (p.settle now) p.waiting (p.step now work).1 (p.step now work).2 :=
  takenUp_takeUpFrom now work (p.settle now) p.waiting

theorem workedOnAt_begunAt (taken : List τ) {later : Nat} (h : now ≤ later) :
    workedOnAt work (begunAt now taken) later =
      taken.countP fun t => later < now + (work t).1 := by
  rw [workedOnAt, begunAt, List.countP_map]
  refine List.countP_congr fun t _ => ?_
  simp [h]

/-- What a moment takes up counts as what was running before. -/
theorem busyAt_step {later : Nat} (h : now ≤ later) :
    (p.step now work).1.busyAt later =
      p.busyAt later + workedOnAt work (begunAt now (p.step now work).2) later := by
  rw [busyAt, (takenUp_step p now work).running, List.countP_append, workedOnAt_begunAt _ _ _ h,
    settle, busyAt, List.countP_filter, List.countP_map, List.countP_filter]
  congr 1
  · refine List.countP_congr fun r _ => ?_
    simp only [Bool.and_eq_true, decide_eq_true_eq]
    omega
  · refine List.countP_congr fun t _ => ?_
    simp only [Function.comp_apply, Bool.and_eq_true, decide_eq_true_eq]
    omega

theorem limit_step : (p.step now work).1.limit = p.limit :=
  (takenUp_step p now work).limit

/-- Whatever a moment takes up, there is room for it beside what was running before and what was
taken up before it. -/
theorem room_step {earlier later : List τ} {t : τ}
    (h : (p.step now work).2 = earlier ++ t :: later) :
    p.busyAt now + workedOnAt work (begunAt now earlier) now < p.limit := by
  have hroom := (takenUp_step p now work).room earlier t later h
  rw [workedOnAt_begunAt _ _ _ (Nat.le_refl now)]
  simpa [settle, busyAt, List.countP_eq_length_filter] using hroom

end

/-! ### Runs -/

/-- The moments of a pool follow each other, each when the next work ends, until nothing is worked
on: how many they are, the first one and the pool before it, the last one, what is taken up when,
and the pool at the end. -/
inductive Runs (work : τ → Nat × ο) :
    Nat → Nat → Pool τ ο → Nat → List (Nat × τ) → Pool τ ο → Prop
  | last {now : Nat} {p : Pool τ ο} (h : (p.step now work).1.nextEnd? = none) :
      Runs work 1 now p now (begunAt now (p.step now work).2) (p.step now work).1
  | next {moments now later ended : Nat} {p q : Pool τ ο} {begun : List (Nat × τ)}
      (h : (p.step now work).1.nextEnd? = some later)
      (hr : Runs work moments later (p.step now work).1 ended begun q) :
      Runs work (moments + 1) now p ended (begunAt now (p.step now work).2 ++ begun) q

variable {work : τ → Nat × ο} {moments now ended : Nat} {p q : Pool τ ο} {begun : List (Nat × τ)}

theorem Runs.runFrom_eq (h : Runs work moments now p ended begun q) {fuel : Nat}
    (hf : moments ≤ fuel) : runFrom work fuel now p = (ended, begun, q) := by
  induction h generalizing fuel with
  | last h =>
    obtain ⟨fuel, rfl⟩ := Nat.exists_eq_add_of_le' hf
    simp only [runFrom, h, begunAt]
  | next h _ ih =>
    obtain ⟨fuel, rfl⟩ := Nat.exists_eq_add_of_le' (Nat.le_trans (Nat.le_add_left 1 _) hf)
    have hrest := ih (Nat.le_of_succ_le_succ hf)
    simp only [runFrom, h, hrest, begunAt]

/-- How much is not settled yet. -/
def load (p : Pool τ ο) : Nat :=
  p.waiting.length + p.running.length

theorem load_step (p : Pool τ ο) (now : Nat) (work : τ → Nat × ο) :
    (p.step now work).1.load + p.running.countP (fun r => r.ends ≤ now) ≤ p.load := by
  have htargets := (p.perm_step now work).length_eq
  have hsettled := (takenUp_step p now work).settled
  simp only [targets, List.length_append, List.length_map] at htargets
  simp only [settle, List.length_append, List.length_reverse, List.length_map,
    ← List.countP_eq_length_filter] at hsettled
  simp only [load]
  omega

theorem nextEnd?_eq_none : p.nextEnd? = none ↔ p.running = [] := by
  rw [nextEnd?, List.min?_eq_none_iff, List.map_eq_nil_iff]

/-- What ends next is being worked on, and nothing ends before it. -/
theorem nextEnd?_eq_some {later : Nat} :
    p.nextEnd? = some later ↔
      (∃ r ∈ p.running, r.ends = later) ∧ ∀ r ∈ p.running, later ≤ r.ends := by
  rw [nextEnd?, List.min?_eq_some_iff]
  simp only [List.mem_map, forall_exists_index, and_imp, forall_apply_eq_imp_iff₂]

/-- Where something ends now, there are not more moments than there is work. -/
theorem exists_runs_of_due (work : τ → Nat × ο) (now : Nat) (p : Pool τ ο)
    (hdue : ∃ r ∈ p.running, r.ends ≤ now) :
    ∃ moments ended begun q, Runs work moments now p ended begun q ∧ moments ≤ p.load := by
  induction hload : p.load using Nat.strongRecOn generalizing now p with
  | ind n ih =>
    have hstep := load_step p now work
    have hsettled : 0 < p.running.countP fun r => r.ends ≤ now := by
      obtain ⟨r, hr, hend⟩ := hdue
      exact List.countP_pos_iff.mpr ⟨r, hr, by simpa using hend⟩
    cases hnext : (p.step now work).1.nextEnd? with
    | none => exact ⟨1, now, _, _, .last hnext, by omega⟩
    | some later =>
      obtain ⟨⟨r, hr, hend⟩, -⟩ := nextEnd?_eq_some.mp hnext
      obtain ⟨moments, ended, begun, q, hruns, hle⟩ :=
        ih _ (by omega) later _ ⟨r, hr, Nat.le_of_eq hend⟩ rfl
      exact ⟨moments + 1, ended, _, q, .next hnext hruns, by omega⟩

theorem exists_runs (work : τ → Nat × ο) (now : Nat) (p : Pool τ ο) :
    ∃ moments ended begun q, Runs work moments now p ended begun q ∧ moments ≤ p.load + 1 := by
  have hstep := load_step p now work
  cases hnext : (p.step now work).1.nextEnd? with
  | none => exact ⟨1, now, _, _, .last hnext, by omega⟩
  | some later =>
    obtain ⟨⟨r, hr, hend⟩, -⟩ := nextEnd?_eq_some.mp hnext
    obtain ⟨moments, ended, begun, q, hruns, hle⟩ :=
      exists_runs_of_due work later _ ⟨r, hr, Nat.le_of_eq hend⟩
    exact ⟨moments + 1, ended, _, q, .next hnext hruns, by omega⟩

/-- What a pool works through are its moments. -/
theorem runs_run (p : Pool τ ο) (now : Nat) (work : τ → Nat × ο) :
    ∃ moments, moments ≤ p.load + 1 ∧
      Runs work moments now p (p.run now work).1 (p.run now work).2.1 (p.run now work).2.2 := by
  obtain ⟨moments, ended, begun, q, hruns, hle⟩ := exists_runs work now p
  have hrun : p.run now work = (ended, begun, q) := hruns.runFrom_eq hle
  rw [hrun]
  exact ⟨moments, hle, hruns⟩

/-! ### Schedules -/

/-- How a pool goes on from a moment, with what it was working on before. -/
structure Schedule (work : τ → Nat × ο) (now : Nat) (p : Pool τ ο) (ended : Nat)
    (begun : List (Nat × τ)) : Prop where
  inOrder : begun.map (·.2) = p.waiting
  sorted : (now :: begun.map (·.1)).Pairwise (· ≤ ·)
  room : ∀ earlier b later, begun = earlier ++ b :: later →
    p.busyAt b.1 + workedOnAt work earlier b.1 < p.limit
  full : ∀ b ∈ begun, ∀ t, now ≤ t → t < b.1 →
    p.limit ≤ p.busyAt t + workedOnAt work begun t
  settledBy : now ≤ ended ∧ (∀ r ∈ p.running, r.ends ≤ ended) ∧
    ∀ b ∈ begun, b.1 + (work b.2).1 ≤ ended
  noLater : ended = now ∨ (∃ r ∈ p.running, r.ends = ended) ∨
    ∃ b ∈ begun, b.1 + (work b.2).1 = ended

theorem waiting_of_step (hpos : 0 < p.limit) (h : (p.step now work).1.running = []) :
    (p.step now work).1.waiting = [] := by
  rcases (takenUp_step p now work).full with hw | hfull
  · exact hw
  · rw [h] at hfull
    have : p.limit ≤ 0 := hfull
    omega

theorem mem_begunAt {taken : List τ} {b : Nat × τ} : b ∈ begunAt now taken ↔
    b.1 = now ∧ b.2 ∈ taken := by
  obtain ⟨t, x⟩ := b
  simp only [begunAt, List.mem_map, Prod.mk.injEq]
  constructor
  · rintro ⟨x, hx, rfl, rfl⟩
    exact ⟨rfl, hx⟩
  · rintro ⟨rfl, hx⟩
    exact ⟨x, hx, rfl, rfl⟩

theorem mem_running_step {r : Running τ ο} : r ∈ (p.step now work).1.running ↔
    (r ∈ p.running ∧ now < r.ends) ∨
      ∃ t ∈ (p.step now work).2, 0 < (work t).1 ∧ r = ⟨t, now + (work t).1, (work t).2⟩ := by
  rw [(takenUp_step p now work).running]
  simp only [settle, List.mem_append, List.mem_filter, List.mem_map, decide_eq_true_eq, and_assoc,
    eq_comm (a := r)]

theorem begunAt_eq_append {taken : List τ} {earlier later : List (Nat × τ)} {b : Nat × τ}
    (h : begunAt now taken = earlier ++ b :: later) :
    ∃ before after, taken = before ++ b.2 :: after ∧ earlier = begunAt now before ∧ b.1 = now := by
  obtain ⟨before, rest, htaken, hbefore, hrest⟩ := List.map_eq_append_iff.mp h
  obtain ⟨t, after, hcons, hb, -⟩ := List.map_eq_cons_iff.mp hrest
  refine ⟨before, after, ?_, hbefore.symm, ?_⟩
  · rw [htaken, hcons, ← hb]
  · rw [← hb]

/-- A pool whose last moment this is keeps to the schedule. -/
theorem schedule_last (hpos : 0 < p.limit) (h : (p.step now work).1.nextEnd? = none) :
    Schedule work now p now (begunAt now (p.step now work).2) := by
  have hrunning := nextEnd?_eq_none.mp h
  have hwaiting := waiting_of_step hpos hrunning
  have hended : ∀ r, r ∉ (p.step now work).1.running := by
    rw [hrunning]
    exact fun r => List.not_mem_nil
  constructor
  · rw [(takenUp_step p now work).waiting, hwaiting, List.append_nil, map_snd_begunAt]
  · rw [map_fst_begunAt]
    simp [List.pairwise_replicate, List.mem_replicate]
  · intro earlier b later he
    obtain ⟨before, after, htaken, rfl, hb⟩ := begunAt_eq_append he
    rw [hb]
    exact room_step p now work htaken
  · intro b hb t hle hlt
    have := (mem_begunAt.mp hb).1
    omega
  · refine ⟨Nat.le_refl now, fun r hr => ?_, fun b hb => ?_⟩
    · exact Nat.not_lt.mp fun hlt => hended r (mem_running_step.mpr (.inl ⟨hr, hlt⟩))
    · obtain ⟨hnow, hmem⟩ := mem_begunAt.mp hb
      have hzero : ¬ 0 < (work b.2).1 := fun hlt =>
        hended _ (mem_running_step.mpr (.inr ⟨b.2, hmem, hlt, rfl⟩))
      omega
  · exact .inl rfl

section

variable {later : Nat} (h : (p.step now work).1.nextEnd? = some later)
  (hs : Schedule work later (p.step now work).1 ended begun)
include hs

/-- What is taken up after a moment is so at the next moment or later. -/
theorem le_of_mem_begun {b : Nat × τ} (hb : b ∈ begun) : later ≤ b.1 :=
  (List.pairwise_cons.mp hs.sorted).1 _ (List.mem_map_of_mem hb)

include h

theorem sorted_next :
    (now :: (begunAt now (p.step now work).2 ++ begun).map (·.1)).Pairwise (· ≤ ·) := by
  have hnow : now < later := lt_of_nextEnd?_step h
  have hfirst : ∀ n ∈ List.replicate (p.step now work).2.length now, n = now :=
    fun n hn => List.eq_of_mem_replicate hn
  have hlater : ∀ n ∈ begun.map (·.1), later ≤ n := (List.pairwise_cons.mp hs.sorted).1
  rw [List.map_append, map_fst_begunAt, List.pairwise_cons, List.pairwise_append]
  refine ⟨fun n hn => ?_, by simp [List.pairwise_replicate], (List.pairwise_cons.mp hs.sorted).2,
    fun n hn m hm => ?_⟩
  · rcases List.mem_append.mp hn with hn | hn
    · exact Nat.le_of_eq (hfirst n hn).symm
    · have := hlater n hn
      omega
  · have := hlater m hm
    have := hfirst n hn
    omega

theorem room_next : ∀ earlier b rest,
    begunAt now (p.step now work).2 ++ begun = earlier ++ b :: rest →
      p.busyAt b.1 + workedOnAt work earlier b.1 < p.limit := by
  have hnow : now < later := lt_of_nextEnd?_step h
  -- What this moment took up counts as running at the later ones.
  have hafter : ∀ between b rest, begun = between ++ b :: rest →
      p.busyAt b.1 + workedOnAt work (begunAt now (p.step now work).2 ++ between) b.1 <
        p.limit := by
    intro between b rest hb
    have hroom := hs.room between b rest hb
    have hle : later ≤ b.1 := le_of_mem_begun hs (by rw [hb]; simp)
    rw [limit_step, busyAt_step p now work (by omega)] at hroom
    rw [workedOnAt_append]
    omega
  intro earlier b rest he
  rcases List.append_eq_append_iff.mp he with ⟨between, rfl, hb⟩ | ⟨between, ht, hb⟩
  · exact hafter between b rest hb
  · cases between with
    | nil =>
      rw [List.append_nil] at ht
      have hroom := hafter [] b rest hb.symm
      rwa [List.append_nil, ht] at hroom
    | cons b' between =>
      obtain ⟨rfl, -⟩ := List.cons.inj hb
      obtain ⟨before, after, htaken, rfl, hb⟩ := begunAt_eq_append ht
      rw [hb]
      exact room_step p now work htaken

theorem full_next : ∀ b ∈ begunAt now (p.step now work).2 ++ begun, ∀ t, now ≤ t → t < b.1 →
    p.limit ≤ p.busyAt t + workedOnAt work (begunAt now (p.step now work).2 ++ begun) t := by
  intro b hb t hle hlt
  rcases List.mem_append.mp hb with hb | hb
  · have := (mem_begunAt.mp hb).1
    omega
  · rw [workedOnAt_append]
    have hcount := busyAt_step p now work hle
    by_cases hbefore : t < later
    · -- Something waits until the next moment, and until then nothing ends.
      have hwaits : (p.step now work).1.waiting ≠ [] := by
        rw [← hs.inOrder]
        exact fun hnil => List.ne_nil_of_mem hb (List.map_eq_nil_iff.mp hnil)
      have hall : (p.step now work).1.busyAt t = (p.step now work).1.running.length := by
        refine List.countP_eq_length.mpr fun r hr => ?_
        have := (nextEnd?_eq_some.mp h).2 r hr
        exact decide_eq_true (by omega)
      have hfull : p.limit ≤ (p.step now work).1.running.length :=
        (takenUp_step p now work).full.resolve_left hwaits
      omega
    · have hfull := hs.full b hb t (by omega) hlt
      rw [limit_step] at hfull
      omega

theorem settledBy_next : now ≤ ended ∧ (∀ r ∈ p.running, r.ends ≤ ended) ∧
    ∀ b ∈ begunAt now (p.step now work).2 ++ begun, b.1 + (work b.2).1 ≤ ended := by
  have hnow : now < later := lt_of_nextEnd?_step h
  obtain ⟨hended, hrun, hwork⟩ := hs.settledBy
  refine ⟨by omega, fun r hr => ?_, fun b hb => ?_⟩
  · by_cases hlt : now < r.ends
    · exact hrun r (mem_running_step.mpr (.inl ⟨hr, hlt⟩))
    · omega
  · rcases List.mem_append.mp hb with hb | hb
    · obtain ⟨hbegun, hmem⟩ := mem_begunAt.mp hb
      by_cases hlt : 0 < (work b.2).1
      · rw [hbegun]
        exact hrun _ (mem_running_step.mpr (.inr ⟨b.2, hmem, hlt, rfl⟩))
      · omega
    · exact hwork b hb

/-- Something is being worked on until the next moment, and so the end is one of some work. -/
theorem noLater_next : (∃ r ∈ p.running, r.ends = ended) ∨
    ∃ b ∈ begunAt now (p.step now work).2 ++ begun, b.1 + (work b.2).1 = ended := by
  have hrunning : ∀ r ∈ (p.step now work).1.running, r.ends = ended →
      (∃ r ∈ p.running, r.ends = ended) ∨
        ∃ b ∈ begunAt now (p.step now work).2 ++ begun, b.1 + (work b.2).1 = ended := by
    intro r hr hend
    rcases mem_running_step.mp hr with ⟨hr, -⟩ | ⟨t, ht, -, rfl⟩
    · exact .inl ⟨r, hr, hend⟩
    · exact .inr ⟨(now, t), List.mem_append_left _ (mem_begunAt.mpr ⟨rfl, ht⟩), hend⟩
  rcases hs.noLater with rfl | ⟨r, hr, hend⟩ | ⟨b, hb, hend⟩
  · obtain ⟨r, hr, hend⟩ := (nextEnd?_eq_some.mp h).1
    exact hrunning r hr hend
  · exact hrunning r hr hend
  · exact .inr ⟨b, List.mem_append_right _ hb, hend⟩

/-- A pool keeps to the schedule if it does so from its next moment on. -/
theorem schedule_next : Schedule work now p ended (begunAt now (p.step now work).2 ++ begun) where
  inOrder := by
    rw [(takenUp_step p now work).waiting, List.map_append, hs.inOrder, map_snd_begunAt]
  sorted := sorted_next h hs
  room := room_next h hs
  full := full_next h hs
  settledBy := settledBy_next h hs
  noLater := .inr (noLater_next h hs)

end

theorem schedule_of_runs (h : Runs work moments now p ended begun q) (hpos : 0 < p.limit) :
    Schedule work now p ended begun := by
  induction h with
  | last h => exact schedule_last hpos h
  | @next moments now later ended p q begun h _ ih =>
    exact schedule_next h (ih (by rw [limit_step]; exact hpos))

/-! ### What has come of it -/

/-- At the end nothing waits and nothing is worked on. -/
theorem isDone_of_runs (h : Runs work moments now p ended begun q) (hpos : 0 < p.limit) :
    q.isDone = true := by
  induction h with
  | @last now p h =>
    have hrunning := nextEnd?_eq_none.mp h
    rw [isDone, hrunning, waiting_of_step hpos hrunning]
    rfl
  | next h _ ih => exact ih (by rw [limit_step]; exact hpos)

theorem perm_of_runs (h : Runs work moments now p ended begun q) :
    q.targets.Perm p.targets := by
  induction h with
  | @last now p h => exact p.perm_step now work
  | @next moments now later ended p q begun h _ ih => exact ih.trans (p.perm_step now work)

theorem holds_of_runs {Q : τ → ο → Prop} (h : Runs work moments now p ended begun q)
    (hw : ∀ t, Q t (work t).2) (hp : p.Holds Q) : q.Holds Q := by
  induction h with
  | last h => exact holds_step hw hp _
  | next h _ ih => exact ih (holds_step hw hp _)

theorem limit_start_pos (limit : Nat) (ts : List τ) : 0 < (start limit ts : Pool τ ο).limit :=
  Nat.lt_of_lt_of_le Nat.zero_lt_one (Nat.le_max_right _ _)

/-- At the end, each target has what comes of working on it. -/
theorem outcomes_of_runs {limit : Nat} {ts : List τ}
    (h : Runs work moments now (start limit ts) ended begun q) :
    q.settled.Perm (ts.map fun t => (t, (work t).2)) := by
  have hdone := isDone_of_runs h (limit_start_pos limit ts)
  have htargets := (perm_settled hdone).trans (perm_of_runs h)
  have hholds := holds_of_runs (Q := fun t o => o = (work t).2) h (fun _ => rfl)
    (holds_start _ limit ts)
  rw [targets_start] at htargets
  have hsettled : q.settled = (q.settled.map (·.1)).map fun t => (t, (work t).2) := by
    rw [List.map_map]
    refine (List.map_id _).symm.trans (List.map_congr_left fun s hs => ?_)
    exact Prod.ext rfl (hholds.settled s (mem_settled.mp hs))
  rw [hsettled]
  exact htargets.map _

/-! ### From the beginning -/

/-- How a pool works from the beginning: `begun` says what was taken up when, and `settled` what
has come of it when all is over. -/
structure Orderly (limit : Nat) (ts : List τ) (work : τ → Nat × ο) (now ended : Nat)
    (begun : List (Nat × τ)) (settled : List (τ × ο)) : Prop where
  /-- Each target is taken up once, in the order in which they wait. -/
  inOrder : begun.map (·.2) = ts
  sorted : (now :: begun.map (·.1)).Pairwise (· ≤ ·)
  /-- Never is more worked on than may be. -/
  bounded : ∀ t, workedOnAt work begun t ≤ limit
  /-- Nothing is taken up but where there is room, also if it takes no time. -/
  room : ∀ earlier b later, begun = earlier ++ b :: later → workedOnAt work earlier b.1 < limit
  /-- As long as something waits, as much is worked on as may be. -/
  full : ∀ b ∈ begun, ∀ t, now ≤ t → t < b.1 → workedOnAt work begun t = limit
  /-- It is over when the last work ends, and not later. -/
  settledBy : ∀ b ∈ begun, b.1 + (work b.2).1 ≤ ended
  noLater : ended = now ∨ ∃ b ∈ begun, b.1 + (work b.2).1 = ended
  /-- Each target has what comes of working on it, and has it once. -/
  outcomes : settled.Perm (ts.map fun t => (t, (work t).2))

/-- What is worked on has been taken up where there was room. -/
theorem workedOnAt_le {limit : Nat} (hsorted : (begun.map (·.1)).Pairwise (· ≤ ·))
    (hroom : ∀ earlier b later, begun = earlier ++ b :: later →
      workedOnAt work earlier b.1 < limit) (t : Nat) : workedOnAt work begun t ≤ limit := by
  induction begun using List.reverseRecOn with
  | nil => exact Nat.zero_le _
  | append_singleton begun b ih =>
    rw [List.map_append, List.pairwise_append] at hsorted
    obtain ⟨hsorted, -, hlast⟩ := hsorted
    have hrest := ih hsorted fun earlier b' later he =>
      hroom earlier b' (later ++ [b]) (by simp [he])
    rw [workedOnAt_append]
    by_cases hopen : b.1 ≤ t ∧ t < b.1 + (work b.2).1
    · -- What is worked on now was being worked on when the last was taken up.
      have hless : workedOnAt work begun t ≤ workedOnAt work begun b.1 := by
        refine List.countP_mono_left fun x hx hworked => ?_
        have hle : x.1 ≤ b.1 := hlast _ (List.mem_map_of_mem hx) _ (by simp)
        simp only [decide_eq_true_eq] at hworked ⊢
        omega
      have := hroom begun b [] rfl
      have hone : workedOnAt work [b] t = 1 := by simp [workedOnAt, hopen]
      omega
    · have hzero : workedOnAt work [b] t = 0 := by
        simpa [workedOnAt] using fun h => Nat.not_lt.mp fun hlt => hopen ⟨h, hlt⟩
      omega

/-- A pool that starts with nothing is orderly. -/
theorem orderly_of_runs {limit : Nat} {ts : List τ}
    (h : Runs work moments now (start limit ts) ended begun q) :
    Orderly (max limit 1) ts work now ended begun q.settled := by
  have hs := schedule_of_runs h (limit_start_pos limit ts)
  have hidle (t : Nat) : (start limit ts : Pool τ ο).busyAt t = 0 := rfl
  have hroom : ∀ earlier b later, begun = earlier ++ b :: later →
      workedOnAt work earlier b.1 < max limit 1 := by
    intro earlier b later he
    have := hs.room earlier b later he
    rwa [hidle, Nat.zero_add] at this
  have hbounded := workedOnAt_le (List.pairwise_cons.mp hs.sorted).2 hroom
  refine ⟨hs.inOrder, hs.sorted, hbounded, hroom, fun b hb t hle hlt => ?_, hs.settledBy.2.2, ?_,
    outcomes_of_runs h⟩
  · have hfull := hs.full b hb t hle hlt
    rw [hidle, Nat.zero_add] at hfull
    exact Nat.le_antisymm (hbounded t) hfull
  · rcases hs.noLater with hnow | ⟨r, hr, -⟩ | hlast
    · exact .inl hnow
    · exact absurd hr List.not_mem_nil
    · exact .inr hlast

/-- The third waits for the second, which ends before the first; the fourth takes no time, and the
fifth finds the same room. -/
example : ((start 2 [5, 3, 4, 0, 1]).run 0 fun t => (t, t)).2.1 =
    [(0, 5), (0, 3), (3, 4), (5, 0), (5, 1)] := by
  decide

end MinerFleet.Pool
