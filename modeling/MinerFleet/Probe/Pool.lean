/-
A pool of workers.

* `Pool` — what waits, what is being worked on, and what is settled;
* `Pool.settle` — work that has reached its end makes room;
* `Pool.takeUp` — what waits takes the room, in the order in which it waits;
* `Pool.step` — both at one moment;
* `Pool.run` — one moment after the other until all is settled.

Work that takes no time is settled as soon as it is taken up, before the next is.
-/

namespace MinerFleet

/-- Work that was taken up: when it ends, and what will have come of it. -/
structure Running (τ ο : Type) where
  target : τ
  ends : Nat
  outcome : ο

structure Pool (τ ο : Type) where
  /-- How many can be worked on at the same time. -/
  limit : Nat
  waiting : List τ
  running : List (Running τ ο) := []
  /-- What has come of the work, the latest first. -/
  settledLast : List (τ × ο) := []

namespace Pool

variable {τ ο : Type}

/-- The pool before the first is taken up; there is room for one at least. -/
def start (limit : Nat) (targets : List τ) : Pool τ ο :=
  { limit := max limit 1, waiting := targets }

/-- What has come of the work, in the order in which it was settled. -/
def settled (p : Pool τ ο) : List (τ × ο) :=
  p.settledLast.reverse

/-- Nothing waits and nothing is being worked on. -/
def isDone (p : Pool τ ο) : Bool :=
  p.waiting.isEmpty && p.running.isEmpty

/-- Settles the work that has reached its end, in the order in which it was taken up. -/
def settle (p : Pool τ ο) (now : Nat) : Pool τ ο :=
  let ended := p.running.filter fun r => r.ends ≤ now
  { p with
    running := p.running.filter fun r => now < r.ends
    settledLast := (ended.map fun r => (r.target, r.outcome)).reverse ++ p.settledLast }

/-- Takes up what waits while there is room, where `work` says how long something takes and what
will come of it. Gives what was taken up as well. -/
def takeUpFrom (now : Nat) (work : τ → Nat × ο) (p : Pool τ ο) : List τ → Pool τ ο × List τ
  | [] => ({ p with waiting := [] }, [])
  | t :: ts =>
    if p.running.length < p.limit then
      let (time, outcome) := work t
      let p :=
        if time = 0 then { p with settledLast := (t, outcome) :: p.settledLast }
        else { p with running := p.running ++ [⟨t, now + time, outcome⟩] }
      let (p, taken) := takeUpFrom now work p ts
      (p, t :: taken)
    else
      ({ p with waiting := t :: ts }, [])

def takeUp (p : Pool τ ο) (now : Nat) (work : τ → Nat × ο) : Pool τ ο × List τ :=
  takeUpFrom now work p p.waiting

/-- Settles what has ended and takes up what there is room for. -/
def step (p : Pool τ ο) (now : Nat) (work : τ → Nat × ο) : Pool τ ο × List τ :=
  (p.settle now).takeUp now work

/-- When the next work ends. -/
def nextEnd? (p : Pool τ ο) : Option Nat :=
  (p.running.map (·.ends)).min?

/-- Works through the moments at which something ends, `fuel` of them at most. Gives the moment at
which the last work ended, what was taken up when, and the pool at the end. -/
def runFrom (work : τ → Nat × ο) : Nat → Nat → Pool τ ο → Nat × List (Nat × τ) × Pool τ ο
  | 0, now, p => (now, [], p)
  | fuel + 1, now, p =>
    let (p, taken) := p.step now work
    let begun := taken.map fun t => (now, t)
    match p.nextEnd? with
    | none => (now, begun, p)
    | some next =>
      let (ended, more, p) := runFrom work fuel next p
      (ended, begun ++ more, p)

/-- Works until all is settled, from the moment `now` on. Each moment settles one at least. -/
def run (p : Pool τ ο) (now : Nat) (work : τ → Nat × ο) : Nat × List (Nat × τ) × Pool τ ο :=
  runFrom work (p.waiting.length + p.running.length + 1) now p

end Pool

end MinerFleet
