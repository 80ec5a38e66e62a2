/-
Stores: JSON values under keys, which outlive the program.

* `Store` — what a store can do: look up a key, and put a value under one;
* `load`, `save` — typed values; one that cannot be read counts as absent;
* `MemoryStore`, `ReadOnlyStore` — a store that forgets, and one that takes nothing.

A write that fails says so, and leaves the program's own state in charge.
-/
import MinerFleet.Log

namespace MinerFleet

/-- Values under keys. `put` gives the store after it, and the fault of a write that failed. -/
class Store (σ : Type) where
  get? : σ → String → Option Json
  put : σ → String → Json → σ × Option Fault

namespace Store

/-- The key of the list of miners. -/
def devicesKey : String := "swarm_data"

/-- The key of the seconds between two refreshes. -/
def intervalKey : String := "swarm_refresh_time"

/-- The key of the order of the fleet. -/
def sortKey : String := "swarm_sorting"

/-- The key of the view that people prefer. -/
def viewKey : String := "swarm_view"

variable {σ α : Type} [Store σ]

/-- The value under a key, if there is one and it can be read, and what to tell if it cannot. -/
def load (store : σ) (key : String) (d : Decoder α) : Option α × List LogEvent :=
  match get? store key with
  | none => (none, [])
  | some v =>
    match d (Document.ofJson v) with
    | .ok a => (some a, [])
    | .error e => (none, [.unreadableValue key e])

end Store

/-- A store that lasts as long as the program. -/
abbrev MemoryStore := KeyMap Json

instance : Store MemoryStore where
  get? := KeyMap.get?
  put m key v := (m.insert key v, none)

/-- A store that is only read: every write fails and changes nothing. -/
structure ReadOnlyStore where
  values : KeyMap Json

instance : Store ReadOnlyStore where
  get? s key := s.values.get? key
  put s _ _ := (s, some (.storage "read-only"))

end MinerFleet
