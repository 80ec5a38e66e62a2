/-
The small records that a daemon and its clients send each other.

* `AddRequest` — a miner is to be added;
* `Started` — whether a pass was started;
* `Complaint` — why something could not be done.
-/
import MinerFleet.Json.Decode

namespace MinerFleet.Api

/-- A record with one field. -/
def decodeSingle {α β : Type} (title name : String) (d : Decoder α) (make : α → β) :
    Decoder β := fun doc => do
  let shape : Shape := ⟨title, [.needed name d]⟩
  let fields ← shape.fields doc
  return make (← readField fields name d)

structure AddRequest where
  address : String
deriving DecidableEq

namespace AddRequest

def toJson (r : AddRequest) : Json :=
  .record [("address", .string r.address)]

def decode : Decoder AddRequest :=
  decodeSingle "struct AddDeviceRequest" "address" Decoder.text AddRequest.mk

end AddRequest

structure Started where
  started : Bool
deriving DecidableEq

namespace Started

def toJson (r : Started) : Json :=
  .record [("started", .bool r.started)]

def decode : Decoder Started :=
  decodeSingle "struct ScanResponse" "started" Decoder.bool Started.mk

end Started

structure Complaint where
  error : String
deriving DecidableEq

namespace Complaint

def toJson (r : Complaint) : Json :=
  .record [("error", .string r.error)]

def decode : Decoder Complaint :=
  decodeSingle "struct ErrorResponse" "error" Decoder.text Complaint.mk

end Complaint

end MinerFleet.Api
