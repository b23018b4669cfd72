import Mathlib.Data.Rat.Defs

/-!
# Records shared by the cluster

Source: `distributed_cache/cluster/models.py`. Clock readings and lifetimes are seconds; the
floating-point numbers of the source are read as the rationals they denote, with exact
arithmetic.
-/

namespace DistributedCache

/-- A reading of `time.monotonic`, or a difference of two readings. -/
abbrev Time : Type := ℚ

/-- The successive readings of the clock inside one call: reading `i` is `clock i`. -/
abbrev Clock : Type := ℕ → Time

/-- The readings of a call after its first `n` ones. -/
def Clock.after (clock : Clock) (n : ℕ) : Clock := fun i => clock (n + i)

/-- A node and its address. The ring stores the same records (`NodeAddress`). -/
structure NodeConfig where
  nodeId : String
  host : String
  port : ℕ
  deriving DecidableEq, Repr

/-- The result of a write on one node. -/
structure OperationResult where
  ok : Bool
  statusCode : ℕ
  message : String
  deriving DecidableEq, Repr

end DistributedCache
