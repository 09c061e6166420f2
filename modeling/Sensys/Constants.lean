/-
# Return codes and integers

The codes of `opal/constants.h`, `orte/constants.h` and `orcm/constants.h` that the modelled
functions return.  `OPAL_SUCCESS`, `ORTE_SUCCESS` and `ORCM_SUCCESS` are the same value, and so
are the `ERROR`, `OUT_OF_RESOURCE`, `BAD_PARAM` and `NOT_FOUND` codes of the three layers.

A conversion to `int` or `int32_t` is the value modulo `2^32` that is nearest to zero.
-/
import Mathlib.Tactic.Ring

namespace Sensys

/-- A return code. -/
inductive Rc where
  | success
  | error
  | errOutOfResource
  | errBadParam
  | errNotFound
  | errNodeNotExist
  | errGroupNotExist
  | errNoAnyGroup
  | errUnpackReadPastEndOfBuffer
  | errPackMismatch
  | errUnpackFailure
  | errUnpackInadequateSpace
  | errUnknownDataType
  | errRecvMoreThanPosted
  | errSilent
  | errTimeout
  | errSensorLimitExceeded
  | errNotImplemented
  deriving DecidableEq, Repr

/-- The conversion to `int32_t`, which is also `int`. -/
def int32 (n : Int) : Int := n.bmod (2 ^ 32)

theorem int32_eq {n} (h : 0 ≤ n) (h' : n < 2 ^ 31) : int32 n = n := by
  rw [int32, Int.bmod_def]
  omega

end Sensys
