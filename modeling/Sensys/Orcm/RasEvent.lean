/-
# RAS events

`orcm_ras_event_t` of `orcm/mca/dispatch/dispatch_types.h`, which the analytics plugins create and
the dispatch framework hands on, and the values in its three lists.

Types and severities are `int`s: a component may have types of its own.  The data of a value is a
union.  It is a text, an unsigned number, a time, or something else (`τ`); the code that reads a
text out of a value that has none has no meaning here.
-/
import Sensys.Orcm.Analytics

namespace Sensys.Orcm

open CString Analytics

/-- The data of an `opal_value_t`.  A text may be `NULL`. -/
inductive EventData (τ : Type) where
  | string (text : Option Str)
  | uint (n : UInt32)
  | timeval (tv : Timeval)
  | other (data : τ)
  deriving DecidableEq, Repr

/-- An `orcm_value_t` in a list of an event. -/
structure EventValue (τ : Type) where
  key : Option Str
  data : EventData τ
  units : Option Str
  deriving DecidableEq, Repr

/-- `orcm_ras_event_t`. -/
structure RasEvent (τ : Type) where
  reporter : List (EventValue τ)
  type : ℤ
  timestamp : ℤ
  severity : ℤ
  description : List (EventValue τ)
  data : List (EventValue τ)
  deriving DecidableEq, Repr

/-- `data.string`, where the data is a text. -/
def EventData.string? {τ : Type} : EventData τ → Option (Option Str)
  | .string text => some text
  | _ => none

/-! `ORCM_RAS_SEVERITY_*` and `ORCM_RAS_EVENT_*`. -/

def rasSeverityEmerg : ℤ := 0
def rasSeverityUnknown : ℤ := 8

def rasEventSensor : ℤ := 0
def rasEventException : ℤ := 1
def rasEventChassisIdLed : ℤ := 4

end Sensys.Orcm
