/-
# Argument vectors

The functions of `opal/util/argv.c` that the other models use.  A `NULL`-terminated array of
strings is the list of its strings; `NULL` itself and the array without strings are both `[]`.
-/
import Sensys.Constants
import Sensys.Lib.CString
import Sensys.Lib.Worklist

namespace Sensys.Opal

/-- `opal_argv_count`. -/
def argvCount (argv : List Str) : ℤ := argv.length

/-- `opal_argv_append_nosize`. -/
def argvAppendNosize (argv : List Str) (arg : Str) : List Str := argv ++ [arg]

/-- `opal_argv_append_unique_nosize`.  Overwriting replaces an element by an equal one. -/
def argvAppendUniqueNosize (argv : List Str) (arg : Str) : List Str :=
  if arg ∈ argv then argv else argvAppendNosize argv arg

/-- `opal_argv_delete`: the return code, `*argc` and the array. -/
def argvDelete (argc : ℤ) (argv : List Str) (start numToDelete : ℤ) : Rc × ℤ × List Str :=
  if numToDelete = 0 then (.success, argc, argv)
  else if start > argvCount argv then (.success, argc, argv)
  else if start < 0 ∨ numToDelete < 0 then (.errBadParam, argc, argv)
  else
    (.success, argc - numToDelete,
      argv.take start.toNat ++ argv.drop (start.toNat + numToDelete.toNat))

theorem argvAppendUniqueNosize_eq : argvAppendUniqueNosize = Worklist.appendUnique := by
  funext argv arg
  by_cases h : arg ∈ argv <;>
    simp [argvAppendUniqueNosize, argvAppendNosize, Worklist.appendUnique, h]

/-- Deleting the first element also lowers the caller's count. -/
theorem argvDelete_first (argc argv) :
    argvDelete argc argv 0 1 = (.success, argc - 1, argv.tail) := by
  have hcount : ¬ (0 > argvCount argv) := by
    rw [argvCount]
    omega
  simp [argvDelete, hcount]

end Sensys.Opal
