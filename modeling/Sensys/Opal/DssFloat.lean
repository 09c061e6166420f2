/-
# Floating point numbers

`opal_dss_pack_float` and `opal_dss_pack_double` send a number as the text that `"%f"` prints.
Printing and `strtof` or `strtod` belong to the C library; a `FloatText` is any pair of such
functions whose texts are C strings of a length that fits.

What arrives is what the text is read as (`lossless_float`).
-/
import Sensys.Opal.DssFormat

namespace Sensys.Opal.Dss

open Failing

/-- How the numbers of a type are printed and read. -/
structure FloatText (F : Type) where
  print : F → List UInt8
  read : List UInt8 → F
  fits : ∀ x, StrFits (print x)

variable {F : Type}

/-- One round of `opal_dss_unpack_float` and `opal_dss_unpack_double`. -/
def unpackText (text : FloatText F) : Dss F := do
  match ← unpackCharPtr with
  | none => throw (.rc .errUnpackFailure)
  | some bytes =>
    let s ← strdup (some bytes)
    pure (text.read s)

/-- The type of the numbers of a size. -/
def floating (type : UInt8) (size : ℕ) (text : FloatText F) : TypeInfo F where
  type := type
  packFn src := src.forM fun x => packCharPtr (charPtr (text.print x))
  unpackFn numVals :=
    unlessTooSmall (sizeT (numVals * size)) (times numVals.toNat (unpackText text))

/-- `OPAL_FLOAT`. -/
def float (text : FloatText F) : TypeInfo F := floating 16 4 text

/-- `OPAL_DOUBLE`. -/
def double (text : FloatText F) : TypeInfo F := floating 17 8 text

theorem reads_unpackText {type} (text : FloatText F) (x : F) :
    Reads type (unpackText text) (CharPtr.enc (charPtr (text.print x)))
      (text.read (text.print x)) := by
  have hstring : Reads type unpackCharPtr _ (charPtr (text.print x)) :=
    reads_unpackCharPtr (.inr ⟨_, rfl, text.fits x⟩)
  refine hstring.bind_pure ?_
  show strdup (charPtr (text.print x)) >>= _ = _
  rw [strdup_charPtr (text.fits x).1]
  rfl

/-- **A `float` arrives as it was printed.** -/
theorem lossless_float (type : BufferType) (text : FloatText F) (x : F) :
    Lossless type (packOne (float text) x) (unpackOne (float text)) (text.read (text.print x)) := by
  have hwrites : Writes type ((float text).packFn [x])
      (CharPtr.enc (charPtr (text.print x)) ++ []) :=
    (writes_packCharPtr (.inr ⟨_, rfl, text.fits x⟩)).bind writes_pure
  have hloop : Reads type (times 1 (unpackText text)) (CharPtr.enc (charPtr (text.print x)) ++ [])
      [text.read (text.print x)] :=
    (reads_unpackText text x).bind ((reads_pure []).bind_pure rfl)
  have hreads : Reads type ((float text).unpackFn 1) _ _ := hloop.unlessTooSmall (by
    rw [List.append_nil, charPtr, CharPtr.enc, List.length_append, word, length_bigEndian]
    exact Nat.le_add_right 4 _)
  exact ⟨_, writes_packBuffer hwrites, (reads_unpackBuffer hreads).one⟩

end Sensys.Opal.Dss
