import Mathlib.Data.Nat.Cast.Defs

/-!
# Numerals

A field has the numerals from 2 on by way of `Nat.AtLeastTwo`. Definitions over fields in
different modules share the proofs for the numerals that they have in common.
-/

namespace WODrive

instance atLeastTwo_two : Nat.AtLeastTwo 2 := inferInstance

instance atLeastTwo_three : Nat.AtLeastTwo 3 := inferInstance

end WODrive
