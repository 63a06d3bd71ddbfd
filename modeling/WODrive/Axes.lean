/-!
# The axes (MotorControl/odrive_main.h)

How many there are.
-/

namespace WODrive

/-- `AXIS_COUNT` -/
abbrev axisCount : Nat := 2

/-- `axes[0]` and `axes[1]` -/
def axis0 : Fin axisCount := ⟨0, by decide⟩
def axis1 : Fin axisCount := ⟨1, by decide⟩

end WODrive
