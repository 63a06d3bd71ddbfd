import WODrive.Ascii.Convert
import WODrive.Ascii.Lines
import WODrive.Axes
import WODrive.Fibre.Introspection

/-!
# One line (communication/ascii_protocol.cpp)

`ASCII_protocol_process_line`: the search for a checksum and a comment, the check of the
checksum, and the commands. What a command does to the device is a list of effects, in
their order; what it answers is a list of texts.

Variables that `sscanf` does not store to keep what they contain, which is given as
`Locals`. A `%` never stands in the text of a property, so that this text is also what the
format made of it prints.
-/

namespace WODrive.Ascii

open Scan Fibre

/-- A character of the source. -/
def ch (c : Char) : Char8 := BitVec.ofNat 8 c.toNat

/-- A string of the source. -/
def str (s : String) : List Char8 := s.toList.map ch

/-- `SIZE_MAX` -/
def SIZE_MAX : Nat := 0xffffffff

/-! ## The device -/

inductive ControlMode where
  | torque | velocity | position
deriving DecidableEq, Repr

/-- A `FibrePropertyTypeInfo`: what it knows of a property. -/
structure PropertyAccess (F S : Type) where
  type : PropType
  /-- The property is not a `Property<const T>`. -/
  writable : Bool
  read : S → type.Val F

/-- What the commands refer to: the objects with their types, and the values that they
print. -/
structure Env (F P S : Type) where
  types : TypeInfo P S
  root : Introspectable P S
  garbageStorage : S
  /-- `dynamic_cast<const StringConvertibleTypeInfo*>` -/
  stringConvertible : P → Option (PropertyAccess F S)
  floatText : FloatText F
  posEstimate : Nat → F
  velEstimate : Nat → F
  /-- Major, minor and variant. -/
  hwVersion : BitVec 8 × BitVec 8 × BitVec 8
  /-- Major, minor and revision. -/
  fwVersion : BitVec 8 × BitVec 8 × BitVec 8
  serialNumber : List Char8

/-- What a command does to the device. -/
inductive Effect (F S : Type) where
  | setControlMode (axis : Nat) (mode : ControlMode)
  /-- `INPUT_MODE_TRAP_TRAJ` -/
  | setTrapTraj (axis : Nat)
  | setInputPos (axis : Nat) (value : F)
  | setInputVel (axis : Nat) (value : F)
  | setInputTorque (axis : Nat) (value : F)
  | setVelLimit (axis : Nat) (value : F)
  | setTorqueLim (axis : Nat) (value : F)
  | inputPosUpdated (axis : Nat)
  | watchdogFeed (axis : Nat)
  /-- `Property<T>::exchange` -/
  | exchange (storage : S) (type : PropType) (value : type.Val F)
  | saveConfiguration
  | eraseConfiguration
  | reboot

structure Output (F S : Type) where
  effects : List (Effect F S)
  responses : List (List Char8)

variable {F P S : Type}

/-- A command that only answers. -/
def answer (text : List Char8) : Output F S := ⟨[], [text]⟩

/-- The bytes of `respond` for a text. A text that is too long is cut, and its terminating
zero sent along. -/
def respond (includeChecksum : Bool) (text : List Char8) : List Char8 :=
  let sent := if text.length < 64 then text else snprintf 64 text ++ [0]
  let checksum := sent.foldl (· ^^^ ·) 0
  sent ++ (if includeChecksum then ch '*' :: decimal checksum.toNat else []) ++ [13, 10]

/-! ## Local variables -/

/-- The contents of the local variables of a command. -/
structure Locals (F : Type) where
  motorNumber : BitVec 32
  floats : Nat → F
  name : List Char8
  value : List Char8

/-- After a call of `sscanf` that has stored these values. -/
def Locals.store (g : Locals F) (values : List (Value F)) : Locals F where
  motorNumber := (values[0]?.bind Value.unsigned?).getD g.motorNumber
  floats i := (values[i + 1]?.bind Value.float?).getD (g.floats i)
  name := (values[0]?.bind Value.string?).getD g.name
  value := (values[1]?.bind Value.string?).getD g.value

/-- `%u` and a number of `%f` behind a letter. -/
def motorFormat (letter : Char8) (floats : Nat) : List Directive :=
  [.literal letter, .space, .unsigned] ++ (List.replicate floats [.space, .float]).flatten

/-- A number of `%255s` behind a letter. -/
def stringFormat (letter : Char8) (strings : Nat) : List Directive :=
  .literal letter :: (List.replicate strings [.space, .string 255]).flatten

/-! ## The commands -/

variable (env : Env F P S) (g : Locals F)

def invalidCommandFormat : List Char8 := str "invalid command format"

/-- A command for a motor, if `needed` values have been scanned and there is the motor. -/
def motorCommand (numscan needed : Nat) (motorNumber : BitVec 32)
    (command : Nat → Output F S) : Output F S :=
  if numscan < needed then answer invalidCommandFormat
  else if motorNumber.toNat ≥ axisCount then
    answer (str "invalid motor " ++ decimal motorNumber.toNat)
  else command motorNumber.toNat

/-- Position control. A third and a fourth value are for other setpoints or limits. -/
def positionCommand (letter : Char8) (third fourth : Nat → F → Effect F S) (cmd : List Char8) :
    Output F S :=
  let values := sscanf env.floatText.scan (motorFormat letter 3) cmd
  let numscan := values.length
  let v := g.store values
  motorCommand numscan 2 v.motorNumber fun axis =>
    ⟨[.setControlMode axis .position, .setInputPos axis (v.floats 0)] ++
      (if numscan ≥ 3 then [third axis (v.floats 1)] else []) ++
      (if numscan ≥ 4 then [fourth axis (v.floats 2)] else []) ++
      [.inputPosUpdated axis, .watchdogFeed axis], []⟩

/-- `p`: position control -/
def positionControl (cmd : List Char8) : Output F S :=
  positionCommand env g (ch 'p') .setInputVel .setInputTorque cmd

/-- `q`: position control with limits -/
def positionControlWithLimits (cmd : List Char8) : Output F S :=
  positionCommand env g (ch 'q') .setVelLimit .setTorqueLim cmd

/-- `v`: velocity control -/
def velocityControl (cmd : List Char8) : Output F S :=
  let values := sscanf env.floatText.scan (motorFormat (ch 'v') 2) cmd
  let numscan := values.length
  let v := g.store values
  motorCommand numscan 2 v.motorNumber fun axis =>
    ⟨[.setControlMode axis .velocity, .setInputVel axis (v.floats 0)] ++
      (if numscan ≥ 3 then [.setInputTorque axis (v.floats 1)] else []) ++
      [.watchdogFeed axis], []⟩

/-- `c`: torque control -/
def torqueControl (cmd : List Char8) : Output F S :=
  let values := sscanf env.floatText.scan (motorFormat (ch 'c') 1) cmd
  let v := g.store values
  motorCommand values.length 2 v.motorNumber fun axis =>
    ⟨[.setControlMode axis .torque, .setInputTorque axis (v.floats 0), .watchdogFeed axis], []⟩

/-- `t`: trapezoidal trajectory -/
def trapezoidalTrajectory (cmd : List Char8) : Output F S :=
  let values := sscanf env.floatText.scan (motorFormat (ch 't') 1) cmd
  let v := g.store values
  motorCommand values.length 2 v.motorNumber fun axis =>
    ⟨[.setTrapTraj axis, .setControlMode axis .position, .setInputPos axis (v.floats 0),
      .inputPosUpdated axis, .watchdogFeed axis], []⟩

/-- `f`: feedback -/
def feedback (cmd : List Char8) : Output F S :=
  let values := sscanf env.floatText.scan (motorFormat (ch 'f') 0) cmd
  let v := g.store values
  motorCommand values.length 1 v.motorNumber fun axis =>
    answer (env.floatText.print (env.posEstimate axis) ++ str " " ++
      env.floatText.print (env.velEstimate axis))

/-- `h`: help -/
def help : Output F S :=
  ⟨[], ["Please see documentation for more details",
    "",
    "Available commands syntax reference:",
    "Position: q axis pos vel-lim I-lim",
    "Position: p axis pos vel-ff I-ff",
    "Velocity: v axis vel I-ff",
    "Torque: c axis T",
    "",
    "Properties start at odrive root, such as axis0.requested_state",
    "Read: r property",
    "Write: w property value",
    "",
    "Save config: ss",
    "Erase config: se",
    "Reboot: sr"].map str⟩

/-- `i`: dump device info -/
def deviceInfo : Output F S :=
  let number (x : BitVec 8) := decimal x.toNat
  ⟨[], [str "Hardware version: " ++ number env.hwVersion.1 ++ str "." ++
        number env.hwVersion.2.1 ++ str "-" ++ number env.hwVersion.2.2 ++ str "V",
      str "Firmware version: " ++ number env.fwVersion.1 ++ str "." ++
        number env.fwVersion.2.1 ++ str "." ++ number env.fwVersion.2.2,
      str "Serial number: " ++ env.serialNumber]⟩

/-- `s`: system -/
def system (cmd : List Char8) : Output F S :=
  let c := cmd.getD 1 0
  if c = ch 's' then ⟨[.saveConfiguration], []⟩
  else if c = ch 'e' then ⟨[.eraseConfiguration], []⟩
  else if c = ch 'r' then ⟨[.reboot], []⟩
  else ⟨[], []⟩

/-- The property with a name, if there is one that can be converted. -/
def convertible (name : List Char8) : Option (S × PropertyAccess F S) :=
  match env.types.getChildOf env.garbageStorage env.root name with
  | some property =>
    match property.typeInfo with
    | some p => (env.stringConvertible p).map (property.storage, ·)
    | none => none
  | none => none

/-- `r`: read property -/
def readProperty (cmd : List Char8) : Output F S :=
  let values := sscanf env.floatText.scan (stringFormat (ch 'r') 1) cmd
  let v := g.store values
  if values.length < 1 then answer invalidCommandFormat
  else
    match convertible env v.name with
    | none => answer (str "invalid property")
    | some (storage, access) =>
      match toString env.floatText 10 access.type (access.read storage) with
      | none => answer (str "not implemented")
      | some response => answer response

/-- `set_string`: what it stores. A property that is not writable, or a text that does not
scan, is a failure. -/
def setString (storage : S) (access : PropertyAccess F S) (text : List Char8) :
    Option (Effect F S) :=
  if access.writable then
    (fromString env.floatText text access.type).map (.exchange storage access.type)
  else none

/-- `w`: write property -/
def writeProperty (cmd : List Char8) : Output F S :=
  let values := sscanf env.floatText.scan (stringFormat (ch 'w') 2) cmd
  let v := g.store values
  if values.length < 1 then answer invalidCommandFormat
  else
    match convertible env v.name with
    | none => answer (str "invalid property")
    | some (storage, access) =>
      match setString env storage access v.value with
      | none => answer (str "not implemented")
      | some effect => ⟨[effect], []⟩

/-- `u`: update axis watchdog -/
def updateWatchdog (cmd : List Char8) : Output F S :=
  let values := sscanf env.floatText.scan (motorFormat (ch 'u') 0) cmd
  let v := g.store values
  motorCommand values.length 1 v.motorNumber fun axis => ⟨[.watchdogFeed axis], []⟩

/-- The command of a line, by its first character. -/
def processCommand (cmd : List Char8) : Output F S :=
  let c := cmd.headD 0
  if c = ch 'p' then positionControl env g cmd
  else if c = ch 'q' then positionControlWithLimits env g cmd
  else if c = ch 'v' then velocityControl env g cmd
  else if c = ch 'c' then torqueControl env g cmd
  else if c = ch 't' then trapezoidalTrajectory env g cmd
  else if c = ch 'f' then feedback env g cmd
  else if c = ch 'h' then help
  else if c = ch 'i' then deviceInfo env
  else if c = ch 's' then system cmd
  else if c = ch 'r' then readProperty env g cmd
  else if c = ch 'w' then writeProperty env g cmd
  else if c = ch 'u' then updateWatchdog env g cmd
  else if c ≠ 0 then answer (str "unknown command")
  else ⟨[], []⟩

/-! ## The line -/

/-- What the scan of the line finds: the exclusive or of the bytes, where the checksum
starts (`SIZE_MAX` if there is none), and the length without a comment. -/
structure LineScan where
  checksum : BitVec 8
  checksumStart : Nat
  len : Nat
deriving DecidableEq, Repr

/-- The scan from byte `i` on. -/
def scanLine : (i : Nat) → List Char8 → LineScan → LineScan
  | _, [], scan => scan
  | i, c :: line, scan =>
    -- ';' is the comment start char
    if c = ch ';' then { scan with len := i }
    else if scan.checksumStart > i then
      if c = ch '*' then scanLine (i + 1) line { scan with checksumStart := i + 1 }
      else scanLine (i + 1) line { scan with checksum := scan.checksum ^^^ c }
    else scanLine (i + 1) line scan

/-- A buffer as a string. -/
def cString (buffer : List Char8) : List Char8 := buffer.takeWhile (· ≠ 0)

/-- Up to the commands: the command and whether there is a checksum, or `none` if the
checksum is not right. -/
def validate (scanFloat : List Char8 → Option (F × List Char8)) (line : List Char8) :
    Option (List Char8 × Bool) :=
  let scan := scanLine 0 line ⟨0, SIZE_MAX, line.length⟩
  let len := min scan.len maxLineLength
  let cmd := line.take len
  let useChecksum : Bool := scan.checksumStart < len
  if useChecksum then
    match sscanf scanFloat [.unsigned] (cString (cmd.drop scan.checksumStart)) with
    | .unsigned receivedChecksum :: _ =>
      if receivedChecksum ≠ scan.checksum.setWidth 32 then none
      else some (cString (cmd.take (scan.checksumStart - 1)), true)
    | _ => none
  else some (cString cmd, false)

/-- `ASCII_protocol_process_line`: what it does, and the bytes it sends. -/
def processLine (line : List Char8) : List (Effect F S) × List Char8 :=
  match validate env.floatText.scan line with
  | none => ([], [])
  | some (cmd, useChecksum) =>
    let output := processCommand env g cmd
    (output.effects, output.responses.flatMap (respond useChecksum))

end WODrive.Ascii
