import WODrive.Library.Crash
import WODrive.Library.Nor
import Mathlib.Logic.Function.Basic
import Mathlib.Data.Int.Bitwise

/-!
# The flash-based non-volatile memory (MotorControl/nvm.c)

The driver keeps its data in two flash sectors, each an array of 64-bit fields.
The first `nReserved` fields of a sector hold the allocation table, which records
the state of every field of the sector in two bits. One sector is read from, the
other one is the target of the next write.

`NvmState` is the driver's RAM together with the flash. The flash is one memory over
absolute addresses, as the driver sees it: an address computed past the end of a
sector or below its base reaches whatever lies there. Locking and unlocking the
flash and clearing the HAL's error flags have no effect on the driver's results
and are left out.

The driver looks at the status of a flash operation to decide whether it failed, and then
returns the error code of the HAL. This code can be 0, and then the caller is told that
all went well.
-/

namespace WODrive.Nvm

open Crash Nor

/-- The value of a `size_t` computation (32 bits). -/
def u32 (x : Nat) : Nat := x % 2 ^ 32

/-- Subtraction of `size_t` values. -/
def subU32 (a b : Nat) : Nat := u32 (a + 2 ^ 32 - b)

/-! ## The HAL -/

/-- What becomes of one flash operation. After `failure`, which is any end other than
`HAL_OK`, the operation may have taken effect on any of the bits it addressed: `residue`
says which ones were left as they were. `code` is what is found in `pFlash.ErrorCode`
then. It is 0 after `HAL_TIMEOUT`, as `FLASH_WaitForLastOperation` starts by clearing it,
and after `HAL_BUSY` it is what the operation before has left. At `powerLoss` the
operation is not performed any more. -/
inductive HalResult where
  | ok
  | failure (code : Int) (residue : Nat → BitVec 8)
  | powerLoss

/-- `HAL_StatusTypeDef`, with the code that `HAL_FLASH_GetError` returns after a status
that is not `HAL_OK`. -/
inductive HalStatus where
  | ok
  | failed (code : Int)

/-! ## States -/

/-- `field_state_t`, as it is stored in the allocation table. -/
abbrev FieldState := BitVec 2

def VALID : FieldState := 0
def INVALID : FieldState := 1
def ERASED : FieldState := 3

/-- The number of 64-bit fields of a sector. -/
def nData : Nat := 0x20000 >>> 3

/-- The number of 64-bit fields of a sector that hold the allocation table. -/
def nReserved : Nat := (0x20000 >>> 3) >>> 5

/-- There are two sectors, so `0` and `1` name them. -/
scoped instance sectors_neZero : NeZero (2 : Nat) := ⟨by decide⟩

/-- The size of a sector in bytes (`FLASH_SECTOR_10_SIZE`, `FLASH_SECTOR_11_SIZE`). -/
def sectorSize : Nat := 0x20000

/-- The base address of a sector (`FLASH_SECTOR_10_BASE`, `FLASH_SECTOR_11_BASE`),
where both its `alloc_table` and its `data` start. -/
def base (sector : Fin 2) : Nat := if sector = 0 then 0x80C0000 else 0x80E0000

/-- The driver's variables, the flash, and the results the HAL has in store for
the next flash operations (once they are used up, operations succeed). -/
structure NvmState where
  /-- `sectors[i].index`: the next field to be written to -/
  index : Fin 2 → Nat
  /-- `read_sector_`: the sector to read from -/
  readSector : Fin 2
  /-- `n_staging_area_`: the number of fields reserved by `NVM_start_write` -/
  nStagingArea : Nat
  /-- `n_valid_`: the number of fields that can be read -/
  nValid : Nat
  flash : Mem
  hal : List HalResult

/-- Driver code: a power loss leaves only the flash. -/
abbrev NvmM := CrashM NvmState Mem

/-! ## Flash operations -/

/-- `HAL_FLASH_Program`, of a byte or of the four bytes of a word in memory order. -/
def halFlashProgram (addr : Nat) (bytes : List (BitVec 8)) : NvmM HalStatus := fun s =>
  match s.hal with
  | [] => .ok .ok { s with flash := program s.flash addr bytes }
  | .ok :: hal => .ok .ok { s with flash := program s.flash addr bytes, hal := hal }
  | .failure code residue :: hal =>
    let done := bytes.zipIdx.map fun b => b.1 ||| residue b.2
    .ok (.failed code) { s with flash := program s.flash addr done, hal := hal }
  | .powerLoss :: _ => .powerLoss s.flash

/-- `HAL_FLASHEx_Erase` of one sector. -/
def halFlashErase (sector : Fin 2) : NvmM HalStatus := fun s =>
  match s.hal with
  | [] => .ok .ok { s with flash := erase s.flash (base sector) sectorSize }
  | .ok :: hal =>
    .ok .ok { s with flash := erase s.flash (base sector) sectorSize, hal := hal }
  | .failure code residue :: hal =>
    let part : Mem := fun a =>
      if base sector ≤ a ∧ a < base sector + sectorSize then
        s.flash a ||| residue (a - base sector)
      else s.flash a
    .ok (.failed code) { s with flash := part, hal := hal }
  | .powerLoss :: _ => .powerLoss s.flash

/-- `if (operation != HAL_OK) goto fail`, and what comes after it. At `fail` the function
returns `HAL_FLASH_GetError()`. -/
def orFail (operation : NvmM HalStatus) (rest : NvmM Int) : NvmM Int := do
  match ← operation with
  | .ok => rest
  | .failed code => return code

/-- `erase` -/
def eraseSector (sector : Fin 2) : NvmM Int :=
  orFail (halFlashErase sector) do
    modify fun s => { s with index := Function.update s.index sector nReserved }
    return 0

/-! ## The allocation table -/

/-- `states`: one state expanded to the four lanes of a byte. -/
def expandState (state : FieldState) : BitVec 8 :=
  let s := state.setWidth 8
  s <<< 0 ||| s <<< 2 ||| s <<< 4 ||| s <<< 6

/-- The mask that leaves the lanes below an unaligned start alone. -/
def startMask (index : Nat) : BitVec 8 := ~~~(0xff#8 <<< ((index &&& 3) <<< 1))

/-- The mask that leaves the lanes from an unaligned end on alone. -/
def endMask (count : Nat) : BitVec 8 := ~~~(0xff#8 >>> ((4 - count) <<< 1))

/-- The two loops of `set_allocation_state`, from an aligned index on. -/
def programStates (sector : Fin 2) (states : BitVec 8) :
    BitVec 8 → Nat → Nat → NvmM Int
  | mask, index, count + 4 =>
    orFail (halFlashProgram (base sector + index >>> 2) [states ||| mask])
      (programStates sector states 0 (index + 4) count)
  | mask, index, count =>
    if count ≠ 0 then
      orFail (halFlashProgram (base sector + index >>> 2) [states ||| (mask ||| endMask count)])
        (return 0)
    else return 0

/-- `set_allocation_state` -/
def setAllocationState (sector : Fin 2) (index count : Nat) (state : FieldState) :
    NvmM Int :=
  if index < nReserved then return -1
  else if u32 (index + count) ≥ nData then return -1
  else programStates sector (expandState state) (startMask index)
    (index - (index &&& 3)) (count + (index &&& 3))

/-- The first loop of `scan_allocation_table`: goes down a byte at a time while
all four states equal the reference state. The upper `ignore` states of the first
byte are masked out. -/
def scanBytes (flash : Mem) (table : Nat) (refStates : BitVec 8) :
    Nat → Nat → BitVec 8 → Nat × BitVec 8
  | index + 4, ignore, states =>
    if index + 4 ≥ nReserved + 4 then
      let read := flash (table + (index + 4 - 1) >>> 2)
      let ignoreMask : BitVec 8 := ~~~(0xff#8 >>> (ignore <<< 1))
      let read := if ignore ≠ 0 then
          (read &&& ~~~ignoreMask) ||| (refStates &&& ignoreMask)
        else read
      if read ≠ refStates then (index + 4, read)
      else scanBytes flash table refStates index 0 read
    else (index + 4, states)
  | index, _, states => (index, states)

/-- The second loop of `scan_allocation_table`: finds the state of the byte that
differs. -/
def scanStates (refStates : BitVec 8) : Nat → BitVec 8 → Nat × BitVec 8
  | index + 1, states =>
    if states >>> 6 = (refStates &&& 3) ∧ index + 1 > nReserved then
      scanStates refStates index (states <<< 2)
    else (index + 1, states)
  | 0, states => (0, states)

/-- `scan_allocation_table`: the index it returns and the state it reports. -/
def scanAllocationTable (flash : Mem) (sector : Fin 2) (maxIndex : Nat)
    (refState : FieldState) : Nat × FieldState :=
  let refStates := expandState refState
  let index := ((maxIndex + 3) >>> 2) <<< 2
  let ignore := index - maxIndex
  let (index, states) := scanBytes flash (base sector) refStates index ignore refStates
  let (index, states) := scanStates refStates index states
  (index, (states >>> 6).setWidth 2)

/-! ## The interface -/

/-- `NVM_init` -/
def nvmInit : NvmM Int := do
  let s ← get
  let (index0, _sector0State) := scanAllocationTable s.flash 0 nData ERASED
  let (index1, sector1State) := scanAllocationTable s.flash 1 nData ERASED
  let index : Fin 2 → Nat := fun sector => if sector = 0 then index0 else index1
  let readSector : Fin 2 := if sector1State = VALID then 1 else 0
  let (minValidIndex, _firstNonvalidState) :=
    scanAllocationTable s.flash readSector (index readSector) VALID
  set { s with
    index := index
    readSector := readSector
    nValid := index readSector - minValidIndex
    nStagingArea := 0 }
  return 0

/-- `NVM_erase` -/
def nvmErase : NvmM Int := do
  modify fun s => { s with readSector := 0, index := fun _ => nReserved }
  let state0 ← eraseSector 0
  let state1 ← eraseSector 1
  return Int.lor state0 state1

/-- `NVM_get_max_read_length` -/
def nvmGetMaxReadLength (s : NvmState) : Nat := u32 (s.nValid <<< 3)

/-- `NVM_get_max_write_length` -/
def nvmGetMaxWriteLength (_s : NvmState) : Nat := (nData - nReserved) <<< 3

/-- `NVM_read`: the bytes it copies, if it accepts the range. The address is
computed without bounds checks. -/
def nvmRead (s : NvmState) (offset length : Nat) : Option (List (BitVec 8)) :=
  if u32 (offset + length) > s.nValid <<< 3 then none
  else
    let src := base s.readSector + 8 * subU32 (s.index s.readSector) s.nValid + offset
    some ((List.range length).map fun i => s.flash (u32 (src + i)))

/-- The end of `NVM_start_write`: invalidates the fields about to be written. -/
def invalidateFields (target : Fin 2) (length : Nat) : NvmM Int := do
  let s ← get
  let status ← setAllocationState target (s.index target) length INVALID
  if status ≠ 0 then return status
  else do
    modify fun s => { s with nStagingArea := length }
    return 0

/-- `NVM_start_write` -/
def nvmStartWrite (length : Nat) : NvmM Int := do
  let s ← get
  let target := 1 - s.readSector
  let length := u32 (length + 7) >>> 3
  if length > nData - nReserved then return -1
  else if length > subU32 nData (s.index target) then do
    let status ← eraseSector target
    if status ≠ 0 then return status
    else invalidateFields target length
  else invalidateFields target length

/-- The last loop of `NVM_write`: the unaligned end. -/
def writeEnd (dest : Nat) : Nat → List (BitVec 8) → NvmM Int
  | _, [] => return 0
  | offset, b :: data =>
    orFail (halFlashProgram (u32 (dest + offset)) [b]) (writeEnd dest (offset + 1) data)

/-- The middle loop of `NVM_write`: 32-bit values. -/
def writeWords (dest : Nat) : Nat → List (BitVec 8) → NvmM Int
  | offset, b0 :: b1 :: b2 :: b3 :: data =>
    orFail (halFlashProgram (u32 (dest + offset)) [b0, b1, b2, b3])
      (writeWords dest (offset + 4) data)
  | offset, data => writeEnd dest offset data

/-- The first loop of `NVM_write`: the unaligned start. -/
def writeStart (dest : Nat) : Nat → List (BitVec 8) → NvmM Int
  | offset, b :: data =>
    if offset &&& 3 ≠ 0 then
      orFail (halFlashProgram (u32 (dest + offset)) [b]) (writeStart dest (offset + 1) data)
    else writeWords dest offset (b :: data)
  | offset, [] => writeWords dest offset []

/-- `NVM_write` -/
def nvmWrite (offset : Nat) (data : List (BitVec 8)) : NvmM Int := do
  let s ← get
  if u32 (offset + data.length) > s.nStagingArea <<< 3 then return -1
  else
    let target := 1 - s.readSector
    writeStart (base target + 8 * s.index target) offset data

/-- The end of `NVM_commit`: invalidates the sector that was read from so far. -/
def invalidateSector (readSector : Fin 2) : NvmM Int := do
  let s ← get
  if s.index readSector < nData then do
    let status ← setAllocationState readSector (s.index readSector) 1 INVALID
    modify fun s => { s with
      index := Function.update s.index readSector (s.index readSector + 1) }
    return status
  else eraseSector readSector

/-- `NVM_commit` -/
def nvmCommit : NvmM Int := do
  let s ← get
  let readSector := s.readSector
  let writeSector := 1 - s.readSector
  let status ← setAllocationState writeSector (s.index writeSector) s.nStagingArea VALID
  if status ≠ 0 then return status
  else do
    modify fun s => { s with
      index := Function.update s.index writeSector (s.index writeSector + s.nStagingArea)
      nValid := s.nStagingArea
      nStagingArea := 0
      readSector := 1 - s.readSector }
    invalidateSector readSector

end WODrive.Nvm
