import WODrive.Nvm.Model
import WODrive.Library.Crc

/-!
# Loading and storing the configuration (MotorControl/nvm_config.hpp)

`Config<Ts...>` stores one-to-one copies of objects one behind the other in a block of the
NVM, and behind them a CRC over all of them. An object is the list of its bytes; its type
matters only through its size, the number of these bytes.

The last object that `safe_load_config` loads is the stored CRC, and it is loaded into the
variable that the CRC is accumulated in.
-/

namespace WODrive.Config

open Crash Nvm Crc

abbrev Bytes := List (BitVec 8)

/-- `CONFIG_CRC16_INIT` -/
def crc16Init : BitVec 16 := 0xabcd

/-- `CONFIG_CRC16_POLYNOMIAL` -/
def crc16Polynomial : BitVec 16 := 0x3d65

/-- `config_version` -/
def configVersion : BitVec 16 := 0x0001

/-- The value the CRC starts from. -/
def crc16Start : BitVec 16 := crc16Init ^^^ configVersion

/-- `calc_crc16<CONFIG_CRC16_POLYNOMIAL>` -/
def calcCrc16 (remainder : BitVec 16) (buffer : Bytes) : BitVec 16 :=
  crc crc16Polynomial remainder buffer

/-- `Config<Ts...>::get_size`, of the sizes of the types. -/
def getSize : List Nat → Nat
  | [] => 0
  | size :: sizes => u32 (size + getSize sizes)

/-! ## Loading -/

/-- What `load_config` has a pointer to: an object, with the bytes it holds, or the
accumulator of the CRC. -/
inductive Dest where
  | object (val : Bytes)
  | crc16

/-- `sizeof` -/
def Dest.size : Dest → Nat
  | .object val => val.length
  | .crc16 => 2

/-- What a pointer refers to after `NVM_read` has put `bytes` there. (What is in the
accumulator is overwritten right after that.) -/
def Dest.filled (bytes : Bytes) : Dest → Dest
  | .object _ => .object bytes
  | .crc16 => .crc16

/-- The bytes of an object. -/
def Dest.object? : Dest → Option Bytes
  | .object val => some val
  | .crc16 => none

/-- `Config<Ts...>::load_config`: the result, `*crc16`, and the objects. -/
def loadConfig (s : NvmState) : Nat → BitVec 16 → List Dest → Int × BitVec 16 × List Dest
  | _, crc16, [] => (0, crc16, [])
  | offset, crc16, val0 :: vals =>
    let previousCrc16 := crc16
    match nvmRead s offset val0.size with
    | none => (-1, crc16, val0 :: vals)
    | some bytes =>
      let crc16 := calcCrc16 previousCrc16 bytes
      let (status, crc16, vals) := loadConfig s (u32 (offset + val0.size)) crc16 vals
      (if status ≠ 0 then -1 else 0, crc16, val0.filled bytes :: vals)

/-- `Config<T, Ts...>::safe_load_config`: the result, and the objects. -/
def safeLoadConfig (s : NvmState) (vals : List Bytes) : Int × List Bytes :=
  if getSize (vals.map List.length ++ [2]) > nvmGetMaxReadLength s then (-1, vals)
  else
    let (status, crc16, dests) :=
      loadConfig s 0 crc16Start (vals.map Dest.object ++ [Dest.crc16])
    let vals := dests.filterMap Dest.object?
    if status ≠ 0 then (-1, vals)
    else if crc16 ≠ 0 then (-1, vals)
    else (0, vals)

/-! ## Storing -/

/-- `Config<Ts...>::store_config`: the result, and `*crc16` (`none` for a null pointer). -/
def storeConfig : Nat → Option (BitVec 16) → List Bytes → NvmM (Int × Option (BitVec 16))
  | _, crc16, [] => return (0, crc16)
  | offset, crc16, val0 :: vals => do
    let status ← nvmWrite offset val0
    if status ≠ 0 then return (-1, crc16)
    else do
      let crc16 := crc16.map fun crc16 => calcCrc16 crc16 val0
      let stored ← storeConfig (u32 (offset + val0.length)) crc16 vals
      return (if stored.1 ≠ 0 then -1 else 0, stored.2)

/-- `*((uint8_t *)&crc16 + 1)` -/
def highByte (crc16 : BitVec 16) : BitVec 8 := (crc16 >>> 8).setWidth 8

/-- `*(uint8_t *)&crc16` -/
def lowByte (crc16 : BitVec 16) : BitVec 8 := crc16.setWidth 8

/-- The end of `safe_store_config`: stores the CRC behind the objects, and commits. -/
def storeCrc (offset : Nat) (crc16 : BitVec 16) : NvmM Int := do
  let stored ← storeConfig offset none [[highByte crc16], [lowByte crc16]]
  if stored.1 ≠ 0 then return -1
  else do
    let status ← nvmCommit
    if status ≠ 0 then return -1
    else return 0

/-- `safe_store_config`, from `NVM_start_write` on. -/
def storeBlock (size : Nat) (vals : List Bytes) : NvmM Int := do
  let status ← nvmStartWrite size
  if status ≠ 0 then return -1
  else do
    let stored ← storeConfig 0 (some crc16Start) vals
    if stored.1 ≠ 0 then return -1
    else storeCrc (subU32 size 2) (stored.2.getD crc16Start)

/-- `Config<T, Ts...>::safe_store_config` -/
def safeStoreConfig (vals : List Bytes) : NvmM Int := do
  let s ← get
  if u32 (getSize (vals.map List.length) + 2) > nvmGetMaxWriteLength s then return -1
  else storeBlock (u32 (getSize (vals.map List.length) + 2)) vals

end WODrive.Config
