import Mathlib.Algebra.Order.Ring.Nat
import Mathlib.Data.List.Sort
import WindbgMcp.Library.Fallible
import WindbgMcp.SkControl.Protocol

/-! What a live-control session is asked to guard: an instruction by its bytes, and the
execute breakpoints it arms in the debug registers. -/
namespace WindbgMcp.SkLive
open Library SkControl

def maxInstructionBytes : Nat := 15
def maxHardwareBreakpoints : Nat := 4
def maxGuardedWriteBytes : Nat := 64
def maxSoftwareBreakpoints : Nat := 64

structure InstructionGuard where
  address : Nat
  bytes : List UInt8
  deriving DecidableEq, Repr

def InstructionGuard.validate (instruction : InstructionGuard) : Except String Unit := do
  insist (instruction.address ≠ 0) "the breakpoint address must be nonzero"
  insist (instruction.bytes ≠ [] ∧ instruction.bytes.length ≤ maxInstructionBytes)
    s!"the guarded instruction must contain 1..={maxInstructionBytes} bytes"
  insist (instruction.address + instruction.bytes.length < 2 ^ 64)
    "the guarded instruction crosses the address-space limit"

structure GuardedMemoryWrite where
  address : Nat
  expected : List UInt8
  replacement : List UInt8
  deriving DecidableEq, Repr

def GuardedMemoryWrite.validate (write : GuardedMemoryWrite) : Except String Unit := do
  insist (write.address ≠ 0) "a guarded write address must be nonzero"
  insist (write.expected ≠ [] ∧ write.expected.length ≤ maxGuardedWriteBytes ∧
      write.expected.length = write.replacement.length)
    ("guarded write expected and replacement bytes must have the same length in " ++
      s!"1..={maxGuardedWriteBytes}")
  insist (write.expected ≠ write.replacement) "a guarded write must change at least one byte"
  insist (write.address + write.expected.length < 2 ^ 64)
    "the guarded write crosses the address-space limit"

def breakpointRegister : Nat → RegisterName
  | 0 => .dr0
  | 1 => .dr1
  | 2 => .dr2
  | _ => .dr3

def breakpointEnableMask (slot : Nat) : Nat := 1 <<< (slot * 2)

def breakpointKindMask (slot : Nat) : Nat := 0xf <<< (16 + slot * 4)

structure BreakpointGuard where
  /-- The debug-register slot, in `0..=3`. -/
  slot : Nat
  instruction : InstructionGuard
  deriving DecidableEq, Repr

namespace BreakpointGuard

variable (breakpoint : BreakpointGuard)

def validate : Except String Unit := do
  insist (breakpoint.slot < maxHardwareBreakpoints)
    "a hardware breakpoint slot must be in 0..=3"
  breakpoint.instruction.validate

def register : RegisterName := breakpointRegister breakpoint.slot

def enableMask : Nat := breakpointEnableMask breakpoint.slot

def kindMask : Nat := breakpointKindMask breakpoint.slot

end BreakpointGuard

inductive ArmMode where
  | redirect
  | natural
  deriving DecidableEq, Repr

def distinctBreakpoints (earlier : List BreakpointGuard) :
    List BreakpointGuard → Except String Unit
  | [] => .ok ()
  | breakpoint :: breakpoints => do
    breakpoint.validate
    earlier.forM fun other => do
      insist (other.slot ≠ breakpoint.slot) "hardware breakpoint slots must be distinct"
      insist (other.instruction.address ≠ breakpoint.instruction.address)
        "hardware breakpoint addresses must be distinct"
    distinctBreakpoints (earlier ++ [breakpoint]) breakpoints

def validateBreakpoints (breakpoints : List BreakpointGuard) (mode : ArmMode) :
    Except String Unit := do
  insist (breakpoints ≠ [] ∧ breakpoints.length ≤ maxHardwareBreakpoints)
    s!"an arm requires 1..={maxHardwareBreakpoints} hardware breakpoints"
  insist (mode = .redirect → breakpoints.length = 1)
    "redirect arming requires exactly one hardware breakpoint"
  distinctBreakpoints [] breakpoints

end WindbgMcp.SkLive
