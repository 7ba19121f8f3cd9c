import Mathlib.Init

/-! Records of the server's reports that several components read (`structured.rs`). -/
namespace WindbgMcp.Structured

/-- One sample of the performance counter of the host. -/
structure HostQpcSample where
  tick : Nat
  frequency : Nat
  deriving DecidableEq, Repr

inductive KernelTarget
  | windows
  | hypervisor
  deriving DecidableEq, Repr

def KernelTarget.label : KernelTarget → String
  | .windows => "windows"
  | .hypervisor => "hypervisor"

structure ProfileFacts where
  name : String
  role : Option KernelTarget
  guest : Option String
  note : Option String
  ignored : List String
  deriving DecidableEq, Repr

end WindbgMcp.Structured
