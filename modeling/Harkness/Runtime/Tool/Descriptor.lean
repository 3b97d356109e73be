import Mathlib.Order.Basic
import Mathlib.Order.Lattice

/-! # What a tool declares about itself

Identifiers are opaque values compared for equality. Risk levels are ordered by consequence, and
only the lowest one changes nothing. A descriptor carries the parts of the published contract that
scheduling, policy and approval read: identity, declared risk, capabilities, and whether calls of
the tool start child processes.
-/

namespace Harkness.Runtime

abbrev RunId := ℕ
abbrev ToolCallId := ℕ
abbrev ProjectId := ℕ

/-- A point in time, in nanoseconds; offsets are normalised away. -/
abbrev Instant := ℤ

/-- The consequence of one invocation, in ascending order. -/
inductive RiskLevel where
  | observe
  | workspaceWrite
  | execute
  | network
  | remoteWrite
  | destructive
deriving DecidableEq, Repr, Inhabited

namespace RiskLevel

/-- Position in the declaration order, which is the order of consequence. -/
def rank : RiskLevel → ℕ
  | observe => 0
  | workspaceWrite => 1
  | execute => 2
  | network => 3
  | remoteWrite => 4
  | destructive => 5

theorem rank_injective : Function.Injective rank := by
  intro a b same
  cases a <;> cases b <;> first | rfl | contradiction

instance : LinearOrder RiskLevel := LinearOrder.lift' rank rank_injective

theorem le_iff_rank {a b : RiskLevel} : a ≤ b ↔ a.rank ≤ b.rank := Iff.rfl

def lowest : RiskLevel := observe

/-- Every risk level in its stable declaration order. -/
def all : List RiskLevel := [observe, workspaceWrite, execute, network, remoteWrite, destructive]

theorem lowest_le (risk : RiskLevel) : lowest ≤ risk := Nat.zero_le _

/-- Stable spelling used in schemas, policy, and persisted rows. -/
def asStr : RiskLevel → String
  | observe => "observe"
  | workspaceWrite => "workspace_write"
  | execute => "execute"
  | network => "network"
  | remoteWrite => "remote_write"
  | destructive => "destructive"

/-- Whether executing at this level can change state. -/
def mutatesState : RiskLevel → Bool
  | observe => false
  | _ => true

theorem mutatesState_iff {risk : RiskLevel} : risk.mutatesState = true ↔ risk ≠ observe := by
  cases risk <;> decide

/-- Raising a level never turns a mutation into a read. -/
theorem mutatesState_mono {a b : RiskLevel} (raised : a ≤ b) (mutates : a.mutatesState = true) :
    b.mutatesState = true := by
  cases a <;> cases b <;> first | rfl | contradiction

end RiskLevel

/-- A named capability a tool requires in order to run. -/
structure Capability where
  spelling : String
deriving DecidableEq, Repr

def Capability.asStr (capability : Capability) : String := capability.spelling

/-- A tool identifier together with the version it was resolved to. -/
structure ToolIdentity where
  id : String
  version : String
deriving DecidableEq, Repr

/-- The published contract of one tool. -/
structure ToolDescriptor where
  identity : ToolIdentity
  risk : RiskLevel
  capabilities : List Capability
  spawnsProcesses : Bool
deriving DecidableEq, Repr

def ToolDescriptor.id (descriptor : ToolDescriptor) : String := descriptor.identity.id

end Harkness.Runtime
