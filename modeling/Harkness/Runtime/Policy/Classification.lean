import Harkness.Runtime.Tool.Descriptor

/-! # Trust, mode, and what one invocation was classified as

The facts about a call that policy consumes after validation. Flags are built up by setters, and
selecting a force variant marks the remote write it implies, so a classification can say neither
less than its descriptor declares nor less than the force it selects.
-/

namespace Harkness.Runtime

/-- Whether a positive decision exists for this project at this canonical root. -/
inductive TrustState where
  | untrusted
  | trusted
deriving DecidableEq, Repr, Inhabited

/-- Whether a human can answer a new prompt. -/
inductive ExecutionMode where
  | interactive
  | nonInteractive
deriving DecidableEq, Repr

/-- Consequence one already-contained path has within a concrete request. -/
inductive PathAccess where
  | read
  | write
  | destructive
deriving DecidableEq, Repr

def PathAccess.risk : PathAccess → RiskLevel
  | read => .observe
  | write => .workspaceWrite
  | destructive => .destructive

/-- Force variant a validated remote-write request selects. -/
inductive ForcePush where
  | none
  | withLease
  | force
deriving DecidableEq, Repr, Inhabited

namespace ForcePush

def asStr : ForcePush → String
  | none => "none"
  | withLease => "force_with_lease"
  | force => "force"

/-- Whether this request overwrites remote history at all. -/
def isForcing : ForcePush → Bool
  | none => false
  | _ => true

end ForcePush

/-- Non-filesystem effects discovered in one concrete invocation. -/
structure RequestFlags where
  executes : Bool := false
  network : Bool := false
  remoteWrite : Bool := false
  destructive : Bool := false
  forcePush : ForcePush := .none
  forced : forcePush.isForcing = true → remoteWrite = true := by decide
deriving DecidableEq

namespace RequestFlags

/-- Marks the force variant; forcing implies remote write. -/
def forcePushing (flags : RequestFlags) (variant : ForcePush) : RequestFlags where
  executes := flags.executes
  network := flags.network
  remoteWrite := flags.remoteWrite || variant.isForcing
  destructive := flags.destructive
  forcePush := variant
  forced := by intro forcing; simp only [forcing, Bool.or_true]

def risk (flags : RequestFlags) : RiskLevel :=
  if flags.destructive then .destructive
  else if flags.remoteWrite then .remoteWrite
  else if flags.network then .network
  else if flags.executes then .execute
  else .observe

theorem remoteWrite_le_risk (flags : RequestFlags) (forcing : flags.forcePush.isForcing = true) :
    .remoteWrite ≤ flags.risk := by
  unfold risk
  rw [flags.forced forcing, if_pos rfl]
  split <;> decide

end RequestFlags

/-- What one concrete invocation was classified as. -/
structure RequestClassification where
  risk : RiskLevel
  forcePush : ForcePush
  forced : forcePush.isForcing = true → .remoteWrite ≤ risk
deriving DecidableEq

/-- Classifies one validated invocation; `paths` are the accesses of its contained paths. -/
def classifyRequest (descriptor : ToolDescriptor) (paths : List PathAccess)
    (flags : RequestFlags) : RequestClassification where
  risk := (paths.map PathAccess.risk ++ [descriptor.risk, flags.risk]).foldl max .observe
  forcePush := flags.forcePush
  forced := by
    intro forcing
    refine (flags.remoteWrite_le_risk forcing).trans ?_
    simp only [List.foldl_append, List.foldl_cons, List.foldl_nil]
    exact le_max_right _ _

/-- The declared risk is a floor. -/
theorem risk_le_classifyRequest (descriptor : ToolDescriptor) (paths : List PathAccess)
    (flags : RequestFlags) : descriptor.risk ≤ (classifyRequest descriptor paths flags).risk := by
  simp only [classifyRequest, List.foldl_append, List.foldl_cons, List.foldl_nil]
  exact (le_max_right _ _).trans (le_max_left _ _)

end Harkness.Runtime
