import Harkness.Transport.Message
import Mathlib

/-! # The failures of a connection

Every failure a peer can cause, with its stable kind and its text. Four of them describe one call;
all others end the connection, which remembers them for the callers that come after.
-/

namespace Harkness.Transport

def RequestId.display : RequestId → String
  | number value => toString value.toInt
  | text value => "'" ++ value ++ "'"

/-- Which way a connection lost its place in the peer's stream. -/
inductive DesyncDetail where
  | nonJsonLine (detail : String)
  | notJsonRpc (detail : String)
  | unknownResponseId (id : RequestId)
  | duplicateResponseId (id : RequestId)
deriving DecidableEq

def DesyncDetail.display : DesyncDetail → String
  | nonJsonLine detail => "the peer wrote a line that is not one JSON message (" ++ detail ++ ")"
  | notJsonRpc detail =>
    "the peer wrote JSON that is not a JSON-RPC 2.0 message (" ++ detail ++ ")"
  | unknownResponseId id => "the peer answered request " ++ id.display ++ ", which was never sent"
  | duplicateResponseId id => "the peer answered request " ++ id.display ++ " more than once"

/-- What the peer was doing when its process ended. -/
inductive DisconnectKind where
  | exitBeforeResponse
  | midResponse
  | idle
deriving DecidableEq

def DisconnectKind.display : DisconnectKind → String
  | exitBeforeResponse => "it exited before responding"
  | midResponse => "it exited part-way through a message"
  | idle => "it exited with nothing outstanding"

/-- Why a connection stopped being a connection; durations are in nanoseconds. -/
inductive TransportError where
  | invalidSpawnSpec (detail : String)
  | spawnFailed (program source : String)
  | startupDeadlineExceeded (deadline : ℕ)
  | unencodableMessage (detail : String)
  | messageTooLarge (bytes limit : ℕ)
  | desynchronized (detail : DesyncDetail)
  | disconnected (kind : DisconnectKind)
  | cancelled
  | writeFailed (detail : String)
  | sendTimedOut
  | requestTimedOut (id : RequestId)
  | peerQueueFull (capacity : ℕ)
  | quarantined (faultKind detail : String)
deriving DecidableEq

namespace TransportError

def kind : TransportError → String
  | invalidSpawnSpec .. => "invalid_spawn_spec"
  | spawnFailed .. => "spawn_failed"
  | startupDeadlineExceeded .. => "startup_deadline_exceeded"
  | unencodableMessage .. => "unencodable_message"
  | messageTooLarge .. => "message_too_large"
  | desynchronized .. => "desynchronized"
  | disconnected .. => "disconnected"
  | cancelled => "cancelled"
  | writeFailed .. => "write_failed"
  | sendTimedOut => "send_timed_out"
  | requestTimedOut .. => "request_timed_out"
  | peerQueueFull .. => "peer_queue_full"
  | quarantined .. => "quarantined"

def display : TransportError → String
  | invalidSpawnSpec detail => "the connection cannot be spawned: " ++ detail
  | spawnFailed program source => "failed to start '" ++ program ++ "': " ++ source
  | startupDeadlineExceeded deadline =>
    "the peer did not complete its handshake within " ++ toString (deadline / 10 ^ 6) ++ " ms"
  | unencodableMessage detail => "the message cannot be framed: " ++ detail
  | messageTooLarge bytes limit =>
    "the peer sent at least " ++ toString bytes ++ " bytes on one line, over the " ++
      toString limit ++ " byte limit"
  | desynchronized detail => "the connection lost synchronization: " ++ detail.display
  | disconnected kind => "the peer disconnected: " ++ kind.display
  | cancelled => "the transport operation was cancelled"
  | writeFailed detail => "failed to write to the peer: " ++ detail
  | sendTimedOut => "the message could not be handed to the peer before the deadline"
  | requestTimedOut id =>
    "the peer did not answer request " ++ id.display ++ " before its deadline"
  | peerQueueFull capacity =>
    toString capacity ++ " peer messages are waiting unread, so a response cannot be reached; " ++
      "drain them with next_peer_message"
  | quarantined faultKind detail =>
    "the connection was quarantined by an earlier " ++ faultKind ++ " fault: " ++ detail

/-- Whether this failure ends the connection that raised it. -/
def isTerminal : TransportError → Bool
  | requestTimedOut .. | sendTimedOut | unencodableMessage .. | peerQueueFull .. => false
  | _ => true

end TransportError

/-- Why the conversation ended, remembered for the callers who arrive after. -/
inductive TerminalFault where
  | disconnected (kind : DisconnectKind)
  | cancelled
  | fault (kind detail : String)
deriving DecidableEq

namespace TerminalFault

def from_ : TransportError → TerminalFault
  | .disconnected kind => disconnected kind
  | .cancelled => cancelled
  | other => fault other.kind other.display

/-- The failure for a caller that arrived after it happened. -/
def error (self : TerminalFault) (hadOutstanding : Bool) : TransportError :=
  match self with
  | disconnected kind =>
    .disconnected (if kind = .idle ∧ hadOutstanding then .exitBeforeResponse else kind)
  | cancelled => .cancelled
  | fault kind detail => .quarantined kind detail

end TerminalFault

end Harkness.Transport
