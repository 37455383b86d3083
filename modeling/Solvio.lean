import Solvio.AgentRuntime.Core
import Solvio.AgentRuntime.Frames
import Solvio.AgentRuntime.Orchestrator
import Solvio.AgentRuntime.Rules
import Solvio.Approval.ClaimAuthority
import Solvio.Approval.Refused
import Solvio.Approval.Spellings
import Solvio.Audio.Resample
import Solvio.Autopilot.Contract
import Solvio.Autopilot.Ledger
import Solvio.Autopilot.Machine
import Solvio.Autopilot.Parking
import Solvio.Autopilot.Payloads
import Solvio.Autopilot.Ready
import Solvio.Autopilot.Resume
import Solvio.BackgroundJobs.RunsOnce
import Solvio.Capabilities.ActionText
import Solvio.Capabilities.Bound
import Solvio.Capabilities.Described
import Solvio.Capabilities.Switched
import Solvio.Communication.Confirmed
import Solvio.Knowledge.RoundTrip
import Solvio.Knowledge.Okf
import Solvio.Lib.Calendar
import Solvio.Lib.Escapes
import Solvio.Lib.EventLoop
import Solvio.Lib.JsonLoads
import Solvio.Lib.JsonReaders
import Solvio.Lib.JsonText
import Solvio.Lib.Lease
import Solvio.Lib.Programs
import Solvio.Lib.Raises
import Solvio.Lib.Sums
import Solvio.Lib.Url
import Solvio.Memory.Asked
import Solvio.Memory.Authority
import Solvio.Memory.Certainty
import Solvio.Memory.Chains
import Solvio.Memory.Guards
import Solvio.Memory.Pending
import Solvio.Memory.Purged
import Solvio.Memory.Refusals
import Solvio.Memory.Retention
import Solvio.Memory.Vectors
import Solvio.Nodes.Breaker
import Solvio.Payment.Bookings
import Solvio.Payment.DayLimit
import Solvio.Payment.Limits
import Solvio.Payment.RefundTurns
import Solvio.Payment.Refunds
import Solvio.Payment.StateMap
import Solvio.Portal.OneWrite
import Solvio.Proactive.Occurrences
import Solvio.Proactive.Outage
import Solvio.Proactive.Reports
import Solvio.ProviderBroker.Abort
import Solvio.ProviderBroker.Access
import Solvio.ProviderBroker.Buffer
import Solvio.ProviderBroker.Gates
import Solvio.ProviderBroker.LeaseZero
import Solvio.ProviderBroker.Restart
import Solvio.ProviderBroker.Sniffing
import Solvio.Realtime.BargeIn
import Solvio.Realtime.Handshake
import Solvio.Realtime.Pump
import Solvio.SecretVault.Admin
import Solvio.SecretVault.Blocked
import Solvio.SecretVault.Endpoint
import Solvio.SecretVault.Sealed
import Solvio.SecretVault.Signed
import Solvio.SecretVault.Widened
import Solvio.Security.ApprovalBroker
import Solvio.Telephony.Dialled
import Solvio.Telephony.Truth
import Solvio.Voice.Endpoint
import Solvio.Knowledge.RoundTrip
import Solvio.Storage.Retention
import Solvio.Storage.Sets
import Solvio.Deep.Stream
import Solvio.Deep.Runtime
