import Koine.Library.Outcome
import Koine.Library.History
import Koine.Library.Select
import Koine.Domain.Time
import Koine.Domain.Ids
import Koine.Domain.Retry
import Koine.Domain.Events
import Koine.Domain.Job
import Koine.Domain.Fold
import Koine.Domain.Commands
import Koine.Application.Ports
import Koine.Application.UseCases
import Koine.Memory.Store
import Koine.Memory.Dispatcher
import Koine.Memory.Projection
import Koine.Memory.Steps
import Koine.Memory.Atomicity
import Koine.Memory.Consistency
import Koine.Memory.Operations
import Koine.Memory.Index
import Koine.Memory.Linearizable
import Koine.Memory.Delivery
import Koine.Memory.Fencing
import Koine.Memory.Heartbeat
import Koine.Memory.Health
import Koine.Memory.Recovery
import Koine.Library.Program
import Koine.Postgres.Statements
import Koine.Postgres.Adapters
import Koine.Postgres.Cluster
import Koine.Postgres.Protocol
import Koine.Postgres.Advance
import Koine.Postgres.Log
import Koine.Postgres.Coherence
import Koine.Postgres.Outbox
import Koine.Postgres.Relay
import Koine.Postgres.Alone
import Koine.Postgres.Twins
import Koine.Postgres.Behaviour
import Koine.Postgres.Agreement
import Koine.Memory.Lineage
import Koine.Memory.Backoff
import Koine.Memory.DeadLease
import Koine.Memory.Drain
import Koine.Memory.Inert
import Koine.Postgres.Serial
import Koine.Postgres.Ranks
import Koine.Postgres.Rebuild
import Koine.Postgres.ClaimOrder
import Koine.Postgres.Aims
import Koine.Postgres.Locks
import Koine.Postgres.Deadlock
import Koine.Library.Calendar
import Koine.Library.Codec
import Koine.Domain.Json
import Koine.Postgres.Encoding
import Koine.Domain.Jitter
import Koine.Application.Decisions
import Koine.Domain.Replay
import Koine.Memory.Commands
import Koine.Postgres.Deadlines
import Koine.Postgres.Eligibility
import Koine.Memory.Sweep
import Koine.Memory.Provenance
import Koine.Grpc.Service
import Koine.Grpc.Ceiling
import Koine.Postgres.Commits
import Koine.Postgres.Fencing
import Koine.SupplyChain.Shell
import Koine.Library.Tokens
import Koine.SupplyChain.Lexemes
import Koine.SupplyChain.Commands
import Koine.SupplyChain.Quoting
import Koine.SupplyChain.Substitution
import Koine.SupplyChain.Continuations
import Koine.SupplyChain.Scripts
import Koine.Library.Temporal
import Koine.Library.Stutter
import Koine.Library.Channel
import Koine.Formal.LeaseProtocol
import Koine.Formal.Settlement
import Koine.Formal.Simulation
import Koine.Memory.Refinement
import Koine.Grpc.Fetch
import Koine.Grpc.Streams
import Koine.Grpc.Handshake
import Koine.Library.Checks
import Koine.Library.Readings
import Koine.SupplyChain.RustLexer
import Koine.SupplyChain.Testcontainers
import Koine.SupplyChain.Workflows
import Koine.Postgres.Updates
import Koine.Postgres.Renewals
import Koine.Postgres.Calls
import Koine.Postgres.Refinement
import Koine.Library.Broadcast
import Koine.Postgres.Signals
import Koine.Postgres.Answers
