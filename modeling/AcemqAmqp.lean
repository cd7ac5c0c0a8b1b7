import AcemqAmqp.Foundations.Program
import AcemqAmqp.Foundations.Expansion
import AcemqAmqp.Foundations.Once
import AcemqAmqp.Foundations.Interleaving
import AcemqAmqp.Foundations.Rely
import AcemqAmqp.Foundations.Ledger
import AcemqAmqp.Foundations.Json
import AcemqAmqp.Foundations.Dict
import AcemqAmqp.Foundations.Tally
import AcemqAmqp.Foundations.Sorting
import AcemqAmqp.Foundations.Fallible
import AcemqAmqp.Foundations.AllOrNone
import AcemqAmqp.Foundations.Binary64
import AcemqAmqp.Wire.Text
import AcemqAmqp.Wire.Instant
import AcemqAmqp.Wire.Value
import AcemqAmqp.Wire.Envelope
import AcemqAmqp.Wire.RoundTrip
import AcemqAmqp.Core.Failure
import AcemqAmqp.Core.Json
import AcemqAmqp.Core.Retry
import AcemqAmqp.Core.Schedule
import AcemqAmqp.Core.Transport
import AcemqAmqp.Consumer.Handle
import AcemqAmqp.Consumer.Course
import AcemqAmqp.Consumer.Safety
import AcemqAmqp.Consumer.Attempts
import AcemqAmqp.Replay.Replay
import AcemqAmqp.Replay.Rounds
import AcemqAmqp.Replay.Conservation
import AcemqAmqp.Replay.Destination
import AcemqAmqp.RequestReply.Serve
import AcemqAmqp.RequestReply.ReturnAddress
import AcemqAmqp.RequestReply.Pairing
import AcemqAmqp.Consumer.Undeliverable
import AcemqAmqp.Outbox.Record
import AcemqAmqp.Topology.Broker
import AcemqAmqp.Topology.Description
import AcemqAmqp.Topology.Failures
import AcemqAmqp.Topology.Agreement
import AcemqAmqp.Topology.Ladders
import AcemqAmqp.Scheduler.Ladder
import AcemqAmqp.Scheduler.Moves
import AcemqAmqp.Scheduler.Refused
import AcemqAmqp.Scheduler.Journey
import AcemqAmqp.Scheduler.Convergence
import AcemqAmqp.RoutingSlip.Slip
import AcemqAmqp.RoutingSlip.WireForms
import AcemqAmqp.RoutingSlip.Follower
import AcemqAmqp.RoutingSlip.Pipeline
import AcemqAmqp.RoutingSlip.Runs
import AcemqAmqp.RoutingSlip.Hops
import AcemqAmqp.Consumer.Chain
import AcemqAmqp.Consumer.Settling
import AcemqAmqp.Consumer.Runtime
import AcemqAmqp.Consumer.Shutdown
import AcemqAmqp.Consumer.Draining
import AcemqAmqp.Streams.Position
import AcemqAmqp.Streams.Reader
import AcemqAmqp.Streams.Stopping
import AcemqAmqp.Streams.Finality
import AcemqAmqp.Saga.Saga
import AcemqAmqp.Codecs.Codec
import AcemqAmqp.Codecs.Encrypted
import AcemqAmqp.Codecs.Rotation
import AcemqAmqp.Codecs.ClaimCheck
import AcemqAmqp.Codecs.ClaimStores
import AcemqAmqp.Codecs.Xml
import AcemqAmqp.Foundations.Url
import AcemqAmqp.Connection.Credentials
import AcemqAmqp.Codecs.Avro
import AcemqAmqp.Codecs.Framing
import AcemqAmqp.Foundations.Exposition
import AcemqAmqp.Telemetry.Metrics
import AcemqAmqp.Telemetry.Scrape
import AcemqAmqp.Telemetry.Counters
import AcemqAmqp.Foundations.Tasks
import AcemqAmqp.Publishing.Permits
import AcemqAmqp.Registry.InMemory
import AcemqAmqp.Registry.Sql
import AcemqAmqp.Registry.Serial
import AcemqAmqp.Registry.Sequential
import AcemqAmqp.Foundations.FairLock
import AcemqAmqp.Ordering.KeyedLocks
import AcemqAmqp.Ordering.InTurn
import AcemqAmqp.Idempotency.InMemory
import AcemqAmqp.Idempotency.SqlStore
import AcemqAmqp.Idempotency.Leases
import AcemqAmqp.Idempotency.Guard
import AcemqAmqp.Idempotency.Deliveries
import AcemqAmqp.Idempotency.Stores
import AcemqAmqp.Outbox.SqlStore
import AcemqAmqp.Topology.Closure
import AcemqAmqp.Consumer.Startup
import AcemqAmqp.Consumer.Undoing
import AcemqAmqp.Consumer.Group
import AcemqAmqp.RoutingSlip.Running
import AcemqAmqp.Outbox.InMemory
import AcemqAmqp.Outbox.Order
import AcemqAmqp.Outbox.Delivery
import AcemqAmqp.Outbox.Protocol
import AcemqAmqp.Outbox.Outage
import AcemqAmqp.Pipeline.Then
import AcemqAmqp.Pipeline.Lineage
import AcemqAmqp.Telemetry.Spans
import AcemqAmqp.Telemetry.Transparency
import AcemqAmqp.Telemetry.Joining
