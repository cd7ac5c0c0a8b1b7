import AcemqAmqp.Codecs.Codec
import AcemqAmqp.Core.Json
import AcemqAmqp.Core.Transport

/-!
# Records of the outbox

A record is a message that has been decided but not yet published.  In a
database it is a row: its headers are JSON and its instant is a number of
milliseconds.
-/

namespace AcemqAmqp

namespace Outbox

/-- `OutboxRecord`. -/
structure OutboxRecord where
  id : String
  exchange : String
  routingKey : String
  body : Bytes
  contentType : String
  headers : Dict String Value
  createdAt : Instant
  attempts : ℕ
  lastError : String

/-- `record`.  An envelope that is not given is a new one, with the identifier
`fresh` and the time `firstSeen`; the record is written `now`. -/
def record {Payload : Type} (origin exchange routingKey : String) (writer : Codec Payload) (payload : Payload)
    (envelope : Option Envelope) (fresh : String) (firstSeen now : Instant) : Except Failure OutboxRecord := do
  let outgoing := envelope.getD ((Envelope.new fresh "" firstSeen).withOrigin origin)
  let outgoing := if outgoing.origin = "" then outgoing.withOrigin origin else outgoing
  let body ← writer.encode payload
  return {
    id := outgoing.id
    exchange := exchange
    routingKey := routingKey
    body := body
    contentType := writer.contentType
    headers := outgoing.toHeaders routingKey
    createdAt := now
    attempts := 0
    lastError := "" }

/-- What the relay publishes for a record. -/
def OutboxRecord.outbound (entry : OutboxRecord) : Outbound where
  body := entry.body
  contentType := entry.contentType
  messageId := entry.id
  replyTo := ""
  headers := entry.headers
  persistent := true
  mandatory := true

end Outbox

end AcemqAmqp
