import AcemqAmqp.Core.Failure
import AcemqAmqp.Wire.Envelope

/-!
# Messages, deliveries, and publishing

What goes to the broker and what comes from it, the queue names the library
shares with its siblings, and `Connection.publish_raw` as a function of what
happened to the publish.
-/

namespace AcemqAmqp

/-! ## Naming -/

/-- `dead_letter_queue`. -/
def deadLetterQueue (queue : String) : String := queue ++ ".dlq"

/-- `parked_queue`. -/
def parkedQueue (queue : String) : String := queue ++ ".parked"

/-- `_short`: a duration as the shortest thing that reads as one. -/
def short (delay : Duration) : String :=
  let seconds := Binary64.truncate (Binary64.binary64 (delay / 1000000))
  if seconds ≤ 0 then "0s"
  else if seconds % 3600 = 0 then toString (seconds / 3600) ++ "h"
  else if seconds % 60 = 0 then toString (seconds / 60) ++ "m"
  else toString seconds ++ "s"

/-- `retry_queue`. -/
def retryQueue (queue : String) (delay : Duration) : String := queue ++ ".retry." ++ short delay

variable {queue : String} {delay delay' : Duration}

theorem retryQueue_inj : retryQueue queue delay = retryQueue queue delay' ↔ short delay = short delay' := by
  simp only [retryQueue, String.append_right_inj]

theorem retryQueue_ne_deadLetterQueue : retryQueue queue delay ≠ deadLetterQueue queue := by
  rw [retryQueue, deadLetterQueue, String.append_assoc, ne_eq, String.append_right_inj]
  intro h
  have hchars := congrArg String.toList h
  simp at hchars

theorem retryQueue_ne_parkedQueue : retryQueue queue delay ≠ parkedQueue queue := by
  rw [retryQueue, parkedQueue, String.append_assoc, ne_eq, String.append_right_inj]
  intro h
  have hchars := congrArg String.toList h
  simp at hchars

theorem deadLetterQueue_ne_self : deadLetterQueue queue ≠ queue := by
  intro h
  have hlength := congrArg String.length h
  simp [deadLetterQueue] at hlength

theorem parkedQueue_ne_self : parkedQueue queue ≠ queue := by
  intro h
  have hlength := congrArg String.length h
  simp [parkedQueue] at hlength

theorem retryQueue_ne_self : retryQueue queue delay ≠ queue := by
  intro h
  have hlength := congrArg String.length h
  simp only [retryQueue, String.length_append] at hlength
  have hmiddle : ".retry.".length = 7 := by decide
  omega

theorem parkedQueue_ne_deadLetterQueue (queue : String) : parkedQueue queue ≠ deadLetterQueue queue := by
  rw [parkedQueue, deadLetterQueue, ne_eq, String.append_right_inj]
  decide

/-! ## What travels -/

/-- A message on its way to the broker, already encoded. -/
structure Outbound where
  body : Bytes
  contentType : String
  messageId : String
  replyTo : String
  headers : Dict String Value
  persistent : Bool
  mandatory : Bool

/-- What the broker said about a published message. -/
structure PublishResult where
  messageId : String
  confirmed : Bool
  routed : Bool
  returnReason : String
  deriving DecidableEq

/-- A message as it arrived.  `tag` stands for the `ack` and `nack` it came with. -/
structure Delivery where
  tag : ℕ
  body : Bytes
  contentType : Option String
  routingKey : String
  messageId : String
  headers : Dict String Value
  redelivered : Bool
  replyTo : String

/-- What `from_headers` raises where a delivery has no envelope. -/
def Delivery.unreadable (d : Delivery) (now : Instant) : Failure :=
  noDatetime (number (d.headers.get? Headers.firstSeen) (millis now))

/-! ## Publishing -/

/-- What can happen to one publish: the connection is blocked, no permit comes
free in time, no confirm comes in time, or the transport answers or raises. -/
inductive BrokerAnswer
  | blocked (reason : Option String)
  | noPermit
  | unconfirmed
  | answered (result : PublishResult)
  | raised (failure : Failure)
  deriving DecidableEq

/-- The settings of a connection that a publish reads. -/
structure Connection where
  confirmTimeout : Duration
  maxOutstanding : ℕ

/-- `_blocked_detail`. -/
def blockedDetail (reason : Option String) : String :=
  let detail := "the broker has blocked this connection; publishing is paused"
  match reason with
  | none => detail
  | some words => if words = "" then detail else detail ++ ": " ++ words

/-- `publish_raw`: what its caller sees.  A nack is raised; a returned message
is not, and neither is one published without confirms. -/
def Connection.publishRaw (c : Connection) (exchange routingKey : String) (message : Outbound) :
    BrokerAnswer → Except Failure PublishResult
  | .blocked reason => .error <| .publishingPaused message.messageId exchange routingKey <|
      blockedDetail reason ++ ". Nothing was sent; back off and retry once the broker unblocks"
  | .noPermit => .error <| .publishError message.messageId exchange routingKey <|
      toString c.maxOutstanding ++ " publishes are already waiting for a confirm and none " ++
        "completed within " ++ c.confirmTimeout.str ++ ". The broker is not keeping up; " ++
        "publish more slowly rather than buffering more."
  | .unconfirmed => .error <| .publishError message.messageId exchange routingKey <|
      "the broker did not confirm this publish within " ++ c.confirmTimeout.str ++
        ". It may or may not have been stored, so treat it as neither sent nor lost"
  | .raised failure => .error failure
  | .answered result =>
      if result.confirmed = false ∧ result.routed = true then
        .error <| .publishError message.messageId exchange routingKey <|
          "the broker refused to confirm it. The message reached the broker and the broker " ++
            "has not taken responsibility for it, so it must be treated as not sent"
      else .ok result

/-- The broker took the message, and some queue has it. -/
def BrokerAnswer.delivered : BrokerAnswer → Bool
  | .answered result => result.confirmed && result.routed
  | _ => false

/-- A publish that returns a routed result was confirmed. -/
theorem publishRaw_routed_iff (c : Connection) (exchange routingKey : String) (message : Outbound)
    (answer : BrokerAnswer) :
    (∃ result, c.publishRaw exchange routingKey message answer = .ok result ∧
      result.routed = true) ↔ answer.delivered = true := by
  cases answer with
  | answered result =>
      cases hconfirmed : result.confirmed <;> cases hrouted : result.routed <;>
        simp [Connection.publishRaw, BrokerAnswer.delivered, hconfirmed, hrouted]
  | _ => simp [Connection.publishRaw, BrokerAnswer.delivered]

/-- What a publish raises is a `PublishError`, unless the transport raised something else. -/
theorem publishRaw_error {c : Connection} {exchange routingKey : String} {message : Outbound}
    {answer : BrokerAnswer} {f : Failure}
    (h : c.publishRaw exchange routingKey message answer = .error f) :
    answer = .raised f ∨ f.isPublishError = true ∧ f.isException = true := by
  cases answer with
  | raised failure =>
      left
      simpa [Connection.publishRaw] using h
  | answered result =>
      right
      simp only [Connection.publishRaw] at h
      split at h
      · obtain rfl : _ = f := by simpa using h
        simp [Failure.isPublishError, Failure.isException, Failure.publishError]
      · cases h
  | _ =>
      right
      obtain rfl : _ = f := by simpa [Connection.publishRaw] using h
      simp [Failure.isPublishError, Failure.isException, Failure.publishError,
        Failure.publishingPaused]

/-! ## Publishers -/

/-- A `Publisher` with no interceptor.  `contentType` is its codec's, and `origin` its connection's. -/
structure Publisher where
  connection : Connection
  origin : String
  exchange : String
  routingKey : String
  contentType : String
  persistent : Bool
  mandatory : Bool

namespace Publisher

variable (p : Publisher)

/-- The envelope `send` gives a message: this process is where it comes from. -/
def outgoing (e : Envelope) : Envelope := if e.origin = "" then e.withOrigin p.origin else e

/-- The message `_send` publishes for an encoded payload. -/
def outbound (body : Bytes) (e : Envelope) : Outbound where
  body := body
  contentType := p.contentType
  messageId := (p.outgoing e).id
  replyTo := ""
  headers := (p.outgoing e).toHeaders p.routingKey
  persistent := p.persistent
  mandatory := p.mandatory

/-- `send`: what its caller sees.  A mandatory message that reached no queue is raised. -/
def sent (message : Outbound) (answer : BrokerAnswer) : Except Failure PublishResult :=
  match p.connection.publishRaw p.exchange p.routingKey message answer with
  | .error f => .error f
  | .ok result =>
      if p.mandatory = true ∧ result.routed = false then
        .error <| .unroutable message.messageId p.exchange p.routingKey <|
          orElse result.returnReason "no queue is bound to receive it"
      else .ok result

variable {p} {message : Outbound} {answer : BrokerAnswer}

/-- A mandatory publish returns exactly when the message was confirmed and routed. -/
theorem sent_ok_iff (hmandatory : p.mandatory = true) :
    (∃ result, p.sent message answer = .ok result) ↔ answer.delivered = true := by
  rw [← publishRaw_routed_iff p.connection p.exchange p.routingKey message answer]
  unfold sent
  cases p.connection.publishRaw p.exchange p.routingKey message answer with
  | error f => simp
  | ok result => cases hrouted : result.routed <;> simp [hmandatory, hrouted]

/-- What `send` raises is an exception, unless the transport raised something else. -/
theorem sent_error {f : Failure} (h : p.sent message answer = .error f) :
    answer = .raised f ∨ f.isException = true := by
  unfold sent at h
  cases hraw : p.connection.publishRaw p.exchange p.routingKey message answer with
  | error f' =>
      rw [hraw] at h
      obtain rfl := Except.error.inj h
      exact (publishRaw_error hraw).imp_right fun hpublish ↦ hpublish.2
  | ok result =>
      rw [hraw] at h
      simp only at h
      split at h
      · obtain rfl := Except.error.inj h
        exact .inr rfl
      · cases h

end Publisher

end AcemqAmqp
