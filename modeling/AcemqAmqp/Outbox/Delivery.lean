import AcemqAmqp.Foundations.Rely
import AcemqAmqp.Outbox.Order
import AcemqAmqp.Outbox.Relay

/-!
# From the transaction to the queue

Callers add records in transactions of their own, and one relay sweeps the table,
statement by statement.  Statements fail, answers are lost, transactions roll back
and processes are cut off.  A committed record stays in the table until a publish
of it has been taken.
-/

namespace AcemqAmqp

namespace Outbox

open Interaction

/-- A publish that was asked for, and what the broker said. -/
structure Sending where
  exchange : String
  routingKey : String
  message : Outbound
  answer : BrokerAnswer

/-- The database: what is committed, and what each caller has written in the transaction it has
open; with what has been committed and sent so far, which nobody reads. -/
structure World (C : Type) where
  table : List Row
  opened : C → List (OutboxRecord × Row)
  committed : List OutboxRecord
  sent : List Sending

variable {C : Type}

namespace World

variable (s : World C) (c : C)

/-- The rows that a statement of the caller sees. -/
def visible : List Row := s.table ++ (s.opened c).map Prod.snd

/-- The rows are locked until their transaction ends. -/
def Locked (entryId : String) : Prop := ∃ e ∈ s.opened c, e.2.id = entryId

end World

section answers

variable [DecidableEq C]

namespace World

variable (s : World C) (c : C)

/-- The caller's transaction is over, and nothing came of it. -/
def rolledBack : World C := { s with opened := Function.update s.opened c [] }

/-- The caller's transaction is over, and all of it is there. -/
def committedBy : World C where
  table := s.table ++ (s.opened c).map Prod.snd
  opened := Function.update s.opened c []
  committed := s.committed ++ (s.opened c).map Prod.fst
  sent := s.sent

end World

/-- How the database and the broker answer, the relay (`none`) and the callers.  A statement of the
relay can fail before it was executed or after, and so can a commit, which may also leave its
transaction open; what a caller adds waits for transactions that hold a record of the same identifier. -/
inductive Answers (store : SqlOutboxStore) (s : World C) : Option C → (q : Ask) → q.Answer → World C → Prop
  | pending (limit : ℤ) : Answers store s none (.pending limit) (store.pending limit s.table) s
  | unread (limit : ℤ) (failure : Failure) : Answers store s none (.pending limit) (.error failure) s
  | published (exchange routingKey : String) (message : Outbound) (answer : BrokerAnswer) :
      Answers store s none (.publish exchange routingKey message) answer
        { s with sent := s.sent ++ [⟨exchange, routingKey, message, answer⟩] }
  | recorded (entryId error : String) (r : Except Failure Unit) :
      Answers store s none (.recordFailure entryId error) r
        { s with table := store.recordFailure entryId error s.table }
  | unrecorded (entryId error : String) (failure : Failure) :
      Answers store s none (.recordFailure entryId error) (.error failure) s
  | marked (entryId : String) (r : Except Failure Unit) :
      Answers store s none (.markPublished entryId) r { s with table := store.markPublished entryId s.table }
  | unmarked (entryId : String) (failure : Failure) :
      Answers store s none (.markPublished entryId) (.error failure) s
  | added {c : C} {entry : OutboxRecord} {new : List Row} : (∀ c', c' ≠ c → ¬s.Locked c' entry.id) →
      store.add entry (s.visible c) = .ok (s.visible c ++ new) →
      Answers store s (some c) (.add entry) (.ok ())
        { s with opened := Function.update s.opened c (s.opened c ++ new.map fun row ↦ (entry, row)) }
  | refused (c : C) (entry : OutboxRecord) (failure : Failure) :
      Answers store s (some c) (.add entry) (.error failure) s
  | committed (c : C) (r : Except Failure Unit) : Answers store s (some c) .commit r (s.committedBy c)
  | uncommitted (c : C) (failure : Failure) : Answers store s (some c) .commit (.error failure) (s.rolledBack c)
  | undecided (c : C) (failure : Failure) : Answers store s (some c) .commit (.error failure) s
  | rolledBack (c : C) (r : Except Failure Unit) : Answers store s (some c) .rollback r (s.rolledBack c)

end answers

/-! ## What is promised -/

/-- The row says what the record says. -/
structure Holds (entry : OutboxRecord) (row : Row) : Prop where
  id : row.id = entry.id
  exchange : row.exchangeName = entry.exchange
  routingKey : row.routingKey = entry.routingKey
  body : row.body = entry.body
  contentType : row.contentType = entry.contentType
  headers : loadsHeaders row.headers = entry.headers

/-- What was sent is this record, to the letter. -/
structure Sending.Of (sending : Sending) (entry : OutboxRecord) : Prop where
  exchange : sending.exchange = entry.exchange
  routingKey : sending.routingKey = entry.routingKey
  message : sending.message = entry.outbound

/-- A publish of the record was confirmed, and some queue has it. -/
def Delivered (s : World C) (entry : OutboxRecord) : Prop :=
  ∃ sending ∈ s.sent, sending.Of entry ∧ sending.answer.delivered = true

/-- Nothing is lost and nothing is made up. -/
structure Safe (store : SqlOutboxStore) (s : World C) : Prop where
  sent : ∀ sending ∈ s.sent, ∃ entry ∈ s.committed, sending.Of entry
  kept : ∀ entry ∈ s.committed, Delivered s entry ∨
    ∃ row ∈ s.table, Holds entry row ∧ (row ∈ store.waiting 0 s.table ∨ store.maxAttempts ≤ row.attempts)
  one : (s.table.map Row.id).Nodup

/-! ## What every step keeps -/

theorem Holds.same {entry entry' : OutboxRecord} {row : Row} (h : Holds entry row) (h' : Holds entry' row) :
    entry.target = entry'.target := by
  rw [OutboxRecord.target, OutboxRecord.target, OutboxRecord.outbound, OutboxRecord.outbound, ← h.id, ← h.exchange,
    ← h.routingKey, ← h.body, ← h.contentType, ← h.headers, h'.id, h'.exchange, h'.routingKey, h'.body,
    h'.contentType, h'.headers]

theorem Sending.Of.congr {sending : Sending} {entry entry' : OutboxRecord} (h : sending.Of entry)
    (hsame : entry.target = entry'.target) : sending.Of entry' := by
  obtain ⟨hexchange, htail⟩ := Prod.mk.inj hsame
  obtain ⟨hkey, hmessage⟩ := Prod.mk.inj htail
  exact ⟨h.exchange.trans hexchange, h.routingKey.trans hkey, h.message.trans hmessage⟩

/-- Identifiers are taken once, by a row or by a transaction that has yet to end; rows say what was
committed; what was committed is there or delivered; and what was sent was committed. -/
structure Kept (s : World C) : Prop where
  ids : (s.table.map Row.id).Nodup
  locked : ∀ c, ((s.opened c).map fun e ↦ e.2.id).Nodup
  apart : ∀ c, ∀ e ∈ s.opened c, e.2.id ∉ s.table.map Row.id
  alone : ∀ c c', c' ≠ c → ∀ e ∈ s.opened c, ¬s.Locked c' e.2.id
  written : ∀ c, ∀ e ∈ s.opened c, Holds e.1 e.2
  held : ∀ row ∈ s.table, ∃ entry ∈ s.committed, Holds entry row
  kept : ∀ entry ∈ s.committed, Delivered s entry ∨ ∃ row ∈ s.table, Holds entry row
  sent : ∀ sending ∈ s.sent, ∃ entry ∈ s.committed, sending.Of entry

variable {store : SqlOutboxStore} {s s' : World C} {c : C} {entry : OutboxRecord}

theorem Kept.publish (h : Kept s) {sending : Sending} (hsent : ∃ entry ∈ s.committed, sending.Of entry) :
    Kept { s with sent := s.sent ++ [sending] } := by
  refine { h with kept := fun entry hentry ↦ ?_, sent := fun sending' hmem ↦ ?_ }
  · refine (h.kept entry hentry).imp_left ?_
    rintro ⟨sending', hmem, hof⟩
    exact ⟨sending', List.mem_append_left _ hmem, hof⟩
  · obtain hmem | hmem := List.mem_append.mp hmem
    · exact h.sent sending' hmem
    · rwa [List.mem_singleton.mp hmem]

theorem SqlOutboxStore.mem_recordFailure (store : SqlOutboxStore) {table : List Row} {entryId error : String}
    {row : Row} : row ∈ store.recordFailure entryId error table ↔ ∃ row' ∈ table, row =
      if row'.id = entryId then
        { row' with attempts := row'.attempts + 1, lastError := some (String.ofList (error.toList.take 1000)) }
      else row' := by
  rw [SqlOutboxStore.recordFailure, List.mem_map]
  exact exists_congr fun row' ↦ and_congr_right fun _ ↦ eq_comm

theorem holds_ite {entry : OutboxRecord} {row : Row} {p : Prop} [Decidable p] {attempts : ℕ}
    {lastError : Option String} :
    Holds entry (if p then { row with attempts := attempts, lastError := lastError } else row) ↔ Holds entry row := by
  split
  · exact ⟨fun h ↦ ⟨h.id, h.exchange, h.routingKey, h.body, h.contentType, h.headers⟩,
      fun h ↦ ⟨h.id, h.exchange, h.routingKey, h.body, h.contentType, h.headers⟩⟩
  · rfl

theorem Kept.recordFailure (h : Kept s) (entryId error : String) :
    Kept { s with table := store.recordFailure entryId error s.table } := by
  have hids : (store.recordFailure entryId error s.table).map Row.id = s.table.map Row.id := by
    rw [SqlOutboxStore.recordFailure, List.map_map]
    refine List.map_congr_left fun row _ ↦ ?_
    rw [Function.comp_apply]
    split
    · rfl
    · rfl
  refine { h with ids := hids ▸ h.ids, apart := fun c e he ↦ hids ▸ h.apart c e he, held := fun row hrow ↦ ?_,
                  kept := fun entry hentry ↦ (h.kept entry hentry).imp_right ?_ }
  · obtain ⟨row', hrow', rfl⟩ := store.mem_recordFailure.mp hrow
    obtain ⟨entry, hentry, hholds⟩ := h.held row' hrow'
    exact ⟨entry, hentry, holds_ite.mpr hholds⟩
  · rintro ⟨row, hrow, hholds⟩
    exact ⟨_, store.mem_recordFailure.mpr ⟨row, hrow, rfl⟩, holds_ite.mpr hholds⟩

theorem Kept.markPublished (h : Kept s) {entryId : String}
    (hdelivered : ∀ row ∈ s.table, row.id = entryId → ∀ entry, Holds entry row → Delivered s entry) :
    Kept { s with table := store.markPublished entryId s.table } := by
  have hsub : (store.markPublished entryId s.table).Sublist s.table := List.filter_sublist
  refine { h with ids := h.ids.sublist (hsub.map _), apart := fun c e he hmem ↦ ?_, held := fun row hrow ↦ ?_,
                  kept := fun entry hentry ↦ ?_ }
  · exact h.apart c e he ((hsub.map _).subset hmem)
  · exact h.held row (hsub.subset hrow)
  · obtain hdone | ⟨row, hrow, hholds⟩ := h.kept entry hentry
    · exact .inl hdone
    · by_cases hid : row.id = entryId
      · exact .inl (hdelivered row hrow hid entry hholds)
      · exact .inr ⟨row, List.mem_filter.mpr ⟨hrow, decide_eq_true hid⟩, hholds⟩

/-- Transactions that hold less. -/
theorem Kept.fewer (h : Kept s) {opened : C → List (OutboxRecord × Row)}
    (hsub : ∀ c, (opened c).Sublist (s.opened c)) : Kept { s with opened := opened } where
  ids := h.ids
  locked c := (h.locked c).sublist ((hsub c).map _)
  apart c e he := h.apart c e ((hsub c).subset he)
  alone c c' hne e he := by
    rintro ⟨e', he', hid⟩
    exact h.alone c c' hne e ((hsub c).subset he) ⟨e', (hsub c').subset he', hid⟩
  written c e he := h.written c e ((hsub c).subset he)
  held := h.held
  kept := h.kept
  sent := h.sent

section transactions

variable [DecidableEq C]

theorem sublist_update (opened : C → List (OutboxRecord × Row)) (c c' : C) :
    (Function.update opened c [] c').Sublist (opened c') := by
  by_cases hc : c' = c
  · subst hc
    rw [Function.update_self]
    exact List.nil_sublist _
  · rw [Function.update_of_ne hc]

theorem Kept.rolledBack (h : Kept s) (c : C) : Kept (s.rolledBack c) := h.fewer (sublist_update s.opened c)

theorem Kept.committedBy (h : Kept s) (c : C) : Kept (s.committedBy c) := by
  have hover := h.rolledBack c
  have hopened : ∀ row ∈ (s.opened c).map Prod.snd, ∃ e ∈ s.opened c, e.2 = row := fun row ↦ List.mem_map.mp
  refine { hover with ids := ?_, apart := fun c' e (he : e ∈ Function.update s.opened c [] c') hmem ↦ ?_,
                      held := fun row hrow ↦ ?_, kept := fun entry hentry ↦ ?_, sent := fun sending hmem ↦ ?_ }
  · rw [World.committedBy, List.map_append, List.map_map]
    refine List.nodup_append.mpr ⟨h.ids, h.locked c, ?_⟩
    rintro _ hid _ hid' rfl
    obtain ⟨e, he, hid'⟩ := List.mem_map.mp hid'
    rw [← hid'] at hid
    exact h.apart c e he hid
  · by_cases hc : c' = c
    · rw [hc, Function.update_self] at he
      exact absurd he List.not_mem_nil
    · rw [Function.update_of_ne hc] at he
      rw [World.committedBy, List.map_append, List.map_map] at hmem
      obtain hmem | hmem := List.mem_append.mp hmem
      · exact h.apart c' e he hmem
      · exact h.alone c' c (Ne.symm hc) e he (List.mem_map.mp hmem)
  · obtain hrow | hrow := List.mem_append.mp hrow
    · obtain ⟨entry, hentry, hholds⟩ := h.held row hrow
      exact ⟨entry, List.mem_append_left _ hentry, hholds⟩
    · obtain ⟨e, he, rfl⟩ := hopened row hrow
      exact ⟨e.1, List.mem_append_right _ (List.mem_map_of_mem he), h.written c e he⟩
  · obtain hentry | hentry := List.mem_append.mp hentry
    · refine (h.kept entry hentry).imp_right ?_
      rintro ⟨row, hrow, hholds⟩
      exact ⟨row, List.mem_append_left _ hrow, hholds⟩
    · obtain ⟨e, he, rfl⟩ := List.mem_map.mp hentry
      exact .inr ⟨e.2, List.mem_append_right _ (List.mem_map_of_mem he), h.written c e he⟩
  · obtain ⟨entry, hentry, hof⟩ := h.sent sending hmem
    exact ⟨entry, List.mem_append_left _ hentry, hof⟩

/-- What a caller adds is a row that says so, or nothing where the identifier is taken. -/
theorem added_iff {visible new : List Row} (hadd : store.add entry visible = .ok (visible ++ new)) :
    new = [] ∨ ∃ row, new = [row] ∧ Holds entry row ∧ entry.id ∉ visible.map Row.id := by
  obtain ⟨-, headers, hheaders, heq⟩ := store.add_ok_iff.mp hadd
  by_cases hmem : entry.id ∈ visible.map Row.id
  · rw [if_pos hmem] at heq
    exact .inl (List.append_right_eq_self.mp heq)
  · rw [if_neg hmem] at heq
    exact .inr ⟨_, List.append_cancel_left heq, ⟨rfl, rfl, rfl, rfl, rfl, loadsHeaders_of_dumps hheaders⟩, hmem⟩

theorem Kept.added (h : Kept s) {new : List Row} (hfree : ∀ c', c' ≠ c → ¬s.Locked c' entry.id)
    (hadd : store.add entry (s.visible c) = .ok (s.visible c ++ new)) :
    Kept { s with opened := Function.update s.opened c (s.opened c ++ new.map fun row ↦ (entry, row)) } := by
  obtain rfl | ⟨row, rfl, hholds, hmem⟩ := added_iff hadd
  · rw [List.map_nil, List.append_nil, Function.update_eq_self]
    exact h
  rw [World.visible, List.map_append, List.mem_append, not_or, List.map_map] at hmem
  -- what the transactions hold now
  have hopened : ∀ c' e, e ∈ Function.update s.opened c (s.opened c ++ [(entry, row)]) c' ↔
      e ∈ s.opened c' ∨ c' = c ∧ e = (entry, row) := by
    intro c' e
    by_cases hc : c' = c
    · subst hc
      rw [Function.update_self, List.mem_append, List.mem_singleton]
      exact or_congr_right (and_iff_right rfl).symm
    · rw [Function.update_of_ne hc]
      exact (or_iff_left fun hnew ↦ hc hnew.1).symm
  refine { h with locked := fun c' ↦ ?_, apart := fun c' e he ↦ ?_, alone := fun c' c'' hne e he ↦ ?_,
                  written := fun c' e he ↦ ?_ }
  · change ((Function.update s.opened c (s.opened c ++ [(entry, row)]) c').map fun e ↦ e.2.id).Nodup
    by_cases hc : c' = c
    · subst hc
      rw [Function.update_self, List.map_append]
      refine List.nodup_append.mpr ⟨h.locked _, List.nodup_singleton _, ?_⟩
      rintro _ hid _ hid' rfl
      rw [List.map_singleton, List.mem_singleton, hholds.id] at hid'
      exact hmem.2 (hid' ▸ hid)
    · rw [Function.update_of_ne hc]
      exact h.locked c'
  · obtain he | ⟨rfl, rfl⟩ := (hopened c' e).mp he
    · exact h.apart c' e he
    · exact hholds.id ▸ hmem.1
  · rintro ⟨e', he', hid⟩
    obtain hold | ⟨rfl, rfl⟩ := (hopened c' e).mp he
    · obtain hold' | ⟨rfl, rfl⟩ := (hopened c'' e').mp he'
      · exact h.alone c' c'' hne e hold ⟨e', hold', hid⟩
      · exact hfree c' hne.symm ⟨e, hold, hid.symm.trans hholds.id⟩
    · obtain hold' | ⟨rfl, rfl⟩ := (hopened c'' e').mp he'
      · exact hfree c'' hne ⟨e', hold', hid.trans hholds.id⟩
      · exact hne rfl
  · obtain he | ⟨rfl, rfl⟩ := (hopened c' e).mp he
    · exact h.written c' e he
    · exact hholds

end transactions

/-! ## One relay, any callers -/

/-- What the relay counts on: nobody else removes a row or unsays what was sent.  The callers count
on nothing. -/
def promises : Pact (Option C) (World C) where
  inv := Kept
  rely d s s' := d = none → (∀ row ∈ s.table, row ∈ s'.table) ∧ s.sent = s'.sent
  keeps d s s' := d ≠ none → (∀ row ∈ s.table, row ∈ s'.table) ∧ s.sent = s'.sent
  rely_refl _ _ _ := ⟨fun _ ↦ id, rfl⟩
  rely_trans _ _ _ _ h h' hd := ⟨fun row hrow ↦ (h' hd).1 row ((h hd).1 row hrow), (h hd).2.trans (h' hd).2⟩
  rely_of_keeps _ _ _ _ _ hne hkeeps hd := hkeeps fun hnone ↦ hne (hnone.trans hd.symm)

theorem Kept.row_eq (h : Kept s) {row row' : Row} (hrow : row ∈ s.table) (hrow' : row' ∈ s.table)
    (hid : row.id = row'.id) : row = row' := List.inj_on_of_nodup_map h.ids hrow hrow' hid

/-- Who holds a row that was sent has been delivered. -/
theorem Delivered.congr {entry' : OutboxRecord} (h : Delivered s entry) (hsame : entry.target = entry'.target) :
    Delivered s entry' := by
  obtain ⟨sending, hmem, hof, hdelivered⟩ := h
  exact ⟨sending, hmem, hof.congr hsame, hdelivered⟩

variable [DecidableEq C]

theorem promises_caller (c : C) (s : World C) (q : Ask) (r : q.Answer) (s' : World C) (h : Kept s)
    (hanswer : Answers store s (some c) q r s') : Kept s' ∧ promises.keeps (some c) s s' := by
  cases hanswer with
  | added hfree hadd => exact ⟨h.added hfree hadd, fun _ ↦ ⟨fun _ ↦ id, rfl⟩⟩
  | refused | undecided => exact ⟨h, fun _ ↦ ⟨fun _ ↦ id, rfl⟩⟩
  | committed => exact ⟨h.committedBy c, fun _ ↦ ⟨fun _ ↦ List.mem_append_left _, rfl⟩⟩
  | uncommitted | rolledBack => exact ⟨h.rolledBack c, fun _ ↦ ⟨fun _ ↦ id, rfl⟩⟩

/-- The record that was read is still there. -/
def Standing (entry : OutboxRecord) (s : World C) : Prop := ∃ row ∈ s.table, Holds entry row

/-- From this state on the relay keeps the promises with this program. -/
def RelayKeeps {α : Type} (store : SqlOutboxStore) (p : Program Outboxing Failure α) (s : World C) : Prop :=
  p.Meets promises (Answers store) none (fun _ _ ↦ True) s

theorem relayKeeps_ret {α : Type} (a : α) : RelayKeeps store (.ret a) s := fun _ _ _ ↦ trivial

theorem relayKeeps_raise {α : Type} (failure : Failure) :
    RelayKeeps store (.raise failure : Program Outboxing Failure α) s := fun _ _ _ ↦ trivial

theorem RelayKeeps.bind {α β : Type} {p : Program Outboxing Failure α} {f : α → Program Outboxing Failure β}
    (hs : Kept s) (hp : RelayKeeps store p s) (hf : ∀ a (s' : World C), Kept s' → RelayKeeps store (f a) s') :
    RelayKeeps store (p.bind f) s := by
  refine Program.Meets.bind hs (hp.and_inv.mono fun x s' hx ↦ ?_)
  cases x with
  | ok a => exact hf a s' hx.1
  | error failure => exact relayKeeps_raise failure

/-- A failure is counted against its record and raised. -/
theorem relayKeeps_refused {α : Type} (failure : Failure) (next : Unit → Program Outboxing Failure α) :
    RelayKeeps store (Program.bind (if failure.isException = true then do
      Program.call (I := Outboxing) (.recordFailure entry.id (reason failure)) id
      Program.raise failure
    else .raise failure) next) s := by
  split
  · intro s' hs' _ r s'' hanswer
    cases hanswer with
    | recorded =>
        refine ⟨hs'.recordFailure entry.id (reason failure), fun hd ↦ absurd rfl hd, ?_⟩
        cases r with
        | ok _ => exact relayKeeps_raise failure
        | error other => exact relayKeeps_raise other
    | unrecorded => exact ⟨hs', fun hd ↦ absurd rfl hd, relayKeeps_raise _⟩
  · exact relayKeeps_raise failure

omit [DecidableEq C] in
/-- What the relay counts on of a record that it has read. -/
theorem Standing.stays (h : Standing entry s) (hrely : promises.rely none s s') : Standing entry s' := by
  obtain ⟨row, hrow, hholds⟩ := h
  exact ⟨row, (hrely rfl).1 row hrow, hholds⟩

/-- A record whose publish was taken is removed, and the others are gone on with. -/
theorem relayKeeps_mark {p : Program Outboxing Failure ℕ} {rest : List OutboxRecord}
    (hid : entry.id ∉ rest.map OutboxRecord.id) (hentry : Standing entry s) (hdelivered : Delivered s entry)
    (hstanding : ∀ entry ∈ rest, Standing entry s)
    (hp : ∀ s : World C, Kept s → (∀ entry ∈ rest, Standing entry s) → RelayKeeps store p s) :
    RelayKeeps store ((Program.call (I := Outboxing) (.markPublished entry.id) id).bind fun () ↦ p) s := by
  intro s₁ hs₁ hrely r s₂ hanswer
  obtain ⟨row, hrow, hholds⟩ := hentry.stays hrely
  cases hanswer with
  | unmarked => exact ⟨hs₁, fun hd ↦ absurd rfl hd, relayKeeps_raise _⟩
  | marked =>
      have hgone : ∀ row' ∈ s₁.table, row'.id = entry.id → ∀ entry', Holds entry' row' → Delivered s₁ entry' := by
        intro row' hrow' hid' entry' hholds'
        obtain rfl := hs₁.row_eq hrow hrow' (hholds.id.trans hid'.symm)
        have hsent : Delivered s₁ entry := by
          rw [Delivered, ← (hrely rfl).2]
          exact hdelivered
        exact hsent.congr (hholds.same hholds')
      have hleft : ∀ entry' ∈ rest, Standing entry' { s₁ with table := store.markPublished entry.id s₁.table } := by
        intro entry' hmem
        obtain ⟨row', hrow', hholds'⟩ := (hstanding entry' hmem).stays hrely
        refine ⟨row', List.mem_filter.mpr ⟨hrow', decide_eq_true fun hsame ↦ hid ?_⟩, hholds'⟩
        rw [← hsame, hholds'.id]
        exact List.mem_map_of_mem hmem
      refine ⟨hs₁.markPublished hgone, fun hd ↦ absurd rfl hd, ?_⟩
      cases r with
      | ok _ => exact hp _ (hs₁.markPublished hgone) hleft
      | error failure => exact relayKeeps_raise failure

theorem relayKeeps_publishAll {connection : Connection} {waiting : List OutboxRecord} (hs : Kept s)
    (hids : (waiting.map OutboxRecord.id).Nodup) (hstanding : ∀ entry ∈ waiting, Standing entry s) :
    RelayKeeps store (publishAll connection waiting) s := by
  induction waiting generalizing s with
  | nil => exact relayKeeps_ret 0
  | cons entry rest ih =>
      rw [List.map_cons, List.nodup_cons] at hids
      rw [List.forall_mem_cons] at hstanding
      intro s₁ hs₁ hrely answer s₂ hanswer
      obtain ⟨row, hrow, hholds⟩ := hstanding.1.stays hrely
      cases hanswer with
      | published exchange routingKey message answer =>
          have hof : (⟨entry.exchange, entry.routingKey, entry.outbound, answer⟩ : Sending).Of entry := ⟨rfl, rfl, rfl⟩
          obtain ⟨entry', hentry', hholds'⟩ := hs₁.held row hrow
          have hs₂ := hs₁.publish ⟨entry', hentry', hof.congr (hholds.same hholds')⟩
          have hall : ∀ entry ∈ rest, Standing entry s₁ := fun entry hmem ↦ (hstanding.2 entry hmem).stays hrely
          set s₂ : World C :=
            { s₁ with sent := s₁.sent ++ [⟨entry.exchange, entry.routingKey, entry.outbound, answer⟩] }
          refine ⟨hs₂, fun hd ↦ absurd rfl hd, ?_⟩
          change RelayKeeps store (Program.bind (Program.rescue (.ofExcept (published connection entry answer)) _) _) s₂
          cases hpublished : published connection entry answer with
          | error failure =>
              exact relayKeeps_refused failure _
          | ok _ =>
              have hdelivered : Delivered s₂ entry :=
                ⟨_, List.mem_append_right _ (List.mem_singleton_self _), hof, published_ok_iff.mp hpublished⟩
              refine relayKeeps_mark hids.1 ⟨row, hrow, hholds⟩ hdelivered hall fun s' hs' hleft ↦ ?_
              exact (ih hs' hids.2 hleft).bind hs' fun more _ _ ↦ relayKeeps_ret (more + 1)

theorem SqlOutboxStore.waiting_subperm (store : SqlOutboxStore) (limit : ℤ) (table : List Row) :
    List.Subperm (store.waiting limit table) table := by
  have hsorted : List.Subperm ((table.filter (·.attempts < store.maxAttempts)).insertionSort Row.before) table :=
    (List.perm_insertionSort _ _).subperm.trans List.filter_sublist.subperm
  rw [waiting]
  split
  · exact (List.take_sublist _ _).subperm.trans hsorted
  · exact hsorted

omit [DecidableEq C] in
/-- What is read stands in the table, each identifier once. -/
theorem standing_of_pending {limit : ℤ} {waiting : List OutboxRecord} (hs : Kept s)
    (hpending : store.pending limit s.table = .ok waiting) :
    (waiting.map OutboxRecord.id).Nodup ∧ ∀ entry ∈ waiting, Standing entry s := by
  obtain ⟨rows, hperm, hsub⟩ := store.waiting_subperm limit s.table
  constructor
  · rw [ids_of_pending hpending, List.map_map]
    exact (hperm.map Row.id).nodup_iff.mp (hs.ids.sublist (hsub.map _))
  · intro entry hentry
    obtain ⟨row, hrow, hread⟩ := (Fallible.mem_of_mapM_ok hpending).mp hentry
    obtain ⟨createdAt, -, rfl⟩ := recordFrom_ok_iff.mp hread
    exact ⟨row, hsub.subset (hperm.mem_iff.mpr hrow), rfl, rfl, rfl, rfl, rfl, rfl⟩

theorem relayKeeps_sweep (connection : Connection) (batch : ℤ) :
    RelayKeeps store (sweep connection batch) s := by
  intro s₁ hs₁ _ r s₂ hanswer
  cases hanswer with
  | unread => exact ⟨hs₁, fun hd ↦ absurd rfl hd, relayKeeps_raise _⟩
  | pending =>
      refine ⟨hs₁, fun hd ↦ absurd rfl hd, ?_⟩
      change RelayKeeps store (Program.bind (.ofExcept (store.pending batch s₁.table)) _) s₁
      cases hpending : store.pending batch s₁.table with
      | error failure => exact relayKeeps_raise failure
      | ok waiting =>
          obtain ⟨hids, hstanding⟩ := standing_of_pending hs₁ hpending
          exact relayKeeps_publishAll hs₁ hids hstanding

theorem relayKeeps_relay (connection : Connection) (batch : ℤ) (n : ℕ) (hs : Kept s) :
    RelayKeeps store (relay connection batch n) s := by
  induction n generalizing s with
  | zero => exact relayKeeps_ret ()
  | succ n ih =>
      refine RelayKeeps.bind hs ?_ fun _ s' hs' ↦ ih hs'
      refine Program.Meets.rescue hs ((relayKeeps_sweep connection batch).mono fun x s' _ ↦ ?_)
      cases x with
      | ok more => exact relayKeeps_ret more
      | error _ => exact relayKeeps_ret 0

/-! ## All together -/

/-- Nothing yet. -/
def World.unused : World C := ⟨[], fun _ ↦ [], [], []⟩

omit [DecidableEq C] in
theorem kept_unused : Kept (World.unused : World C) where
  ids := List.nodup_nil
  locked _ := List.nodup_nil
  apart _ _ he := absurd he List.not_mem_nil
  alone _ _ _ _ he := absurd he List.not_mem_nil
  written _ _ he := absurd he List.not_mem_nil
  held _ hrow := absurd hrow List.not_mem_nil
  kept _ hentry := absurd hentry List.not_mem_nil
  sent _ hmem := absurd hmem List.not_mem_nil

variable (callers : C → Program Outboxing Failure Unit) (connection : Connection) (batch : ℤ) (sweeps : ℕ)

/-- The relay, and the callers with their transactions. -/
def parties : Option C → Program Outboxing Failure Unit
  | none => relay connection batch sweeps
  | some c => callers c

/-- In every run of one relay and any callers nothing is lost and nothing is made up. -/
theorem outbox_safe (store : SqlOutboxStore) {s : World C} {h : List (Option C × Interaction.Event Outboxing)}
    {ps : Option C → Program Outboxing Failure Unit}
    (hI : Interleaved (parties callers connection batch sweeps) (Answers store) (fun _ _ ↦ False) .unused s h ps) :
    Safe store s := by
  have hinit : Kept (World.unused : World C) := kept_unused
  have hstart : ∀ d, (parties callers connection batch sweeps d).Meets promises (Answers store) d (fun _ _ ↦ True)
      (World.unused : World C) := by
    rintro (_ | c)
    · exact relayKeeps_relay connection batch sweeps hinit
    · exact Program.meets_of_steps (promises_caller c) (callers c) _
  have hkept : Kept s := (hI.meets hinit hstart fun _ _ ↦ False.elim).1
  refine ⟨hkept.sent, fun entry hentry ↦ (hkept.kept entry hentry).imp_right ?_, hkept.ids⟩
  rintro ⟨row, hrow, hholds⟩
  refine ⟨row, hrow, hholds, ?_⟩
  obtain hoffered | hretired := lt_or_ge row.attempts store.maxAttempts
  · exact .inl ((store.mem_waiting (.inl le_rfl)).mpr ⟨hrow, hoffered⟩)
  · exact .inr hretired

/-- One caller, who commits one record. -/
def addsEarly (_ : Unit) : Program Outboxing Failure Unit := do
  Program.call (I := Outboxing) (.add (early "a")) id
  Program.call (I := Outboxing) .commit id

theorem answers_early : ∃ when_, ∀ s : World Unit, s.table = [earlyRow "a"] →
    Answers tenTimes s none (.pending 0) (.ok [{ early "a" with createdAt := when_ }]) s := by
  obtain ⟨when_, hmillis, -⟩ := @timely_of_abs_lt 0 (by decide)
  have hread : recordFrom (earlyRow "a") = .ok { early "a" with createdAt := when_ } :=
    recordFrom_ok_iff.mpr ⟨when_, hmillis, rfl⟩
  have hpending : tenTimes.pending 0 [earlyRow "a"] = .ok [{ early "a" with createdAt := when_ }] :=
    Fallible.mapM_ok_iff.mpr (.cons hread .nil)
  refine ⟨when_, fun s hs ↦ ?_⟩
  rw [← hpending, ← hs]
  exact .pending 0

/-- The relay comes by once, and the record is delivered. -/
theorem outbox_safe_early : ∃ s : World Unit, Safe tenTimes s ∧ s.committed = [early "a"] ∧ s.table = [] := by
  obtain ⟨when_, hanswer⟩ := answers_early
  have hI₀ : Interleaved (parties addsEarly ⟨0, 1⟩ 0 1) (Answers tenTimes) (fun _ _ ↦ False) .unused .unused [] _ :=
    .init
  have hadded : Answers tenTimes (World.unused : World Unit) (some ()) (.add (early "a")) (.ok ()) _ :=
    @Answers.added _ _ _ _ _ _ [earlyRow "a"] (fun c' hne ↦ absurd rfl hne) rfl
  have hI₁ := hI₀.step rfl hadded
  have hI₂ := hI₁.step rfl (.committed () (.ok ()))
  have hI₃ := hI₂.step (d := none) rfl (hanswer _ rfl)
  have hI₄ := hI₃.step (d := none) rfl
    (.published "" "orders" (early "a").outbound (.answered ⟨"a", true, true, ""⟩))
  have hI₅ := hI₄.step (d := none) rfl (.marked "a" (.ok ()))
  exact ⟨_, outbox_safe addsEarly ⟨0, 1⟩ 0 1 tenTimes hI₅, rfl, rfl⟩

end Outbox

end AcemqAmqp
