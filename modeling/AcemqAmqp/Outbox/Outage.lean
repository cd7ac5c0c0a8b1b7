import AcemqAmqp.Outbox.Protocol

/-!
# Outages

While the broker blocks the connection every sweep counts a failure against the
first record that waits.  How many records an outage retires depends on how many
sweeps it lasts and on what was counted before; the sweeps after it publish the others.
-/

namespace AcemqAmqp

namespace Outbox

open Interaction

variable {σ : Type} (store : OutboxStore σ) (connection : Connection) (batch : ℤ)

abbrev Broker := String × String × Outbound → BrokerAnswer

/-- The store at work, with a broker; and what has been delivered. -/
def OutboxStore.serve (broker : Broker) (s : σ × List (String × String × Outbound)) :
    (q : Ask) → q.Answer × σ × List (String × String × Outbound)
  | .pending limit => (store.pending limit s.1, s)
  | .publish exchange routingKey message =>
      let answer := broker (exchange, routingKey, message)
      (answer, s.1, if answer.delivered then s.2 ++ [(exchange, routingKey, message)] else s.2)
  | .recordFailure entryId error => (.ok (), store.recordFailure entryId error s.1, s.2)
  | .markPublished entryId => (.ok (), store.markPublished entryId s.1, s.2)
  | .add _ | .commit | .rollback => (.ok (), s)

/-- One sweep, whatever becomes of it. -/
def OutboxStore.tick (s : σ × List (String × String × Outbound)) (broker : Broker) :
    σ × List (String × String × Outbound) :=
  ((sweep connection batch).interp (I := Outboxing) (store.serve broker) s).2

/-! ## The head of a queue -/

/-- One failure more for the first of the queue. -/
def burnt (maxAttempts : ℕ) : List Queued → List Queued
  | [] => []
  | entry :: rest =>
      if entry.attempts + 1 < maxAttempts then { entry with attempts := entry.attempts + 1 } :: rest else rest

/-- How many of a queue so many failures retire, from how many each of it has left. -/
def retiredBy : ℕ → List ℕ → ℕ
  | _, [] => 0
  | failures, left :: rest => if left ≤ failures then retiredBy (failures - left) rest + 1 else 0

variable {maxAttempts : ℕ}

theorem burnt_below {queue : List Queued} (h : ∀ entry ∈ queue, entry.attempts < maxAttempts) :
    ∀ entry ∈ burnt maxAttempts queue, entry.attempts < maxAttempts := by
  cases queue with
  | nil => exact h
  | cons entry rest =>
      rw [List.forall_mem_cons] at h
      rw [burnt]
      split
      · rename_i hmore
        exact List.forall_mem_cons.mpr ⟨hmore, h.2⟩
      · exact h.2

theorem burnt_targets (failures : ℕ) {queue : List Queued} (h : ∀ entry ∈ queue, entry.attempts < maxAttempts) :
    ((burnt maxAttempts)^[failures] queue).map Queued.target =
      (queue.map Queued.target).drop (retiredBy failures (queue.map fun entry ↦ maxAttempts - entry.attempts)) := by
  induction failures generalizing queue with
  | zero =>
      cases queue with
      | nil => rfl
      | cons entry rest =>
          have hleft : ¬maxAttempts - entry.attempts ≤ 0 :=
            Nat.not_le.mpr (Nat.sub_pos_of_lt (h entry List.mem_cons_self))
          rw [List.map_cons, retiredBy, if_neg hleft]
          rfl
  | succ failures ih =>
      rw [Function.iterate_succ_apply, ih (burnt_below h)]
      cases queue with
      | nil => rfl
      | cons entry rest =>
          have hbelow := h entry List.mem_cons_self
          rw [burnt]
          by_cases hmore : entry.attempts + 1 < maxAttempts
          · rw [if_pos hmore, List.map_cons, List.map_cons, List.map_cons, List.map_cons, retiredBy, retiredBy]
            have hleft : maxAttempts - (entry.attempts + 1) ≤ failures ↔
                maxAttempts - entry.attempts ≤ failures + 1 := by omega
            have hrest : failures - (maxAttempts - (entry.attempts + 1)) =
                failures + 1 - (maxAttempts - entry.attempts) := by omega
            rw [if_congr hleft (by rw [hrest]) rfl]
          · have hlast : maxAttempts - entry.attempts = 1 := by omega
            rw [if_neg hmore, List.map_cons, List.map_cons, retiredBy, hlast, if_pos (Nat.le_add_left 1 failures),
              Nat.add_sub_cancel]
            rfl

/-- The first of a queue fails. -/
theorem failed_head {entry : Queued} {rest : List Queued} (hid : entry.id ∉ rest.map Queued.id)
    (hrest : ∀ entry ∈ rest, entry.attempts < maxAttempts) :
    ((entry :: rest).map (Queued.failed entry.id)).filter (·.attempts < maxAttempts) =
      burnt maxAttempts (entry :: rest) := by
  have hothers : rest.map (Queued.failed entry.id) = rest := by
    refine (List.map_congr_left fun other hother ↦ if_neg ?_).trans (List.map_id _)
    intro hsame
    apply hid
    rw [← hsame]
    exact List.mem_map_of_mem hother
  have hkept : rest.filter (·.attempts < maxAttempts) = rest :=
    List.filter_eq_self.mpr fun other hother ↦ decide_eq_true (hrest other hother)
  rw [List.map_cons, hothers, Queued.failed, if_pos rfl, List.filter_cons, hkept, burnt]
  simp only [decide_eq_true_eq]

/-! ## One sweep -/

/-- The queue that the store offers. -/
def OutboxStore.Offers (s : σ) (queue : List Queued) : Prop :=
  ∃ waiting, store.pending 0 s = .ok waiting ∧ waiting.map OutboxRecord.queued = queue

theorem ids_queued (waiting : List OutboxRecord) :
    (waiting.map OutboxRecord.queued).map Queued.id = waiting.map OutboxRecord.id := by
  rw [List.map_map]
  rfl

variable {store connection batch} {s : σ} {sent : List (String × String × Outbound)} {broker : Broker}

namespace OutboxStore

theorem Offers.nodup {queue : List Queued} (h : store.Offers s queue) : (queue.map Queued.id).Nodup := by
  obtain ⟨waiting, hwaiting, rfl⟩ := h
  rw [ids_queued]
  exact store.nodup s waiting hwaiting

theorem Offers.below {queue : List Queued} (h : store.Offers s queue) :
    ∀ entry ∈ queue, entry.attempts < store.maxAttempts := by
  obtain ⟨waiting, hwaiting, rfl⟩ := h
  exact List.forall_mem_map.mpr (store.offered s waiting hwaiting)

theorem Offers.burnt {entry : Queued} {rest : List Queued} (h : store.Offers s (entry :: rest)) (error : String) :
    store.Offers (store.recordFailure entry.id error s) (burnt store.maxAttempts (entry :: rest)) := by
  have hnodup := h.nodup
  have hbelow := h.below
  rw [List.map_cons, List.nodup_cons] at hnodup
  rw [List.forall_mem_cons] at hbelow
  obtain ⟨waiting, hwaiting, hqueue⟩ := h
  obtain ⟨waiting', hwaiting', hqueue'⟩ := store.failed s waiting entry.id error hwaiting
  refine ⟨waiting', hwaiting', ?_⟩
  rw [hqueue', hqueue]
  exact failed_head hnodup.1 hbelow.2

theorem Offers.rest {entry : Queued} {rest : List Queued} (h : store.Offers s (entry :: rest)) :
    store.Offers (store.markPublished entry.id s) rest := by
  have hnodup := h.nodup
  rw [List.map_cons, List.nodup_cons] at hnodup
  obtain ⟨waiting, hwaiting, hqueue⟩ := h
  refine ⟨_, store.marked s waiting entry.id hwaiting, ?_⟩
  have hfilter : (waiting.filter (·.id ≠ entry.id)).map OutboxRecord.queued =
      (waiting.map OutboxRecord.queued).filter (·.id ≠ entry.id) := by
    rw [List.filter_map]
    rfl
  rw [hfilter, hqueue, List.filter_cons_of_neg (by simp), List.filter_eq_self]
  intro other hother
  apply decide_eq_true
  intro hsame
  apply hnodup.1
  rw [← hsame]
  exact List.mem_map_of_mem hother

theorem tick_eq {waiting : List OutboxRecord} (hread : store.pending batch s = .ok waiting) :
    store.tick connection batch (s, sent) broker =
      ((publishAll connection waiting).interp (I := Outboxing) (store.serve broker) (s, sent)).2 := by
  change ((Program.bind (.ofExcept (store.pending batch s)) (publishAll connection)).interp (I := Outboxing)
    (store.serve broker) (s, sent)).2 = _
  rw [hread]
  rfl

theorem published_blocked (connection : Connection) (entry : OutboxRecord) (reason : Option String) :
    ∃ failure, published connection entry (.blocked reason) = .error failure ∧ failure.isException = true :=
  ⟨_, rfl, rfl⟩

/-- A record whose publish failed is the last of the sweep. -/
theorem publishAll_refused {entry : OutboxRecord} (rest : List OutboxRecord) {failure : Failure}
    (hfailed : published connection entry (broker entry.target) = .error failure)
    (hexception : failure.isException = true) (hanswer : (broker entry.target).delivered = false) :
    ((publishAll connection (entry :: rest)).interp (I := Outboxing) (store.serve broker) (s, sent)).2 =
      (store.recordFailure entry.id (reason failure) s, sent) := by
  rw [publishAll, publishOne]
  change (Program.interp (I := Outboxing) (store.serve broker) (Program.bind (Program.rescue
    (.ofExcept (published connection entry (broker entry.target))) _) _)
    (s, if (broker entry.target).delivered then _ else sent)).2 = _
  rw [hfailed, if_neg (Bool.not_eq_true _ ▸ hanswer)]
  change (Program.interp (I := Outboxing) (store.serve broker)
    (Program.bind (if failure.isException = true then _ else _) _) (s, sent)).2 = _
  rw [if_pos hexception]
  rfl

theorem publishAll_taken {entry : OutboxRecord} (rest : List OutboxRecord)
    (hanswer : (broker entry.target).delivered = true) :
    ((publishAll connection (entry :: rest)).interp (I := Outboxing) (store.serve broker) (s, sent)).2 =
      ((publishAll connection rest).interp (I := Outboxing) (store.serve broker)
        (store.markPublished entry.id s, sent ++ [entry.target])).2 := by
  have htaken : published connection entry (broker entry.target) = .ok () := published_ok_iff.mpr hanswer
  rw [publishAll, publishOne]
  change (Program.interp (I := Outboxing) (store.serve broker) (Program.bind (Program.rescue
    (.ofExcept (published connection entry (broker entry.target))) _) _)
    (s, if (broker entry.target).delivered then _ else sent)).2 = _
  rw [htaken, if_pos hanswer]
  change (Program.interp (I := Outboxing) (store.serve broker) (Program.bind (publishAll connection rest)
    fun more ↦ .ret (more + 1)) (store.markPublished entry.id s, sent ++ [entry.target])).2 = _
  rw [Program.interp_bind]
  rcases (publishAll connection rest).interp (I := Outboxing) (store.serve broker)
    (store.markPublished entry.id s, sent ++ [entry.target]) with ⟨⟨t, failure | more⟩, s'⟩
  · rfl
  · rfl

/-- A sweep while the connection is blocked: the first that waits has failed once more. -/
theorem tick_blocked {queue : List Queued} (h : store.Offers s queue)
    (hblocked : ∀ target, ∃ reason, broker target = .blocked reason) :
    ∃ s', store.tick connection batch (s, sent) broker = (s', sent) ∧
      store.Offers s' (Outbox.burnt store.maxAttempts queue) := by
  have hoffers := h
  obtain ⟨waiting, hwaiting, rfl⟩ := h
  rw [tick_eq (store.limited s waiting batch hwaiting)]
  cases waiting with
  | nil =>
      rw [List.take_nil]
      exact ⟨s, rfl, [], hwaiting, rfl⟩
  | cons entry rest =>
      obtain ⟨reason, hanswer⟩ := hblocked entry.target
      obtain ⟨count, hcount⟩ : ∃ count, allowed batch (entry :: rest).length = count + 1 := by
        apply Nat.exists_eq_add_one.mpr
        rw [allowed]
        split
        · rename_i hbatch
          exact Int.lt_toNat.mpr hbatch
        · exact Nat.succ_pos _
      rw [hcount, List.take_succ_cons]
      obtain ⟨failure, hfailed, hexception⟩ := published_blocked connection entry reason
      rw [← hanswer] at hfailed
      have hnot : (broker entry.target).delivered = false := congrArg BrokerAnswer.delivered hanswer
      exact ⟨_, publishAll_refused _ hfailed hexception hnot, hoffers.burnt _⟩

theorem publishAll_accepting {waiting : List OutboxRecord} {rest : List Queued}
    (h : store.Offers s (waiting.map OutboxRecord.queued ++ rest))
    (haccepting : ∀ target, (broker target).delivered = true) :
    ∃ s', ((publishAll connection waiting).interp (I := Outboxing) (store.serve broker) (s, sent)).2 =
      (s', sent ++ waiting.map OutboxRecord.target) ∧ store.Offers s' rest := by
  induction waiting generalizing s sent with
  | nil => exact ⟨s, congrArg _ (List.append_nil sent).symm, h⟩
  | cons entry waiting ih =>
      obtain ⟨s', hstate, hoffers⟩ := @ih (store.markPublished entry.id s) (sent ++ [entry.target]) h.rest
      refine ⟨s', (publishAll_taken waiting (haccepting entry.target)).trans ?_, hoffers⟩
      rw [hstate, List.append_assoc]
      rfl

/-- A sweep while the broker takes what it is given: as many as are allowed have gone out. -/
theorem tick_accepting {queue : List Queued} (h : store.Offers s queue)
    (haccepting : ∀ target, (broker target).delivered = true) :
    ∃ s', store.tick connection batch (s, sent) broker =
      (s', sent ++ (queue.take (allowed batch queue.length)).map Queued.target) ∧
        store.Offers s' (queue.drop (allowed batch queue.length)) := by
  have hoffers := h
  obtain ⟨waiting, hwaiting, rfl⟩ := h
  rw [tick_eq (store.limited s waiting batch hwaiting)]
  rw [← List.take_append_drop (allowed batch waiting.length) (waiting.map _), ← List.map_take] at hoffers
  obtain ⟨s', hstate, hrest⟩ := @publishAll_accepting _ store connection s sent broker _ _ hoffers haccepting
  rw [List.length_map, ← List.map_take, List.map_map]
  exact ⟨s', hstate, hrest⟩

/-! ## Many sweeps -/

variable (store connection batch) in
/-- The sweeps of a while, one after another, each with the broker as it is then. -/
def ticks (brokers : List Broker) (s : σ × List (String × String × Outbound)) :
    σ × List (String × String × Outbound) := brokers.foldl (store.tick connection batch) s

theorem ticks_blocked {queue : List Queued} (h : store.Offers s queue) {brokers : List Broker}
    (hblocked : ∀ broker ∈ brokers, ∀ target, ∃ reason, broker target = .blocked reason) :
    ∃ s', store.ticks connection batch brokers (s, sent) = (s', sent) ∧
      store.Offers s' ((Outbox.burnt store.maxAttempts)^[brokers.length] queue) := by
  induction brokers generalizing s queue with
  | nil => exact ⟨s, rfl, h⟩
  | cons broker brokers ih =>
      rw [List.forall_mem_cons] at hblocked
      obtain ⟨s', hstate, hoffers⟩ := @tick_blocked _ store connection batch s sent broker queue h hblocked.1
      obtain ⟨s'', hstate', hoffers'⟩ := ih hoffers hblocked.2
      refine ⟨s'', ?_, hoffers'⟩
      rw [ticks, List.foldl_cons, hstate]
      exact hstate'

theorem allowed_enough {count sweeps : ℕ} (h : count ≤ (sweeps + 1) * allowed batch count) :
    count - allowed batch count ≤ sweeps * allowed batch (count - allowed batch count) := by
  by_cases hbatch : 0 < batch
  · rw [allowed, if_pos hbatch] at h ⊢
    rw [allowed, if_pos hbatch]
    apply Nat.sub_le_of_le_add
    rwa [Nat.succ_mul] at h
  · rw [allowed, if_neg hbatch, Nat.sub_self]
    exact Nat.zero_le _

theorem ticks_accepting {queue : List Queued} (h : store.Offers s queue) {brokers : List Broker}
    (haccepting : ∀ broker ∈ brokers, ∀ target, (broker target).delivered = true)
    (henough : queue.length ≤ brokers.length * allowed batch queue.length) :
    (store.ticks connection batch brokers (s, sent)).2 = sent ++ queue.map Queued.target := by
  induction brokers generalizing s sent queue with
  | nil =>
      rw [List.length_nil, Nat.zero_mul, Nat.le_zero, List.length_eq_zero_iff] at henough
      rw [henough]
      exact (List.append_nil sent).symm
  | cons broker brokers ih =>
      rw [List.forall_mem_cons] at haccepting
      obtain ⟨s', hstate, hoffers⟩ := @tick_accepting _ store connection batch s sent broker queue h haccepting.1
      have hfewer := allowed_enough henough
      rw [← List.length_drop] at hfewer
      have hrest := @ih s' (sent ++ (queue.take (allowed batch queue.length)).map Queued.target) _ hoffers
        haccepting.2 hfewer
      rw [ticks, List.foldl_cons, hstate]
      rw [List.append_assoc, ← List.map_append, List.take_append_drop] at hrest
      exact hrest

theorem allowed_fewer {count fewer sweeps : ℕ} (h : count ≤ sweeps * allowed batch count) (hfewer : fewer ≤ count) :
    fewer ≤ sweeps * allowed batch fewer := by
  by_cases hbatch : 0 < batch
  · rw [allowed, if_pos hbatch] at h ⊢
    exact hfewer.trans h
  · rw [allowed, if_neg hbatch] at h ⊢
    cases sweeps with
    | zero =>
        rw [Nat.zero_mul] at h ⊢
        exact hfewer.trans h
    | succ sweeps =>
        rw [Nat.succ_mul]
        exact Nat.le_add_left ..

/-- What an outage leaves.  After so many sweeps with the connection blocked, the sweeps that follow
publish what waited, in its order, from the first that the outage has not retired. -/
theorem ticks_outage {waiting : List OutboxRecord} (hpending : store.pending 0 s = .ok waiting)
    {blocked accepting : List Broker}
    (hblocked : ∀ broker ∈ blocked, ∀ target, ∃ reason, broker target = .blocked reason)
    (haccepting : ∀ broker ∈ accepting, ∀ target, (broker target).delivered = true)
    (henough : waiting.length ≤ accepting.length * allowed batch waiting.length) :
    (store.ticks connection batch (blocked ++ accepting) (s, [])).2 =
      (waiting.map OutboxRecord.target).drop
        (retiredBy blocked.length (waiting.map fun entry ↦ store.maxAttempts - entry.attempts)) := by
  obtain ⟨s', hstate, hoffers⟩ := @ticks_blocked _ store connection batch s [] _ ⟨waiting, hpending, rfl⟩ _ hblocked
  have hleft := burnt_targets blocked.length (Offers.below ⟨waiting, hpending, rfl⟩)
  rw [List.map_map, List.map_map] at hleft
  have hfewer : ((Outbox.burnt store.maxAttempts)^[blocked.length] (waiting.map OutboxRecord.queued)).length ≤
      waiting.length := by
    rw [← List.length_map Queued.target, hleft, List.length_drop, List.length_map]
    exact Nat.sub_le ..
  have hsent := @ticks_accepting _ store connection batch s' [] _ hoffers _ haccepting (allowed_fewer henough hfewer)
  rw [ticks, List.foldl_append]
  rw [ticks] at hstate
  rw [hstate]
  exact hsent.trans hleft

theorem retiredBy_eq_zero {failures left : ℕ} {rest : List ℕ} :
    retiredBy failures (left :: rest) = 0 ↔ failures < left := by
  rw [retiredBy]
  split
  · rename_i hle
    exact iff_of_false (Nat.succ_ne_zero _) (Nat.not_lt.mpr hle)
  · rename_i hlt
    exact iff_of_true rfl (Nat.not_le.mp hlt)

variable (store) in
/-- What an outage comes to.  The sweeps that follow it publish what waited before it, in its order,
from the first record that is not retired; and that is all of it exactly when the first record could
fail once for every sweep of the outage. -/
def Outlasts : Prop :=
  ∀ (connection : Connection) (batch : ℤ) (s : σ) (waiting : List OutboxRecord) (blocked accepting : List Broker),
    store.pending 0 s = .ok waiting → (∀ broker ∈ blocked, ∀ target, ∃ reason, broker target = .blocked reason) →
    (∀ broker ∈ accepting, ∀ target, (broker target).delivered = true) →
    waiting.length ≤ accepting.length * allowed batch waiting.length →
    let sent := (store.ticks connection batch (blocked ++ accepting) (s, [])).2
    sent = (waiting.map OutboxRecord.target).drop
        (retiredBy blocked.length (waiting.map fun entry ↦ store.maxAttempts - entry.attempts)) ∧
      (sent = waiting.map OutboxRecord.target ↔
        ∀ entry ∈ waiting.head?, entry.attempts + blocked.length < store.maxAttempts)

theorem outlasts (store : OutboxStore σ) : store.Outlasts := by
  intro connection batch s waiting blocked accepting hpending hblocked haccepting henough
  have hsent := @ticks_outage _ store connection batch s waiting hpending _ _ hblocked haccepting henough
  refine ⟨hsent, ?_⟩
  rw [hsent]
  cases waiting with
  | nil => exact iff_of_true (List.drop_nil ..) fun _ hhead ↦ absurd hhead (Option.not_mem_none _)
  | cons entry rest =>
      have hall (n : ℕ) : ((entry :: rest).map OutboxRecord.target).drop n = (entry :: rest).map OutboxRecord.target ↔
          n = 0 := by
        constructor
        · intro hdrop
          have hlength := congrArg List.length hdrop
          rw [List.length_drop, List.map_cons, List.length_cons] at hlength
          omega
        · rintro rfl
          rfl
      rw [hall, List.map_cons, retiredBy_eq_zero, List.head?_cons]
      constructor
      · rintro hless _ ⟨⟩
        omega
      · intro hless
        have hhead := hless entry rfl
        omega

end OutboxStore

/-- Both stores, through an outage of any length. -/
theorem outbox_outlasts (maxAttempts : ℕ) (sql : SqlOutboxStore) :
    (InMemoryOutboxStore.asStore maxAttempts).Outlasts ∧ sql.asStore.Outlasts :=
  ⟨OutboxStore.outlasts _, OutboxStore.outlasts _⟩

/-- Two records in memory, each allowed to fail twice. -/
def twoHeld : Held 2 where
  store := ⟨2, Nat.le_succ 1, ((∅ : Dict String OutboxRecord).set "a" (early "a")).set "b" (early "b")⟩
  maxAttempts_eq := rfl
  keys := by
    intro item hitem
    obtain rfl | hitem := List.mem_cons.mp hitem
    · rfl
    · obtain rfl := List.mem_singleton.mp hitem
      rfl

/-- Two sweeps of an outage, and the first of the two records is not sent by those that follow. -/
theorem outbox_outlasts_early : ((InMemoryOutboxStore.asStore 2).ticks ⟨0, 1⟩ 100
    ([fun _ ↦ .blocked none, fun _ ↦ .blocked none] ++ [fun _ ↦ .answered ⟨"", true, true, ""⟩]) (twoHeld, [])).2 =
      [(early "b").target] := by
  have hall := (outbox_outlasts 2 tenTimes).1 ⟨0, 1⟩ 100 twoHeld [early "a", early "b"]
    [fun _ ↦ .blocked none, fun _ ↦ .blocked none] [fun _ ↦ .answered ⟨"", true, true, ""⟩] rfl
    (fun broker hbroker target ↦ ⟨none, ?_⟩) (fun broker hbroker target ↦ ?_) (by decide)
  · exact hall.1
  · obtain rfl | hbroker := List.mem_cons.mp hbroker
    · rfl
    · obtain rfl := List.mem_singleton.mp hbroker
      rfl
  · obtain rfl := List.mem_singleton.mp hbroker
    rfl

end Outbox

end AcemqAmqp
