import AcemqAmqp.Idempotency.Deliveries
import AcemqAmqp.Idempotency.Leases
import Mathlib.Data.List.TakeWhile

/-!
# The two stores under the guard

`InMemoryIdempotencyStore`, whose calls are done in one go under its lock, and
`SqlIdempotencyStore`, whose claims are up to three statements between which
others may run.  Of either only `confirm` makes a key confirmed.
-/

namespace AcemqAmqp

namespace Idempotency

open Interaction

/-! ## In memory -/

/-- What is asked: the clock, and the calls. -/
inductive Ask
  | now
  | claim (now : Instant) (key : String)
  | confirm (key : String)
  | forget (key : String)

def Ask.Result : Ask → Type
  | now => Instant
  | claim .. => Claim
  | confirm _ | forget _ => Unit

abbrev Memory : Interface := ⟨Ask, fun q ↦ Except Failure q.Result⟩

def Ask.run (q : Ask) : Program Memory Failure q.Result := Program.call (I := Memory) q id

namespace InMemoryIdempotencyStore

def calls : Calls Memory where
  claim key := do
    let now : Instant ← Ask.now.run
    (Ask.claim now key).run
  confirm key := (Ask.confirm key).run
  forget key := (Ask.forget key).run

/-- What a question leaves of the store. -/
def after (store : InMemoryIdempotencyStore) : Ask → InMemoryIdempotencyStore
  | .now => store
  | .claim now key => (store.claim now key).2
  | .confirm key => store.confirm key
  | .forget key => store.forget key

/-- How the store answers.  The clock may say anything, and a call may fail before it has
done anything or after. -/
inductive Answered (store : InMemoryIdempotencyStore) : (q : Ask) → Memory.Ans q → InMemoryIdempotencyStore → Prop
  | now (now : Instant) : Answered store .now (.ok now) store
  | claim (now : Instant) (key : String) :
      Answered store (.claim now key) (store.claim now key).1 (store.after (.claim now key))
  | confirm (key : String) : Answered store (.confirm key) (.ok ()) (store.after (.confirm key))
  | forget (key : String) : Answered store (.forget key) (.ok ()) (store.after (.forget key))
  | lost (q : Ask) (failure : Failure) : Answered store q (.error failure) (store.after q)
  | failed (q : Ask) (failure : Failure) : Answered store q (.error failure) store

/-- The key is held, and its claim became a fact. -/
def Confirmed (store : InMemoryIdempotencyStore) (key : String) : Prop := ∃ t, store.seen.get? key = some (t, true)

variable {store store' : InMemoryIdempotencyStore} {key : String} {now : Instant}

theorem get?_swept_of_inside {held : Instant × Bool} (hheld : store.seen.get? key = some held)
    (hinside : now - store.ttl < held.1) : (swept store now).seen.get? key = some held := by
  rw [← Dict.mem_items_iff] at hheld ⊢
  have hsplit := @List.takeWhile_append_dropWhile _ (fun item : String × Instant × Bool ↦ item.2.1 ≤ now - store.ttl)
    store.seen.items
  rw [← hsplit] at hheld
  obtain hdue | hkept := List.mem_append.mp hheld
  · have hover := List.mem_takeWhile_imp hdue
    exact absurd (of_decide_eq_true hover) (not_le.mpr hinside)
  · exact hkept

theorem get?_of_swept {held : Instant × Bool} (hheld : (swept store now).seen.get? key = some held) :
    store.seen.get? key = some held := by
  rw [← Dict.mem_items_iff] at hheld ⊢
  exact (List.dropWhile_sublist _).subset hheld

theorem confirmed_of_after {q : Ask} (h : (store.after q).Confirmed key) :
    store.Confirmed key ∨ q = .confirm key := by
  obtain ⟨t, hget⟩ := h
  cases q with
  | now => exact .inl ⟨t, hget⟩
  | claim now other =>
      refine .inl ⟨t, ?_⟩
      by_cases hreaches : Reaches store.ttl now
      · rw [after, claim_of_reaches other hreaches] at hget
        split at hget
        · by_cases hkey : key = other
          · subst hkey
            cases Dict.get?_set_self.symm.trans hget
          · exact get?_of_swept ((Dict.get?_set_ne hkey).symm.trans hget)
        · exact get?_of_swept hget
      · rw [after, claim_of_not_reaches other hreaches] at hget
        exact hget
  | confirm other =>
      by_cases hkey : key = other
      · exact .inr (by rw [hkey])
      · rw [after, confirm] at hget
        split at hget
        · exact .inl ⟨t, hget⟩
        · exact .inl ⟨t, (Dict.get?_set_ne hkey).symm.trans hget⟩
  | forget other =>
      have hne : key ≠ other := by
        rintro rfl
        cases (Dict.get?_erase.trans (if_pos rfl)).symm.trans hget
      exact .inl ⟨t, (Dict.get?_erase.trans (if_neg hne)).symm.trans hget⟩

theorem claimed_of_answered {r : Except Failure Claim} (h : Answered store (.claim now key) r store') :
    r = (store.claim now key).1 ∨ ∃ failure, r = .error failure := by
  cases h with
  | claim => exact .inl rfl
  | lost | failed => exact .inr ⟨_, rfl⟩

theorem claim_of_held {t : Instant} {confirmed : Bool} (hreaches : Reaches store.ttl now)
    (hget : (swept store now).seen.get? key = some (t, confirmed)) :
    (store.claim now key).1 = .ok (if confirmed then .duplicate else .inProgress) := by
  rw [claim_of_reaches key hreaches, hget]

theorem confirmed_of_duplicate (h : (store.claim now key).1 = .ok .duplicate) : store.Confirmed key := by
  by_cases hreaches : Reaches store.ttl now
  · cases hget : (swept store now).seen.get? key with
    | none =>
        rw [claim_of_reaches key hreaches, hget] at h
        cases h
    | some held =>
        obtain ⟨t, confirmed⟩ := held
        rw [claim_of_held hreaches hget] at h
        cases confirmed with
        | false => cases h
        | true => exact ⟨t, get?_of_swept hget⟩
  · rw [claim_of_not_reaches key hreaches] at h
    cases h

theorem always_claim (now : Instant) (key : String)
    {Q : List (Interaction.Event Memory) → Except Failure Claim → Prop} :
    (Ask.claim now key).run.Always (Anything Memory) Q ↔ ∀ r : Except Failure Claim, Q [⟨.claim now key, r⟩] r :=
  (Program.always_call _ _).trans (forall_congr' fun _ ↦ forall_prop_of_true trivial)

/-- A claim of the key is alive at `now`, and not confirmed. -/
def LiveAt (store : InMemoryIdempotencyStore) (key : String) (now : Instant) : Prop :=
  ∃ t, store.seen.get? key = some (t, false) ∧ now - store.ttl < t

theorem inProgress_of_liveAt {r : Except Failure Claim} (hlive : store.LiveAt key now)
    (hanswered : Answered store (.claim now key) r store') : r = .ok .inProgress ∨ ∃ failure, r = .error failure := by
  obtain ⟨t, hget, hinside⟩ := hlive
  refine (claimed_of_answered hanswered).elim (fun hclaim ↦ ?_) .inr
  by_cases hreaches : Reaches store.ttl now
  · rw [hclaim, claim_of_held hreaches (get?_swept_of_inside hget hinside)]
    exact .inl rfl
  · rw [hclaim, claim_of_not_reaches key hreaches]
    exact .inr ⟨_, rfl⟩

variable (D : Type)

/-- The store that all deliveries share. -/
def shared : Store D InMemoryIdempotencyStore Memory where
  calls _ := InMemoryIdempotencyStore.calls
  answer store _ q r store' := store.Answered q r store'
  release _ key := .forget key
  released _ _ r := r
  Confirms q key := q = .confirm key
  Reports e key := ∃ now, e = ⟨.claim now key, .ok .duplicate⟩
  Fails e := ∃ failure, e.2 = .error failure
  Confirmed := Confirmed
  Finds store q key := ∃ now, q = .claim now key ∧ store.LiveAt key now
  Decides q := ∃ now key, q = .claim now key
  claim_asks d key := by
    refine ⟨⟨nofun, nofun⟩, fun r _ ↦ ?_⟩
    cases r with
    | error failure => trivial
    | ok now => exact (Program.asks_call _ _).mpr ⟨nofun, nofun⟩
  claim_reports d key := by
    refine fun r _ ↦ ?_
    cases r with
    | error failure => exact nofun
    | ok now =>
        refine (always_claim now key).mpr ?_
        rintro _ rfl
        exact ⟨_, List.mem_cons_of_mem _ (List.mem_singleton_self _), now, rfl⟩
  claim_found d key := by
    refine ⟨nofun, fun r _ ↦ ?_⟩
    cases r with
    | error failure => trivial
    | ok now =>
        refine ⟨?_, fun r _ ↦ by cases r <;> trivial⟩
        rintro store r store' ⟨now', heq, hlive⟩ hanswered
        cases heq
        obtain rfl | ⟨failure, rfl⟩ := inProgress_of_liveAt hlive hanswered
        · exact ⟨.inr rfl, fun _ ↦ nofun⟩
        · exact ⟨.inl ⟨failure, rfl⟩, fun _ ↦ nofun⟩
  confirm_asks d key := (Program.asks_call _ _).mpr ⟨fun other heq ↦ (Ask.confirm.inj heq).symm, nofun⟩
  forget_eq _ _ := rfl
  release_confirms _ _ _ := nofun
  release_finds _ _ _ _ := nofun
  confirmed_of_answer store d q r store' key hanswer hconfirmed := by
    cases hanswer with
    | now | failed => exact .inl hconfirmed
    | claim | confirm | forget | lost => exact confirmed_of_after hconfirmed
  confirmed_of_reports := by
    rintro store d q r store' key hanswer ⟨now, heq⟩
    cases heq
    obtain hclaim | ⟨failure, hfailed⟩ := claimed_of_answered hanswer
    · exact confirmed_of_duplicate hclaim.symm
    · cases hfailed

end InMemoryIdempotencyStore

/-! ## In a database -/

namespace SqlIdempotencyStore

def calls (store : SqlIdempotencyStore) : Calls Db := ⟨store.claim, store.confirm, store.forget⟩

/-- The row of the key is a confirmation. -/
def ConfirmedIn (table : Table) (key : String) : Prop := ∃ row, table.get? key = some row ∧ row.state = .confirmed

/-- The statements that may leave a confirmation. -/
inductive Confirming : Statement → String → Prop
  | settled {key : String} {stamp expiresAt : ℤ} : Confirming (.settle key stamp expiresAt) key
  | inserted {key : String} {row : Row} : row.state = .confirmed → Confirming (.insert key row) key

theorem confirmedIn_of_execute {clock : ℤ} {table : Table} {q : Statement} {key : String}
    (h : ConfirmedIn (q.execute clock table).2 key) : ConfirmedIn table key ∨ Confirming q key := by
  obtain ⟨row, hrow, hstate⟩ := h
  cases q with
  | now | look other => exact .inl ⟨row, hrow, hstate⟩
  | insert other row' =>
      by_cases hmem : other ∈ table
      · rw [execute_insert_of_mem hmem] at hrow
        exact .inl ⟨row, hrow, hstate⟩
      · rw [execute_insert_of_notMem hmem] at hrow
        by_cases hkey : key = other
        · subst hkey
          obtain rfl := Option.some.inj (Dict.get?_set_self.symm.trans hrow)
          exact .inr (.inserted hstate)
        · exact .inl ⟨row, (Dict.get?_set_ne hkey).symm.trans hrow, hstate⟩
  | takeOver other node stamp expiresAt =>
      by_cases hover : ∃ old, table.get? other = some old ∧ old.expiresAt ≤ stamp
      · obtain ⟨old, hold, hle⟩ := hover
        rw [execute_takeOver_of_expired hold hle] at hrow
        by_cases hkey : key = other
        · subst hkey
          rw [← Option.some.inj (Dict.get?_set_self.symm.trans hrow)] at hstate
          cases hstate
        · exact .inl ⟨row, (Dict.get?_set_ne hkey).symm.trans hrow, hstate⟩
      · rw [execute_takeOver_of_live fun old hold ↦ not_le.mp fun hle ↦ hover ⟨old, hold, hle⟩] at hrow
        exact .inl ⟨row, hrow, hstate⟩
  | settle other stamp expiresAt =>
      by_cases hkey : key = other
      · subst hkey
        exact .inr .settled
      · by_cases hmem : other ∈ table
        · rw [execute_settle_of_mem hmem] at hrow
          exact .inl ⟨row, (Dict.get?_set_ne hkey).symm.trans hrow, hstate⟩
        · rw [execute_settle_of_notMem hmem] at hrow
          exact .inl ⟨row, hrow, hstate⟩
  | release other node =>
      by_cases hown : ∃ old, table.get? other = some old ∧ old.ClaimOf node
      · obtain ⟨old, hold, hown⟩ := hown
        rw [execute_release_of_own hold hown] at hrow
        have hne : key ≠ other := by
          rintro rfl
          cases (Dict.get?_erase.trans (if_pos rfl)).symm.trans hrow
        exact .inl ⟨row, (Dict.get?_erase.trans (if_neg hne)).symm.trans hrow, hstate⟩
      · rw [execute_release_of_other fun old hold hmine ↦ hown ⟨old, hold, hmine⟩] at hrow
        exact .inl ⟨row, hrow, hstate⟩
  | purge stamp =>
      rw [Statement.execute, Dict.get?_filter] at hrow
      split at hrow
      · exact .inl ⟨row, hrow, hstate⟩
      · cases hrow

theorem asks_run {α : Type} {q : Statement} {next : q.Result → Program Db Failure α} {P : Statement → Prop} (hq : P q)
    (hnext : ∀ result, (next result).Asks (Anything Db) fun _ q' ↦ P q') :
    (q.run.bind next).Asks (Anything Db) fun _ q' ↦ P q' :=
  Program.Asks.bind ((Program.asks_call _ _).mpr hq) hnext

theorem always_run {α : Type} {q : Statement} {next : q.Result → Program Db Failure α}
    {Q : List (Interaction.Event Db) → Except Failure α → Prop} :
    (q.run.bind next).Always (Anything Db) Q ↔ (∀ failure, Q [⟨q, .error failure⟩] (.error failure)) ∧
      ∀ result, (next result).Always (Anything Db) fun t x ↦ Q (⟨q, .ok result⟩ :: t) x := by
  constructor
  · exact fun h ↦ ⟨fun failure ↦ h (.error failure) trivial, fun result ↦ h (.ok result) trivial⟩
  · rintro ⟨herror, hok⟩ r -
    cases r with
    | error failure => exact herror failure
    | ok result => exact hok result

variable {key : String}

/-- A claim answers that the key is a duplicate when it has seen that it is confirmed. -/
def Tells (key : String) (t : List (Interaction.Event Db)) (x : Except Failure Claim) : Prop :=
  x = .ok .duplicate → ⟨.look key, .ok (some RowState.confirmed)⟩ ∈ t

theorem tells_of_ne {t : List (Interaction.Event Db)} {x : Except Failure Claim} (hx : x ≠ .ok .duplicate) :
    Tells key t x := fun heq ↦ absurd heq hx

theorem tells_run {q : Statement} {next : q.Result → Program Db Failure Claim}
    (hnext : ∀ result, (next result).Always (Anything Db) (Tells key)) :
    (q.run.bind next).Always (Anything Db) (Tells key) := by
  refine always_run.mpr ⟨fun failure ↦ tells_of_ne (by simp), fun result ↦ (hnext result).mono fun t x h ↦ ?_⟩
  exact fun heq ↦ List.mem_cons_of_mem _ (h heq)

theorem claim_tells (store : SqlIdempotencyStore) (key : String) :
    (store.claim key).Always (Anything Db) (Tells key) := by
  rw [claim]
  split
  · exact tells_of_ne (by simp)
  refine tells_run fun now ↦ tells_run fun inserted ↦ ?_
  split
  · exact tells_of_ne (by simp)
  refine tells_run fun taken ↦ ?_
  split
  · exact tells_of_ne (by simp)
  -- the look decides
  refine always_run.mpr ⟨fun failure ↦ tells_of_ne (by simp), fun state heq ↦ ?_⟩
  split at heq
  · rename_i hconfirmed
    rw [hconfirmed]
    exact List.mem_singleton_self _
  · cases heq

/-! ### What a claim finds -/

/-- A claim of the key is alive at `now`, and not confirmed. -/
def LiveAt (table : Table) (key : String) (now : ℤ) : Prop :=
  ∃ row, table.get? key = some row ∧ row.state = .claimed ∧ now < row.expiresAt

/-- The statements of a claim, and a live claim of the key that they find.  They take for the time
what the clock showed when they began, and the last of them takes any claim to be alive. -/
inductive Finding (table : Table) (key : String) : Statement → Prop
  | inserting {row : Row} : row.state = .claimed → LiveAt table key row.recordedAt → Finding table key (.insert key row)
  | takingOver {node : String} {now expiresAt : ℤ} : LiveAt table key now →
      Finding table key (.takeOver key node now expiresAt)
  | looking {row : Row} : table.get? key = some row → row.state = .claimed → Finding table key (.look key)

/-- The statements after which a claim is not made. -/
def Deciding : Statement → Prop
  | .takeOver .. | .look _ => True
  | .now | .insert .. | .settle .. | .release .. | .purge _ => False

variable {D : Type} {d : D}

/-- The statement failed. -/
def Failing (e : Interaction.Event Db) : Prop := ∃ failure : Failure, e.2 = .error failure

/-- What is left of a claim, against this table. -/
abbrev BarredBy (d : D) (key : String) : Program Db Failure Claim → Prop :=
  Barred (fun (s : World D) q ↦ Finding s.table key q) (fun s q r s' ↦ Answers (fun _ _ _ ↦ True) s d q r s') Failing

abbrev BarredByIfFound (d : D) (key : String) : Program Db Failure Claim → Prop :=
  BarredIfFound (fun (s : World D) q ↦ Finding s.table key q) (fun s q r s' ↦ Answers (fun _ _ _ ↦ True) s d q r s')
    Failing Deciding

/-- A statement that answers this when it finds a live claim, and what follows. -/
theorem barredBy_run {q : Statement} {next : q.Result → Program Db Failure Claim} {result : q.Result}
    (hresult : ∀ s : World D, Finding s.table key q → (q.execute s.clock s.table).1 = result)
    (hnext : BarredBy d key (next result)) : BarredBy d key (q.run.bind next) := by
  rintro s r s' hfinds hanswer
  cases hanswer with
  | lost failure | failed failure => exact .inl ⟨failure, rfl⟩
  | answered =>
      rw [hresult s hfinds]
      exact .inr hnext

theorem barredIfFound_run {q : Statement} {next : q.Result → Program Db Failure Claim} {result : q.Result}
    (hresult : ∀ s : World D, Finding s.table key q → (q.execute s.clock s.table).1 = result)
    (hnext : BarredBy d key (next result))
    (hdecided : Deciding q → (next result).Always (Anything Db) fun _ x ↦ x ≠ .ok .claimed) :
    BarredByIfFound d key (q.run.bind next) := by
  rintro s r s' hfinds hanswer
  refine ⟨barredBy_run hresult hnext s r s' hfinds hanswer, fun hdecides ↦ ?_⟩
  cases hanswer with
  | lost failure | failed failure => exact nofun
  | answered =>
      rw [hresult s hfinds]
      exact hdecided hdecides

theorem stays_run {α : Type} {q : Statement} {next : q.Result → Program Db Failure α}
    {P : Program Db Failure α → Prop} (hq : P (q.run.bind next)) (hraise : ∀ failure, P (.raise failure))
    (hnext : ∀ result, (next result).Stays (Anything Db) P) : (q.run.bind next).Stays (Anything Db) P := by
  refine ⟨hq, fun r _ ↦ ?_⟩
  cases r with
  | error failure => exact hraise failure
  | ok result => exact hnext result

theorem insert_of_finding {s : World D} {row : Row} (h : Finding s.table key (.insert key row)) :
    ((Statement.insert key row).execute s.clock s.table).1 = (0 : ℕ) := by
  cases h with
  | inserting _ hlive =>
      obtain ⟨row', hrow, -⟩ := hlive
      rw [execute_insert_of_mem (Dict.mem_iff_get?.mpr ⟨row', hrow⟩)]

theorem takeOver_of_finding {s : World D} {node : String} {now expiresAt : ℤ}
    (h : Finding s.table key (.takeOver key node now expiresAt)) :
    ((Statement.takeOver key node now expiresAt).execute s.clock s.table).1 = (0 : ℕ) := by
  cases h with
  | takingOver hlive =>
      obtain ⟨row, hrow, -, hlive⟩ := hlive
      rw [execute_takeOver_of_live fun row' hrow' ↦ Option.some.inj (hrow.symm.trans hrow') ▸ hlive]

theorem look_of_finding {s : World D} (h : Finding s.table key (.look key)) :
    ((Statement.look key).execute s.clock s.table).1 = some RowState.claimed := by
  cases h with
  | looking hrow hstate => rw [Statement.execute, hrow, Option.map_some, hstate]

/-- What a claim ends with that neither writes nor takes over. -/
def lastLook (key : String) : Program Db Failure Claim := do
  let state : Option RowState ← (Statement.look key).run
  return if state = some .confirmed then .duplicate else .inProgress

theorem lastLook_not_claimed (key : String) :
    (lastLook key).Always (Anything Db) fun _ x ↦ x ≠ .ok .claimed := by
  refine always_run.mpr ⟨fun failure ↦ nofun, fun state heq ↦ ?_⟩
  split at heq
  · cases heq
  · cases heq

/-- A claim that finds a live claim whenever it asks is answered that the key is in progress, and
one that finds it when it would take over does not get the key. -/
theorem claim_found (store : SqlIdempotencyStore) (d : D) (key : String) :
    (store.claim key).Stays (Anything Db) (BarredByIfFound d key) := by
  have hlook : BarredBy d key (lastLook key) :=
    barredBy_run (fun s hfinds ↦ look_of_finding hfinds) rfl
  have hinProgress : (.ok .inProgress : Except Failure Claim) ≠ .ok .claimed := by simp
  rw [claim]
  split
  · trivial
  refine stays_run (fun s r s' hfinds ↦ by cases hfinds) (fun _ ↦ trivial) fun now ↦ ?_
  refine stays_run (barredIfFound_run (fun s hfinds ↦ insert_of_finding hfinds) ?_ False.elim) (fun _ ↦ trivial)
    fun inserted ↦ ?_
  · exact barredBy_run (fun s hfinds ↦ takeOver_of_finding hfinds) hlook
  split
  · trivial
  refine stays_run (barredIfFound_run (fun s hfinds ↦ takeOver_of_finding hfinds) hlook
    fun _ ↦ lastLook_not_claimed key) (fun _ ↦ trivial) fun taken ↦ ?_
  split
  · trivial
  exact stays_run (barredIfFound_run (fun s hfinds ↦ look_of_finding hfinds) rfl fun _ ↦ hinProgress)
    (fun _ ↦ trivial) fun _ ↦ trivial

/-- The table that all deliveries share, each through a store of its own. -/
def shared (stores : D → SqlIdempotencyStore) : Store D (World D) Db where
  calls d := (stores d).calls
  answer s d q r s' := Answers (fun _ _ _ ↦ True) s d q r s'
  release d key := .release key (stores d).node
  released _ _ r := r.map fun _ ↦ ()
  Confirms := Confirming
  Reports e key := e = ⟨.look key, .ok (some RowState.confirmed)⟩
  Fails := Failing
  Confirmed s key := ConfirmedIn s.table key
  Finds s q key := Finding s.table key q
  Decides := Deciding
  claim_asks d key := by
    change ((stores d).claim key).Asks _ _
    rw [claim]
    split
    · trivial
    refine asks_run ⟨nofun, nofun⟩ fun now ↦ asks_run ⟨?_, nofun⟩ fun inserted ↦ ?_
    · rintro other ⟨⟩
      contradiction
    split
    · trivial
    refine asks_run ⟨nofun, nofun⟩ fun taken ↦ ?_
    split
    · trivial
    exact asks_run ⟨nofun, nofun⟩ fun state ↦ trivial
  claim_reports d key := ((stores d).claim_tells key).mono fun t x htells heq ↦ ⟨_, htells heq, rfl⟩
  claim_found d key := (stores d).claim_found d key
  confirm_asks d key := by
    refine asks_run ⟨nofun, nofun⟩ fun now ↦ asks_run ⟨?_, nofun⟩ fun settled ↦ ?_
    · rintro other ⟨⟩
      rfl
    split
    · refine asks_run ⟨?_, ?_⟩ fun inserted ↦ trivial
      · rintro other ⟨⟩
        rfl
      · rintro s other ⟨hstate, -⟩
        cases hstate
    · trivial
  forget_eq d key := by
    change Program.ask _ _ = Program.ask _ _
    congr 1
    funext r
    cases r with
    | ok affected => rfl
    | error failure => rfl
  release_confirms _ _ _ := nofun
  release_finds _ _ _ _ := nofun
  confirmed_of_answer s d q r s' key hanswer hconfirmed := by
    cases hanswer with
    | answered | lost => exact confirmedIn_of_execute hconfirmed
    | failed => exact .inl hconfirmed
  confirmed_of_reports := by
    rintro s d q r s' key hanswer heq
    obtain ⟨rfl, hr⟩ := Sigma.mk.inj heq
    obtain rfl := eq_of_heq hr
    generalize hr : (Except.ok (some RowState.confirmed) : Db.Ans (.look key)) = r at hanswer
    cases hanswer with
    | answered =>
        obtain ⟨row, hrow, hstate⟩ := Option.map_eq_some_iff.mp (Except.ok.inj hr).symm
        exact ⟨row, hrow, hstate⟩
    | lost | failed => cases hr

end SqlIdempotencyStore

/-! ## What the guard promises on either -/

section guards

variable {D Payload σ : Type} [DecidableEq D] {J : Interface}

/-- What deliveries through the guard reach from a state of their store. -/
abbrev Store.Reaches (store : Store D σ J) (key : Option (Message Payload → Except Failure String))
    (inProgressDelay : Duration) (messages : D → Message Payload) (init s : σ)
    (h : List (D × Interaction.Event (Guarding Payload J)))
    (ps : D → Program (Guarding Payload J) Failure Ack) : Prop :=
  Interleaved (store.delivery key inProgressDelay messages) store.answers store.Drifts init s h ps

end guards

/-! ## One delivery that is put off -/

def warehouse : SqlIdempotencyStore := ⟨"n1", 60000000, 7200000000, by decide, by decide⟩

def placed : Message Unit := ⟨(), .new "m1" "order.placed" 0, "orders", none, false, [], ""⟩

abbrev warehouses : Store Unit (World Unit) Db := SqlIdempotencyStore.shared fun _ ↦ warehouse

def claimedRow : Row := ⟨.claimed, some "n1", 0, 0 + warehouse.hold⟩

def claimedWorld : World Unit :=
  ⟨0, (∅ : Table).set "m1" claimedRow, some (), [⟨(), 0, .now, (0 : ℤ)⟩, ⟨(), 0, .insert "m1" claimedRow, (1 : ℕ)⟩]⟩

/-- The handler asks for a retry, and the release ends like this. -/
def putOff (released : Except Failure ℕ) : List (Unit × Interaction.Event (Guarding Unit Db)) :=
  [((), ⟨.inr .now, (.ok (0 : ℤ) : Except Failure ℤ)⟩),
    ((), ⟨.inr (.insert "m1" claimedRow), (.ok (1 : ℕ) : Except Failure ℕ)⟩),
    ((), ⟨.inl placed, .ok (.retry none)⟩), ((), ⟨.inr (.release "m1" "n1"), released⟩)]

/-- The delivery ends as its release lets it. -/
theorem putOff_reached {released : Except Failure ℕ} {s : World Unit}
    (hrelease : Answers (fun _ _ _ ↦ True) claimedWorld () (.release "m1" "n1") released s) :
    ∃ ps, warehouses.Reaches none 0 (fun _ ↦ placed) (.fresh 0) s (putOff released) ps ∧
      ps () = .ofExcept (seen (.ok (.retry none)) (released.map fun _ ↦ ())) := by
  have h₀ : warehouses.Reaches none 0 (fun _ ↦ placed) (.fresh 0) (.fresh 0) [] _ := .init
  have h₁ : warehouses.Reaches none 0 (fun _ ↦ placed) (.fresh 0) _ ((putOff released).take 1) _ :=
    h₀.step (d := ()) rfl (.answered trivial)
  have h₂ : warehouses.Reaches none 0 (fun _ ↦ placed) (.fresh 0) _ ((putOff released).take 2) _ :=
    h₁.step (d := ()) rfl (.answered trivial)
  have h₃ : warehouses.Reaches none 0 (fun _ ↦ placed) (.fresh 0) _ ((putOff released).take 3) _ :=
    h₂.step (d := ()) rfl rfl
  have h₄ : warehouses.Reaches none 0 (fun _ ↦ placed) (.fresh 0) s (putOff released) _ :=
    h₃.step (d := ()) rfl hrelease
  refine ⟨_, h₄, ?_⟩
  rcases released with failure | affected
  · change (if failure.isException = true then .ret () else .raise failure : Program (Guarding Unit Db) Failure
      Unit).bind (fun _ ↦ .ret (.retry none)) = .ofExcept (seen (.ok (.retry none)) (.error failure))
    rw [seen, hushed]
    split
    · rfl
    · rfl
  · rfl

/-- The delivery is cut off in the middle of the release. -/
def cutOff : Failure := ⟨.cancelled, "CancelledError", ""⟩

end Idempotency

end AcemqAmqp
