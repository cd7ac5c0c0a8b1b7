import AcemqAmqp.Foundations.Rely
import AcemqAmqp.Idempotency.SqlStore

/-!
# Leases on a key

Any number of handlers claim, confirm, forget and purge, statement by statement.
A claim bars the others until its time is up, and a confirmation is remembered,
as long as nobody forgets a claim that is not his own and no confirmation cuts
short what the row says.  What a claim is answered is what its statements came to.
-/

namespace AcemqAmqp

namespace Idempotency

open Interaction

/-- A call of a store. -/
inductive Call
  | claim
  | confirm
  | forget
  | purgeExpired
  deriving DecidableEq

namespace SqlIdempotencyStore

variable (store : SqlIdempotencyStore) (key : String)

/-- A call, and what it returns when it is a claim. -/
def perform : Call → Program Db Failure (Option Claim)
  | .claim => (store.claim key).bind fun answer ↦ .ret (some answer)
  | .confirm => (store.confirm key).bind fun _ ↦ .ret none
  | .forget => (store.forget key).bind fun _ ↦ .ret none
  | .purgeExpired => purgeExpired.bind fun _ ↦ .ret none

end SqlIdempotencyStore

/-! ## What the database has done -/

/-- A statement that was executed: for which call, when, and with which result. -/
structure Entry (C : Type) where
  who : C
  time : ℤ
  statement : Statement
  result : statement.Result

/-- The claim is made, as of `t`. -/
inductive ClaimedAt : (q : Statement) → q.Result → ℤ → Prop
  | inserted {key : String} {node : Option String} {t expiresAt : ℤ} :
      ClaimedAt (.insert key ⟨.claimed, node, t, expiresAt⟩) (1 : ℕ) t
  | takenOver {key node : String} {t expiresAt : ℤ} : ClaimedAt (.takeOver key node t expiresAt) (1 : ℕ) t

/-- The confirmation is recorded, as of `t`. -/
inductive ConfirmedAt : (q : Statement) → q.Result → ℤ → Prop
  | settled {key : String} {t expiresAt : ℤ} : ConfirmedAt (.settle key t expiresAt) (1 : ℕ) t
  | inserted {key : String} {node : Option String} {t expiresAt : ℤ} :
      ConfirmedAt (.insert key ⟨.confirmed, node, t, expiresAt⟩) (1 : ℕ) t

/-- A claim that looks at the row sees no confirmation. -/
inductive Unconfirmed : (q : Statement) → q.Result → Prop
  | looked {key : String} {state : Option RowState} : state ≠ some .confirmed → Unconfirmed (.look key) state

/-- What a claim is answered when this is the last of its statements. -/
inductive Settles : (q : Statement) → q.Result → Claim → Prop
  | claimed {q : Statement} {result : q.Result} {t : ℤ} : ClaimedAt q result t → Settles q result .claimed
  | duplicate {key : String} : Settles (.look key) (some RowState.confirmed) .duplicate
  | inProgress {q : Statement} {result : q.Result} : Unconfirmed q result → Settles q result .inProgress

def Statement.Releases : Statement → Prop
  | release .. => True
  | now | insert .. | takeOver .. | look _ | settle .. | purge _ => False

def Statement.claims : (q : Statement) → q.Result → Bool
  | insert _ row, (result : ℕ) => row.state = .claimed ∧ result = 1
  | takeOver .., (result : ℕ) => result = 1
  | now, _ | look _, _ | settle .., _ | release .., _ | purge _, _ => false

/-- The database, with what it has done so far and which call wrote the last claim, which nobody reads. -/
structure World (C : Type) where
  clock : ℤ
  table : Table
  claimant : Option C
  log : List (Entry C)

variable {C D : Type}

namespace World

variable (s : World C) (c : C) (q : Statement)

def entry : Entry C := ⟨c, s.clock, q, (q.execute s.clock s.table).1⟩

def after : World C where
  clock := s.clock
  table := (q.execute s.clock s.table).2
  claimant := if q.claims (q.execute s.clock s.table).1 then some c else s.claimant
  log := s.log ++ [s.entry c q]

/-- An empty table. -/
def fresh (clock : ℤ) : World C := ⟨clock, ∅, none, []⟩

/-- Time goes on. -/
def Ticks (s s' : World C) : Prop := ∃ clock, s.clock ≤ clock ∧ s' = { s with clock := clock }

end World

/-- How the database answers, statement by statement, when it executes only what `May` happen.
Every statement can fail, before it is executed or after. -/
inductive Answers (May : World C → C → Statement → Prop) (s : World C) (c : C) :
    (q : Statement) → Db.Ans q → World C → Prop
  | answered {q : Statement} : May s c q → Answers May s c q (.ok (q.execute s.clock s.table).1) (s.after c q)
  | lost {q : Statement} (failure : Failure) : May s c q → Answers May s c q (.error failure) (s.after c q)
  | failed {q : Statement} (failure : Failure) : Answers May s c q (.error failure) s

/-! ## What is promised -/

section promised

variable (handler : C → D) (store : D → SqlIdempotencyStore) (key : String)

/-- A claim of the handler `d` is made as of `t`, and `d` has not asked to forget it since. -/
def Leased (log : List (Entry C)) (d : D) (t : ℤ) : Prop :=
  ∃ before entry after, log = before ++ entry :: after ∧ handler entry.who = d ∧
    ClaimedAt entry.statement entry.result t ∧
    ∀ later ∈ after, handler later.who = d → ¬later.statement.Releases

/-- A confirmation of `d` is recorded as of `t`. -/
def Recorded (log : List (Entry C)) (d : D) (t : ℤ) : Prop :=
  ∃ entry ∈ log, handler entry.who = d ∧ ConfirmedAt entry.statement entry.result t

/-- The call read the clock, and it was `t`. -/
def ReadAt (log : List (Entry C)) (c : C) (t : ℤ) : Prop :=
  ∃ reading ∈ log, reading.who = c ∧ reading.statement = .now ∧ reading.time = t

/-- What may follow: no claim is made while another holds, none is made and none looks in vain while
a confirmation is to be remembered, and what is written as of `t` is written by who read the clock. -/
structure Fits (log : List (Entry C)) (entry : Entry C) : Prop where
  exclusive : ∀ d t t', Leased handler log d t → ClaimedAt entry.statement entry.result t' →
    t + (store d).hold ≤ entry.time
  remembered : ∀ d t, Recorded handler log d t → entry.time < t + (store d).memory →
    (∀ t', ¬ClaimedAt entry.statement entry.result t') ∧ ¬Unconfirmed entry.statement entry.result
  timely : ∀ t, ClaimedAt entry.statement entry.result t ∨ ConfirmedAt entry.statement entry.result t →
    ReadAt log entry.who t

/-- Everything that was done fits what was done before. -/
def Orderly (log : List (Entry C)) : Prop :=
  ∀ before entry after, log = before ++ entry :: after → Fits handler store before entry

/-- The call was answered this by the last of its statements, and who was to be barred is: a claim
is not given while another holds, and is a duplicate while a confirmation is to be remembered. -/
structure Answered (before : List (Entry C)) (entry : Entry C) (answer : Claim) : Prop where
  settles : Settles entry.statement entry.result answer
  exclusive : answer = .claimed → ∀ d t, Leased handler before d t → t + (store d).hold ≤ entry.time
  remembered : ∀ d t, Recorded handler before d t → entry.time < t + (store d).memory → answer = .duplicate

/-- Every claim that has returned was answered what the last of its statements came to. -/
def Honoured (log : List (Entry C)) (ps : C → Program Db Failure (Option Claim)) : Prop :=
  ∀ c answer, ps c = .ret (some answer) → ∃ before entry after, log = before ++ entry :: after ∧
    entry.who = c ∧ (∀ later ∈ after, later.who ≠ c) ∧ Answered handler store before entry answer

/-- The steps that keep the promises: nobody forgets a live claim of somebody else, and no
confirmation ends before the row it replaces would have. -/
def Proper (s : World C) (c : C) : Statement → Prop
  | .release key node => ∀ row, s.table.get? key = some row → row.ClaimOf node → s.clock < row.expiresAt →
      s.claimant.map handler = some (handler c)
  | .settle key _ expiresAt => ∀ row, s.table.get? key = some row → s.clock < row.expiresAt →
      row.expiresAt ≤ expiresAt
  | .now | .insert .. | .takeOver .. | .look _ | .purge _ => True

end promised

/-! ## What one more entry changes -/

variable {handler : C → D} {store : D → SqlIdempotencyStore} {key : String}

section entries

variable {log : List (Entry C)} {entry : Entry C} {d : D} {t : ℤ}

theorem split_snoc {α : Type} {l before after : List α} {a b : α} (h : l ++ [a] = before ++ b :: after) :
    (after = [] ∧ l = before ∧ a = b) ∨ ∃ rest, after = rest ++ [a] ∧ l = before ++ b :: rest := by
  rcases List.eq_nil_or_concat after with rfl | ⟨rest, last, rfl⟩
  · obtain ⟨hl, hlast⟩ := List.append_inj' h rfl
    exact .inl ⟨rfl, hl, List.head_eq_of_cons_eq hlast⟩
  · rw [List.concat_eq_append, ← List.cons_append, ← List.append_assoc] at h
    obtain ⟨hl, hlast⟩ := List.append_inj' h rfl
    rw [List.concat_eq_append, List.head_eq_of_cons_eq hlast]
    exact .inr ⟨rest, rfl, hl⟩

theorem leased_snoc : Leased handler (log ++ [entry]) d t ↔
    (handler entry.who = d ∧ ClaimedAt entry.statement entry.result t) ∨
      Leased handler log d t ∧ (handler entry.who = d → ¬entry.statement.Releases) := by
  constructor
  · rintro ⟨before, made, after, hsplit, hwho, hclaimed, hafter⟩
    obtain ⟨rfl, rfl, rfl⟩ | ⟨rest, rfl, rfl⟩ := split_snoc hsplit
    · exact .inl ⟨hwho, hclaimed⟩
    · rw [List.forall_mem_append, List.forall_mem_singleton] at hafter
      exact .inr ⟨⟨before, made, rest, rfl, hwho, hclaimed, hafter.1⟩, hafter.2⟩
  · rintro (⟨hwho, hclaimed⟩ | ⟨⟨before, made, rest, rfl, hwho, hclaimed, hrest⟩, hlast⟩)
    · exact ⟨log, entry, [], rfl, hwho, hclaimed, nofun⟩
    · refine ⟨before, made, rest ++ [entry], by simp, hwho, hclaimed, ?_⟩
      rw [List.forall_mem_append, List.forall_mem_singleton]
      exact ⟨hrest, hlast⟩

theorem recorded_snoc : Recorded handler (log ++ [entry]) d t ↔
    (handler entry.who = d ∧ ConfirmedAt entry.statement entry.result t) ∨ Recorded handler log d t := by
  constructor
  · rintro ⟨made, hmem, hmade⟩
    obtain hmem | hmem := List.mem_append.mp hmem
    · exact .inr ⟨made, hmem, hmade⟩
    · obtain rfl := List.mem_singleton.mp hmem
      exact .inl hmade
  · rintro (hmade | ⟨made, hmem, hmade⟩)
    · exact ⟨entry, List.mem_append_right _ List.mem_cons_self, hmade⟩
    · exact ⟨made, List.mem_append_left _ hmem, hmade⟩

theorem Orderly.snoc (h : Orderly handler store log) (hfits : Fits handler store log entry) :
    Orderly handler store (log ++ [entry]) := by
  intro before made after hsplit
  obtain ⟨rfl, rfl, rfl⟩ | ⟨rest, rfl, hlog⟩ := split_snoc hsplit
  · exact hfits
  · exact h before made rest hlog

end entries

/-! ## What every proper step keeps -/

section sound

variable (handler) (store) (key)

/-- Everything so far is in order, and the row of the key stands for all that is promised and not
over yet. -/
structure Sound (s : World C) : Prop where
  orderly : Orderly handler store s.log
  leases : ∀ d t, Leased handler s.log d t → t + (store d).hold ≤ s.clock ∨ ∃ row, s.table.get? key = some row ∧
    t + (store d).hold ≤ row.expiresAt ∧ (row.state = .claimed → s.claimant.map handler = some d)
  records : ∀ d t, Recorded handler s.log d t → t + (store d).memory ≤ s.clock ∨ ∃ row, s.table.get? key = some row ∧
    t + (store d).memory ≤ row.expiresAt ∧ row.state = .confirmed

/-- Every promise is over. -/
structure Free (s : World C) : Prop where
  leases : ∀ d t, Leased handler s.log d t → t + (store d).hold ≤ s.clock
  records : ∀ d t, Recorded handler s.log d t → t + (store d).memory ≤ s.clock

end sound

variable {s : World C} {c : C}

theorem World.after_eq {q : Statement} {result : q.Result} {table : Table}
    (h : q.execute s.clock s.table = (result, table)) : s.after c q =
      ⟨s.clock, table, if q.claims result then some c else s.claimant, s.log ++ [⟨c, s.clock, q, result⟩]⟩ := by
  rw [World.after, World.entry, h]

/-- No row, or none that is still alive. -/
theorem Sound.free (h : Sound handler store key s)
    (hover : ∀ row, s.table.get? key = some row → row.expiresAt ≤ s.clock) : Free handler store s where
  leases d t hleased := by
    obtain hdone | ⟨row, hrow, hle, -⟩ := h.leases d t hleased
    · exact hdone
    · exact hle.trans (hover row hrow)
  records d t hrecorded := by
    obtain hdone | ⟨row, hrow, hle, -⟩ := h.records d t hrecorded
    · exact hdone
    · exact hle.trans (hover row hrow)

theorem ClaimedAt.unique {q : Statement} {result : q.Result} {t t' : ℤ} (h : ClaimedAt q result t)
    (h' : ClaimedAt q result t') : t' = t := by
  cases h <;> cases h' <;> rfl

theorem ConfirmedAt.unique {q : Statement} {result : q.Result} {t t' : ℤ} (h : ConfirmedAt q result t)
    (h' : ConfirmedAt q result t') : t' = t := by
  cases h <;> cases h' <;> rfl

theorem ClaimedAt.not_confirmedAt {q : Statement} {result : q.Result} {t t' : ℤ} (h : ClaimedAt q result t) :
    ¬ConfirmedAt q result t' := by
  cases h <;> nofun

theorem ClaimedAt.claims {q : Statement} {result : q.Result} {t : ℤ} (h : ClaimedAt q result t) :
    q.claims result = true := by
  cases h <;> rfl

theorem ConfirmedAt.quiet {q : Statement} {result : q.Result} {t : ℤ} (h : ConfirmedAt q result t) :
    q.claims result = false ∧ (∀ t', ¬ClaimedAt q result t') ∧ ¬Unconfirmed q result := by
  cases h <;> exact ⟨rfl, nofun, nofun⟩

/-- When nothing is promised, a claim fits. -/
theorem Free.fits (h : Free handler store s) {q : Statement} {result : q.Result} {t : ℤ}
    (hmade : ClaimedAt q result t) (hread : ReadAt s.log c t) :
    Fits handler store s.log ⟨c, s.clock, q, result⟩ where
  exclusive d t _ hleased _ := h.leases d t hleased
  remembered d t hrecorded hlt := absurd (h.records d t hrecorded) (not_le.mpr hlt)
  timely t' hmade' := by
    rcases hmade' with hmade' | hmade'
    · rw [hmade.unique hmade']
      exact hread
    · exact absurd hmade' hmade.not_confirmedAt

/-- A statement that writes neither fits when it does not look in vain. -/
theorem fits_of_idle {q : Statement} {result : q.Result} (hclaimed : ∀ t, ¬ClaimedAt q result t)
    (hconfirmed : ∀ t, ¬ConfirmedAt q result t)
    (hlooks : ∀ d t, Recorded handler s.log d t → s.clock < t + (store d).memory → ¬Unconfirmed q result) :
    Fits handler store s.log ⟨c, s.clock, q, result⟩ where
  exclusive _ _ t _ hmade := absurd hmade (hclaimed t)
  remembered d t hrecorded hlt := ⟨hclaimed, hlooks d t hrecorded hlt⟩
  timely t hmade := hmade.elim (fun hmade ↦ absurd hmade (hclaimed t)) fun hmade ↦ absurd hmade (hconfirmed t)

/-- A statement that is no claim, no confirmation and no release, and leaves the row. -/
theorem Sound.idle (h : Sound handler store key s) {q : Statement} {result : q.Result} {table : Table}
    (hexecute : q.execute s.clock s.table = (result, table)) (hrow : table.get? key = s.table.get? key)
    (hclaims : q.claims result = false) (hclaimed : ∀ t, ¬ClaimedAt q result t)
    (hconfirmed : ∀ t, ¬ConfirmedAt q result t)
    (hlooks : ∀ d t, Recorded handler s.log d t → s.clock < t + (store d).memory → ¬Unconfirmed q result) :
    Sound handler store key (s.after c q) := by
  rw [World.after_eq hexecute, hclaims]
  refine ⟨h.orderly.snoc (fits_of_idle hclaimed hconfirmed hlooks), fun d' t hleased ↦ ?_,
    fun d' t hrecorded ↦ ?_⟩
  · obtain ⟨-, hmade⟩ | ⟨hleased, -⟩ := leased_snoc.mp hleased
    · exact absurd hmade (hclaimed t)
    · rw [hrow]
      exact h.leases d' t hleased
  · obtain ⟨-, hmade⟩ | hrecorded := recorded_snoc.mp hrecorded
    · exact absurd hmade (hconfirmed t)
    · rw [hrow]
      exact h.records d' t hrecorded

/-- A claim is made where nothing is promised. -/
theorem Sound.claimed (h : Sound handler store key s) (hfree : Free handler store s) {q : Statement}
    {result : q.Result} {table : Table} {t : ℤ} {row : Row}
    (hexecute : q.execute s.clock s.table = (result, table)) (hmade : ClaimedAt q result t)
    (hread : ReadAt s.log c t) (hrow : table.get? key = some row)
    (hexpires : row.expiresAt = t + (store (handler c)).hold) : Sound handler store key (s.after c q) := by
  rw [World.after_eq hexecute, hmade.claims]
  refine ⟨h.orderly.snoc (hfree.fits hmade hread), fun d' t' hleased ↦ ?_, fun d' t' hrecorded ↦ ?_⟩
  · obtain ⟨rfl, hmade'⟩ | ⟨hleased, -⟩ := leased_snoc.mp hleased
    · rw [hmade.unique hmade']
      exact .inr ⟨row, hrow, hexpires.ge, fun _ ↦ rfl⟩
    · exact .inl (hfree.leases d' t' hleased)
  · obtain ⟨-, hmade'⟩ | hrecorded := recorded_snoc.mp hrecorded
    · exact absurd hmade' hmade.not_confirmedAt
    · exact .inl (hfree.records d' t' hrecorded)

/-- A confirmation is recorded, and does not end before the row it replaces. -/
theorem Sound.confirmed (h : Sound handler store key s) {q : Statement} {result : q.Result}
    {table : Table} {t : ℤ} {row : Row} (hexecute : q.execute s.clock s.table = (result, table))
    (hmade : ConfirmedAt q result t) (hread : ReadAt s.log c t) (hrow : table.get? key = some row)
    (hstate : row.state = .confirmed) (hexpires : row.expiresAt = t + (store (handler c)).memory)
    (hlater : ∀ old, s.table.get? key = some old → s.clock < old.expiresAt → old.expiresAt ≤ row.expiresAt) :
    Sound handler store key (s.after c q) := by
  obtain ⟨hclaims, hclaimed, hlooks⟩ := hmade.quiet
  -- What the old row stood for is over, or the new row stands for it.
  have hstands : ∀ {u : ℤ} {old : Row}, s.table.get? key = some old → u ≤ old.expiresAt →
      u ≤ s.clock ∨ u ≤ row.expiresAt := by
    intro u old hold hle
    obtain hover | halive := le_or_gt old.expiresAt s.clock
    · exact .inl (hle.trans hover)
    · exact .inr (hle.trans (hlater old hold halive))
  have hstate' : row.state ≠ .claimed := by
    rw [hstate]
    nofun
  rw [World.after_eq hexecute, hclaims]
  refine ⟨h.orderly.snoc ⟨fun _ _ t' _ hmade' ↦ absurd hmade' (hclaimed t'), fun _ _ _ _ ↦ ⟨hclaimed, hlooks⟩,
    fun t' hmade' ↦ ?_⟩, fun d' t' hleased ↦ ?_, fun d' t' hrecorded ↦ ?_⟩
  · rw [hmade.unique (hmade'.resolve_left (hclaimed t'))]
    exact hread
  · obtain ⟨-, hmade'⟩ | ⟨hleased, -⟩ := leased_snoc.mp hleased
    · exact absurd hmade' (hclaimed t')
    · obtain hdone | ⟨old, hold, hle, -⟩ := h.leases d' t' hleased
      · exact .inl hdone
      · exact (hstands hold hle).imp_right fun hle ↦ ⟨row, hrow, hle, fun heq ↦ absurd heq hstate'⟩
  · obtain ⟨rfl, hmade'⟩ | hrecorded := recorded_snoc.mp hrecorded
    · rw [hmade.unique hmade']
      exact .inr ⟨row, hrow, hexpires.ge, hstate⟩
    · obtain hdone | ⟨old, hold, hle, -⟩ := h.records d' t' hrecorded
      · exact .inl hdone
      · exact (hstands hold hle).imp_right fun hle ↦ ⟨row, hrow, hle, hstate⟩

/-- Rows go that are over, or that their own claimant forgets. -/
theorem Sound.removed (h : Sound handler store key s) {q : Statement} {result : q.Result} {table : Table}
    (hexecute : q.execute s.clock s.table = (result, table)) (hclaims : q.claims result = false)
    (hclaimed : ∀ t, ¬ClaimedAt q result t) (hconfirmed : ∀ t, ¬ConfirmedAt q result t)
    (hlooks : ¬Unconfirmed q result)
    (hgone : ∀ row, s.table.get? key = some row → s.clock < row.expiresAt →
      row.state = .claimed ∧ s.claimant.map handler = some (handler c) ∧ q.Releases) :
    Sound handler store key (s.after c q) := by
  have hkeeps : ∀ {row : Row}, s.table.get? key = some row → ∀ {u : ℤ}, u ≤ row.expiresAt →
      (row.state = .claimed → s.claimant.map handler ≠ some (handler c) ∨ ¬q.Releases) → u ≤ s.clock := by
    intro row hrow u hle hother
    obtain hover | halive := le_or_gt row.expiresAt s.clock
    · exact hle.trans hover
    · obtain ⟨hstate, hclaimant, hreleases⟩ := hgone row hrow halive
      exact absurd (hother hstate) (not_or.mpr ⟨not_not.mpr hclaimant, not_not.mpr hreleases⟩)
  rw [World.after_eq hexecute, hclaims]
  refine ⟨h.orderly.snoc (fits_of_idle hclaimed hconfirmed fun _ _ _ _ ↦ hlooks), fun d' t hleased ↦ ?_,
    fun d' t hrecorded ↦ ?_⟩
  · obtain ⟨-, hmade⟩ | ⟨hleased, hreleases⟩ := leased_snoc.mp hleased
    · exact absurd hmade (hclaimed t)
    · obtain hdone | ⟨row, hrow, hle, hclaimant⟩ := h.leases d' t hleased
      · exact .inl hdone
      · refine .inl (hkeeps hrow hle fun hstate ↦ ?_)
        rw [hclaimant hstate]
        by_cases hd : handler c = d'
        · exact .inr (hreleases hd)
        · exact .inl fun heq ↦ hd (Option.some.inj heq).symm
  · obtain ⟨-, hmade⟩ | hrecorded := recorded_snoc.mp hrecorded
    · exact absurd hmade (hconfirmed t)
    · obtain hdone | ⟨row, hrow, hle, hstate⟩ := h.records d' t hrecorded
      · exact .inl hdone
      · refine .inl (hkeeps hrow hle fun heq ↦ ?_)
        rw [hstate] at heq
        cases heq

/-! ## One statement -/

theorem Sound.now (h : Sound handler store key s) : Sound handler store key (s.after c .now) :=
  h.idle rfl rfl rfl nofun nofun fun _ _ _ _ ↦ nofun

theorem Sound.look (h : Sound handler store key s) : Sound handler store key (s.after c (.look key)) := by
  refine h.idle rfl rfl rfl nofun nofun fun d' t hrecorded hlt hlooked ↦ ?_
  obtain hdone | ⟨row, hrow, -, hstate⟩ := h.records d' t hrecorded
  · exact absurd hdone (not_le.mpr hlt)
  · cases hlooked with
    | looked hother => exact hother (by rw [hrow, Option.map_some, hstate])

theorem Sound.insert (h : Sound handler store key s) {row : Row} {t : ℤ} (hread : ReadAt s.log c t)
    (hmeant : row.state = .claimed ∧ row.expiresAt = t + (store (handler c)).hold ∧ row.recordedAt = t ∨
      row.state = .confirmed ∧ row.expiresAt = t + (store (handler c)).memory ∧ row.recordedAt = t) :
    Sound handler store key (s.after c (.insert key row)) := by
  by_cases hmem : key ∈ s.table
  · refine h.idle (execute_insert_of_mem hmem) rfl ?_ nofun nofun fun _ _ _ _ ↦ nofun
    simp [Statement.claims]
  · have hnone : s.table.get? key = none := Dict.get?_eq_none_iff.mpr hmem
    have hfree : Free handler store s := h.free fun old hold ↦ nomatch hnone.symm.trans hold
    obtain ⟨state, node, recordedAt, expiresAt⟩ := row
    obtain ⟨rfl, hexpires, rfl⟩ | ⟨rfl, hexpires, rfl⟩ := hmeant
    · exact h.claimed hfree (execute_insert_of_notMem hmem) .inserted hread Dict.get?_set_self hexpires
    · exact h.confirmed (execute_insert_of_notMem hmem) .inserted hread Dict.get?_set_self rfl hexpires
        fun old hold ↦ nomatch hnone.symm.trans hold

theorem Sound.takeOver (h : Sound handler store key s) {node : String} {t : ℤ} (ht : t ≤ s.clock)
    (hread : ReadAt s.log c t) :
    Sound handler store key (s.after c (.takeOver key node t (t + (store (handler c)).hold))) := by
  have hidle : (Statement.takeOver key node t (t + (store (handler c)).hold)).execute s.clock s.table =
      ((0 : ℕ), s.table) → Sound handler store key (s.after c (.takeOver key node t (t + (store (handler c)).hold))) :=
    fun hexecute ↦ h.idle hexecute rfl rfl nofun nofun fun _ _ _ _ ↦ nofun
  by_cases hover : ∃ row, s.table.get? key = some row ∧ row.expiresAt ≤ t
  · obtain ⟨row, hrow, hle⟩ := hover
    have hfree : Free handler store s := by
      refine h.free fun row' hrow' ↦ ?_
      rw [← Option.some.inj (hrow.symm.trans hrow')]
      exact hle.trans ht
    exact h.claimed hfree (execute_takeOver_of_expired hrow hle) .takenOver hread Dict.get?_set_self rfl
  · refine hidle (execute_takeOver_of_live fun row hrow ↦ ?_)
    exact not_le.mp fun hle ↦ hover ⟨row, hrow, hle⟩

theorem Sound.settle (h : Sound handler store key s) {t : ℤ} (hread : ReadAt s.log c t)
    (hproper : Proper handler s c (.settle key t (t + (store (handler c)).memory))) :
    Sound handler store key (s.after c (.settle key t (t + (store (handler c)).memory))) := by
  by_cases hmem : key ∈ s.table
  · exact h.confirmed (execute_settle_of_mem hmem) .settled hread Dict.get?_set_self rfl rfl hproper
  · exact h.idle (execute_settle_of_notMem hmem) rfl rfl nofun nofun fun _ _ _ _ ↦ nofun

theorem Sound.release (h : Sound handler store key s) {node : String}
    (hproper : Proper handler s c (.release key node)) : Sound handler store key (s.after c (.release key node)) := by
  have hidle : (Statement.release key node).execute s.clock s.table = ((0 : ℕ), s.table) →
      Sound handler store key (s.after c (.release key node)) :=
    fun hexecute ↦ h.idle hexecute rfl rfl nofun nofun fun _ _ _ _ ↦ nofun
  by_cases hown : ∃ row, s.table.get? key = some row ∧ row.ClaimOf node
  · obtain ⟨row, hrow, hown⟩ := hown
    refine h.removed (execute_release_of_own hrow hown) rfl nofun nofun nofun fun row' hrow' halive ↦ ?_
    obtain rfl := Option.some.inj (hrow.symm.trans hrow')
    exact ⟨hown.1, hproper row hrow hown halive, trivial⟩
  · exact hidle (execute_release_of_other fun row hrow hmine ↦ hown ⟨row, hrow, hmine⟩)

theorem Sound.purge (h : Sound handler store key s) {t : ℤ} (ht : t ≤ s.clock) :
    Sound handler store key (s.after c (.purge t)) := by
  have hget : ∀ row, s.table.get? key = some row →
      ((Statement.purge t).execute s.clock s.table).2.get? key = if t < row.expiresAt then some row else none := by
    intro row hrow
    simp only [Statement.execute, Dict.get?_filter, hrow, Option.all_some, decide_eq_true_iff]
  have hclaimed : ∀ (removed : ℕ) t', ¬ClaimedAt (.purge t) removed t' := fun _ _ hmade ↦ by cases hmade
  have hconfirmed : ∀ (removed : ℕ) t', ¬ConfirmedAt (.purge t) removed t' := fun _ _ hmade ↦ by cases hmade
  have hlooks : ∀ removed : ℕ, ¬Unconfirmed (.purge t) removed := fun _ hlooked ↦ by cases hlooked
  by_cases hover : ∃ row, s.table.get? key = some row ∧ row.expiresAt ≤ t
  · obtain ⟨row, hrow, hle⟩ := hover
    refine h.removed rfl rfl (hclaimed _) (hconfirmed _) (hlooks _) fun row' hrow' halive ↦ ?_
    obtain rfl := Option.some.inj (hrow.symm.trans hrow')
    exact absurd (hle.trans ht) (not_le.mpr halive)
  · refine h.idle rfl ?_ rfl (hclaimed _) (hconfirmed _) fun _ _ _ _ ↦ hlooks _
    cases hrow : s.table.get? key with
    | none => simp only [Dict.get?_filter, hrow, Option.all_none, if_true]
    | some row => exact (hget row hrow).trans (if_pos (not_le.mp fun hle ↦ hover ⟨row, hrow, hle⟩))

/-! ## Any calls -/

theorem Sound.fresh (clock : ℤ) : Sound handler store key (World.fresh clock : World C) := by
  refine ⟨fun before entry after hsplit ↦ ?_, ?_, fun d t hrecorded ↦ ?_⟩
  · cases before <;> cases hsplit
  · rintro d t ⟨before, entry, after, hsplit, -⟩
    cases before <;> cases hsplit
  · obtain ⟨entry, hmem, -⟩ := hrecorded
    exact absurd hmem List.not_mem_nil

theorem Sound.ticks {s' : World C} (h : Sound handler store key s) (hticks : s.Ticks s') :
    Sound handler store key s' := by
  obtain ⟨clock, hle, rfl⟩ := hticks
  refine ⟨h.orderly, fun d t hleased ↦ ?_, fun d t hrecorded ↦ ?_⟩
  · exact (h.leases d t hleased).imp_left fun hdone ↦ hdone.trans hle
  · exact (h.records d t hrecorded).imp_left fun hdone ↦ hdone.trans hle

/-- Time has gone on, and the database has worked for other calls. -/
structure Waits (c : C) (s s' : World C) : Prop where
  clock : s.clock ≤ s'.clock
  log : ∃ more, s'.log = s.log ++ more ∧ ∀ e ∈ more, e.who ≠ c

variable (handler) (store) (key) in
/-- What the calls have agreed on: time does not go back, and what has been done stays done. -/
def promises : Pact C (World C) where
  inv := Sound handler store key
  rely := Waits
  keeps c s s' := s.clock ≤ s'.clock ∧ ∃ more, s'.log = s.log ++ more ∧ ∀ e ∈ more, e.who = c
  rely_refl c s := ⟨le_rfl, [], (List.append_nil s.log).symm, nofun⟩
  rely_trans c s s' s'' h h' := by
    obtain ⟨hle, more, hlog, hothers⟩ := h
    obtain ⟨hle', more', hlog', hothers'⟩ := h'
    refine ⟨hle.trans hle', more ++ more', by rw [hlog', hlog, List.append_assoc], ?_⟩
    exact List.forall_mem_append.mpr ⟨hothers, hothers'⟩
  rely_of_keeps c c' s s' _ hne hkeeps := by
    obtain ⟨hle, more, hlog, hown⟩ := hkeeps
    exact ⟨hle, more, hlog, fun e hmem heq ↦ hne ((hown e hmem).symm.trans heq)⟩

/-- The call was answered what the last of its statements came to. -/
def Told (log : List (Entry C)) (c : C) (answer : Claim) : Prop :=
  ∃ before entry after, log = before ++ entry :: after ∧ entry.who = c ∧ (∀ later ∈ after, later.who ≠ c) ∧
    Settles entry.statement entry.result answer

section waiting

variable {s' : World C} {t : ℤ} {answer : Claim}

theorem ReadAt.waits (h : ReadAt s.log c t) (hwaits : Waits c s s') : ReadAt s'.log c t := by
  obtain ⟨reading, hmem, hreading⟩ := h
  obtain ⟨more, hlog, -⟩ := hwaits.log
  rw [hlog]
  exact ⟨reading, List.mem_append_left more hmem, hreading⟩

theorem ReadAt.after (h : ReadAt s.log c t) (q : Statement) : ReadAt (s.after c q).log c t := by
  obtain ⟨reading, hmem, hreading⟩ := h
  exact ⟨reading, List.mem_append_left _ hmem, hreading⟩

theorem readAt_now (s : World C) (c : C) : ReadAt (s.after c .now).log c s.clock :=
  ⟨s.entry c .now, List.mem_append_right _ (List.mem_singleton_self _), rfl, rfl, rfl⟩

theorem Told.waits (h : Told s.log c answer) (hwaits : Waits c s s') : Told s'.log c answer := by
  obtain ⟨before, entry, after, hlog, hwho, hlast, hsettles⟩ := h
  obtain ⟨more, hlog', hothers⟩ := hwaits.log
  refine ⟨before, entry, after ++ more, ?_, hwho, List.forall_mem_append.mpr ⟨hlast, hothers⟩, hsettles⟩
  rw [hlog', hlog, List.append_assoc, List.cons_append]

/-- What a claim is answered keeps what was promised before, where everything is in order. -/
theorem Orderly.answered {log : List (Entry C)} (h : Orderly handler store log) (htold : Told log c answer) :
    ∃ before entry after, log = before ++ entry :: after ∧ entry.who = c ∧ (∀ later ∈ after, later.who ≠ c) ∧
      Answered handler store before entry answer := by
  obtain ⟨before, ⟨who, time, q, result⟩, after, hlog, hwho, hlast, hsettles⟩ := htold
  have hfits := h before _ after hlog
  refine ⟨before, _, after, hlog, hwho, hlast, hsettles, ?_, fun d t hrecorded hlt ↦ ?_⟩
  · rintro rfl d t hleased
    cases hsettles with
    | claimed hmade => exact hfits.exclusive d t _ hleased hmade
  · obtain ⟨hclaimed, hlooks⟩ := hfits.remembered d t hrecorded hlt
    cases hsettles with
    | claimed hmade => exact absurd hmade (hclaimed _)
    | duplicate => rfl
    | inProgress hlooked => exact absurd hlooked hlooks

end waiting

section keeping

variable {α β : Type} {Q : α → World C → Prop}

variable (handler) (store) (key) in
/-- The program keeps the promises, from this state on, and what it returns is as `Q` says. -/
def Keeps (c : C) (p : Program Db Failure α) (Q : α → World C → Prop) (s : World C) : Prop :=
  p.Meets (promises handler store key) (Answers (Proper handler)) c (fun x s' ↦ ∀ a, x = .ok a → Q a s') s

theorem keeps_ret {a : α} (hQ : ∀ s', Waits c s s' → Q a s') : Keeps handler store key c (.ret a) Q s := by
  rintro s' - hwaits a' heq
  obtain rfl := Except.ok.inj heq
  exact hQ s' hwaits

theorem keeps_raise (failure : Failure) : Keeps handler store key c (.raise failure) Q s := by
  rintro s' - - a heq
  cases heq

/-- One statement, and what follows where it leaves the database. -/
theorem keeps_run {q : Statement} {next : q.Result → Program Db Failure α}
    (hstep : ∀ s', Waits c s s' → Sound handler store key s' → Proper handler s' c q →
      Sound handler store key (s'.after c q))
    (hnext : ∀ s', Waits c s s' →
      Keeps handler store key c (next (q.execute s'.clock s'.table).1) Q (s'.after c q)) :
    Keeps handler store key c (q.run.bind next) Q s := by
  intro s' hsound hwaits r s'' hanswer
  have hown : ∀ e ∈ [s'.entry c q], e.who = c := by
    intro e hmem
    rw [List.mem_singleton.mp hmem]
    rfl
  cases hanswer with
  | answered hproper =>
      exact ⟨hstep s' hwaits hsound hproper, ⟨le_rfl, _, rfl, hown⟩, hnext s' hwaits⟩
  | lost failure hproper =>
      exact ⟨hstep s' hwaits hsound hproper, ⟨le_rfl, _, rfl, hown⟩, keeps_raise failure⟩
  | failed failure =>
      exact ⟨hsound, ⟨le_rfl, [], (List.append_nil s'.log).symm, nofun⟩, keeps_raise failure⟩

/-- A claim ends with the statement that settles it. -/
theorem keeps_told {q : Statement} {answer : Claim} (h : Settles q (q.execute s.clock s.table).1 answer) :
    Keeps handler store key c (.ret answer) (fun answer s' ↦ Told s'.log c answer) (s.after c q) := by
  have htold : Told (s.after c q).log c answer := ⟨s.log, s.entry c q, [], rfl, rfl, nofun, h⟩
  exact keeps_ret fun s' hwaits ↦ htold.waits hwaits

theorem settles_insert {node : Option String} {t expiresAt : ℤ} {inserted : ℕ} (h : inserted = 1) :
    Settles (.insert key ⟨.claimed, node, t, expiresAt⟩) inserted .claimed := by
  subst h
  exact .claimed .inserted

theorem settles_takeOver {node : String} {t expiresAt : ℤ} {taken : ℕ} (h : taken = 1) :
    Settles (.takeOver key node t expiresAt) taken .claimed := by
  subst h
  exact .claimed .takenOver

theorem settles_look (state : Option RowState) :
    Settles (.look key) state (if state = some .confirmed then .duplicate else .inProgress) := by
  split
  · rename_i hconfirmed
    subst hconfirmed
    exact .duplicate
  · rename_i hother
    exact .inProgress (.looked hother)

theorem keeps_claim : Keeps handler store key c ((store (handler c)).claim key)
    (fun answer s' ↦ Told s'.log c answer) s := by
  rw [SqlIdempotencyStore.claim]
  split
  · exact keeps_raise _
  refine keeps_run (fun _ _ h _ ↦ h.now) fun s _ ↦ ?_
  have hread := readAt_now s c
  refine keeps_run (fun _ hs' h _ ↦ h.insert (hread.waits hs') (.inl ⟨rfl, rfl, rfl⟩)) fun s' hs' ↦ ?_
  split
  · exact keeps_told (settles_insert ‹_›)
  have hread' := (hread.waits hs').after (.insert key ⟨.claimed, some (store (handler c)).node, s.clock,
    s.clock + (store (handler c)).hold⟩)
  refine keeps_run (fun s'' hs'' h _ ↦ ?_) fun _ _ ↦ ?_
  · exact h.takeOver (hs'.clock.trans hs''.clock) (hread'.waits hs'')
  split
  · exact keeps_told (settles_takeOver ‹_›)
  exact keeps_run (fun _ _ h _ ↦ h.look) fun _ _ ↦ keeps_told (settles_look _)

theorem keeps_confirm : Keeps handler store key c ((store (handler c)).confirm key) (fun _ _ ↦ True) s := by
  refine keeps_run (fun _ _ h _ ↦ h.now) fun s _ ↦ ?_
  have hread := readAt_now s c
  refine keeps_run (fun _ hs' h hproper ↦ h.settle (hread.waits hs') hproper) fun s' hs' ↦ ?_
  split
  · have hread' := (hread.waits hs').after (.settle key s.clock (s.clock + (store (handler c)).memory))
    refine keeps_run (fun _ hs'' h _ ↦ ?_) fun _ _ ↦ keeps_ret fun _ _ ↦ trivial
    exact h.insert (hread'.waits hs'') (.inr ⟨rfl, rfl, rfl⟩)
  · exact keeps_ret fun _ _ ↦ trivial

theorem keeps_forget : Keeps handler store key c ((store (handler c)).forget key) (fun _ _ ↦ True) s :=
  keeps_run (fun _ _ h hproper ↦ h.release hproper) fun _ _ ↦ keeps_ret fun _ _ ↦ trivial

theorem keeps_purgeExpired :
    Keeps handler store key c SqlIdempotencyStore.purgeExpired (fun _ _ ↦ True) s := by
  refine keeps_run (fun _ _ h _ ↦ h.now) fun s _ ↦ ?_
  have hpurge : Keeps handler store key c ((Statement.purge s.clock).run.bind .ret) (fun _ _ ↦ True)
      (s.after c .now) :=
    keeps_run (fun s' hs' h _ ↦ h.purge hs'.clock) fun _ _ ↦ keeps_ret fun _ _ ↦ trivial
  rwa [Program.bind_ret] at hpurge

/-- What is returned of a call. -/
theorem keeps_bind {p : Program Db Failure α} {R : β → World C → Prop} {next : α → β}
    (hs : Sound handler store key s) (hp : Keeps handler store key c p Q s)
    (hnext : ∀ a s' s'', Waits c s' s'' → Q a s' → R (next a) s'') :
    Keeps handler store key c (p.bind fun a ↦ .ret (next a)) R s := by
  refine Program.Meets.bind hs (Program.Meets.mono hp fun x s' hx ↦ ?_)
  cases x with
  | ok a => exact keeps_ret fun s'' hwaits ↦ hnext a s' s'' hwaits (hx a rfl)
  | error failure => exact keeps_raise failure

theorem keeps_perform (hs : Sound handler store key s) (call : Call) :
    Keeps handler store key c ((store (handler c)).perform key call)
      (fun returned s' ↦ ∀ answer, returned = some answer → Told s'.log c answer) s := by
  cases call with
  | claim =>
      refine keeps_bind hs keeps_claim fun answer s' s'' hwaits htold answer' heq ↦ ?_
      obtain rfl := Option.some.inj heq
      exact htold.waits hwaits
  | confirm => exact keeps_bind hs keeps_confirm nofun
  | forget => exact keeps_bind hs keeps_forget nofun
  | purgeExpired => exact keeps_bind hs keeps_purgeExpired nofun

end keeping

variable [DecidableEq C]

/-- In every run of proper steps, of any calls of any handlers, a claim is exclusive and a
confirmation is remembered, and every claim is answered accordingly. -/
theorem claims_exclusive (handler : C → D) (store : D → SqlIdempotencyStore) (key : String) (call : C → Call)
    (clock : ℤ) {s : World C} {h : List (C × Interaction.Event Db)}
    {ps : C → Program Db Failure (Option Claim)}
    (hI : Interleaved (fun c ↦ (store (handler c)).perform key (call c)) (Answers (Proper handler)) World.Ticks
      (.fresh clock) s h ps) :
    Orderly handler store s.log ∧ Honoured handler store s.log ps := by
  have hinit : (promises handler store key).inv (World.fresh clock) := Sound.fresh clock
  have hstart : ∀ c, Keeps handler store key c ((store (handler c)).perform key (call c))
      (fun returned s' ↦ ∀ answer, returned = some answer → Told s'.log c answer) (World.fresh clock) :=
    fun c ↦ keeps_perform hinit (call c)
  obtain ⟨hsound, hmeets⟩ := hI.meets hinit hstart fun s s' hticks hs ↦ by
    refine ⟨hs.ticks hticks, fun c ↦ ?_⟩
    obtain ⟨clock, hle, rfl⟩ := hticks
    exact ⟨hle, [], (List.append_nil s.log).symm, nofun⟩
  refine ⟨hsound.orderly, fun c answer hps ↦ hsound.orderly.answered ?_⟩
  have hends := hmeets c
  rw [hps] at hends
  exact hends s hsound ((promises handler store key).rely_refl c s) _ rfl answer rfl

/-! ## Handlers that share a store -/

/-- Two handlers on one instance and one on another, with a claim timeout of five minutes. -/
def office (d : Fin 3) : SqlIdempotencyStore :=
  ⟨if d = 2 then "n2" else "n1", 300000000, 86400000000, by decide, by decide⟩

/-- Whole seconds are that many thousand milliseconds. -/
theorem toMs_seconds {seconds : ℤ} (hsmall : |seconds| < 2 ^ 40) : toMs (seconds * 1000000) = seconds * 1000 := by
  obtain ⟨hlower, hupper⟩ := abs_lt.mp hsmall
  have hseconds : Binary64.binary64 (((seconds * 1000000 : Duration) : ℚ) / 1000000) = (seconds : ℚ) := by
    rw [← Binary64.binary64_intCast (abs_lt.mpr ⟨by omega, by omega⟩ : |seconds| < 2 ^ 53)]
    push_cast
    rw [mul_div_cancel_right₀ _ (by norm_num)]
  have hmillis : Binary64.binary64 ((seconds : ℚ) * 1000) = ((seconds * 1000 : ℤ) : ℚ) := by
    rw [← Binary64.binary64_intCast (abs_lt.mpr ⟨by omega, by omega⟩ : |seconds * 1000| < 2 ^ 53)]
    push_cast
    rfl
  rw [toMs, hseconds, hmillis]
  simp only [Binary64.truncate, Int.floor_intCast, Int.ceil_intCast, ite_self]

theorem hold_office (d : Fin 3) : (office d).hold = 300000 := by
  have hminutes := toMs_seconds (by norm_num : |(300 : ℤ)| < 2 ^ 40)
  norm_num at hminutes
  exact hminutes

theorem memory_office (d : Fin 3) : (office d).memory = 86400000 := by
  have hday := toMs_seconds (by norm_num : |(86400 : ℤ)| < 2 ^ 40)
  norm_num at hday
  exact hday

/-- Who makes which call. -/
def asker : Fin 5 → Fin 3
  | 0 | 2 => 0
  | 1 | 4 => 1
  | 3 => 2

def asked : Fin 5 → Call
  | 0 | 1 | 3 => .claim
  | 2 => .forget
  | 4 => .confirm

variable {May : World (Fin 5) → Fin 5 → Statement → Prop}

/-- A world that the office reaches, and what its calls have still to do. -/
def OfficeReaches (May : World (Fin 5) → Fin 5 → Statement → Prop) (s : World (Fin 5))
    (ps : Fin 5 → Program Db Failure (Option Claim)) : Prop :=
  ∃ h, Interleaved (fun c ↦ (office (asker c)).perform "m1" (asked c)) (Answers May) World.Ticks (.fresh 0) s h ps

theorem OfficeReaches.run {s : World (Fin 5)} {ps : Fin 5 → Program Db Failure (Option Claim)} {q : Statement}
    {result : q.Result} {table : Table} {next : Db.Ans q → Program Db Failure (Option Claim)}
    (h : OfficeReaches May s ps) (c : Fin 5) (hps : ps c = .ask q next) (hmay : May s c q)
    (hexecute : q.execute s.clock s.table = (result, table)) :
    OfficeReaches May
      ⟨s.clock, table, if q.claims result then some c else s.claimant, s.log ++ [⟨c, s.clock, q, result⟩]⟩
      (Function.update ps c (next (.ok result))) := by
  obtain ⟨history, hI⟩ := h
  have hstep := hI.step hps (.answered hmay)
  rw [World.after_eq hexecute, hexecute] at hstep
  exact ⟨_, hstep⟩

theorem OfficeReaches.tick {s : World (Fin 5)} {ps : Fin 5 → Program Db Failure (Option Claim)}
    (h : OfficeReaches May s ps) {clock : ℤ} (hle : s.clock ≤ clock) :
    OfficeReaches May { s with clock := clock } ps := by
  obtain ⟨history, hI⟩ := h
  exact ⟨history, hI.drift ⟨clock, hle, rfl⟩⟩

/-- The row of a claim that is made on the node at `t`. -/
def leasedRow (d : Fin 3) (t : ℤ) : Row := ⟨.claimed, some (office d).node, t, t + (office d).hold⟩

/-- What the database does until the second handler has taken the key over. -/
def takingOver : List (Entry (Fin 5)) :=
  [⟨0, 0, .now, (0 : ℤ)⟩, ⟨0, 0, .insert "m1" (leasedRow 0 0), (1 : ℕ)⟩, ⟨1, 300000, .now, (300000 : ℤ)⟩,
    ⟨1, 300000, .insert "m1" (leasedRow 1 300000), (0 : ℕ)⟩,
    ⟨1, 300000, .takeOver "m1" "n1" 300000 (300000 + (office 1).hold), (1 : ℕ)⟩]

def takenOver : Table := ((∅ : Table).set "m1" (leasedRow 0 0)).set "m1" (leasedRow 1 300000)

theorem takingOver_reached (hmay : ∀ s c q, Proper asker s c q → May s c q) :
    ∃ ps, OfficeReaches May ⟨300000, takenOver, some 1, takingOver⟩ ps ∧ ps 1 = .ret (some .claimed) ∧
      ps 2 = (office 0).perform "m1" .forget ∧ ps 3 = (office 2).perform "m1" .claim ∧
      ps 4 = (office 1).perform "m1" .confirm := by
  have h₀ : OfficeReaches May (.fresh 0) fun c ↦ (office (asker c)).perform "m1" (asked c) := ⟨[], .init⟩
  have h₁ : OfficeReaches May ⟨0, ∅, none, takingOver.take 1⟩ _ := h₀.run 0 rfl (hmay _ _ _ trivial) rfl
  have h₂ : OfficeReaches May ⟨0, (∅ : Table).set "m1" (leasedRow 0 0), some 0, takingOver.take 2⟩ _ :=
    h₁.run 0 (q := .insert "m1" (leasedRow 0 0)) rfl (hmay _ _ _ trivial) (execute_insert_of_notMem (by decide))
  have h₃ := h₂.tick (by decide : (0 : ℤ) ≤ 300000)
  have h₄ : OfficeReaches May ⟨300000, (∅ : Table).set "m1" (leasedRow 0 0), some 0, takingOver.take 3⟩ _ :=
    h₃.run 1 rfl (hmay _ _ _ trivial) rfl
  have h₅ : OfficeReaches May ⟨300000, (∅ : Table).set "m1" (leasedRow 0 0), some 0, takingOver.take 4⟩ _ :=
    h₄.run 1 (q := .insert "m1" (leasedRow 1 300000)) rfl (hmay _ _ _ trivial)
      (execute_insert_of_mem (Dict.mem_set.mpr (.inl rfl)))
  have hexpired : (leasedRow 0 0).expiresAt ≤ 300000 := by
    rw [leasedRow, hold_office]
    decide
  exact ⟨_, h₅.run 1 rfl (hmay _ _ _ trivial) (execute_takeOver_of_expired Dict.get?_set_self hexpired), rfl,
    rfl, rfl, rfl⟩

/-- A key is taken over when its lease has run out, and is a duplicate once its handler is done. -/
theorem claims_exclusive_takingOver : ∃ s ps, OfficeReaches (Proper asker) s ps ∧
    ps 1 = .ret (some .claimed) ∧ ps 3 = .ret (some .duplicate) ∧
    Orderly asker office s.log ∧ Honoured asker office s.log ps := by
  obtain ⟨ps, h₆, htaken, -, hclaim, hconfirm⟩ := takingOver_reached fun _ _ _ ↦ id
  have h₇ := h₆.run 4 (q := .now) hconfirm trivial rfl
  have hlonger : Proper asker ⟨300000, takenOver, some 1, takingOver ++ [⟨4, 300000, .now, (300000 : ℤ)⟩]⟩ 4
      (.settle "m1" 300000 (300000 + (office 1).memory)) := by
    intro row hrow _
    obtain rfl := Option.some.inj (Dict.get?_set_self.symm.trans hrow)
    rw [leasedRow, hold_office, memory_office]
    decide
  have h₈ := h₇.run 4 rfl hlonger (execute_settle_of_mem (Dict.mem_set.mpr (.inl rfl)))
  have h₉ := h₈.run 3 (q := .now) hclaim trivial rfl
  have h₁₀ := h₉.run 3 (q := .insert "m1" (leasedRow 2 300000)) rfl trivial
    (execute_insert_of_mem (Dict.mem_set.mpr (.inl rfl)))
  have hlive : (300000 : ℤ) < 300000 + (office 1).memory := by
    rw [memory_office]
    decide
  have h₁₁ := h₁₀.run 3 (q := .takeOver "m1" "n2" 300000 (300000 + (office 2).hold)) rfl trivial
    (execute_takeOver_of_live fun row hrow ↦ by
      obtain rfl := Option.some.inj (Dict.get?_set_self.symm.trans hrow)
      exact hlive)
  have h₁₂ := h₁₁.run 3 (q := .look "m1") rfl trivial rfl
  obtain ⟨h, hI⟩ := h₁₂
  exact ⟨_, _, ⟨h, hI⟩, htaken, rfl, claims_exclusive asker office "m1" asked 0 hI⟩

/-- The first forgets the claim of the second, and the third is answered that the key is his. -/
theorem not_claims_exclusive : ∃ s ps, OfficeReaches (fun _ _ _ ↦ True) s ps ∧
    ps 1 = .ret (some .claimed) ∧ ps 3 = .ret (some .claimed) ∧
    ¬Orderly asker office s.log ∧ ¬Honoured asker office s.log ps := by
  obtain ⟨ps, h₆, htaken, hforget, hclaim, -⟩ := takingOver_reached fun _ _ _ _ ↦ trivial
  have h₇ := (h₆.run 2 (q := .release "m1" "n1") hforget trivial
    (execute_release_of_own Dict.get?_set_self ⟨rfl, rfl⟩)).tick (by decide : (300000 : ℤ) ≤ 300001)
  have h₈ := h₇.run 3 (q := .now) hclaim trivial rfl
  have h₉ := h₈.run 3 (q := .insert "m1" (leasedRow 2 300001)) rfl trivial
    (execute_insert_of_notMem fun hmem ↦ (Dict.mem_erase.mp hmem).1 rfl)
  have hleased : Leased asker (takingOver ++ [⟨2, 300000, .release "m1" "n1", (1 : ℕ)⟩] ++
      [⟨3, 300001, .now, (300001 : ℤ)⟩]) 1 300000 := by
    refine leased_snoc.mpr (.inr ⟨leased_snoc.mpr (.inr ⟨?_, ?_⟩), ?_⟩)
    · exact ⟨takingOver.take 4, _, [], rfl, rfl, .takenOver, nofun⟩
    · exact fun heq ↦ absurd heq (by decide)
    · exact fun heq ↦ absurd heq (by decide)
  have hearly : ¬(300000 : ℤ) + (office 1).hold ≤ 300001 := by
    rw [hold_office]
    decide
  refine ⟨_, _, h₉, htaken, rfl, fun horderly ↦ ?_, fun hkept ↦ ?_⟩
  · exact hearly ((horderly _ _ [] rfl).exclusive 1 300000 300001 hleased .inserted)
  · obtain ⟨before, entry, after, hlog, hwho, hlast, hanswered⟩ := hkept 3 .claimed rfl
    obtain ⟨rfl, rfl, rfl⟩ | ⟨rest, rfl, -⟩ := split_snoc hlog
    · exact hearly (hanswered.exclusive rfl 1 300000 hleased)
    · exact hlast _ (List.mem_append_right _ (List.mem_singleton_self _)) rfl

end Idempotency

end AcemqAmqp
