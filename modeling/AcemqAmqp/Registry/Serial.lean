import AcemqAmqp.Foundations.Fallible
import AcemqAmqp.Registry.Sql

/-!
# Registrations are serial

Whoever has the counter row locked is alone in writing, so what it has read stays
true until its transaction ends.  The rows are a ledger at every moment, and every
call that returns has found its row in it.
-/

namespace AcemqAmqp

namespace Registry

open Interaction Program

/-! ## The table is a ledger -/

/-- The rows are the entries of the ledger `l`, in its order. -/
structure Keeps (rows : List Row) (l : Ledger (String × String)) : Prop where
  entries : rows.map Row.key = l.entries
  numbers : ∀ row ∈ rows, row.id = l.identifier row.key ∧ row.version = l.version Prod.fst row.key

section ledger

variable {rows : List Row} {row : Row} {l : Ledger (String × String)}

theorem Keeps.length (h : Keeps rows l) : l.entries.length = rows.length := by
  rw [← h.entries, List.length_map]

theorem Keeps.size (h : Keeps rows l) (subject : String) :
    l.size Prod.fst subject = rows.countP fun row ↦ row.subject = subject := by
  rw [Ledger.size, ← h.entries, List.countP_map]
  rfl

theorem Keeps.append (h : Keeps rows l) (hnew : row.key ∉ rows.map Row.key)
    (hid : row.id = rows.length + 1)
    (hversion : row.version = (rows.countP fun other ↦ other.subject = row.subject) + 1) :
    Keeps (rows ++ [row]) (l.enter row.key) := by
  rw [h.entries] at hnew
  constructor
  · rw [List.map_append, h.entries, Ledger.entries_enter hnew, List.map_singleton]
  · intro other hmem
    obtain hold | hlast := List.mem_append.mp hmem
    · have hkey : other.key ∈ l.entries := h.entries ▸ List.mem_map_of_mem hold
      rw [Ledger.identifier_enter_of_mem hkey, Ledger.version_enter_of_mem hkey]
      exact h.numbers other hold
    · obtain rfl := List.mem_singleton.mp hlast
      rw [Ledger.identifier_enter_self hnew, Ledger.version_enter_self hnew, h.length, hid, hversion]
      exact ⟨rfl, congrArg (· + 1) (h.size other.subject).symm⟩

theorem keeps_nil : Keeps [] Ledger.empty := ⟨rfl, fun _ hmem ↦ absurd hmem List.not_mem_nil⟩

end ledger

/-! ## What the calls agree on -/

variable {D : Type} (fingerprint : String → String) (calls : D → Registration)

/-- The row is what the call asks for. -/
structure Asked (r : Registration) (row : Row) : Prop where
  sound : r.Sound
  key : row.key = r.key fingerprint
  definition : row.definition = r.definition

/-- What always holds of the database. -/
structure Database.Sane (s : Database D) : Prop where
  alone : ∀ d d', s.Holds d → s.Holds d' → d = d'
  keeps : ∃ l, Keeps s.rows l
  counter : s.counter.getD 0 = s.rows.length
  written : List.Forall₂ (fun d row ↦ Asked fingerprint (calls d) row) s.writers s.rows

def pact : Pact D (Database D) where
  inv := Database.Sane fingerprint calls
  rely d s s' := s'.sessions d = s.sessions d ∧ s.rows <+: s'.rows ∧ (s.Holds d → s'.rows = s.rows)
  keeps d s s' := (∀ d', d' ≠ d → s'.sessions d' = s.sessions d') ∧ s.rows <+: s'.rows ∧
    (¬s.Holds d → s'.rows = s.rows)
  rely_refl d s := ⟨rfl, List.prefix_rfl, fun _ ↦ rfl⟩
  rely_trans d s s' s'' := by
    rintro ⟨hsession, hprefix, hrows⟩ ⟨hsession', hprefix', hrows'⟩
    refine ⟨hsession'.trans hsession, hprefix.trans hprefix', fun hholds ↦ ?_⟩
    have hholds' : s'.Holds d := by
      rw [Database.Holds, hsession]
      exact hholds
    exact (hrows' hholds').trans (hrows hholds)
  rely_of_keeps d d' s s' hsane hne hkeeps :=
    ⟨hkeeps.1 d' (Ne.symm hne), hkeeps.2.1, fun hholds' ↦ hkeeps.2.2 fun hholds ↦
      hne (hsane.alone d d' hholds hholds')⟩

/-! ## Where a transaction can be -/

variable {fingerprint calls} {s s' : Database D} {d : D} {row : Row} {schema : SchemaDefinition}

theorem sane_fresh : (Database.fresh D).Sane fingerprint calls where
  alone _ _ h := absurd rfl h
  keeps := ⟨_, keeps_nil⟩
  counter := rfl
  written := .nil

def Idle (d : D) (s : Database D) : Prop := s.sessions d = .empty

/-- The call has taken its number. -/
structure Numbered (d : D) (identifier : ℕ) (s : Database D) : Prop where
  session : s.sessions d = ⟨some identifier, []⟩
  next : identifier = s.rows.length + 1

/-- It knows how many versions the subject has. -/
structure Counted (subject : String) (d : D) (identifier counted : ℕ) (s : Database D) : Prop where
  numbered : Numbered d identifier s
  counted : counted = s.rows.countP fun row ↦ row.subject = subject

/-- The row is written, and goes with the next commit. -/
structure Written (fingerprint : String → String) (r : Registration) (row : Row) (d : D) (s : Database D) : Prop where
  session : s.sessions d = ⟨some row.id, [row]⟩
  next : row.id = s.rows.length + 1
  asked : Asked fingerprint r row
  new : row.key ∉ s.rows.map Row.key
  version : row.version = (s.rows.countP fun other ↦ other.subject = row.subject) + 1

/-- The schema is that of a row that is committed. -/
def Found (fingerprint : String → String) (r : Registration) (schema : SchemaDefinition) (s : Database D) : Prop :=
  ∃ row ∈ s.rows, row.key = r.key fingerprint ∧ schemaFrom row = .ok schema

theorem stable_idle : (pact fingerprint calls).Stable d (Idle d) :=
  fun _ _ _ hrely hidle ↦ hrely.1.trans hidle

theorem Numbered.holds {identifier : ℕ} (h : Numbered d identifier s) : s.Holds d := by
  rw [Database.Holds, h.session]
  exact Option.some_ne_none _

/-- Nobody else writes while the call has its number. -/
theorem stable_numbered {identifier : ℕ} : (pact fingerprint calls).Stable d (Numbered d identifier) := by
  rintro s s' - ⟨hsession, -, hkept⟩ hnumbered
  exact ⟨hsession.trans hnumbered.session, hkept hnumbered.holds ▸ hnumbered.next⟩

theorem stable_counted {subject : String} {identifier counted : ℕ} :
    (pact fingerprint calls).Stable d (Counted subject d identifier counted) := fun s s' hsane hrely h ↦
  ⟨stable_numbered s s' hsane hrely h.numbered, hrely.2.2 h.numbered.holds ▸ h.counted⟩

theorem Written.holds {r : Registration} (h : Written fingerprint r row d s) : s.Holds d := by
  rw [Database.Holds, h.session]
  exact Option.some_ne_none _

theorem stable_written {r : Registration} :
    (pact fingerprint calls).Stable d (Written fingerprint r row d) := by
  rintro s s' - ⟨hsession, -, hkept⟩ hwritten
  have hrows := hkept hwritten.holds
  exact ⟨hsession.trans hwritten.session, hrows ▸ hwritten.next, hwritten.asked, hrows ▸ hwritten.new,
    hrows ▸ hwritten.version⟩

theorem stable_found {r : Registration} : (pact fingerprint calls).Stable d (Found fingerprint r schema) := by
  rintro s s' - hrely ⟨row, hmem, hfound⟩
  exact ⟨row, hrely.2.1.subset hmem, hfound⟩

theorem stable_row {key : String × String} :
    (pact fingerprint calls).Stable d fun s ↦ row ∈ s.rows ∧ row.key = key :=
  fun _ _ _ hrely h ↦ h.imp_left fun hmem ↦ hrely.2.1.subset hmem

/-- What a call has before it commits. -/
def Ready (fingerprint : String → String) (r : Registration) (d : D) (schema : SchemaDefinition)
    (s : Database D) : Prop :=
  Idle d s ∧ Found fingerprint r schema s ∨ ∃ row, Written fingerprint r row d s ∧ schemaFrom row = .ok schema

theorem stable_ready {r : Registration} : (pact fingerprint calls).Stable d (Ready fingerprint r d schema) :=
  (stable_idle.and stable_found).or (.exists fun _ ↦ stable_written.and (Pact.stable_const _))

theorem stable_onEnd {α : Type} {P : α → Database D → Prop}
    (hP : ∀ a, (pact fingerprint calls).Stable d (P a)) (x : Except Failure α) :
    (pact fingerprint calls).Stable d fun s ↦ onEnd x (fun a ↦ P a s) fun _ ↦ True := by
  cases x with
  | ok a => exact hP a
  | error e => exact fun _ _ _ _ _ ↦ trivial

/-- What holds when an attempt is over. -/
def Over (fingerprint : String → String) (r : Registration) (d : D) (x : Except Failure SchemaDefinition)
    (s : Database D) : Prop :=
  Idle d s ∧ onEnd x (fun schema ↦ Found fingerprint r schema s) fun _ ↦ True

theorem stable_over {r : Registration} (x : Except Failure SchemaDefinition) :
    (pact fingerprint calls).Stable d (Over fingerprint r d x) :=
  stable_idle.and (stable_onEnd (fun _ ↦ stable_found) x)

/-! ## The statements -/

variable [DecidableEq D]

theorem Database.Sane.setSession {session : Session} (h : s.Sane fingerprint calls)
    (hfree : session.counter = none ∨ s.Holds d ∨ s.Free d) :
    (s.setSession d session).Sane fingerprint calls := by
  have hother : ∀ d', d' ≠ d → (s.setSession d session).Holds d' → s.Holds d' := fun d' hne hholds ↦ by
    rwa [Holds, sessions_setSession_of_ne s hne] at hholds
  have hsolo : (s.setSession d session).Holds d → s.Free d := fun hholds d' hne hholds' ↦ by
    rw [Holds, sessions_setSession] at hholds
    obtain hnone | hheld | hfree := hfree
    · exact hholds hnone
    · exact hne (h.alone d' d hholds' hheld)
    · exact hfree d' hne hholds'
  refine ⟨fun d₁ d₂ h₁ h₂ ↦ ?_, h.keeps, h.counter, h.written⟩
  by_cases hd₁ : d₁ = d
  · subst hd₁
    by_contra hne
    exact hsolo h₁ d₂ (Ne.symm hne) (hother d₂ (Ne.symm hne) h₂)
  · by_cases hd₂ : d₂ = d
    · subst hd₂
      exact absurd (hother d₁ hd₁ h₁) (hsolo h₂ d₁ hd₁)
    · exact h.alone d₁ d₂ (hother d₁ hd₁ h₁) (hother d₂ hd₂ h₂)

/-- Only a commit changes more than the transaction of the call. -/
theorem Answers.setSession {q : Statement} {r : Db.Ans q} (h : Answers s d q r s') (hcommit : q ≠ .commit) :
    ∃ session : Session, s' = s.setSession d session ∧ (session.counter = none ∨ s.Holds d ∨ s.Free d) := by
  have hsame : ∃ session : Session, s = s.setSession d session ∧
      (session.counter = none ∨ s.Holds d ∨ s.Free d) :=
    ⟨s.sessions d, (s.setSession_self d).symm, or_iff_not_imp_left.mpr .inl⟩
  cases h with
  | connected | found | unseeded | last | counted | read | resumed => exact hsame
  | bumpedAgain hcounter => exact ⟨_, rfl, .inr (.inl (ne_of_eq_of_ne hcounter (Option.some_ne_none _)))⟩
  | bumped _ _ hfree | seeded _ _ hfree => exact ⟨_, rfl, .inr (.inr hfree)⟩
  | inserted => exact ⟨_, rfl, or_iff_not_imp_left.mpr .inl⟩
  | committed => exact absurd rfl hcommit
  | rolledBack | closed => exact ⟨.empty, rfl, .inl rfl⟩
  | failed =>
      split
      · exact ⟨.empty, rfl, .inl rfl⟩
      · exact hsame

theorem Database.Sane.answers {q : Statement} {r : Db.Ans q} (h : s.Sane fingerprint calls)
    (hanswer : Answers s d q r s') (hcommit : q ≠ .commit) :
    s'.Sane fingerprint calls ∧ (pact fingerprint calls).keeps d s s' := by
  obtain ⟨session, rfl, hfree⟩ := hanswer.setSession hcommit
  exact ⟨h.setSession hfree, fun d' hne ↦ sessions_setSession_of_ne s hne session, List.prefix_rfl, fun _ ↦ rfl⟩

variable {α β : Type} {P : α → Database D → Prop}

/-- The call keeps the pact, and `P` holds of what it returns. -/
def Does (fingerprint : String → String) (calls : D → Registration) (d : D) (p : Program Db Failure α)
    (P : α → Database D → Prop) : Database D → Prop :=
  p.Meets (pact fingerprint calls) Answers d fun x s ↦ onEnd x (fun a ↦ P a s) fun _ ↦ True

theorem does_ret {a : α} (hP : (pact fingerprint calls).Stable d (P a)) (h : P a s) :
    Does fingerprint calls d (.ret a) P s := fun s' hsane hrely ↦ hP s s' hsane hrely h

theorem does_raise (e : Failure) : Does fingerprint calls d (.raise e) P s := fun _ _ _ ↦ trivial

theorem does_ofExcept {x : Except Failure α} (hP : ∀ a, (pact fingerprint calls).Stable d (P a))
    (h : ∀ a, x = .ok a → P a s) : Does fingerprint calls d (.ofExcept x) P s := by
  cases x with
  | ok a => exact does_ret (hP a) (h a rfl)
  | error e => exact does_raise e

theorem Does.bind {p : Program Db Failure β} {f : β → Program Db Failure α} {L : β → Database D → Prop}
    (hsane : s.Sane fingerprint calls) (h : Does fingerprint calls d p L s)
    (hf : ∀ b s', s'.Sane fingerprint calls → L b s' → Does fingerprint calls d (f b) P s') :
    Does fingerprint calls d (p.bind f) P s := by
  refine Meets.bind hsane (h.and_inv.mono fun x s' hx ↦ ?_)
  cases x with
  | ok b => exact hf b s' hx.1 hx.2
  | error e => exact does_raise e

theorem meets_execute {q : Statement} {Q : Except Failure q.Result → Database D → Prop}
    {L : Database D → Prop} (hcommit : q ≠ .commit) (hL : (pact fingerprint calls).Stable d L) (hs : L s)
    (hQ : ∀ r, (pact fingerprint calls).Stable d (Q r))
    (h : ∀ s' r s'', s'.Sane fingerprint calls → L s' → Answers s' d q r s'' → Q r s'') :
    q.execute.Meets (pact fingerprint calls) Answers d Q s := by
  refine meets_call hQ fun s' hsane hrely r s'' hanswer ↦ ?_
  obtain ⟨hsane', hkeeps⟩ := hsane.answers hanswer hcommit
  exact ⟨hsane', hkeeps, h s' r s'' hsane (hL s s' hsane hrely hs) hanswer⟩

theorem does_execute {q : Statement} {P : q.Result → Database D → Prop} {L : Database D → Prop}
    (hcommit : q ≠ .commit) (hL : (pact fingerprint calls).Stable d L) (hs : L s)
    (hP : ∀ a, (pact fingerprint calls).Stable d (P a))
    (h : ∀ s' a s'', s'.Sane fingerprint calls → L s' → Answers s' d q (.ok a) s'' → P a s'') :
    Does fingerprint calls d q.execute P s := by
  refine meets_execute hcommit hL hs (stable_onEnd hP) fun s' r s'' hsane hs' hanswer ↦ ?_
  cases r with
  | ok a => exact h s' a s'' hsane hs' hanswer
  | error e => trivial

variable {r : Registration}

theorem does_find (hsane : s.Sane fingerprint calls) (hs : Idle d s) :
    Does fingerprint calls d (SqlSchemaRegistry.find r.subject (fingerprint r.definition))
      (fun found s' ↦ Idle d s' ∧ ∀ schema, found = some schema → Found fingerprint r schema s') s := by
  have hfind : Does fingerprint calls d (Statement.find r.subject (fingerprint r.definition)).execute
      (fun (found : Option Row) s' ↦ Idle d s' ∧ ∀ row, found = some row → row ∈ s'.rows ∧ row.key = r.key fingerprint)
      s := by
    refine does_execute nofun stable_idle hs (fun _ ↦ stable_idle.and (.all fun _ _ ↦ stable_row))
      fun s' found s'' _ hidle h ↦ ?_
    cases h with
    | found =>
        refine ⟨hidle, fun row hrow ↦ ?_⟩
        have hview : s'.view d = s'.rows := by
          rw [Database.view, hidle]
          exact List.append_nil _
        rw [hview] at hrow
        have hmatch := List.find?_some hrow
        rw [decide_eq_true_eq] at hmatch
        exact ⟨List.mem_of_find?_eq_some hrow, Prod.ext hmatch.1 hmatch.2⟩
  refine hfind.bind hsane fun found s' hsane' hfound ↦ ?_
  cases found with
  | none => exact does_ret (stable_idle.and (.all fun _ _ ↦ stable_found)) ⟨hfound.1, nofun⟩
  | some row =>
      have hread : Does fingerprint calls d (.ofExcept (schemaFrom row))
          (fun schema s' ↦ Idle d s' ∧ Found fingerprint r schema s') s' :=
        does_ofExcept (fun _ ↦ stable_idle.and stable_found) fun schema hschema ↦
          ⟨hfound.1, row, (hfound.2 row rfl).1, (hfound.2 row rfl).2, hschema⟩
      refine hread.bind hsane' fun schema s'' _ hschema ↦ ?_
      refine does_ret (stable_idle.and (.all fun _ _ ↦ stable_found)) ⟨hschema.1, fun schema' heq ↦ ?_⟩
      exact Option.some.inj heq ▸ hschema.2

theorem does_takeNumber (hsane : s.Sane fingerprint calls) (hs : Idle d s) :
    Does fingerprint calls d SqlSchemaRegistry.takeNumber (fun identifier s' ↦ Numbered d identifier s') s := by
  have hbump : Does fingerprint calls d Statement.bump.execute
      (fun (rowcount : ℕ) s' ↦ rowcount = 0 ∧ Idle d s' ∨ rowcount = 1 ∧ ∃ identifier, Numbered d identifier s') s := by
    refine does_execute nofun stable_idle hs (fun _ ↦ (Pact.Stable.and (Pact.stable_const _) stable_idle).or
      ((Pact.stable_const _).and (.exists fun _ ↦ stable_numbered))) fun s' rowcount s'' hsane' hidle h ↦ ?_
    cases h with
    | bumpedAgain hcounter =>
        rw [hidle] at hcounter
        cases hcounter
    | @bumped value _ hcounter _ =>
        have hvalue : value = s'.rows.length := by rw [← hsane'.counter, hcounter, Option.getD_some]
        refine .inr ⟨rfl, value + 1, ?_, congrArg (· + 1) hvalue⟩
        rw [Database.setCounter, Database.sessions_setSession, hidle]
        rfl
    | unseeded => exact .inl ⟨rfl, hidle⟩
  refine hbump.bind hsane fun rowcount s' hsane' hrowcount ↦ ?_
  obtain ⟨rfl, hidle⟩ | ⟨rfl, identifier, hnumbered⟩ := hrowcount
  · have hseed : Does fingerprint calls d Statement.seed.execute (fun _ s'' ↦ Numbered d 1 s'') s' := by
      refine does_execute nofun stable_idle hidle (fun _ ↦ stable_numbered) fun s₁ _ s₂ hsane₁ hidle₁ h ↦ ?_
      cases h with
      | seeded _ hcounter _ =>
          have hrows : s₁.rows.length = 0 := by rw [← hsane₁.counter, hcounter, Option.getD_none]
          refine ⟨?_, congrArg (· + 1) hrows.symm⟩
          rw [Database.setCounter, Database.sessions_setSession, hidle₁]
          rfl
    exact hseed.bind hsane' fun _ s'' _ hnumbered ↦ does_ret stable_numbered hnumbered
  · have hlast : Does fingerprint calls d Statement.lastId.execute
        (fun (last : Option ℕ) s'' ↦ last = some identifier ∧ Numbered d identifier s'') s' := by
      refine does_execute nofun stable_numbered hnumbered (fun _ ↦ (Pact.stable_const _).and stable_numbered)
        fun s₁ last s₂ _ hnumbered₁ h ↦ ?_
      cases h with
      | last => exact ⟨by rw [hnumbered₁.session]; rfl, hnumbered₁⟩
    refine hlast.bind hsane' fun last s'' _ h ↦ ?_
    obtain ⟨rfl, hnumbered⟩ := h
    exact does_ret stable_numbered hnumbered

theorem Does.mono {p : Program Db Failure α} {P' : α → Database D → Prop} (h : Does fingerprint calls d p P s)
    (hP : ∀ a s', P a s' → P' a s') : Does fingerprint calls d p P' s :=
  Meets.mono h fun x s' hx ↦ by
    cases x with
    | ok a => exact hP a s' hx
    | error e => trivial

theorem does_insert (hsane : s.Sane fingerprint calls) (hsound : r.Sound) (hs : Idle d s) :
    Does fingerprint calls d (SqlSchemaRegistry.insert r (fingerprint r.definition))
      (fun schema s' ↦ ∃ row, Written fingerprint r row d s' ∧ schemaFrom row = .ok schema) s := by
  refine (does_takeNumber hsane hs).bind hsane fun identifier s₁ hsane₁ hnumbered ↦ ?_
  have hcount : Does fingerprint calls d (Statement.count r.subject).execute
      (Counted r.subject d identifier) s₁ := by
    refine does_execute nofun stable_numbered hnumbered (fun _ ↦ stable_counted) fun s' counted s'' _ hnumbered' h ↦ ?_
    cases h with
    | counted => exact ⟨hnumbered', by rw [Database.view, hnumbered'.session, List.append_nil]⟩
  refine hcount.bind hsane₁ fun counted s₂ hsane₂ hcounted ↦ ?_
  have hclock : Does fingerprint calls d Statement.now.execute
      (fun _ s' ↦ Counted r.subject d identifier counted s') s₂ := by
    refine does_execute nofun stable_counted hcounted (fun _ ↦ stable_counted) fun s' _ s'' _ hcounted' h ↦ ?_
    cases h with
    | read => exact hcounted'
  refine hclock.bind hsane₂ fun registered s₃ hsane₃ hcounted₃ ↦ ?_
  let row : Row := ⟨identifier, r.subject, counted + 1, r.format, r.definition, fingerprint r.definition, registered⟩
  have hwrite : Does fingerprint calls d (Statement.insert row).execute
      (fun _ s' ↦ Written fingerprint r row d s') s₃ := by
    refine does_execute nofun stable_counted hcounted₃ (fun _ ↦ stable_written) fun s' _ s'' _ hcounted' h ↦ ?_
    cases h with
    | inserted hview _ =>
        refine ⟨?_, hcounted'.numbered.next, ⟨hsound, rfl, rfl⟩, fun hmem ↦ ?_,
          congrArg (· + 1) hcounted'.counted⟩
        · rw [Database.put, Database.sessions_setSession, hcounted'.numbered.session]
          rfl
        · obtain ⟨other, hother, hkey⟩ := List.mem_map.mp hmem
          exact hview other (List.mem_append_left _ hother) (.inr (.inl hkey.symm))
  refine hwrite.bind hsane₃ fun _ s₄ hsane₄ hwritten ↦ ?_
  have hread : Does fingerprint calls d (.ofExcept (fromMs registered))
      (fun registeredAt s' ↦ Written fingerprint r row d s' ∧ fromMs registered = .ok registeredAt) s₄ :=
    does_ofExcept (fun _ ↦ stable_written.and (Pact.stable_const _)) fun _ h ↦ ⟨hwritten, h⟩
  refine hread.bind hsane₄ fun registeredAt s₅ _ h ↦ ?_
  refine does_ret (.exists fun _ ↦ stable_written.and (Pact.stable_const _)) ⟨row, h.1, ?_⟩
  rw [schemaFrom, h.2]
  rfl

theorem does_statements (hsane : s.Sane fingerprint calls) (hs : Idle d s) (hsound : r.Sound) :
    Does fingerprint calls d (SqlSchemaRegistry.statements r (fingerprint r.definition))
      (Ready fingerprint r d) s := by
  refine (does_find hsane hs).bind hsane fun found s' hsane' hfound ↦ ?_
  cases found with
  | none => exact (does_insert hsane' hsound hfound.1).mono fun _ _ ↦ .inr
  | some schema => exact does_ret stable_ready (.inl ⟨hfound.1, hfound.2 schema rfl⟩)

/-! ## A whole call -/

theorem commit_of_idle (h : Idle d s) : s.commit d = s.setSession d .empty := by
  rw [Database.commit, Database.view, h]
  simp [Database.setSession, Session.empty]

theorem Database.Sane.commit (h : s.Sane fingerprint calls) (hwritten : Written fingerprint (calls d) row d s) :
    (s.commit d).Sane fingerprint calls where
  alone d₁ d₂ h₁ := by
    exfalso
    by_cases hd : d₁ = d
    · subst hd
      exact h₁ (congrArg Session.counter (s.sessions_commit d₁))
    · have hheld : s.Holds d₁ := by
        rwa [Holds, s.sessions_commit_of_ne hd] at h₁
      exact hd (h.alone d₁ d hheld hwritten.holds)
  keeps := by
    obtain ⟨l, hkeeps⟩ := h.keeps
    rw [Database.commit, view, hwritten.session]
    exact ⟨_, hkeeps.append hwritten.new hwritten.next hwritten.version⟩
  counter := by
    rw [Database.commit, view, hwritten.session, List.length_append]
    exact hwritten.next
  written := by
    rw [Database.commit, view, hwritten.session]
    exact List.rel_append h.written (.cons hwritten.asked .nil)

theorem does_commit (hs : Ready fingerprint (calls d) d schema s) :
    Does fingerprint calls d Statement.commit.execute
      (fun _ s' ↦ Idle d s' ∧ Found fingerprint (calls d) schema s') s := by
  refine meets_call (stable_onEnd fun _ ↦ stable_idle.and stable_found) fun s' hsane hrely r s'' hanswer ↦ ?_
  cases hanswer with
  | failed failure =>
      exact ⟨hsane.setSession (.inl rfl), ⟨fun d' hne ↦ Database.sessions_setSession_of_ne s' hne _,
        List.prefix_rfl, fun _ ↦ rfl⟩, trivial⟩
  | committed =>
      obtain ⟨hidle, hfound⟩ | ⟨row, hwritten, hschema⟩ := stable_ready s s' hsane hrely hs
      · rw [commit_of_idle hidle]
        exact ⟨hsane.setSession (.inl rfl), ⟨fun d' hne ↦ Database.sessions_setSession_of_ne s' hne _,
          List.prefix_rfl, fun _ ↦ rfl⟩, Database.sessions_setSession .., hfound⟩
      · have hrows : (s'.commit d).rows = s'.rows ++ [row] := by
          rw [Database.commit, Database.view, hwritten.session]
        refine ⟨hsane.commit hwritten, ⟨fun d' hne ↦ s'.sessions_commit_of_ne hne, ?_, fun hfree ↦ ?_⟩,
          s'.sessions_commit d, row, ?_, hwritten.asked.key, hschema⟩
        · exact hrows ▸ List.prefix_append _ _
        · exact absurd hwritten.holds hfree
        · exact hrows ▸ List.mem_append_right _ (List.mem_singleton_self row)

theorem meets_of_over {x : Except Failure SchemaDefinition} (h : Over fingerprint r d x s) :
    (ofExcept x : Program Db Failure SchemaDefinition).Meets (pact fingerprint calls) Answers d
      (Over fingerprint r d) s := meets_ofExcept (stable_over x) h

theorem meets_run {work : Program Db Failure SchemaDefinition} (hsane : s.Sane fingerprint calls)
    (hs : Idle d s) (hwork : ∀ s', s'.Sane fingerprint calls → Idle d s' →
      Does fingerprint calls d work (Ready fingerprint (calls d) d) s') :
    (run work).Meets (pact fingerprint calls) Answers d (Over fingerprint (calls d) d) s := by
  have hconnect : Statement.connect.execute.Meets (pact fingerprint calls) Answers d (fun _ ↦ Idle d) s := by
    refine meets_execute nofun stable_idle hs (fun _ ↦ stable_idle) fun s' r s'' _ hidle h ↦ ?_
    cases h with
    | connected | failed => exact hidle
  refine Meets.bind hsane (hconnect.and_inv.mono fun x s₁ hx ↦ ?_)
  obtain ⟨hsane₁, hidle⟩ := hx
  cases x with
  | error e => exact meets_of_over (x := .error e) ⟨hidle, trivial⟩
  | ok _ =>
      have hstatements : Does fingerprint calls d
          (work.bind fun answer ↦ Statement.commit.execute.bind fun _ ↦ .ret answer)
          (Found fingerprint (calls d)) s₁ := by
        refine (hwork s₁ hsane₁ hidle).bind hsane₁ fun answer s₂ hsane₂ hready ↦ ?_
        exact (does_commit hready).bind hsane₂ fun _ s₃ _ h ↦ does_ret stable_found h.2
      have hrolled : Does fingerprint calls d (Program.rescue
          (work.bind fun answer ↦ Statement.commit.execute.bind fun _ ↦ .ret answer)
          fun failure ↦ Statement.rollback.execute.bind fun _ ↦ .raise failure) (Found fingerprint (calls d)) s₁ := by
        refine Meets.rescue hsane₁ (hstatements.and_inv.mono fun x s₂ hx ↦ ?_)
        cases x with
        | ok schema => exact does_ret stable_found hx.2
        | error failure =>
            have hrollback : Does fingerprint calls d Statement.rollback.execute (fun _ _ ↦ True) s₂ :=
              does_execute nofun (Pact.stable_const True) trivial (fun _ ↦ Pact.stable_const True)
                fun _ _ _ _ _ _ ↦ trivial
            exact hrollback.bind hx.1 fun _ _ _ _ ↦ does_raise failure
      refine Meets.ensure hsane₁ (Meets.mono hrolled fun x s₂ hx ↦ ?_)
      have hclose : Statement.close.execute.Meets (pact fingerprint calls) Answers d
          (fun _ ↦ Over fingerprint (calls d) d x) s₂ := by
        refine meets_execute nofun (stable_onEnd (fun _ ↦ stable_found) x) hx (fun _ ↦ stable_over x)
          fun s₃ answer s₄ _ hx₃ h ↦ ?_
        cases h with
        | closed | failed => exact ⟨s₃.sessions_setSession d .empty, hx₃⟩
      refine hclose.mono fun y s₃ hover ↦ ?_
      cases y with
      | ok _ => exact meets_of_over hover
      | error e => exact meets_of_over (x := .error e) ⟨hover.1, trivial⟩

theorem meets_offLoop {work : Program Db Failure SchemaDefinition} (hsane : s.Sane fingerprint calls)
    (hs : Idle d s) (hwork : ∀ s', s'.Sane fingerprint calls → Idle d s' →
      Does fingerprint calls d work (Ready fingerprint (calls d) d) s') :
    (offLoop work).Meets (pact fingerprint calls) Answers d (Over fingerprint (calls d) d) s := by
  refine Meets.ensure hsane ((meets_run hsane hs hwork).mono fun x s₁ hover ↦ ?_)
  have hresume : Statement.resume.execute.Meets (pact fingerprint calls) Answers d
      (fun _ ↦ Over fingerprint (calls d) d x) s₁ := by
    refine meets_execute nofun (stable_over x) hover (fun _ ↦ stable_over x) fun s₂ answer s₃ _ hover₂ h ↦ ?_
    cases h with
    | resumed | failed => exact hover₂
  refine hresume.mono fun y s₂ hover₂ ↦ ?_
  cases y with
  | ok _ => exact meets_of_over hover₂
  | error e => exact meets_of_over (x := .error e) ⟨hover₂.1, trivial⟩

theorem meets_tries {work : Program Db Failure SchemaDefinition} (hwork : ∀ s', s'.Sane fingerprint calls →
      Idle d s' → Does fingerprint calls d work (Ready fingerprint (calls d) d) s') (left : ℕ)
    (hsane : s.Sane fingerprint calls) (hs : Idle d s) :
    (SqlSchemaRegistry.tries work left).Meets (pact fingerprint calls) Answers d
      (Over fingerprint (calls d) d) s := by
  induction left generalizing s with
  | zero => exact meets_offLoop hsane hs hwork
  | succ left ih =>
      refine Meets.rescue hsane ((meets_offLoop hsane hs hwork).and_inv.mono fun x s₁ hx ↦ ?_)
      obtain ⟨hsane₁, hover⟩ := hx
      cases x with
      | ok schema => exact meets_of_over (x := .ok schema) hover
      | error failure =>
          rw [onEnd_error]
          split
          · exact ih hsane₁ hover.1
          · exact meets_of_over (x := .error failure) hover

/-- A call that returns is sound, and has found its row. -/
theorem does_register (d : D) : Does fingerprint calls d (SqlSchemaRegistry.register fingerprint (calls d))
    (fun schema s ↦ (calls d).Sound ∧ Found fingerprint (calls d) schema s) (.fresh D) := by
  unfold SqlSchemaRegistry.register
  split
  · rename_i hsound
    refine Meets.mono (meets_tries (fun s' hsane hidle ↦ does_statements hsane hidle hsound) _ sane_fresh rfl)
      fun x s hover ↦ ?_
    cases x with
    | ok schema => exact ⟨hsound, hover.2⟩
    | error e => trivial
  · exact does_raise _

theorem register_ne_ret (a : SchemaDefinition) : SqlSchemaRegistry.register fingerprint r ≠ .ret a := by
  unfold SqlSchemaRegistry.register
  split
  · exact nofun
  · exact nofun

theorem schemaFrom_eq_ok (h : schemaFrom row = .ok schema) : schema.id = row.id ∧ schema.version = row.version ∧
    schema.subject = row.subject ∧ schema.definition = row.definition := by
  obtain ⟨registeredAt, -, hschema⟩ := Fallible.bind_ok_iff.mp h
  obtain rfl := Except.ok.inj hschema
  exact ⟨rfl, rfl, rfl, rfl⟩

/-- Any number of calls of `register` on one table, statement by statement. -/
def Registering (fingerprint : String → String) (calls : D → Registration) :
    Database D → List (D × Event Db) → (D → Program Db Failure SchemaDefinition) → Prop :=
  Interleaved (fun d ↦ SqlSchemaRegistry.register fingerprint (calls d)) Answers (fun _ _ ↦ False) (.fresh D)

variable {h : List (D × Event Db)} {ps : D → Program Db Failure SchemaDefinition}

theorem Registering.sane (hI : Registering fingerprint calls s h ps) : s.Sane fingerprint calls :=
  (Interleaved.meets sane_fresh does_register (fun _ _ ↦ False.elim) hI).1

theorem Registering.found (hI : Registering fingerprint calls s h ps) {d : D} {a : SchemaDefinition}
    (hreturned : ps d = .ret a) : (calls d).Sound ∧ Found fingerprint (calls d) a s := by
  have hmeets := (Interleaved.meets sane_fresh does_register (fun _ _ ↦ False.elim) hI).2 d
  rw [hreturned] at hmeets
  exact hmeets s hI.sane ((pact fingerprint calls).rely_refl d s)

theorem Registering.mem (hI : Registering fingerprint calls s h ps) {d : D} {a : SchemaDefinition}
    (hreturned : ps d = .ret a) : d ∈ h.map Prod.fst := by
  by_contra hd
  exact register_ne_ret a ((hI.eq_start hd).symm.trans hreturned)

end Registry

end AcemqAmqp
