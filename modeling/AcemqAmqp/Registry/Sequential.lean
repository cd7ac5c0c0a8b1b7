import AcemqAmqp.Registry.Serial

/-!
# Registrations come one after the other

The rows say in which order the calls that wrote them came; the other calls that
return come behind.  In that order the registry of one process answers the same.
-/

namespace AcemqAmqp

namespace Registry

open Interaction Program

variable {D : Type} {fingerprint : String → String} {calls : D → Registration}
  {s : Database D} {h : List (D × Event Db)} {ps : D → Program Db Failure SchemaDefinition}

/-- Called in this order, the registry of one process gives every call the numbers it has been
given here. -/
def Explains (fingerprint : String → String) (calls : D → Registration)
    (ps : D → Program Db Failure SchemaDefinition) (order : List D) : Prop :=
  ∀ now : D → Instant, List.Forall₂
    (fun d answer ↦ ∀ a, ps d = .ret a → ∃ own, answer = .ok own ∧ own.id = a.id ∧ own.version = a.version)
    order (InMemorySchemaRegistry.empty.answers fingerprint (order.map fun d ↦ (calls d, now d)))

theorem Database.Sane.writers_keys (hsane : s.Sane fingerprint calls) :
    (s.writers.map fun d ↦ (calls d).key fingerprint) = s.rows.map Row.key := by
  have hkeys : List.Forall₂ (fun d row ↦ (calls d).key fingerprint = row.key) s.writers s.rows :=
    hsane.written.imp fun _ _ hasked ↦ hasked.key.symm
  rw [← List.forall₂_eq_eq_eq, List.forall₂_map_left_iff, List.forall₂_map_right_iff]
  exact hkeys

theorem Database.Sane.writers_sound (hsane : s.Sane fingerprint calls) : ∀ d ∈ s.writers, (calls d).Sound :=
  ((List.forall₂_and_left _ _).mp (hsane.written.imp fun _ _ hasked ↦ ⟨hasked.sound, hasked⟩)).1

/-- The calls that wrote the rows, in their order, and then any calls that can find theirs. -/
theorem Database.Sane.explains (hsane : s.Sane fingerprint calls) {others : List D}
    (hothers : ∀ d ∈ others, (calls d).Sound ∧ (calls d).key fingerprint ∈ s.rows.map Row.key)
    (hfound : ∀ d a, ps d = .ret a → Found fingerprint (calls d) a s) :
    Explains fingerprint calls ps (s.writers ++ others) := by
  obtain ⟨l, hkeeps⟩ := hsane.keeps
  intro now
  have hsound : ∀ call ∈ (s.writers ++ others).map fun d ↦ (calls d, now d), call.1.Sound := by
    intro call hcall
    obtain ⟨d, hmem, rfl⟩ := List.mem_map.mp hcall
    exact (List.mem_append.mp hmem).elim (hsane.writers_sound d) fun hother ↦ (hothers d hother).1
  have hledger : Ledger.empty.enterAll ((s.writers ++ others).map fun d ↦ (calls d).key fingerprint) = l := by
    rw [List.map_append, hsane.writers_keys, hkeeps.entries, Ledger.enterAll_append, Ledger.enterAll_entries]
    refine Ledger.enterAll_of_mem fun key hkey ↦ ?_
    obtain ⟨d, hmem, rfl⟩ := List.mem_map.mp hkey
    exact hkeeps.entries ▸ (hothers d hmem).2
  have hanswers := InMemorySchemaRegistry.agrees_empty.answers fingerprint hsound
  rw [List.map_map, List.forall₂_map_left_iff] at hanswers
  refine hanswers.imp fun d answer hanswer a hreturned ↦ ?_
  obtain ⟨own, hown, hid, hversion⟩ := hanswer
  obtain ⟨row, hmem, hkey, hschema⟩ := hfound d a hreturned
  obtain ⟨haid, haversion, -⟩ := schemaFrom_eq_ok hschema
  obtain ⟨hrowid, hrowversion⟩ := hkeeps.numbers row hmem
  refine ⟨own, hown, ?_, ?_⟩
  · rw [haid, hrowid, hkey, hid, ← hledger]
    rfl
  · rw [haversion, hrowversion, hkey, hversion, ← hledger]
    rfl

section numbers

variable {rows : List Row} {l : Ledger (String × String)}

theorem Keeps.map_id (hkeeps : Keeps rows l) : rows.map Row.id = List.range' 1 rows.length :=
  calc rows.map Row.id = rows.map (l.identifier ∘ Row.key) :=
        List.map_congr_left fun row hmem ↦ (hkeeps.numbers row hmem).1
    _ = l.entries.map l.identifier := by rw [← List.map_map, hkeeps.entries]
    _ = List.range' 1 rows.length := by rw [Ledger.map_identifier, hkeeps.length]

theorem Keeps.map_version (hkeeps : Keeps rows l) (subject : String) :
    (rows.filter fun row ↦ row.subject = subject).map Row.version =
      List.range' 1 (rows.countP fun row ↦ row.subject = subject) :=
  calc (rows.filter fun row ↦ row.subject = subject).map Row.version =
        (rows.filter fun row ↦ row.subject = subject).map (l.version Prod.fst ∘ Row.key) :=
        List.map_congr_left fun row hmem ↦ (hkeeps.numbers row (List.mem_of_mem_filter hmem)).2
    _ = (l.entries.filter fun key ↦ key.1 = subject).map (l.version Prod.fst) := by
        rw [← hkeeps.entries, List.filter_map, List.map_map]
        rfl
    _ = List.range' 1 (rows.countP fun row ↦ row.subject = subject) := by
        rw [Ledger.map_version, hkeeps.size]

end numbers

theorem Database.Sane.fingerprints (hsane : s.Sane fingerprint calls) :
    ∀ row ∈ s.rows, row.fingerprint = fingerprint row.definition :=
  ((List.forall₂_and_left _ _).mp (hsane.written.flip.imp fun _ _ hasked ↦ ⟨by
    rw [hasked.definition]
    exact congrArg Prod.snd hasked.key, hasked⟩)).1

theorem Found.asked {d : D} {a : SchemaDefinition} (hfingerprint : fingerprint.Injective)
    (hsane : s.Sane fingerprint calls) (hfound : Found fingerprint (calls d) a s) :
    a.subject = (calls d).subject ∧ a.definition = (calls d).definition := by
  obtain ⟨row, hmem, hkey, hschema⟩ := hfound
  obtain ⟨-, -, hsubject, hdefinition⟩ := schemaFrom_eq_ok hschema
  obtain ⟨hrowsubject, hrowprint⟩ := Prod.ext_iff.mp hkey
  refine ⟨hsubject.trans hrowsubject, hdefinition.trans (hfingerprint ?_)⟩
  exact (hsane.fingerprints row hmem).symm.trans hrowprint

theorem Found.id_eq_iff {d d' : D} {a b : SchemaDefinition} (hfingerprint : fingerprint.Injective)
    (hsane : s.Sane fingerprint calls) (ha : Found fingerprint (calls d) a s)
    (hb : Found fingerprint (calls d') b s) :
    a.id = b.id ↔ (calls d).subject = (calls d').subject ∧ (calls d).definition = (calls d').definition := by
  obtain ⟨l, hkeeps⟩ := hsane.keeps
  obtain ⟨row, hmem, hkey, hschema⟩ := ha
  obtain ⟨row', hmem', hkey', hschema'⟩ := hb
  have hentry : row.key ∈ l.entries := hkeeps.entries ▸ List.mem_map_of_mem hmem
  rw [(schemaFrom_eq_ok hschema).1, (schemaFrom_eq_ok hschema').1, (hkeeps.numbers row hmem).1,
    (hkeeps.numbers row' hmem').1, Ledger.identifier_inj hentry, hkey, hkey', Registration.key, Registration.key,
    Prod.mk.injEq, hfingerprint.eq_iff]

variable [DecidableEq D]

/-- Registrations in a database are those of one process, in some order: of the calls that return, and
of calls that wrote a row although they have not returned. -/
theorem registrations_serial (fingerprint : String → String) (hfingerprint : fingerprint.Injective)
    (calls : D → Registration) (s : Database D) (h : List (D × Event Db))
    (ps : D → Program Db Failure SchemaDefinition) (hI : Registering fingerprint calls s h ps) :
    (∀ d a, ps d = .ret a → a.subject = (calls d).subject ∧ a.definition = (calls d).definition ∧
      ∃ row ∈ s.rows, schemaFrom row = .ok a) ∧
    (∀ d d' a b, ps d = .ret a → ps d' = .ret b → (a.id = b.id ↔
      (calls d).subject = (calls d').subject ∧ (calls d).definition = (calls d').definition)) ∧
    s.rows.map Row.id = List.range' 1 s.rows.length ∧
    (∀ subject, (s.rows.filter fun row ↦ row.subject = subject).map Row.version =
      List.range' 1 (s.rows.countP fun row ↦ row.subject = subject)) ∧
    ∃ order : List D, order.Nodup ∧ (∀ d a, ps d = .ret a → d ∈ order) ∧
      (∀ d ∈ order, (∃ a, ps d = .ret a) ∨ d ∈ s.writers) ∧ Explains fingerprint calls ps order := by
  have hsane := hI.sane
  obtain ⟨l, hkeeps⟩ := hsane.keeps
  refine ⟨fun d a hreturned ↦ ?_, fun d d' a b ha hb ↦ ?_, hkeeps.map_id, hkeeps.map_version, ?_⟩
  · have hfound := (hI.found hreturned).2
    obtain ⟨hsubject, hdefinition⟩ := hfound.asked hfingerprint hsane
    obtain ⟨row, hmem, -, hschema⟩ := hfound
    exact ⟨hsubject, hdefinition, row, hmem, hschema⟩
  · exact Found.id_eq_iff hfingerprint hsane (hI.found ha).2 (hI.found hb).2
  · classical
    let others := (h.map Prod.fst).dedup.filter fun d ↦ d ∉ s.writers ∧ ∃ a, ps d = .ret a
    have hothers : ∀ d, d ∈ others ↔ d ∈ h.map Prod.fst ∧ d ∉ s.writers ∧ ∃ a, ps d = .ret a := by
      simp [others]
    have hwriters : s.writers.Nodup := by
      refine List.Nodup.of_map (fun d ↦ (calls d).key fingerprint) ?_
      rw [hsane.writers_keys, hkeeps.entries]
      exact l.nodup
    refine ⟨s.writers ++ others, ?_, fun d a hreturned ↦ ?_, fun d hmem ↦ ?_, ?_⟩
    · refine List.nodup_append.mpr ⟨hwriters, (List.nodup_dedup _).filter _, ?_⟩
      rintro d hwriter d' hother rfl
      exact ((hothers d).mp hother).2.1 hwriter
    · by_cases hwriter : d ∈ s.writers
      · exact List.mem_append_left _ hwriter
      · exact List.mem_append_right _ ((hothers d).mpr ⟨hI.mem hreturned, hwriter, a, hreturned⟩)
    · exact (List.mem_append.mp hmem).elim .inr fun hother ↦ .inl ((hothers d).mp hother).2.2
    · refine hsane.explains (fun d hother ↦ ?_) fun d a hreturned ↦ (hI.found hreturned).2
      obtain ⟨a, hreturned⟩ := ((hothers d).mp hother).2.2
      obtain ⟨hsound, row, hmem, hkey, -⟩ := hI.found hreturned
      exact ⟨hsound, List.mem_map.mpr ⟨row, hmem, hkey⟩⟩

/-! ## A call that is cancelled -/

theorem fromMs_zero : fromMs 0 = .ok 0 := fromMs_ok_iff.mpr fromMillis_zero

section course

variable (r : Registration) (printOf : String) (identifier counted : ℕ)

/-- The row of a schema that is registered at the epoch. -/
def rowOf : Row := ⟨identifier, r.subject, counted + 1, r.format, r.definition, printOf, 0⟩

def schemaOf : SchemaDefinition := ⟨identifier, r.subject, counted + 1, r.format, r.definition, printOf, 0⟩

/-- What a call does, after it has been given a number, for a schema nobody has registered. -/
def entering : List (Event Db) :=
  [⟨.count r.subject, .ok counted⟩, ⟨.now, .ok (0 : ℤ)⟩, ⟨.insert (rowOf r printOf identifier counted), .ok ()⟩]

/-- The course of such a call. -/
def course (number : List (Event Db)) : List (Event Db) :=
  ⟨.connect, .ok ()⟩ :: ((⟨.find r.subject printOf, .ok (none : Option Row)⟩ ::
    (number ++ entering r printOf identifier counted)) ++ [⟨.commit, .ok ()⟩] ++ [⟨.close, .ok ()⟩])

variable {r printOf identifier counted} {number : List (Event Db)}

theorem runs_run (hnumber : Runs (Anything Db) SqlSchemaRegistry.takeNumber number (.ok identifier)) :
    Runs (Anything Db) (run (SqlSchemaRegistry.statements r printOf)) (course r printOf identifier counted number)
      (.ok (schemaOf r printOf identifier counted)) := by
  have hlast : Runs (Anything Db) ((Program.ofExcept (fromMs 0)).bind fun registeredAt ↦
      (.ret ⟨identifier, r.subject, counted + 1, r.format, r.definition, printOf, registeredAt⟩ :
        Program Db Failure SchemaDefinition)) [] (.ok (schemaOf r printOf identifier counted)) := by
    rw [fromMs_zero]
    exact .ret _
  have hinsert : Runs (Anything Db) (SqlSchemaRegistry.insert r printOf)
      (number ++ entering r printOf identifier counted) (.ok (schemaOf r printOf identifier counted)) :=
    hnumber.bind_ok (.ask trivial (.ask trivial (.ask trivial hlast)))
  have hstatements : Runs (Anything Db) (SqlSchemaRegistry.statements r printOf)
      (⟨.find r.subject printOf, .ok (none : Option Row)⟩ :: (number ++ entering r printOf identifier counted))
      (.ok (schemaOf r printOf identifier counted)) := .ask trivial hinsert
  have hcommit : ∀ answer, Runs (Anything Db) (Statement.commit.execute.bind fun _ ↦
      (.ret answer : Program Db Failure SchemaDefinition)) [⟨.commit, .ok ()⟩] (.ok answer) :=
    fun answer ↦ .ask trivial (.ret answer)
  have hclose : Runs (Anything Db) Statement.close.execute [⟨.close, .ok ()⟩] (.ok ()) := .ask trivial (.ret ())
  exact .ask trivial ((hstatements.bind_ok (hcommit _)).rescue_ok.ensure_ok hclose)

theorem runs_register {fingerprint : String → String} (hsound : r.Sound)
    (hnumber : Runs (Anything Db) SqlSchemaRegistry.takeNumber number (.ok identifier)) :
    Runs (Anything Db) (SqlSchemaRegistry.register fingerprint r)
      (course r (fingerprint r.definition) identifier counted number ++ [⟨.resume, .ok ()⟩])
      (.ok (schemaOf r (fingerprint r.definition) identifier counted)) := by
  have hresume : Runs (Anything Db) Statement.resume.execute [⟨.resume, .ok ()⟩] (.ok ()) := .ask trivial (.ret ())
  rw [SqlSchemaRegistry.register, if_pos hsound]
  exact ((runs_run hnumber).ensure_ok hresume).rescue_ok

/-- The row is written even when nobody waits for it any more. -/
theorem runs_register_cancelled {fingerprint : String → String} (hsound : r.Sound) {failure : Failure}
    (hcancelled : failure.isException = false)
    (hnumber : Runs (Anything Db) SqlSchemaRegistry.takeNumber number (.ok identifier)) :
    Runs (Anything Db) (SqlSchemaRegistry.register fingerprint r)
      (course r (fingerprint r.definition) identifier counted number ++ [⟨.resume, .error failure⟩])
      (.error failure) := by
  have hresume : Runs (Anything Db) Statement.resume.execute [⟨.resume, .error failure⟩] (.error failure) :=
    .ask trivial (.raise failure)
  have hgive : Runs (Anything Db) (if failure.isException then
      SqlSchemaRegistry.tries (SqlSchemaRegistry.statements r (fingerprint r.definition)) 3 else .raise failure) []
      (.error failure) := by
    rw [hcancelled]
    exact .raise failure
  have htries : Runs (Anything Db) (SqlSchemaRegistry.tries
      (SqlSchemaRegistry.statements r (fingerprint r.definition)) 4)
      ((course r (fingerprint r.definition) identifier counted number ++ [⟨.resume, .error failure⟩]) ++ [])
      (.error failure) := ((runs_run hnumber).ensure_error hresume).rescue_error hgive
  rw [List.append_nil] at htries
  rw [SqlSchemaRegistry.register, if_pos hsound]
  exact htries

end course

/-- Two schemas of one subject. -/
def twoCalls : Bool → Registration
  | false => ⟨"orders", "avro", "a"⟩
  | true => ⟨"orders", "avro", "b"⟩

def cancelled : Failure := ⟨.cancelled, "CancelledError", ""⟩

/-- The first call is the first there ever was. -/
def firstCourse : List (Event Db) :=
  course (twoCalls false) "a" 1 0 [⟨.bump, .ok (0 : ℕ)⟩, ⟨.seed, .ok ()⟩] ++ [⟨.resume, .error cancelled⟩]

def secondCourse : List (Event Db) :=
  course (twoCalls true) "b" 2 1 [⟨.bump, .ok (1 : ℕ)⟩, ⟨.lastId, .ok (some (2 : ℕ))⟩] ++ [⟨.resume, .ok ()⟩]

theorem runs_firstCourse : Runs (Anything Db) (SqlSchemaRegistry.register id (twoCalls false)) firstCourse
    (.error cancelled) := by
  refine runs_register_cancelled (by decide) rfl ?_
  exact .ask trivial (.ask trivial (.ret 1))

theorem runs_secondCourse : Runs (Anything Db) (SqlSchemaRegistry.register id (twoCalls true)) secondCourse
    (.ok (schemaOf (twoCalls true) "b" 2 1)) := by
  refine runs_register (by decide) ?_
  exact .ask trivial (.ask trivial (.ret 2))

theorem follows_firstCourse : ∃ s, Follows Answers false (.fresh Bool) firstCourse s ∧
    s.rows = [rowOf (twoCalls false) "a" 1 0] ∧ s.counter = some 1 ∧ (∀ d, s.sessions d = .empty) := by
  have hfree : (Database.fresh Bool).Free false := fun _ _ hholds ↦ hholds rfl
  let numbered := (Database.fresh Bool).setCounter false 1
  have hview : ∀ other ∈ numbered.view false, ¬(rowOf (twoCalls false) "a" 1 0).Clashes other :=
    fun other hmem ↦ absurd hmem List.not_mem_nil
  have hothers : ∀ d', d' ≠ false → ∀ other ∈ (numbered.sessions d').inserted,
      ¬(rowOf (twoCalls false) "a" 1 0).Clashes other := fun d' hne other hmem ↦ by
    obtain rfl : d' = true := by cases d' <;> trivial
    exact absurd hmem List.not_mem_nil
  refine ⟨_, .cons .connected <| .cons (.found _ _) <| .cons (.unseeded rfl rfl) <|
    .cons (.seeded rfl rfl hfree) <| .cons (.counted _) <| .cons (.read 0) <| .cons (.inserted hview hothers) <|
    .cons .committed <| .cons .closed <| .cons (.failed _ _) (.nil _), rfl, rfl, fun d ↦ ?_⟩
  cases d <;> rfl

theorem follows_secondCourse {s : Database Bool} (hrows : s.rows = [rowOf (twoCalls false) "a" 1 0])
    (hcounter : s.counter = some 1) (hsessions : ∀ d, s.sessions d = .empty) :
    ∃ s', Follows Answers true s secondCourse s' := by
  obtain ⟨rows, counter, sessions, writers⟩ := s
  obtain rfl : rows = [rowOf (twoCalls false) "a" 1 0] := hrows
  obtain rfl : counter = some 1 := hcounter
  obtain rfl : sessions = fun _ ↦ .empty := funext hsessions
  let s : Database Bool := ⟨[rowOf (twoCalls false) "a" 1 0], some 1, fun _ ↦ .empty, writers⟩
  have hfree : s.Free true := fun _ _ hholds ↦ hholds rfl
  let numbered := s.setCounter true 2
  have hview : ∀ other ∈ numbered.view true, ¬(rowOf (twoCalls true) "b" 2 1).Clashes other := fun other hmem ↦ by
    obtain rfl : other = rowOf (twoCalls false) "a" 1 0 := List.mem_singleton.mp hmem
    simp [Row.Clashes, Row.key, rowOf, twoCalls]
  have hothers : ∀ d', d' ≠ true → ∀ other ∈ (numbered.sessions d').inserted,
      ¬(rowOf (twoCalls true) "b" 2 1).Clashes other := fun d' hne other hmem ↦ by
    obtain rfl : d' = false := by cases d' <;> trivial
    exact absurd hmem List.not_mem_nil
  exact ⟨_, .cons .connected <| .cons (.found _ _) <| .cons (.bumped rfl rfl hfree) <|
    .cons .last <| .cons (.counted _) <| .cons (.read 0) <| .cons (.inserted hview hothers) <|
    .cons .committed <| .cons .closed <| .cons .resumed (.nil _)⟩

theorem registering_twoCalls : ∃ s h ps, Registering id twoCalls s h ps ∧ ps false = .raise cancelled ∧
    ps true = .ret (schemaOf (twoCalls true) "b" 2 1) := by
  obtain ⟨s, hfirst, hrows, hcounter, hsessions⟩ := follows_firstCourse
  obtain ⟨s', hsecond⟩ := follows_secondCourse hrows hcounter hsessions
  have hstart : Registering id twoCalls (.fresh Bool) [] fun d ↦ SqlSchemaRegistry.register id (twoCalls d) := .init
  have hmiddle := Interleaved.runs hstart rfl runs_firstCourse hfirst
  have hend := hmiddle.runs (d := true) (Function.update_of_ne (by decide) ..) runs_secondCourse hsecond
  exact ⟨s', _, _, hend, Function.update_of_ne (by decide) .., Function.update_self ..⟩

/-- The task of the first call is cancelled while its thread is at work.  The second call is the only
one that returns, and would have been given the first number. -/
theorem registration_outlives_call : ∃ s h ps, Registering id twoCalls s h ps ∧
    ∃ a, ps true = .ret a ∧ a.id = 2 ∧ a.version = 2 ∧
      ∀ order : List Bool, order.Nodup → (∀ d, d ∈ order ↔ ∃ a, ps d = .ret a) → ¬Explains id twoCalls ps order := by
  obtain ⟨s, h, ps, hI, hraised, hreturned⟩ := registering_twoCalls
  refine ⟨s, h, ps, hI, _, hreturned, rfl, rfl, fun order hnodup horder hexplains ↦ ?_⟩
  have htrue : true ∈ order := (horder true).mpr ⟨_, hreturned⟩
  have hfalse : false ∉ order := fun hmem ↦ by
    obtain ⟨a, ha⟩ := (horder false).mp hmem
    exact nomatch hraised.symm.trans ha
  have honly : order = [true] := by
    refine List.perm_singleton.mp ((List.perm_ext_iff_of_nodup hnodup (List.nodup_singleton true)).mpr fun d ↦ ?_)
    cases d with
    | false => simp [hfalse]
    | true => simp [htrue]
  subst honly
  obtain ⟨hhead, -⟩ := List.forall₂_cons.mp (hexplains fun _ ↦ 0)
  obtain ⟨own, hown, hid, -⟩ := hhead _ hreturned
  obtain ⟨-, first, hfirst, hfirstid, -⟩ :=
    InMemorySchemaRegistry.agrees_empty.register id (by decide : (twoCalls true).Sound) 0
  obtain rfl := Except.ok.inj (hfirst.symm.trans hown)
  exact absurd (hfirstid.symm.trans hid) (by decide)

/-- Of two calls the one that returns has the second number, behind the one that is cancelled. -/
theorem registrations_serial_two : ∃ s h ps, Registering id twoCalls s h ps ∧ ∃ a, ps true = .ret a ∧
    a.subject = "orders" ∧ a.definition = "b" ∧ ∃ order : List Bool, true ∈ order ∧ Explains id twoCalls ps order := by
  obtain ⟨s, h, ps, hI, -, hreturned⟩ := registering_twoCalls
  obtain ⟨hasked, -, -, -, order, -, hmem, -, hexplains⟩ :=
    registrations_serial id Function.injective_id twoCalls s h ps hI
  obtain ⟨hsubject, hdefinition, -⟩ := hasked true _ hreturned
  exact ⟨s, h, ps, hI, _, hreturned, hsubject, hdefinition, order, hmem true _ hreturned, hexplains⟩

end Registry

end AcemqAmqp
