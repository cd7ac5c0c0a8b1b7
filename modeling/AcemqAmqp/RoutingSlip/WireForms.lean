import AcemqAmqp.RoutingSlip.Slip
import Mathlib.Data.Finset.Card

/-!
# The two wire forms of a route

A slip that is started, and then read, advanced and written on at every stop,
visits its own steps in order.  The declared form writes the name of a step for
its routing key, and nothing about when it was done.
-/

namespace AcemqAmqp

open Fallible

/-! ## Names between commas -/

/-- No white space at either end. -/
def Trimmed (text : String) : Prop := strip text.toList = text.toList

instance (text : String) : Decidable (Trimmed text) :=
  inferInstanceAs (Decidable (strip text.toList = text.toList))

variable {names : List String}

theorem splitOn_joinNames (hne : names ≠ []) (hcomma : ∀ name ∈ names, ',' ∉ name.toList) :
    (joinNames names).toList.splitOn ',' = names.map String.toList := by
  rw [joinNames, String.toList_ofList]
  apply List.splitOn_intercalate
  · intro cs hcs
    obtain ⟨name, hname, rfl⟩ := List.mem_map.mp hcs
    exact hcomma name hname
  · simpa using hne

/-- Names are read back exactly when none of them has white space around it. -/
theorem splitNames_joinNames_iff (hne : names ≠ []) (hempty : "" ∉ names)
    (hcomma : ∀ name ∈ names, ',' ∉ name.toList) :
    splitNames (joinNames names) = names ↔ ∀ name ∈ names, Trimmed name := by
  have hsplit : splitNames (joinNames names) =
      ((names.map fun name ↦ strip name.toList).filter (· ≠ [])).map String.ofList := by
    rw [splitNames, splitOn_joinNames hne hcomma, List.map_map]
    rfl
  rw [hsplit]
  constructor
  · intro h
    have hlength := congrArg List.length h
    rw [List.length_map] at hlength
    have hall : ((names.map fun name ↦ strip name.toList).filter (· ≠ [])) =
        names.map fun name ↦ strip name.toList := by
      apply List.filter_eq_self.mpr
      apply List.length_filter_eq_length_iff.mp
      rw [hlength, List.length_map]
    rw [hall, List.map_map] at h
    intro name hname
    have hsame := List.map_inj_left.mp (h.trans (List.map_id names).symm) name hname
    have htext := congrArg String.toList hsame
    simpa [Trimmed] using htext
  · intro h
    have hstrip : (names.map fun name ↦ strip name.toList) = names.map String.toList :=
      List.map_congr_left h
    rw [hstrip, List.filter_eq_self.mpr, List.map_map]
    · exact (List.map_congr_left fun name _ ↦ String.ofList_toList).trans (List.map_id names)
    · intro cs hcs
      obtain ⟨name, hname, rfl⟩ := List.mem_map.mp hcs
      have hne : name ≠ "" := fun h ↦ hempty (h ▸ hname)
      simpa using hne

/-! ## What a form keeps -/

/-- The word the declared form has for a step. -/
def Step.word (s : Step) : String := orElse s.name s.routingKey

/-- The name of a step, in the words of a form. -/
def SlipForm.nameOf : SlipForm → Step → String
  | .json => Step.name
  | .stepNames => Step.word

/-- What is read back of a step. -/
def SlipForm.kept : SlipForm → Step → Step
  | .json, s => s
  | .stepNames, s => .declared s.exchange s.word

@[simp] theorem map_kept_json (steps : List Step) : steps.map (SlipForm.kept .json) = steps :=
  List.map_id steps

theorem nameOf_kept (form : SlipForm) (s : Step) : form.nameOf (form.kept s) = form.nameOf s := by
  cases form with
  | json => rfl
  | stepNames => exact orElse_self s.word

theorem stepName_ok_iff {s : Step} {name : String} : RoutingSlip.stepName s = .ok name ↔
    name = s.word ∧ s.word ≠ "" ∧ (s.name = "" ∨ s.routingKey = "" ∨ s.name = s.routingKey) ∧
      ',' ∉ s.word.toList := by
  unfold RoutingSlip.stepName Step.word
  dsimp only
  split
  · simp_all
  · split
    · simp_all
    · split
      · simp_all
      · simp_all
        tauto

/-- What `step_names` asks of a slip. -/
structure RoutingSlip.Declarable (slip : RoutingSlip) : Prop where
  nonempty : slip.every ≠ []
  exchange : ∀ s ∈ slip.every, ∀ s' ∈ slip.every, s.exchange = s'.exchange
  named : ∀ s ∈ slip.every, s.word ≠ "" ∧ ',' ∉ s.word.toList ∧
    (s.name = "" ∨ s.routingKey = "" ∨ s.name = s.routingKey)

theorem stepNames_ok_iff {slip : RoutingSlip} : slip.stepNames = .ok names ↔
    names = slip.every.map Step.word ∧ slip.Declarable := by
  have hexchanges : (slip.every.map Step.exchange).dedup.length ≤ 1 ↔
      ∀ s ∈ slip.every, ∀ s' ∈ slip.every, s.exchange = s'.exchange := by
    rw [← List.card_toFinset, Finset.card_le_one]
    simp
  have hnames : slip.every.mapM RoutingSlip.stepName = .ok names ↔
      names = slip.every.map Step.word ∧ ∀ s ∈ slip.every, s.word ≠ "" ∧ ',' ∉ s.word.toList ∧
        (s.name = "" ∨ s.routingKey = "" ∨ s.name = s.routingKey) := by
    apply mapM_ok_iff_map
    intro s name
    rw [stepName_ok_iff]
    tauto
  unfold RoutingSlip.stepNames
  dsimp only
  split
  · rename_i hempty
    refine ⟨fun h ↦ (nomatch h), fun h ↦ absurd hempty h.2.nonempty⟩
  · rename_i hempty
    split
    · rename_i hmany
      refine ⟨fun h ↦ (nomatch h), fun h ↦ ?_⟩
      have hone := hexchanges.mpr h.2.exchange
      omega
    · rename_i hfew
      rw [hnames]
      constructor
      · rintro ⟨hmap, hnamed⟩
        exact ⟨hmap, hempty, hexchanges.mp (by omega), hnamed⟩
      · rintro ⟨hmap, hdeclarable⟩
        exact ⟨hmap, hdeclarable.named⟩

/-! ## Reading back what was written -/

theorem textual_toJson (slip : RoutingSlip) : slip.toJson.textual = true := by
  have hwritten : ∀ field text, Json.textualMembers (Step.written field text) = true := by
    intro field text
    unfold Step.written
    split <;> rfl
  have hmembers : ∀ items items', Json.textualMembers items = true →
      Json.textualMembers items' = true → Json.textualMembers (items ++ items') = true := by
    intro items items' h h'
    induction items with
    | nil => exact h'
    | cons item items ih =>
        rw [Json.textualMembers, Bool.and_eq_true] at h
        rw [List.cons_append, Json.textualMembers, Bool.and_eq_true]
        exact ⟨h.1, ih h.2⟩
  have hstep : ∀ s : Step, s.toJson.textual = true := fun s ↦
    hmembers _ _ (hmembers _ _ rfl (hwritten _ _)) (hwritten _ _)
  have hsteps : ∀ steps : List Step, Json.textualItems (steps.map Step.toJson) = true := by
    intro steps
    induction steps with
    | nil => rfl
    | cons s steps ih =>
        rw [List.map_cons, Json.textualItems, hstep, ih]
        rfl
  simp [RoutingSlip.toJson, Json.textual, Json.textualMembers, hsteps]

variable {room : Room}

theorem field_eq {raw : Dict String Json} {field text : String}
    (h : raw.get? field = some (.str text) ∨ raw.get? field = none ∧ text = "") :
    Step.field room raw field = .ok text := by
  rcases h with h | ⟨h, rfl⟩
  · rw [Step.field, h]
    have hdepth : (Json.str text).depth ≤ room.printing.getD (Json.str text).depth := Nat.zero_le _
    by_cases hempty : text = ""
    · simp [loads, Value.truthy, hempty]
    · simp [loads, Value.truthy, Value.str, hempty, hdepth]
  · rw [Step.field, h]

theorem fromJson_toJson (s : Step) : Step.fromJson room s.toJson = .ok s := by
  obtain ⟨exchange, routingKey, name, completedAt⟩ := s
  set items : List (String × Json) := [("exchange", .str exchange), ("routingKey", .str routingKey)] ++
    Step.written "name" name ++ Step.written "completedAt" completedAt with hitems
  have hnodup : (items.map Prod.fst).Nodup := by
    rw [hitems]
    unfold Step.written
    split <;> split <;> simp
  have hget : ∀ field, (Dict.ofList items).get? field = items.lookup field := fun field ↦ by
    rw [Dict.get?, Dict.items_ofList hnodup]
  have hexchange : Step.field room (.ofList items) "exchange" = .ok exchange := by
    apply field_eq
    left
    rw [hget, hitems]
    rfl
  have hroutingKey : Step.field room (.ofList items) "routingKey" = .ok routingKey := by
    apply field_eq
    left
    rw [hget, hitems]
    rfl
  have hname : Step.field room (.ofList items) "name" = .ok name := by
    apply field_eq
    rw [hget, hitems]
    unfold Step.written
    split <;> split <;> simp_all [List.lookup_cons]
  have hcompletedAt : Step.field room (.ofList items) "completedAt" = .ok completedAt := by
    apply field_eq
    rw [hget, hitems]
    unfold Step.written
    split <;> split <;> simp_all [List.lookup_cons]
  rw [Step.toJson, ← hitems, Step.fromJson]
  rw [hexchange, hroutingKey, hname, hcompletedAt]
  rfl

theorem stepsOf_written {written : Dict String Json} {field : String} {steps : List Step}
    (h : written.get? field = some (.arr (steps.map Step.toJson))) :
    stepsOf room written field = .ok steps := by
  have hread : (steps.map Step.toJson).mapM (Step.fromJson room) = .ok steps := by
    rw [mapM_ok_iff, List.forall₂_map_left_iff, List.forall₂_same]
    exact fun s _ ↦ fromJson_toJson s
  rw [stepsOf, h]
  cases steps with
  | nil => rfl
  | cons s steps => exact hread

variable {slip : RoutingSlip} {e e' : Envelope} {pipeline fresh : String}

/-- A slip nests three deep: an object, two lists, and the objects in them. -/
theorem depth_toJson (slip : RoutingSlip) : slip.toJson.depth ≤ 3 := by
  have hwritten : ∀ field text, Json.depthMembers (Step.written field text) = 0 := by
    intro field text
    unfold Step.written
    split <;> rfl
  have hmembers : ∀ items items', Json.depthMembers (items ++ items') =
      max (Json.depthMembers items) (Json.depthMembers items') := by
    intro items items'
    induction items with
    | nil => exact (Nat.zero_max _).symm
    | cons item items ih => rw [List.cons_append, Json.depthMembers, ih, Json.depthMembers, max_assoc]
  have hstep : ∀ s : Step, s.toJson.depth = 1 := by
    intro s
    rw [Step.toJson, Json.depth, hmembers, hmembers, hwritten, hwritten]
    rfl
  have hsteps : ∀ steps : List Step, Json.depthItems (steps.map Step.toJson) ≤ 1 := by
    intro steps
    induction steps with
    | nil => exact Nat.zero_le 1
    | cons s steps ih =>
        rw [List.map_cons, Json.depthItems, hstep]
        exact max_le (Nat.le_refl 1) ih
  have hdone := hsteps slip.done
  have hleft := hsteps slip.steps
  simp only [RoutingSlip.toJson, Json.depth, Json.depthMembers]
  omega

/-- A slip is read back as it was written, wherever there is room for it. -/
theorem slipWithin_withItinerary {room : Room} (hroom : ∀ n ∈ room.reading, 3 ≤ n) :
    slipWithin room (e.withItinerary slip.toHeader) pipeline = .ok (some ⟨slip.steps, slip.done, "", .json⟩) := by
  have hheader : (e.withItinerary slip.toHeader).headers.get? headerRoutingSlip =
      some (.text slip.toHeader) := Dict.get?_set_self
  have hdepth : slip.toJson.depth ≤ room.reading.getD slip.toHeader.toList.length := by
    cases hreading : room.reading with
    | none =>
        rw [Option.getD_none, RoutingSlip.toHeader, Json.dumps, String.toList_ofList]
        exact Json.depth_le slip.toJson
    | some n => exact (depth_toJson slip).trans (hroom n hreading)
  have hloads : Json.loadsWithin (room.reading.getD slip.toHeader.toList.length) slip.toHeader = .ok slip.toJson :=
    Json.loadsWithin_dumps (textual_toJson slip) hdepth
  have hread : slipOf room slip.toJson = .ok ⟨slip.steps, slip.done, "", .json⟩ := by
    have hsteps : stepsOf room (.ofList [("steps", .arr (slip.steps.map Step.toJson)),
        ("done", .arr (slip.done.map Step.toJson))]) "steps" = .ok slip.steps := stepsOf_written rfl
    have hdone : stepsOf room (.ofList [("steps", .arr (slip.steps.map Step.toJson)),
        ("done", .arr (slip.done.map Step.toJson))]) "done" = .ok slip.done := stepsOf_written rfl
    rw [RoutingSlip.toJson, slipOf, hsteps, hdone]
    rfl
  rw [slipWithin, hheader]
  dsimp only
  rw [itinerary, hloads]
  dsimp only
  rw [hread]
  rfl

theorem slipFrom_withItinerary : slipFrom (e.withItinerary slip.toHeader) pipeline =
    .ok (some ⟨slip.steps, slip.done, "", .json⟩) := slipWithin_withItinerary (fun _ ↦ nofun)

theorem declaredRoute_withRoute {route runId : String} {n : ℕ} (hroute : splitNames route = names)
    (hne : names ≠ []) (hn : n ≤ names.length) :
    declaredRoute (e.withRoute route n runId) pipeline =
      some ⟨(names.map (Step.declared pipeline)).drop n, (names.map (Step.declared pipeline)).take n,
        runId, .stepNames⟩ := by
  have hposition : (e.withRoute route n runId).routePosition.toNat = n := by
    have hnonneg : ¬(n : ℤ) < 0 := by omega
    simp [Envelope.withRoute, EnvelopeFields.settle, hnonneg]
  have hat : min (e.withRoute route n runId).routePosition.toNat names.length = n := by
    rw [hposition]
    exact min_eq_left hn
  have hnames : splitNames (e.withRoute route n runId).route = names := hroute
  unfold declaredRoute
  simp only [hnames, hat, if_neg hne]
  rfl

/-- A step the declared form keeps: it goes to the exchange of the pipeline,
under a key that is read as it is written. -/
structure Step.Plain (pipeline : String) (s : Step) : Prop where
  exchange : s.exchange = pipeline
  routingKey : s.routingKey ≠ ""
  trimmed : Trimmed s.routingKey

/-- The run a slip belongs to once it is written. -/
def RoutingSlip.runOnWire (slip : RoutingSlip) (fresh : String) : String :=
  match slip.form with
  | .json => ""
  | .stepNames => orElse slip.runId fresh

theorem word_eq {s : Step} (h : s.Plain pipeline)
    (hnamed : s.name = "" ∨ s.routingKey = "" ∨ s.name = s.routingKey) : s.word = s.routingKey := by
  unfold Step.word orElse
  split
  · rfl
  · rename_i hname
    exact (hnamed.resolve_left hname).resolve_left h.routingKey

/-- The itinerary of a slip is read back, as far as its form keeps it. -/
theorem slipFrom_onto (hwritten : slip.onto fresh e = .ok e')
    (hplain : slip.form = .stepNames → (∀ s ∈ slip.every, s.Plain pipeline) ∧
      e.headers.get? headerRoutingSlip = none) :
    slipFrom e' pipeline = .ok (some ⟨slip.steps.map slip.form.kept, slip.done.map slip.form.kept,
      slip.runOnWire fresh, slip.form⟩) := by
  obtain ⟨steps, done, runId, form⟩ := slip
  cases form with
  | json =>
      obtain rfl := Except.ok.inj hwritten
      rw [slipFrom_withItinerary]
      simp [RoutingSlip.runOnWire]
  | stepNames =>
      obtain ⟨hplain, hclean⟩ := hplain rfl
      obtain ⟨names, hnames, hwritten⟩ := bind_ok_iff.mp hwritten
      obtain rfl := Except.ok.inj hwritten
      obtain ⟨rfl, hdeclarable⟩ := stepNames_ok_iff.mp hnames
      set slip : RoutingSlip := ⟨steps, done, runId, .stepNames⟩
      have hne : slip.every.map Step.word ≠ [] := by
        simpa using hdeclarable.nonempty
      have hempty : "" ∉ slip.every.map Step.word := by
        intro hmem
        obtain ⟨s, hs, hword⟩ := List.mem_map.mp hmem
        exact (hdeclarable.named s hs).1 hword
      have hcomma : ∀ name ∈ slip.every.map Step.word, ',' ∉ name.toList := by
        intro name hname
        obtain ⟨s, hs, rfl⟩ := List.mem_map.mp hname
        exact (hdeclarable.named s hs).2.1
      have htrimmed : ∀ name ∈ slip.every.map Step.word, Trimmed name := by
        intro name hname
        obtain ⟨s, hs, rfl⟩ := List.mem_map.mp hname
        rw [word_eq (hplain s hs) (hdeclarable.named s hs).2.2]
        exact (hplain s hs).trimmed
      have hsplit := (splitNames_joinNames_iff hne hempty hcomma).mpr htrimmed
      have hkept : (slip.every.map Step.word).map (Step.declared pipeline) =
          slip.every.map (SlipForm.kept .stepNames) := by
        rw [List.map_map]
        refine List.map_congr_left fun s hs ↦ ?_
        rw [Function.comp_apply, SlipForm.kept, (hplain s hs).exchange]
      have hdone : slip.done.length ≤ (slip.every.map Step.word).length := by
        simp [RoutingSlip.every]
      have hheader : (e.withRoute (joinNames (slip.every.map Step.word)) slip.done.length
          (orElse runId fresh)).headers.get? headerRoutingSlip = none := hclean
      rw [slipFrom, slipWithin, hheader]
      dsimp only
      rw [declaredRoute_withRoute hsplit hne hdone, hkept]
      simp [RoutingSlip.every, RoutingSlip.runOnWire, slip]

/-! ## Going on -/

theorem every_advance {β : Type} {g : Step → β}
    (hg : ∀ (s : Step) (completedAt : String), g { s with completedAt := completedAt } = g s)
    (slip : RoutingSlip) (now : Instant) : (slip.advance now).every.map g = slip.every.map g := by
  obtain ⟨steps, done, runId, form⟩ := slip
  cases steps with
  | nil => rfl
  | cons first rest => simp [RoutingSlip.advance, RoutingSlip.every, hg]

theorem mem_every_advance {now : Instant} {s : Step} (h : s ∈ (slip.advance now).every) :
    ∃ s₀ ∈ slip.every, ∃ completedAt, s = { s₀ with completedAt := completedAt } := by
  obtain ⟨steps, done, runId, form⟩ := slip
  cases steps with
  | nil => exact ⟨s, h, s.completedAt, rfl⟩
  | cons first rest =>
      simp only [RoutingSlip.advance, RoutingSlip.every, List.mem_append, List.mem_singleton] at h
      rcases h with (hdone | rfl) | hrest
      · exact ⟨s, by simp [RoutingSlip.every, hdone], s.completedAt, rfl⟩
      · exact ⟨first, by simp [RoutingSlip.every], _, rfl⟩
      · exact ⟨s, by simp [RoutingSlip.every, hrest], s.completedAt, rfl⟩

/-- What was read of a slip on a declared route. -/
theorem mem_every_kept {s : Step} {runId : String} {form : SlipForm}
    (h : s ∈ RoutingSlip.every ⟨slip.steps.map form.kept, slip.done.map form.kept, runId, form⟩) :
    ∃ s₀ ∈ slip.every, s = form.kept s₀ := by
  simp only [RoutingSlip.every, ← List.map_append] at h
  obtain ⟨s₀, hs₀, rfl⟩ := List.mem_map.mp h
  exact ⟨s₀, hs₀, rfl⟩

/-- A slip that was written can be written again after the next step. -/
theorem Declarable.advance (h : slip.Declarable) (runId : String) (now : Instant) :
    (RoutingSlip.advance ⟨slip.steps.map (SlipForm.kept .stepNames),
      slip.done.map (SlipForm.kept .stepNames), runId, .stepNames⟩ now).Declarable := by
  have hkept : ∀ s ∈ (RoutingSlip.advance ⟨slip.steps.map (SlipForm.kept .stepNames),
      slip.done.map (SlipForm.kept .stepNames), runId, .stepNames⟩ now).every,
      ∃ s₀ ∈ slip.every, s.exchange = s₀.exchange ∧ s.routingKey = s₀.word ∧ s.name = s₀.word := by
    intro s hs
    obtain ⟨read, hread, completedAt, rfl⟩ := mem_every_advance hs
    obtain ⟨s₀, hs₀, rfl⟩ := mem_every_kept hread
    exact ⟨s₀, hs₀, rfl, rfl, rfl⟩
  refine ⟨?_, ?_, ?_⟩
  · have hlength : (RoutingSlip.advance ⟨slip.steps.map (SlipForm.kept .stepNames),
        slip.done.map (SlipForm.kept .stepNames), runId, .stepNames⟩ now).every.length =
          slip.every.length := by
      have hexchange : ∀ (s : Step) (completedAt : String),
          Step.exchange { s with completedAt := completedAt } = s.exchange := fun _ _ ↦ rfl
      simpa [RoutingSlip.every] using congrArg List.length (every_advance hexchange
        ⟨slip.steps.map (SlipForm.kept .stepNames), slip.done.map (SlipForm.kept .stepNames), runId,
          .stepNames⟩ now)
    intro hnil
    rw [hnil] at hlength
    exact h.nonempty (List.eq_nil_of_length_eq_zero hlength.symm)
  · intro s hs s' hs'
    obtain ⟨s₀, hs₀, hexchange, -⟩ := hkept s hs
    obtain ⟨s₁, hs₁, hexchange', -⟩ := hkept s' hs'
    rw [hexchange, hexchange']
    exact h.exchange s₀ hs₀ s₁ hs₁
  · intro s hs
    obtain ⟨s₀, hs₀, -, hroutingKey, hname⟩ := hkept s hs
    have hword : s.word = s₀.word := by rw [Step.word, hroutingKey, hname, orElse_self]
    obtain ⟨hne, hcomma, -⟩ := h.named s₀ hs₀
    exact ⟨hword ▸ hne, hword ▸ hcomma, .inr (.inr (hname.trans hroutingKey.symm))⟩

/-! ## The stops of a route -/

/-- Where a step sends its message. -/
def Step.place (s : Step) : String × String := (s.exchange, s.routingKey)

def Stop.place (s : Stop) : String × String := (s.exchange, s.routingKey)

/-- Reading the slip of a message, advancing it, and writing it on. -/
def onward (pipeline origin : String) (tick : Tick) (incoming : Envelope) :
    Except Failure (Option Stop) := do
  match ← slipFrom incoming pipeline with
  | none => .error (noItinerary incoming)
  | some slip =>
      match (slip.advance tick.now).next with
      | none => return none
      | some onwards => return some (← writeOn slip none origin tick onwards incoming)

/-- The stops of a message up to the one where its slip is finished, in at most
so many steps. -/
def follow (pipeline origin : String) (ticks : ℕ → Tick) : ℕ → Stop → Except Failure (Option (List Stop))
  | 0, _ => .ok none
  | n + 1, stop => do
      match ← onward pipeline origin (ticks n) stop.envelope with
      | none => return some [stop]
      | some next => return (← follow pipeline origin ticks n next).map (stop :: ·)

/-- A stop on the way of the slip `original`: its message was written with a
slip whose first step is this stop. -/
structure Stop.OnRoute (original : RoutingSlip) (pipeline : String) (stop : Stop) : Prop where
  form : stop.slip.form = original.form
  names : stop.slip.every.map original.form.nameOf = original.every.map original.form.nameOf
  place : stop.slip.next.map Step.place = some stop.place
  plain : original.form = .stepNames → ∀ s ∈ stop.slip.every, s.Plain pipeline
  written : ∃ fresh e, stop.slip.onto fresh e = .ok stop.envelope ∧
    (original.form = .stepNames → e.headers.get? headerRoutingSlip = none)

section route

variable {original : RoutingSlip} {stop : Stop} {origin : String} {ticks : ℕ → Tick}

theorem nameOf_completedAt (form : SlipForm) (s : Step) (completedAt : String) :
    form.nameOf { s with completedAt := completedAt } = form.nameOf s := by
  cases form <;> rfl

/-- What is read at a stop. -/
theorem Stop.OnRoute.read (h : stop.OnRoute original pipeline) : ∃ runId,
    slipFrom stop.envelope pipeline = .ok (some ⟨stop.slip.steps.map original.form.kept,
      stop.slip.done.map original.form.kept, runId, original.form⟩) := by
  obtain ⟨fresh, e, hwritten, hclean⟩ := h.written
  have hplain : stop.slip.form = .stepNames → (∀ s ∈ stop.slip.every, s.Plain pipeline) ∧
      e.headers.get? headerRoutingSlip = none := fun hform ↦
    ⟨h.plain (h.form ▸ hform), hclean (h.form ▸ hform)⟩
  have hread := slipFrom_onto hwritten hplain
  rw [h.form] at hread
  exact ⟨_, hread⟩

theorem Stop.OnRoute.declarable (h : stop.OnRoute original pipeline)
    (hform : original.form = .stepNames) : stop.slip.Declarable := by
  obtain ⟨fresh, e, hwritten, -⟩ := h.written
  rw [RoutingSlip.onto, h.form, hform] at hwritten
  obtain ⟨names, hnames, -⟩ := bind_ok_iff.mp hwritten
  exact (stepNames_ok_iff.mp hnames).2

/-- The form keeps where the steps of the slip go. -/
theorem Stop.OnRoute.place_kept (h : stop.OnRoute original pipeline) :
    ∀ s ∈ stop.slip.every, (original.form.kept s).place = s.place := by
  intro s hs
  cases hform : original.form with
  | json => rfl
  | stepNames =>
      have hnamed := ((h.declarable hform).named s hs).2.2
      exact congrArg (s.exchange, ·) (word_eq (h.plain hform s hs) hnamed)

theorem plain_kept {s : Step} (h : s.Plain pipeline)
    (hnamed : s.name = "" ∨ s.routingKey = "" ∨ s.name = s.routingKey) :
    (SlipForm.kept .stepNames s).Plain pipeline := by
  have hword := word_eq h hnamed
  refine ⟨h.exchange, ?_, ?_⟩
  · exact hword.trans_ne h.routingKey
  · show Trimmed s.word
    rw [hword]
    exact h.trimmed

@[simp] theorem advance_form (slip : RoutingSlip) (now : Instant) :
    (slip.advance now).form = slip.form := by
  unfold RoutingSlip.advance
  split <;> rfl

theorem exists_onto (h : slip.form = .stepNames → slip.Declarable) (fresh : String) (e : Envelope) :
    ∃ e', slip.onto fresh e = .ok e' := by
  cases hform : slip.form with
  | json =>
      rw [RoutingSlip.onto, hform]
      exact ⟨_, rfl⟩
  | stepNames =>
      rw [RoutingSlip.onto, hform, stepNames_ok_iff.mpr ⟨rfl, h hform⟩]
      exact ⟨_, rfl⟩

/-- One stop: the route is over, or the message goes on to the next step. -/
theorem Stop.OnRoute.onward (h : stop.OnRoute original pipeline) {first : Step} {rest : List Step}
    (hsteps : stop.slip.steps = first :: rest) (origin : String) (tick : Tick) :
    (rest = [] ∧ onward pipeline origin tick stop.envelope = .ok none) ∨
      ∃ next, onward pipeline origin tick stop.envelope = .ok (some next) ∧
        next.OnRoute original pipeline ∧ next.slip.steps = rest.map original.form.kept := by
  obtain ⟨runId, hread⟩ := h.read
  set read : RoutingSlip := ⟨stop.slip.steps.map original.form.kept,
    stop.slip.done.map original.form.kept, runId, original.form⟩ with hreadDef
  have hadvanced : (read.advance tick.now).steps = rest.map original.form.kept := by
    rw [hreadDef, hsteps]
    rfl
  rcases rest with _ | ⟨second, rest⟩
  · left
    refine ⟨rfl, ?_⟩
    have hnext : (read.advance tick.now).next = none := by rw [RoutingSlip.next, hadvanced]; rfl
    simp [AcemqAmqp.onward, hread, hnext, bind, Except.bind, pure, Except.pure]
  · right
    have hnext : (read.advance tick.now).next = some (original.form.kept second) := by
      rw [RoutingSlip.next, hadvanced]
      rfl
    set base := stop.envelope.passedOn tick.id origin with hbase
    have hdeclarable : (read.advance tick.now).form = .stepNames →
        (read.advance tick.now).Declarable := by
      intro hform
      rw [advance_form] at hform
      have hadvance := Declarable.advance (h.declarable hform) runId tick.now
      rwa [← hform, ← hreadDef] at hadvance
    obtain ⟨e', he'⟩ := exists_onto hdeclarable tick.run base
    refine ⟨⟨(original.form.kept second).exchange, (original.form.kept second).routingKey,
      read.advance tick.now, e'⟩, ?_, ⟨?_, ?_, ?_, ?_, ?_⟩, hadvanced⟩
    · simp [AcemqAmqp.onward, hread, hnext, writeOn, bind, Except.bind, pure, Except.pure, ← hbase, he']
    · exact advance_form read tick.now
    · show (read.advance tick.now).every.map original.form.nameOf = _
      rw [every_advance (nameOf_completedAt original.form), ← h.names, hreadDef, RoutingSlip.every,
        ← List.map_append, List.map_map]
      exact List.map_congr_left fun s _ ↦ nameOf_kept original.form s
    · show (read.advance tick.now).next.map Step.place = _
      rw [hnext]
      rfl
    · intro hform s hs
      obtain ⟨s₁, hs₁, completedAt, rfl⟩ := mem_every_advance hs
      obtain ⟨s₀, hs₀, rfl⟩ := mem_every_kept hs₁
      have hplain := plain_kept (h.plain hform s₀ hs₀) ((h.declarable hform).named s₀ hs₀).2.2
      rw [hform]
      exact ⟨hplain.exchange, hplain.routingKey, hplain.trimmed⟩
    · refine ⟨tick.run, base, he', fun _ ↦ ?_⟩
      show (stop.envelope.headers.erase headerRoutingSlip).get? headerRoutingSlip = none
      simp

theorem Stop.OnRoute.exists_steps (h : stop.OnRoute original pipeline) :
    ∃ first rest, stop.slip.steps = first :: rest ∧ stop.place = first.place := by
  have hplace := h.place
  rw [RoutingSlip.next] at hplace
  cases hsteps : stop.slip.steps with
  | nil => simp [hsteps] at hplace
  | cons first rest =>
      rw [hsteps] at hplace
      exact ⟨first, rest, rfl, (Option.some.inj hplace).symm⟩

/-- A message on its way gets to every step that is left, and then its slip is finished. -/
theorem Stop.OnRoute.follow (h : stop.OnRoute original pipeline) (origin : String)
    (ticks : ℕ → Tick) : ∃ stops,
      follow pipeline origin ticks stop.slip.steps.length stop = .ok (some stops) ∧
        stops.map Stop.place = stop.slip.steps.map Step.place ∧
        ∀ s ∈ stops, s.OnRoute original pipeline := by
  induction hn : stop.slip.steps.length generalizing stop with
  | zero =>
      obtain ⟨first, rest, hsteps, -⟩ := h.exists_steps
      rw [hsteps] at hn
      cases hn
  | succ n ih =>
      obtain ⟨first, rest, hsteps, hfirst⟩ := h.exists_steps
      have hrest : rest.length = n := by simpa [hsteps] using hn
      rw [AcemqAmqp.follow]
      rcases h.onward hsteps origin (ticks n) with ⟨rfl, hlast⟩ | ⟨next, honward, hnext, hleft⟩
      · rw [hlast]
        exact ⟨[stop], rfl, by simp [hsteps, hfirst], by simpa using h⟩
      · have hcount : next.slip.steps.length = n := by rw [hleft, List.length_map, hrest]
        obtain ⟨stops, hfollow, hplaces, hall⟩ := ih hnext hcount
        refine ⟨stop :: stops, ?_, ?_, List.forall_mem_cons.mpr ⟨h, hall⟩⟩
        · rw [honward]
          exact congrArg (fun x ↦ x >>= fun stops ↦ pure (stops.map (stop :: ·))) hfollow
        · rw [List.map_cons, hplaces, hleft, hsteps, List.map_cons, hfirst, List.map_map]
          congr 1
          apply List.map_congr_left
          intro s hs
          exact h.place_kept s (by simp [RoutingSlip.every, hsteps, hs])

end route

/-- The route of a slip in either form.  In the declared form the steps are
`Plain`, and the message the route is started on carries no itinerary of its own. -/
theorem route_means_the_same (slip : RoutingSlip) (form : SlipForm) (fresh : String)
    (written : RoutingSlip) (hwritten : slip.writtenAs fresh form = .ok written)
    (pipeline origin : String) (ticks : ℕ → Tick) (e : Envelope)
    (hdeclared : form = .stepNames → (∀ s ∈ slip.every, s.Plain pipeline) ∧
      e.headers.get? headerRoutingSlip = none) :
    slip.steps = [] ∧ start slip (some form) fresh e = .error RoutingSlip.noSteps ∨
    ∃ first stops, start slip (some form) fresh e = .ok first ∧
      follow pipeline origin ticks slip.steps.length first = .ok (some stops) ∧
      stops.map Stop.place = slip.steps.map Step.place ∧
      ∀ stop ∈ stops, ∃ read, slipFrom stop.envelope pipeline = .ok (some read) ∧
        read.every.map form.nameOf = slip.every.map form.nameOf ∧
        read.done = stop.slip.done.map form.kept ∧ read.steps = stop.slip.steps.map form.kept := by
  have hsame : written.steps = slip.steps ∧ written.done = slip.done ∧ written.form = form ∧
      (form = .stepNames → written.Declarable) := by
    cases form with
    | json =>
        obtain rfl := Except.ok.inj hwritten
        exact ⟨rfl, rfl, rfl, fun h ↦ (nomatch h)⟩
    | stepNames =>
        obtain ⟨names, hnames, hwritten⟩ := bind_ok_iff.mp hwritten
        obtain rfl := Except.ok.inj hwritten
        exact ⟨rfl, rfl, rfl, fun _ ↦ (stepNames_ok_iff.mp hnames).2⟩
  obtain ⟨hsteps, hdone, hform, hdeclarable⟩ := hsame
  have hevery : written.every = slip.every := by rw [RoutingSlip.every, hsteps, hdone, RoutingSlip.every]
  cases hnext : slip.steps with
  | nil =>
      left
      refine ⟨rfl, ?_⟩
      rw [start, RoutingSlip.next, hnext]
      rfl
  | cons step rest =>
      right
      have hwritable : written.form = .stepNames → written.Declarable := fun h ↦
        hdeclarable (hform ▸ h)
      obtain ⟨e', he'⟩ := exists_onto hwritable fresh e
      have hstart : start slip (some form) fresh e =
          .ok ⟨step.exchange, step.routingKey, written, e'⟩ := by
        rw [start, RoutingSlip.next, hnext]
        simp [hwritten, he', bind, Except.bind, pure, Except.pure]
      have honRoute : Stop.OnRoute written pipeline ⟨step.exchange, step.routingKey, written, e'⟩ := by
        refine ⟨rfl, rfl, ?_, ?_, fresh, e, he', fun h ↦ (hdeclared (hform ▸ h)).2⟩
        · rw [RoutingSlip.next, hsteps, hnext]
          rfl
        · intro h
          rw [hevery]
          exact (hdeclared (hform ▸ h)).1
      obtain ⟨stops, hfollow, hplaces, hall⟩ := honRoute.follow origin ticks
      rw [hsteps, hnext] at hfollow hplaces
      refine ⟨_, stops, hstart, hfollow, hplaces, fun stop hstop ↦ ?_⟩
      obtain ⟨runId, hread⟩ := (hall stop hstop).read
      rw [hform] at hread
      refine ⟨_, hread, ?_, rfl, rfl⟩
      have hnames := (hall stop hstop).names
      rw [hform, hevery] at hnames
      rw [← hnames, RoutingSlip.every, ← List.map_append, List.map_map]
      exact List.map_congr_left fun s _ ↦ nameOf_kept form s

/-- Two steps of a pipeline, started in the declared form. -/
theorem route_means_the_same_orders :
    let slip : RoutingSlip := ⟨[.declared "orders" "validate", .declared "orders" "ship"], [], "", .json⟩
    let e := Envelope.new "m1" "order" 0
    ∃ first stops, start slip (some .stepNames) "r1" e = .ok first ∧
      follow "orders" "shop" (fun n ↦ ⟨0, toString n, "r2"⟩) 2 first = .ok (some stops) ∧
      stops.map Stop.place = [("orders", "validate"), ("orders", "ship")] ∧
      ∀ stop ∈ stops, ∃ read, slipFrom stop.envelope "orders" = .ok (some read) ∧
        read.every.map (SlipForm.nameOf .stepNames) = ["validate", "ship"] ∧
        read.done = stop.slip.done.map (SlipForm.kept .stepNames) ∧
        read.steps = stop.slip.steps.map (SlipForm.kept .stepNames) := by
  intro slip e
  have hplain : ∀ s ∈ slip.every, s.Plain "orders" := by
    intro s hs
    rcases List.mem_cons.mp hs with rfl | hs
    · exact ⟨rfl, by decide, by decide⟩
    · obtain rfl := List.mem_singleton.mp hs
      exact ⟨rfl, by decide, by decide⟩
  refine (route_means_the_same slip .stepNames "r1" ⟨slip.steps, [], "r1", .stepNames⟩ (by rfl)
    "orders" "shop" (fun n ↦ ⟨0, toString n, "r2"⟩) e fun _ ↦ ⟨hplain, rfl⟩).resolve_left ?_
  exact fun h ↦ List.cons_ne_nil _ _ h.1

/-- The declared form says nothing about when a step was done. -/
theorem completion_not_on_declared_route :
    let slip : RoutingSlip := ⟨[.declared "orders" "validate", .declared "orders" "ship"], [], "", .json⟩
    let e := Envelope.new "m1" "order" 0
    ∃ first stops, start slip (some .stepNames) "r1" e = .ok first ∧
      follow "orders" "shop" (fun _ ↦ ⟨0, "m2", "r2"⟩) 2 first = .ok (some stops) ∧
      ∃ stop ∈ stops, ∃ read, slipFrom stop.envelope "orders" = .ok (some read) ∧
        read.done ≠ stop.slip.done := by
  intro slip e
  set validated : Step := ⟨"orders", "validate", "validate", "1970-01-01T00:00:00+00:00"⟩
  set first : Stop := ⟨"orders", "validate", ⟨slip.steps, [], "r1", .stepNames⟩,
    e.withRoute "validate,ship" 0 "r1"⟩
  set second : Stop := ⟨"orders", "ship",
    ⟨[.declared "orders" "ship"], [validated], "r1", .stepNames⟩,
    (first.envelope.passedOn "m2" "shop").withRoute "validate,ship" 1 "r1"⟩
  have hfirst : slipFrom first.envelope "orders" =
      .ok (some ⟨slip.steps, [], "r1", .stepNames⟩) := by decide +kernel
  have hsecond : slipFrom second.envelope "orders" = .ok (some ⟨[.declared "orders" "ship"],
      [.declared "orders" "validate"], "r1", .stepNames⟩) := by decide +kernel
  have honward : onward "orders" "shop" ⟨0, "m2", "r2"⟩ first.envelope = .ok (some second) := by
    rw [onward, hfirst]
    rfl
  have hlast : onward "orders" "shop" ⟨0, "m2", "r2"⟩ second.envelope = .ok none := by
    rw [onward, hsecond]
    rfl
  have hfollow : follow "orders" "shop" (fun _ ↦ ⟨0, "m2", "r2"⟩) 2 first =
      .ok (some [first, second]) := by
    simp [follow, honward, hlast, bind, Except.bind, pure, Except.pure]
  exact ⟨first, [first, second], rfl, hfollow, second, by simp, _, hsecond, by decide⟩

end AcemqAmqp
