import AcemqAmqp.Telemetry.Metrics
import Mathlib.Algebra.Order.BigOperators.Group.List
import Mathlib.Algebra.Order.Ring.Int

/-!
# What a scraper reads

A sample's labels read back as the labels it was recorded under exactly when
nothing in them needed escaping, which is a matter of length: the scrape is as
long as the labels, and their escaped form is longer.
-/

namespace AcemqAmqp

open Cutting Exposition

namespace Telemetry

/-! ## The labels of a key -/

/-- What a label is called in a scrape. -/
def renamed (label : Label) : Label := (underscored label.1, label.2)

@[simp] theorem length_underscored (text : Chars) : (underscored text).length = text.length :=
  List.length_map _

theorem length_intercalate_comma {parts : List Chars} (h : parts ≠ []) :
    ([','].intercalate parts).length + 1 = (parts.map fun part ↦ part.length + 1).sum := by
  induction parts with
  | nil => exact absurd rfl h
  | cons part parts ih =>
      cases parts with
      | nil => simp
      | cons next parts =>
          have hrest := ih (List.cons_ne_nil _ _)
          rw [List.intercalate_cons_of_ne_nil (List.cons_ne_nil _ _), List.map_cons, List.sum_cons, ← hrest,
            List.length_append, List.length_append, List.length_singleton]
          omega

/-- One round of the loop, where the text goes on as `metric_key` writes it. -/
theorem pairsOf_step {name value rest : Chars} (hname : '=' ∉ name) (hvalue : quote ∉ value) :
    pairsOf (name ++ '=' :: quote :: (value ++ quote :: rest)) =
      let pair := underscored name ++ ['=', quote] ++ value ++ [quote]
      if rest.head? = some ',' then (pairsOf (rest.drop 1)).map (pair :: ·)
      else if rest = [] then some [pair] else none := by
  rw [pairsOf, if_neg (by simp), partition_append hname]
  simp only [List.head?_cons, List.drop_one, List.tail_cons, partition_append hvalue]
  simp

theorem pairsOf_rendered {labels : List Label} (h : ∀ label ∈ labels, '=' ∉ label.1 ∧ quote ∉ label.2) :
    pairsOf ([','].intercalate (labels.map rendered)) = some (labels.map fun label ↦ rendered (renamed label)) := by
  induction labels with
  | nil => rw [pairsOf]; rfl
  | cons label labels ih =>
      obtain ⟨⟨hname, hvalue⟩, hlabels⟩ := List.forall_mem_cons.mp h
      cases labels with
      | nil =>
          have htext : [','].intercalate ([label].map rendered) =
              label.1 ++ '=' :: quote :: (label.2 ++ quote :: []) := by
            simp [rendered]
          rw [htext, pairsOf_step hname hvalue]
          rfl
      | cons next labels =>
          have htext : [','].intercalate ((label :: next :: labels).map rendered) =
              label.1 ++ '=' :: quote :: (label.2 ++ quote ::
                (',' :: [','].intercalate ((next :: labels).map rendered))) := by
            rw [List.map_cons, List.intercalate_cons_of_ne_nil (by simp)]
            simp [rendered]
          rw [htext, pairsOf_step hname hvalue]
          simp only [List.head?_cons, if_true, List.drop_one, List.tail_cons, ih hlabels]
          rfl

/-- How a text that is gone through begins. -/
theorem exists_of_pairsOf {text : Chars} {pairs : List Chars} (h : pairsOf text = some pairs) (hne : text ≠ []) :
    ∃ name value rest, text = name ++ '=' :: quote :: (value ++ quote :: rest) ∧
      (rest = [] ∧ pairs = [underscored name ++ ['=', quote] ++ value ++ [quote]] ∨
        ∃ behind others, rest = ',' :: behind ∧ pairsOf behind = some others ∧
          pairs = (underscored name ++ ['=', quote] ++ value ++ [quote]) :: others) := by
  rw [pairsOf, if_neg hne] at h
  simp only at h
  split at h
  · cases h
  rename_i hfront
  rw [not_or, Bool.not_eq_false, not_not] at hfront
  split at h
  · cases h
  rename_i hclosed
  rw [Bool.not_eq_false] at hclosed
  obtain ⟨after, hafter⟩ : ∃ after, (partition '=' text).2.2 = quote :: after :=
    ⟨_, List.head?_eq_some_iff.mp hfront.2 |>.choose_spec⟩
  rw [hafter, List.drop_one, List.tail_cons] at h hclosed
  refine ⟨(partition '=' text).1, (partition quote after).1, (partition quote after).2.2, ?_, ?_⟩
  · rw [← partition_found hclosed, ← hafter]
    exact partition_found hfront.1
  split at h
  · rename_i hcomma
    obtain ⟨behind, hbehind⟩ := List.head?_eq_some_iff.mp hcomma
    obtain ⟨others, hothers, hpairs⟩ := Option.map_eq_some_iff.mp h
    rw [hbehind, List.drop_one, List.tail_cons] at hothers
    exact .inr ⟨behind, others, hbehind, hothers, hpairs.symm⟩
  split at h
  · rename_i hnil
    exact .inl ⟨hnil, (Option.some.inj h).symm⟩
  · cases h

/-- What the loop appends is as long as what it goes through, unless that ends with a comma. -/
theorem length_pairsOf {text : Chars} {pairs : List Chars} (h : pairsOf text = some pairs)
    (hend : text.getLast? ≠ some ',') : ([','].intercalate pairs).length = text.length := by
  induction hn : text.length using Nat.strongRecOn generalizing text pairs with
  | ind n ih =>
      subst hn
      by_cases hne : text = []
      · rw [hne, pairsOf, if_pos rfl] at h
        rw [hne, ← Option.some.inj h]
        rfl
      obtain ⟨name, value, rest, rfl, ⟨rfl, rfl⟩ | ⟨behind, others, rfl, hothers, rfl⟩⟩ :=
        exists_of_pairsOf h hne
      · simp
      · have hbehind : behind ≠ [] := by
          rintro rfl
          exact hend (List.getLast?_eq_some_iff.mpr ⟨name ++ '=' :: quote :: (value ++ [quote]), by simp⟩)
        have hothers_ne : others ≠ [] := by
          rintro rfl
          obtain ⟨_, _, _, _, ⟨_, hpair⟩ | ⟨_, _, _, _, hpair⟩⟩ := exists_of_pairsOf hothers hbehind
          · cases hpair
          · cases hpair
        have hlast : behind.getLast? ≠ some ',' := by
          intro hcomma
          obtain ⟨front, hfront⟩ := List.getLast?_eq_some_iff.mp hcomma
          rw [hfront] at hend
          exact hend (List.getLast?_eq_some_iff.mpr
            ⟨name ++ '=' :: quote :: (value ++ quote :: ',' :: front), by simp⟩)
        have hrest := ih behind.length (by simp; omega) hothers hlast rfl
        rw [List.intercalate_cons_of_ne_nil hothers_ne, List.length_append, hrest]
        simp
        omega

/-! ## Labels that read back -/

/-- The text reads as the labels, under their names in a scrape. -/
def ReadsBack (text : Chars) (labels : Dict Chars Chars) : Prop :=
  ∃ read, readLabels text = some read ∧ (read.map Prod.fst).Nodup ∧ read.Perm (labels.items.map renamed)

/-- The names of the labels become names that may stand in a scrape, each another one, and
the values are of characters that may. -/
structure Legible (labels : Dict Chars Chars) : Prop where
  names : ∀ label ∈ labels.items, ValidName (renamed label).1
  distinct : ((labels.items.map renamed).map Prod.fst).Nodup
  values : ∀ label ∈ labels.items, ∀ c ∈ label.2, ¬Special c

theorem perm_sorted {β : Type} (d : Dict Chars β) : (sorted d).Perm d.items := List.perm_insertionSort _ _

/-- The text between the braces of a key. -/
def inner (labels : Dict Chars Chars) : Chars := [','].intercalate ((sorted labels).map rendered)

theorem splitKey_metricKey {metric : Chars} {labels : Dict Chars Chars} (hmetric : openBrace ∉ metric) :
    splitKey (metricKey metric labels) = (metric, if labels.items = [] then [] else
      [openBrace] ++ prometheusLabels (inner labels) ++ [closeBrace]) := by
  rw [metricKey]
  by_cases hnil : labels.items = []
  · rw [if_pos hnil, if_pos hnil, splitKey, if_pos hmetric]
  · rw [if_neg hnil, if_neg hnil, splitKey, if_neg (by simp), List.append_assoc, List.append_assoc,
      List.singleton_append, partition_append hmetric]
    simp only [List.dropLast_concat]
    rfl

theorem sorted_ne_nil {labels : Dict Chars Chars} (h : labels.items ≠ []) : sorted labels ≠ [] :=
  fun hnil ↦ h (List.Perm.nil_eq (hnil ▸ perm_sorted labels)).symm

theorem getLast_rendered (labels : List Label) :
    ([','].intercalate (labels.map rendered)).getLast? ≠ some ',' := by
  by_cases hnil : labels = []
  · rw [hnil]
    simp
  have hend : ∃ front, [','].intercalate (labels.map rendered) = front ++ [quote] := by
    induction labels with
    | nil => exact absurd rfl hnil
    | cons label labels ih =>
        cases labels with
        | nil => exact ⟨label.1 ++ ['=', quote] ++ label.2, by simp [rendered]⟩
        | cons next labels =>
            obtain ⟨front, hfront⟩ := ih (List.cons_ne_nil _ _)
            rw [List.map_cons, List.intercalate_cons_of_ne_nil (by simp), hfront]
            exact ⟨_, (List.append_assoc _ _ _).symm⟩
  obtain ⟨front, hfront⟩ := hend
  rw [hfront, List.getLast?_concat]
  decide

theorem length_prometheusLabels {text : Chars} (h : text.getLast? ≠ some ',') :
    (prometheusLabels text).length = text.length := by
  rw [prometheusLabels]
  split
  · rename_i pairs hpairs
    exact length_pairsOf hpairs h
  · rfl

theorem eq_of_sum_eq {α : Type} {f g : α → ℕ} {l : List α} (hle : ∀ a ∈ l, f a ≤ g a)
    (hsum : (l.map f).sum = (l.map g).sum) : ∀ a ∈ l, f a = g a := by
  induction l with
  | nil => simp
  | cons a l ih =>
      rw [List.forall_mem_cons] at hle ⊢
      rw [List.map_cons, List.map_cons, List.sum_cons, List.sum_cons] at hsum
      have hrest : (l.map f).sum ≤ (l.map g).sum := List.sum_le_sum hle.2
      exact ⟨by omega, ih hle.2 (by omega)⟩

/-- Legible labels are written as the format has them. -/
theorem prometheusLabels_of_legible {labels : Dict Chars Chars} (h : Legible labels) :
    [openBrace] ++ prometheusLabels (inner labels) ++ [closeBrace] = writeLabels ((sorted labels).map renamed) := by
  have hplain : ∀ label ∈ sorted labels, '=' ∉ label.1 ∧ quote ∉ label.2 := by
    intro label hmem
    have hlabel := (perm_sorted labels).mem_iff.mp hmem
    refine ⟨fun heq ↦ ?_, fun hquote ↦ h.values label hlabel _ hquote (.inr (.inl rfl))⟩
    have hname : '=' ∈ (renamed label).1 := List.mem_map.mpr ⟨'=', heq, rfl⟩
    exact absurd ((h.names label hlabel).2 _ hname) (by decide)
  have hwritten : (sorted labels).map (fun label ↦ rendered (renamed label)) =
      ((sorted labels).map renamed).map writeLabel := by
    rw [List.map_map]
    refine List.map_congr_left fun label hmem ↦ ?_
    have hvalue := escape_eq_self (h.values label ((perm_sorted labels).mem_iff.mp hmem))
    exact congrArg (fun value ↦ (renamed label).1 ++ ['=', quote] ++ value ++ [quote]) hvalue.symm
  rw [prometheusLabels, inner, pairsOf_rendered hplain, hwritten, writeLabels]

theorem readsBack_of_legible {metric : Chars} {labels : Dict Chars Chars} (hmetric : openBrace ∉ metric)
    (h : Legible labels) : ReadsBack (splitKey (metricKey metric labels)).2 labels := by
  rw [splitKey_metricKey hmetric]
  by_cases hnil : labels.items = []
  · rw [if_pos hnil, ReadsBack, hnil]
    exact ⟨[], rfl, List.nodup_nil, .refl _⟩
  have hperm : ((sorted labels).map renamed).Perm (labels.items.map renamed) := (perm_sorted labels).map _
  refine ⟨(sorted labels).map renamed, ?_, (hperm.map _).nodup_iff.mpr h.distinct, hperm⟩
  rw [if_neg hnil, prometheusLabels_of_legible h, readLabels_eq_some_iff (by simpa using sorted_ne_nil hnil)]
  refine ⟨fun label hmem ↦ ?_, rfl⟩
  obtain ⟨label, hlabel, rfl⟩ := List.mem_map.mp hmem
  exact h.names label ((perm_sorted labels).mem_iff.mp hlabel)

theorem legible_of_readsBack {metric : Chars} {labels : Dict Chars Chars} (hmetric : openBrace ∉ metric)
    (h : ReadsBack (splitKey (metricKey metric labels)).2 labels) : Legible labels := by
  rw [splitKey_metricKey hmetric] at h
  by_cases hnil : labels.items = []
  · exact ⟨by simp [hnil], by simp [hnil], by simp [hnil]⟩
  obtain ⟨read, hread, hdistinct, hperm⟩ := h
  have hne : read ≠ [] := by
    rintro rfl
    exact hnil (List.map_eq_nil_iff.mp hperm.nil_eq.symm)
  rw [if_neg hnil, readLabels_eq_some_iff hne] at hread
  obtain ⟨hnames, htext⟩ := hread
  refine ⟨fun label hmem ↦ ?_, (hperm.map _).nodup_iff.mp hdistinct, ?_⟩
  · exact hnames _ (hperm.mem_iff.mpr (List.mem_map_of_mem hmem))
  -- The scrape is as long as the labels, so it has no room for an escape.
  have hlength : (inner labels).length = ([','].intercalate (read.map writeLabel)).length := by
    have hsame : (prometheusLabels (inner labels)).length = (inner labels).length :=
      length_prometheusLabels (getLast_rendered _)
    have hboth := congrArg List.length htext
    simp only [writeLabels, List.length_append, List.length_singleton] at hboth
    omega
  have hinner : (inner labels).length + 1 =
      (((sorted labels).map rendered).map fun part ↦ part.length + 1).sum :=
    length_intercalate_comma (by simpa using sorted_ne_nil hnil)
  have houter : ([','].intercalate (read.map writeLabel)).length + 1 =
      ((read.map writeLabel).map fun part ↦ part.length + 1).sum :=
    length_intercalate_comma (by simpa using hne)
  have hsum : (read.map fun label ↦ (rendered label).length + 1).sum =
      (read.map fun label ↦ (writeLabel label).length + 1).sum := by
    rw [List.map_map] at hinner houter
    calc (read.map fun label ↦ (rendered label).length + 1).sum
        = ((labels.items.map renamed).map fun label ↦ (rendered label).length + 1).sum :=
          (hperm.map _).sum_eq
      _ = (labels.items.map fun label ↦ (rendered label).length + 1).sum := by
          rw [List.map_map]
          exact congrArg List.sum (List.map_congr_left fun label _ ↦ by simp [rendered, renamed])
      _ = ((sorted labels).map fun label ↦ (rendered label).length + 1).sum :=
          ((perm_sorted labels).map _).sum_eq.symm
      _ = (read.map fun label ↦ (writeLabel label).length + 1).sum :=
          hinner.symm.trans ((congrArg (· + 1) hlength).trans houter)
  have hle : ∀ label ∈ read, (rendered label).length + 1 ≤ (writeLabel label).length + 1 := by
    intro label _
    have hvalue := length_escape_ge label.2
    simp only [rendered, writeLabel, List.length_append]
    omega
  intro label hmem
  have hlabel := eq_of_sum_eq hle hsum (renamed label) (hperm.mem_iff.mpr (List.mem_map_of_mem hmem))
  simp only [rendered, writeLabel, List.length_append, renamed] at hlabel
  exact not_special_of_length_escape (by omega)

/-! ## The lines about each series -/

/-- The names of the samples of a metric. -/
def Kind.sampleNames (base : Chars) : Kind → List Chars
  | .counter => [base]
  | .gauge => [base]
  | .summary => [base ++ "_count".toList, base ++ "_sum".toList]

/-- No line before a TYPE line is one for the same metric, or a sample of it. -/
def MayPrecede : Line → Line → Prop
  | _, .sample .. => True
  | .type earlier _, .type base _ => earlier ≠ base
  | .sample name _ _, .type base kind => name ∉ kind.sampleNames base

/-- What one number is kept under: a key, and what kind of number it is. -/
abbrev Series := Chars × Kind

/-- What a series is called in a scrape. -/
def base (series : Series) : Chars := prometheusName (splitKey series.1).1

/-- The lines about one series, with the texts of its numbers. -/
def seriesLines (series : Series) (values : List Chars) : List Line :=
  .type (base series) series.2 ::
    ((series.2.sampleNames (base series)).zip values).map fun sample ↦
      .sample sample.1 (splitKey series.1).2 sample.2

/-- The lines of one series may come before those of another. -/
def MayLead (earlier later : Series) : Prop :=
  base earlier ≠ base later ∧
    ∀ name ∈ earlier.2.sampleNames (base earlier), name ∉ later.2.sampleNames (base later)

section lines

variable {series later : Series} {values : List Chars}

theorem exists_sample {name : Chars} (hname : name ∈ series.2.sampleNames (base series))
    (hvalues : values.length = (series.2.sampleNames (base series)).length) :
    ∃ value, .sample name (splitKey series.1).2 value ∈ seriesLines series values := by
  rw [← List.map_fst_zip hvalues.ge] at hname
  obtain ⟨sample, hsample, rfl⟩ := List.mem_map.mp hname
  exact ⟨sample.2, List.mem_cons_of_mem _ (List.mem_map.mpr ⟨sample, hsample, rfl⟩)⟩

theorem pairwise_seriesLines (series : Series) (values : List Chars) :
    (seriesLines series values).Pairwise MayPrecede := by
  have hsamples : ∀ line ∈ ((series.2.sampleNames (base series)).zip values).map fun sample ↦
      Line.sample sample.1 (splitKey series.1).2 sample.2, ∀ earlier, MayPrecede earlier line := by
    intro line hline earlier
    obtain ⟨sample, _, rfl⟩ := List.mem_map.mp hline
    trivial
  rw [seriesLines, List.pairwise_cons]
  exact ⟨fun line hline ↦ hsamples line hline _, List.pairwise_of_forall_mem_list
    fun earlier _ line hline ↦ hsamples line hline earlier⟩

/-- Only their TYPE lines can keep the lines of two series from their order. -/
theorem mayPrecede_iff_mayLead {values' : List Chars}
    (hvalues : values.length = (series.2.sampleNames (base series)).length) :
    (∀ earlier ∈ seriesLines series values, ∀ line ∈ seriesLines later values', MayPrecede earlier line) ↔
      MayLead series later := by
  constructor
  · intro h
    refine ⟨h _ List.mem_cons_self _ List.mem_cons_self, fun name hname ↦ ?_⟩
    obtain ⟨value, hvalue⟩ := exists_sample hname hvalues
    exact h _ hvalue _ List.mem_cons_self
  · rintro ⟨hbase, hnames⟩ earlier hearlier line hline
    rw [seriesLines, List.mem_cons] at hearlier hline
    obtain rfl | hline := hline
    · obtain rfl | hearlier := hearlier
      · exact hbase
      · obtain ⟨sample, hsample, rfl⟩ := List.mem_map.mp hearlier
        exact hnames _ (List.of_mem_zip hsample).1
    · obtain ⟨sample, _, rfl⟩ := List.mem_map.mp hline
      trivial

end lines

section scrape

variable {Seconds : Type} (floatText : Seconds → Chars) (metrics : Metrics Seconds)

/-- The counters and the gauges, with their numbers. -/
def numbers : List (Series × List Chars) :=
  (sorted metrics.counts).map (fun entry ↦ ((entry.1, .counter), [(toString entry.2).toList])) ++
    (sorted metrics.gauges).map fun entry ↦ ((entry.1, .gauge), [(toString entry.2).toList])

def summaries : List (Series × List Chars) :=
  (sorted metrics.durations).map fun entry ↦
    ((entry.1, .summary), [(toString entry.2.count).toList, floatText entry.2.total])

theorem lines_eq : lines floatText metrics =
    (numbers metrics ++ summaries floatText metrics).flatMap fun entry ↦ seriesLines entry.1 entry.2 := by
  rw [List.flatMap_append, numbers, summaries, List.flatMap_append, List.flatMap_map, List.flatMap_map,
    List.flatMap_map]
  rfl

variable {floatText} {metrics}

theorem kind_of_mem_numbers {entry : Series × List Chars} (h : entry ∈ numbers metrics) :
    entry.1.2 ≠ .summary ∧ entry.2.length = 1 := by
  rw [numbers, List.mem_append] at h
  obtain h | h := h
  · obtain ⟨_, _, rfl⟩ := List.mem_map.mp h
    exact ⟨nofun, rfl⟩
  · obtain ⟨_, _, rfl⟩ := List.mem_map.mp h
    exact ⟨nofun, rfl⟩

theorem kind_of_mem_summaries {entry : Series × List Chars} (h : entry ∈ summaries floatText metrics) :
    entry.1.2 = .summary ∧ entry.2.length = 2 := by
  obtain ⟨_, _, rfl⟩ := List.mem_map.mp h
  exact ⟨rfl, rfl⟩

theorem length_values {entry : Series × List Chars} (h : entry ∈ numbers metrics ++ summaries floatText metrics) :
    entry.2.length = (entry.1.2.sampleNames (base entry.1)).length := by
  obtain ⟨⟨key, kind⟩, values⟩ := entry
  rw [List.mem_append] at h
  obtain h | h := h
  · obtain ⟨hkind, hlength⟩ := kind_of_mem_numbers h
    rw [hlength]
    cases kind with
    | counter => rfl
    | gauge => rfl
    | summary => exact absurd rfl hkind
  · obtain ⟨hkind, hlength⟩ := kind_of_mem_summaries h
    rw [hlength, hkind]
    rfl

theorem pairwise_lines_iff : (lines floatText metrics).Pairwise MayPrecede ↔
    ((numbers metrics ++ summaries floatText metrics).map Prod.fst).Pairwise MayLead := by
  rw [lines_eq, List.pairwise_flatMap, List.pairwise_map]
  constructor
  · rintro ⟨_, h⟩
    exact h.imp_of_mem fun hentry _ hboth ↦ (mayPrecede_iff_mayLead (length_values hentry)).mp hboth
  · intro h
    refine ⟨fun entry _ ↦ pairwise_seriesLines _ _, ?_⟩
    exact h.imp_of_mem fun hentry _ hlead ↦ (mayPrecede_iff_mayLead (length_values hentry)).mpr hlead

variable (floatText) (metrics) in
/-- Every series there is a number of, in the order of the scrape. -/
def allSeries : List Series := (numbers metrics ++ summaries floatText metrics).map Prod.fst

/-- There is a number of the series. -/
def Metrics.Holds (metrics : Metrics Seconds) : Series → Prop
  | (key, .counter) => key ∈ metrics.counts
  | (key, .gauge) => key ∈ metrics.gauges
  | (key, .summary) => key ∈ metrics.durations

theorem mem_sorted_keys {β : Type} {d : Dict Chars β} {key : Chars} :
    key ∈ (sorted d).map Prod.fst ↔ key ∈ d :=
  ((perm_sorted d).map _).mem_iff

theorem nodup_sorted_keys {β : Type} (d : Dict Chars β) (kind : Kind) :
    ((sorted d).map fun entry ↦ (entry.1, kind)).Nodup := by
  have hkeys : ((sorted d).map Prod.fst).Nodup := ((perm_sorted d).map _).nodup_iff.mpr d.nodup
  have hinj : Function.Injective fun key : Chars ↦ (key, kind) := fun _ _ h ↦ (Prod.mk.inj h).1
  have hboth := hkeys.map hinj
  rwa [List.map_map] at hboth

theorem allSeries_eq : allSeries floatText metrics =
    (sorted metrics.counts).map (fun entry ↦ (entry.1, .counter)) ++
      (sorted metrics.gauges).map (fun entry ↦ (entry.1, .gauge)) ++
      (sorted metrics.durations).map fun entry ↦ (entry.1, .summary) := by
  simp only [allSeries, numbers, summaries, List.map_append, List.map_map]
  rfl

theorem mem_allSeries (floatText : Seconds → Chars) {series : Series} :
    series ∈ allSeries floatText metrics ↔ metrics.Holds series := by
  obtain ⟨key, kind⟩ := series
  have hkeys : ∀ {β : Type} {d : Dict Chars β}, key ∈ d ↔ ∃ entry ∈ sorted d, entry.1 = key := by
    intro β d
    rw [← mem_sorted_keys, List.mem_map]
  cases kind with
  | counter => simp [allSeries_eq, Metrics.Holds, hkeys]
  | gauge => simp [allSeries_eq, Metrics.Holds, hkeys]
  | summary => simp [allSeries_eq, Metrics.Holds, hkeys]

theorem nodup_allSeries (floatText : Seconds → Chars) (metrics : Metrics Seconds) :
    (allSeries floatText metrics).Nodup := by
  rw [allSeries_eq, List.nodup_append, List.nodup_append]
  refine ⟨⟨nodup_sorted_keys _ _, nodup_sorted_keys _ _, ?_⟩, nodup_sorted_keys _ _, ?_⟩
  · intro a ha b hb
    obtain ⟨_, _, rfl⟩ := List.mem_map.mp ha
    obtain ⟨_, _, rfl⟩ := List.mem_map.mp hb
    exact fun h ↦ nomatch (Prod.mk.inj h).2
  · intro a ha b hb
    obtain ⟨_, _, rfl⟩ := List.mem_map.mp hb
    rw [List.mem_append] at ha
    obtain ha | ha := ha
    · obtain ⟨_, _, rfl⟩ := List.mem_map.mp ha
      exact fun h ↦ nomatch (Prod.mk.inj h).2
    · obtain ⟨_, _, rfl⟩ := List.mem_map.mp ha
      exact fun h ↦ nomatch (Prod.mk.inj h).2

/-- No two series share a name, and no counter or gauge is called as a sample of a summary. -/
structure Apart (metrics : Metrics Seconds) : Prop where
  names : ∀ series other, metrics.Holds series → metrics.Holds other → base series = base other →
    series = other
  samples : ∀ series other, metrics.Holds series → metrics.Holds other → series.2 ≠ .summary →
    other.2 = .summary → base series ∉ Kind.summary.sampleNames (base other)

theorem sampleNames_of_number {kind : Kind} (h : kind ≠ .summary) (base : Chars) :
    kind.sampleNames base = [base] := by
  cases kind with
  | counter => rfl
  | gauge => rfl
  | summary => exact absurd rfl h

theorem sampleNames_disjoint {base other : Chars} (h : base ≠ other) :
    ∀ name ∈ Kind.summary.sampleNames base, name ∉ Kind.summary.sampleNames other := by
  have hends : ∀ base other : Chars, base ++ "_count".toList ≠ other ++ "_sum".toList := by
    intro base other heq
    have hlast := congrArg List.getLast? heq
    rw [List.getLast?_append_of_ne_nil _ (by decide), List.getLast?_append_of_ne_nil _ (by decide)] at hlast
    exact absurd hlast (by decide)
  intro name hname hother
  simp only [Kind.sampleNames, List.mem_cons, List.not_mem_nil, or_false] at hname hother
  obtain rfl | rfl := hname
  · obtain heq | heq := hother
    · exact h (List.append_cancel_right heq)
    · exact hends _ _ heq
  · obtain heq | heq := hother
    · exact hends _ _ heq.symm
    · exact h (List.append_cancel_right heq)

theorem mayLead_of_numbers {series other : Series} (hseries : series.2 ≠ .summary) (hother : other.2 ≠ .summary)
    (h : base series ≠ base other) : MayLead series other := by
  rw [MayLead, sampleNames_of_number hseries, sampleNames_of_number hother]
  simpa using h

theorem pairwise_mayLead_iff : (allSeries floatText metrics).Pairwise MayLead ↔ Apart metrics := by
  have hnodup := nodup_allSeries floatText metrics
  have hnumber : ∀ series ∈ (numbers metrics).map Prod.fst, series.2 ≠ .summary := by
    intro series hseries
    obtain ⟨entry, hentry, rfl⟩ := List.mem_map.mp hseries
    exact (kind_of_mem_numbers hentry).1
  have hsummary : ∀ series ∈ (summaries floatText metrics).map Prod.fst, series.2 = .summary := by
    intro series hseries
    obtain ⟨entry, hentry, rfl⟩ := List.mem_map.mp hseries
    exact (kind_of_mem_summaries hentry).1
  have hmem : ∀ series, metrics.Holds series ↔ series ∈ (numbers metrics).map Prod.fst ∨
      series ∈ (summaries floatText metrics).map Prod.fst := by
    intro series
    rw [← mem_allSeries floatText, allSeries, List.map_append, List.mem_append]
  constructor
  · intro h
    refine ⟨fun series other hseries hother ↦ ?_, fun series other hseries hother hkind hkind' ↦ ?_⟩
    · have hnames : ((allSeries floatText metrics).map base).Nodup :=
        List.pairwise_map.mpr (h.imp fun hlead ↦ hlead.1)
      exact List.inj_on_of_nodup_map hnames ((mem_allSeries floatText).mpr hseries)
        ((mem_allSeries floatText).mpr hother)
    · rw [allSeries, List.map_append, List.pairwise_append] at h
      have hfront := ((hmem series).mp hseries).resolve_right fun hin ↦ hkind (hsummary _ hin)
      have hback := ((hmem other).mp hother).resolve_left fun hin ↦ hnumber _ hin hkind'
      have hlead := (h.2.2 series hfront other hback).2 (base series)
      rw [sampleNames_of_number hkind, hkind'] at hlead
      exact hlead (List.mem_singleton_self _)
  · intro h
    rw [allSeries, List.map_append] at hnodup ⊢
    obtain ⟨hfront, hback, hapart⟩ := List.nodup_append.mp hnodup
    have hbase : ∀ series other, metrics.Holds series → metrics.Holds other → series ≠ other →
        base series ≠ base other := fun series other hseries hother hne hbase ↦
      hne (h.names series other hseries hother hbase)
    refine List.pairwise_append.mpr ⟨?_, ?_, ?_⟩
    · refine hfront.pairwise_of_forall_ne fun series hseries other hother hne ↦ ?_
      exact mayLead_of_numbers (hnumber _ hseries) (hnumber _ hother)
        (hbase _ _ ((hmem _).mpr (.inl hseries)) ((hmem _).mpr (.inl hother)) hne)
    · refine hback.pairwise_of_forall_ne fun series hseries other hother hne ↦ ?_
      have hnames := hbase _ _ ((hmem _).mpr (.inr hseries)) ((hmem _).mpr (.inr hother)) hne
      refine ⟨hnames, ?_⟩
      rw [hsummary _ hseries, hsummary _ hother]
      exact sampleNames_disjoint hnames
    · intro series hseries other hother
      have hin := (hmem series).mpr (.inl hseries)
      have hin' := (hmem other).mpr (.inr hother)
      refine ⟨hbase _ _ hin hin' (hapart _ hseries _ hother), ?_⟩
      rw [sampleNames_of_number (hnumber _ hseries), hsummary _ hother, List.forall_mem_singleton]
      exact h.samples _ _ hin hin' (hnumber _ hseries) (hsummary _ hother)

end scrape

/-! ## What was recorded -/

/-- What a call of `count`, `gauge` or `observe` records. -/
inductive Update (Seconds : Type)
  | count (delta : ℤ)
  | gauge (value : ℤ)
  | observe (seconds : Seconds)

/-- One call, whose metric is on one line and has no brace in its name. -/
structure Recording (Seconds : Type) where
  metric : Chars
  labels : Dict Chars Chars
  update : Update Seconds
  plain : openBrace ∉ metric ∧ newline ∉ metric

section recordings

variable {Seconds : Type}

def Update.kind : Update Seconds → Kind
  | .count _ => .counter
  | .gauge _ => .gauge
  | .observe _ => .summary

def Recording.series (recording : Recording Seconds) : Series :=
  (metricKey recording.metric recording.labels, recording.update.kind)

theorem base_series (recording : Recording Seconds) : base recording.series = prometheusName recording.metric := by
  rw [base, Recording.series, splitKey_metricKey recording.plain.1]

variable [Add Seconds] [Min Seconds] [Max Seconds]

def record (metrics : Metrics Seconds) (recording : Recording Seconds) : Metrics Seconds :=
  match recording.update with
  | .count delta => metrics.count recording.metric recording.labels delta
  | .gauge value => metrics.gauge recording.metric recording.labels value
  | .observe seconds => metrics.observe recording.metric recording.labels seconds

/-- `Metrics()` after these calls. -/
def recorded (recordings : List (Recording Seconds)) : Metrics Seconds := recordings.foldl record .new

theorem holds_record {metrics : Metrics Seconds} {recording : Recording Seconds} {series : Series} :
    (record metrics recording).Holds series ↔ series = recording.series ∨ metrics.Holds series := by
  obtain ⟨key, kind⟩ := series
  obtain ⟨metric, labels, update, plain⟩ := recording
  cases update <;> cases kind <;>
    simp [record, Recording.series, Update.kind, Metrics.Holds, Metrics.count, Metrics.gauge, Metrics.observe,
      Dict.mem_set]

theorem holds_recorded {recordings : List (Recording Seconds)} {series : Series} :
    (recorded recordings).Holds series ↔ ∃ recording ∈ recordings, series = recording.series := by
  have hfold : ∀ (recordings : List (Recording Seconds)) (metrics : Metrics Seconds),
      (recordings.foldl record metrics).Holds series ↔
        metrics.Holds series ∨ ∃ recording ∈ recordings, series = recording.series := by
    intro recordings
    induction recordings with
    | nil => simp
    | cons recording recordings ih =>
        intro metrics
        rw [List.foldl_cons, ih, holds_record, List.exists_mem_cons_iff, or_comm (a := series = _), or_assoc]
  have hnew : ¬(Metrics.new : Metrics Seconds).Holds series := by
    obtain ⟨key, kind⟩ := series
    cases kind <;> exact List.not_mem_nil
  rw [recorded, hfold, or_iff_right hnew]

/-! ## Valid scrapes -/

/-- The scrape has one TYPE line at most for a metric, before all the samples of the metric,
and the labels of each sample read back as those it was recorded under. -/
structure Valid (floatText : Seconds → Chars) (recordings : List (Recording Seconds)) : Prop where
  types : (lines floatText (recorded recordings)).Pairwise MayPrecede
  labels : ∀ recording ∈ recordings, ReadsBack (splitKey recording.series.1).2 recording.labels

/-- What it takes: labels that need no escaping, and metrics that share no name. -/
structure Scrapable (recordings : List (Recording Seconds)) : Prop where
  labels : ∀ recording ∈ recordings, Legible recording.labels
  names : ∀ recording ∈ recordings, ∀ other ∈ recordings,
    prometheusName recording.metric = prometheusName other.metric → recording.series = other.series
  samples : ∀ recording ∈ recordings, ∀ other ∈ recordings,
    recording.update.kind ≠ .summary → other.update.kind = .summary →
      prometheusName recording.metric ∉ Kind.summary.sampleNames (prometheusName other.metric)

variable {floatText : Seconds → Chars} {recordings : List (Recording Seconds)}

theorem apart_iff : Apart (recorded recordings) ↔
    (∀ recording ∈ recordings, ∀ other ∈ recordings,
      prometheusName recording.metric = prometheusName other.metric → recording.series = other.series) ∧
    ∀ recording ∈ recordings, ∀ other ∈ recordings, recording.update.kind ≠ .summary →
      other.update.kind = .summary →
        prometheusName recording.metric ∉ Kind.summary.sampleNames (prometheusName other.metric) := by
  simp only [← base_series]
  constructor
  · rintro ⟨hnames, hsamples⟩
    have hholds : ∀ recording ∈ recordings, (recorded recordings).Holds recording.series :=
      fun recording hmem ↦ holds_recorded.mpr ⟨recording, hmem, rfl⟩
    exact ⟨fun recording hmem other hother ↦ hnames _ _ (hholds _ hmem) (hholds _ hother),
      fun recording hmem other hother ↦ hsamples _ _ (hholds _ hmem) (hholds _ hother)⟩
  · rintro ⟨hnames, hsamples⟩
    refine ⟨fun series other hseries hother ↦ ?_, fun series other hseries hother ↦ ?_⟩
    · obtain ⟨recording, hmem, rfl⟩ := holds_recorded.mp hseries
      obtain ⟨recording', hmem', rfl⟩ := holds_recorded.mp hother
      exact hnames _ hmem _ hmem'
    · obtain ⟨recording, hmem, rfl⟩ := holds_recorded.mp hseries
      obtain ⟨recording', hmem', rfl⟩ := holds_recorded.mp hother
      exact hsamples _ hmem _ hmem'

theorem valid_iff : Valid floatText recordings ↔ Scrapable recordings := by
  have htypes : (lines floatText (recorded recordings)).Pairwise MayPrecede ↔ Apart (recorded recordings) :=
    pairwise_lines_iff.trans pairwise_mayLead_iff
  rw [apart_iff] at htypes
  constructor
  · rintro ⟨hpairwise, hlabels⟩
    obtain ⟨hnames, hsamples⟩ := htypes.mp hpairwise
    exact ⟨fun recording hmem ↦ legible_of_readsBack recording.plain.1 (hlabels recording hmem), hnames, hsamples⟩
  · rintro ⟨hlabels, hnames, hsamples⟩
    exact ⟨htypes.mpr ⟨hnames, hsamples⟩,
      fun recording hmem ↦ readsBack_of_legible recording.plain.1 (hlabels recording hmem)⟩

/-! ## The text -/

theorem newline_notMem_natText (n : ℕ) : newline ∉ (toString n).toList := by
  rw [Nat.toString_eq_repr, Nat.toList_repr]
  intro hmem
  exact absurd (Nat.isDigit_of_mem_toDigits (by decide) (by decide) hmem) (by decide)

theorem newline_notMem_intText (n : ℤ) : newline ∉ (toString n).toList := by
  cases n with
  | ofNat n => exact newline_notMem_natText n
  | negSucc n =>
      have htext : (toString (Int.negSucc n)).toList = '-' :: (toString (n + 1)).toList := by
        rw [Nat.toString_eq_repr]
        exact String.toList_append
      rw [htext, List.mem_cons, not_or]
      exact ⟨by decide, newline_notMem_natText _⟩

theorem newline_notMem_underscored {text : Chars} (h : newline ∉ text) : newline ∉ underscored text := by
  intro hmem
  obtain ⟨c, hc, heq⟩ := List.mem_map.mp hmem
  split at heq
  · exact absurd heq (by decide)
  · exact h (heq ▸ hc)

theorem newline_notMem_labels {metric : Chars} {labels : Dict Chars Chars} (hmetric : openBrace ∉ metric)
    (h : Legible labels) : newline ∉ (splitKey (metricKey metric labels)).2 := by
  rw [splitKey_metricKey hmetric]
  by_cases hnil : labels.items = []
  · rw [if_pos hnil]
    exact List.not_mem_nil
  · rw [if_neg hnil, prometheusLabels_of_legible h]
    refine newline_notMem_writeLabels fun label hmem ↦ ?_
    obtain ⟨label, hlabel, rfl⟩ := List.mem_map.mp hmem
    exact h.names label ((perm_sorted labels).mem_iff.mp hlabel)

theorem newline_notMem_sampleNames {base name : Chars} {kind : Kind} (hbase : newline ∉ base)
    (hname : name ∈ kind.sampleNames base) : newline ∉ name := by
  by_cases hkind : kind = .summary
  · rw [hkind] at hname
    simp only [Kind.sampleNames, List.mem_cons, List.not_mem_nil, or_false] at hname
    obtain rfl | rfl := hname
    · exact fun hmem ↦ (List.mem_append.mp hmem).elim hbase (by decide)
    · exact fun hmem ↦ (List.mem_append.mp hmem).elim hbase (by decide)
  · rw [sampleNames_of_number hkind, List.mem_singleton] at hname
    rwa [hname]

omit [Add Seconds] [Min Seconds] [Max Seconds] in
theorem newline_notMem_values (hfloat : ∀ seconds, newline ∉ floatText seconds) {metrics : Metrics Seconds}
    {entry : Series × List Chars} (h : entry ∈ numbers metrics ++ summaries floatText metrics) :
    ∀ value ∈ entry.2, newline ∉ value := by
  rw [List.mem_append, numbers, List.mem_append] at h
  obtain (h | h) | h := h
  · obtain ⟨_, _, rfl⟩ := List.mem_map.mp h
    exact List.forall_mem_singleton.mpr (newline_notMem_intText _)
  · obtain ⟨_, _, rfl⟩ := List.mem_map.mp h
    exact List.forall_mem_singleton.mpr (newline_notMem_intText _)
  · obtain ⟨_, _, rfl⟩ := List.mem_map.mp h
    exact List.forall_mem_cons.mpr ⟨newline_notMem_natText _, List.forall_mem_singleton.mpr (hfloat _)⟩

theorem newline_notMem_type {base : Chars} (h : newline ∉ base) (kind : Kind) :
    newline ∉ (Line.type base kind).text := by
  have hword : newline ∉ kind.word := by
    cases kind <;> decide +kernel
  have hspace : newline ∉ [' '] := by decide
  have htype : newline ∉ "# TYPE ".toList := by decide +kernel
  rw [Line.text_type, List.mem_append, List.mem_append, List.mem_append, not_or, not_or, not_or]
  exact ⟨⟨⟨htype, h⟩, hspace⟩, hword⟩

theorem newline_notMem_sample {name labels value : Chars} (hname : newline ∉ name) (hlabels : newline ∉ labels)
    (hvalue : newline ∉ value) : newline ∉ (Line.sample name labels value).text := by
  have hspace : newline ∉ [' '] := by decide
  rw [Line.text_sample, List.mem_append, List.mem_append, List.mem_append, not_or, not_or, not_or]
  exact ⟨⟨⟨hname, hlabels⟩, hspace⟩, hvalue⟩

/-- No line of the scrape runs over into another. -/
theorem newline_notMem_lines (hfloat : ∀ seconds, newline ∉ floatText seconds) (h : Scrapable recordings) :
    ∀ line ∈ lines floatText (recorded recordings), newline ∉ line.text := by
  intro line hline
  rw [lines_eq, List.mem_flatMap] at hline
  obtain ⟨entry, hentry, hline⟩ := hline
  have hheld : entry.1 ∈ allSeries floatText (recorded recordings) := List.mem_map_of_mem hentry
  obtain ⟨recording, hmem, hseries⟩ := holds_recorded.mp ((mem_allSeries floatText).mp hheld)
  have hbase : newline ∉ base entry.1 := by
    rw [hseries, base_series]
    exact newline_notMem_underscored recording.plain.2
  have hlabels : newline ∉ (splitKey entry.1.1).2 := by
    rw [hseries]
    exact newline_notMem_labels recording.plain.1 (h.labels recording hmem)
  obtain rfl | hline := List.mem_cons.mp hline
  · exact newline_notMem_type hbase _
  · obtain ⟨sample, hsample, rfl⟩ := List.mem_map.mp hline
    obtain ⟨hname, hvalue⟩ := List.of_mem_zip hsample
    exact newline_notMem_sample (newline_notMem_sampleNames hbase hname) hlabels
      (newline_notMem_values hfloat hentry _ hvalue)

omit [Add Seconds] [Min Seconds] [Max Seconds] in
theorem prometheusText_eq (metrics : Metrics Seconds) : prometheusText floatText metrics =
    [newline].intercalate ((lines floatText metrics).map Line.text ++ [[]]) := by
  have happend : ∀ parts : List Chars, parts ≠ [] →
      [newline].intercalate parts ++ [newline] = [newline].intercalate (parts ++ [[]]) := by
    intro parts hne
    induction parts with
    | nil => exact absurd rfl hne
    | cons part parts ih =>
        cases parts with
        | nil => simp
        | cons next parts =>
            have hrest := ih (List.cons_ne_nil _ _)
            rw [List.intercalate_cons_of_ne_nil (List.cons_ne_nil _ _), List.append_assoc, hrest]
            exact (List.intercalate_cons_of_ne_nil (by simp)).symm
  rw [prometheusText]
  by_cases hnil : lines floatText metrics = []
  · simp [hnil]
  · rw [if_neg (by simpa using hnil)]
    exact happend _ (by simpa using hnil)

/-- Every series recorded has its lines in the scrape, every sample there is of a series that
was recorded, and the scrape is valid exactly when no label needs escaping and no two series
share a name; its lines are then the lines of the text. -/
theorem prometheusText_valid_iff (floatText : Seconds → Chars) (recordings : List (Recording Seconds)) :
    (∀ recording ∈ recordings,
      .type (prometheusName recording.metric) recording.update.kind ∈ lines floatText (recorded recordings) ∧
      ∀ name ∈ recording.update.kind.sampleNames (prometheusName recording.metric), ∃ value,
        .sample name (splitKey recording.series.1).2 value ∈ lines floatText (recorded recordings)) ∧
    (∀ name labels value, .sample name labels value ∈ lines floatText (recorded recordings) →
      ∃ recording ∈ recordings, labels = (splitKey recording.series.1).2 ∧
        name ∈ recording.update.kind.sampleNames (prometheusName recording.metric)) ∧
    ((∀ seconds, newline ∉ floatText seconds) → Valid floatText recordings →
      (prometheusText floatText (recorded recordings)).splitOn newline =
        (lines floatText (recorded recordings)).map Line.text ++ [[]]) ∧
    (Valid floatText recordings ↔ Scrapable recordings) := by
  refine ⟨fun recording hmem ↦ ?_, fun name labels value hsample ↦ ?_, fun hfloat hvalid ↦ ?_, valid_iff⟩
  · have hheld : recording.series ∈ allSeries floatText (recorded recordings) :=
      (mem_allSeries floatText).mpr (holds_recorded.mpr ⟨recording, hmem, rfl⟩)
    obtain ⟨entry, hentry, hseries⟩ := List.mem_map.mp hheld
    have hlines : ∀ line ∈ seriesLines entry.1 entry.2, line ∈ lines floatText (recorded recordings) := by
      intro line hline
      rw [lines_eq]
      exact List.mem_flatMap.mpr ⟨entry, hentry, hline⟩
    rw [← base_series, ← hseries]
    refine ⟨?_, fun name hname ↦ ?_⟩
    · have htype := hlines _ List.mem_cons_self
      rw [hseries] at htype ⊢
      exact htype
    · have hname' : name ∈ entry.1.2.sampleNames (base entry.1) := by
        rw [hseries] at hname ⊢
        exact hname
      obtain ⟨value, hvalue⟩ := exists_sample hname' (length_values hentry)
      exact ⟨value, hlines _ hvalue⟩
  · rw [lines_eq, List.mem_flatMap] at hsample
    obtain ⟨entry, hentry, hline⟩ := hsample
    have hheld : entry.1 ∈ allSeries floatText (recorded recordings) := List.mem_map_of_mem hentry
    obtain ⟨recording, hmem, hseries⟩ := holds_recorded.mp ((mem_allSeries floatText).mp hheld)
    obtain hline | hline := List.mem_cons.mp hline
    · cases hline
    · obtain ⟨sample, hsample, heq⟩ := List.mem_map.mp hline
      obtain ⟨rfl, rfl, rfl⟩ := Line.sample.inj heq
      refine ⟨recording, hmem, congrArg (fun series ↦ (splitKey series.1).2) hseries, ?_⟩
      have hname := (List.of_mem_zip hsample).1
      rw [hseries, base_series] at hname
      exact hname
  · rw [prometheusText_eq]
    refine List.splitOn_intercalate newline (fun text htext ↦ ?_) (by simp)
    obtain htext | htext := List.mem_append.mp htext
    · obtain ⟨line, hline, rfl⟩ := List.mem_map.mp htext
      exact newline_notMem_lines hfloat (valid_iff.mp hvalid) line hline
    · rw [List.mem_singleton.mp htext]
      exact List.not_mem_nil

end recordings

/-- A counter of messages, for one queue. -/
def ofQueue (queue : String) : Recording ℕ where
  metric := "acemq.publish.total".toList
  labels := Dict.set ∅ "queue".toList queue.toList
  update := .count 1
  plain := by decide +kernel

/-- Two queues make two TYPE lines. -/
theorem prometheusText_repeats_type :
    ¬Valid (fun seconds : ℕ ↦ (toString seconds).toList) [ofQueue "orders", ofQueue "refunds"] := by
  intro h
  have hsame := (valid_iff.mp h).names (ofQueue "orders") (by simp) (ofQueue "refunds") (by simp) rfl
  have hkey : (ofQueue "orders").series.1 ≠ (ofQueue "refunds").series.1 := by decide +kernel
  exact hkey (congrArg Prod.fst hsame)

end Telemetry

end AcemqAmqp
