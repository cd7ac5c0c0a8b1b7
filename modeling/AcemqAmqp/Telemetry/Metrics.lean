import AcemqAmqp.Foundations.Cutting
import AcemqAmqp.Foundations.Dict
import AcemqAmqp.Foundations.Exposition
import Mathlib.Data.List.Sort
import Mathlib.Data.String.Basic

/-!
# Metrics and their scrape

`Metrics`, which keeps its numbers under one text for a metric and its labels,
and `prometheus_text`, which takes these texts apart again.  A text is the
list of its characters here, and what a duration is, and how one is printed, is
left open.
-/

namespace AcemqAmqp

open Cutting Exposition

namespace Telemetry

abbrev Chars := List Char

structure DurationSummary (Seconds : Type) where
  count : ℕ
  total : Seconds
  fastest : Seconds
  slowest : Seconds

structure Metrics (Seconds : Type) where
  counts : Dict Chars ℤ
  gauges : Dict Chars ℤ
  durations : Dict Chars (DurationSummary Seconds)

/-- One `name="value"` as `metric_key` renders it. -/
def rendered (label : Label) : Chars := label.1 ++ ['=', quote] ++ label.2 ++ [quote]

/-- What a dictionary holds, in the order of its keys. -/
def sorted {β : Type} (d : Dict Chars β) : List (Chars × β) := d.items.insertionSort fun a b ↦ a.1 ≤ b.1

/-- A metric and its labels as one string. -/
def metricKey (metric : Chars) (labels : Dict Chars Chars) : Chars :=
  if labels.items = [] then metric
  else metric ++ [openBrace] ++ [','].intercalate ((sorted labels).map rendered) ++ [closeBrace]

namespace Metrics

variable {Seconds : Type}

/-- `Metrics()`. -/
def new : Metrics Seconds := ⟨∅, ∅, ∅⟩

variable (metrics : Metrics Seconds) (metric : Chars) (labels : Dict Chars Chars)

def count (delta : ℤ) : Metrics Seconds :=
  let key := metricKey metric labels
  { metrics with counts := metrics.counts.set key ((metrics.counts.get? key).getD 0 + delta) }

def gauge (value : ℤ) : Metrics Seconds :=
  { metrics with gauges := metrics.gauges.set (metricKey metric labels) value }

def observe [Add Seconds] [Min Seconds] [Max Seconds] (seconds : Seconds) : Metrics Seconds :=
  let key := metricKey metric labels
  let summary : DurationSummary Seconds :=
    match metrics.durations.get? key with
    | none => ⟨1, seconds, seconds, seconds⟩
    | some existing => ⟨existing.count + 1, existing.total + seconds, min existing.fastest seconds,
        max existing.slowest seconds⟩
  { metrics with durations := metrics.durations.set key summary }

end Metrics

/-! ## The scrape -/

/-- `text.replace(".", "_")`. -/
def underscored (text : Chars) : Chars := text.map fun c ↦ if c = '.' then '_' else c

def prometheusName (metric : Chars) : Chars := underscored metric

theorem length_behind_comma_lt {rest : Chars}
    (h : (partition quote ((partition '=' rest).2.2.drop 1)).2.2.head? = some ',') :
    ((partition quote ((partition '=' rest).2.2.drop 1)).2.2.drop 1).length < rest.length := by
  have hname := length_partition_le '=' rest
  have hvalue := length_partition_le quote ((partition '=' rest).2.2.drop 1)
  have hpos : (partition quote ((partition '=' rest).2.2.drop 1)).2.2 ≠ [] := by
    intro hnil
    rw [hnil] at h
    cases h
  rw [← List.length_pos_iff] at hpos
  rw [List.length_drop] at hvalue ⊢
  omega

/-- The loop of `_prometheus_labels`: the pairs it appends from here on, or nothing where
it hands its argument back. -/
def pairsOf (rest : Chars) : Option (List Chars) :=
  if rest = [] then some []
  else
    let name := partition '=' rest
    if name.2.1 = false ∨ name.2.2.head? ≠ some quote then none
    else
      let value := partition quote (name.2.2.drop 1)
      if value.2.1 = false then none
      else
        let pair := underscored name.1 ++ ['=', quote] ++ value.1 ++ [quote]
        if value.2.2.head? = some ',' then (pairsOf (value.2.2.drop 1)).map (pair :: ·)
        else if value.2.2 = [] then some [pair]
        else none
termination_by rest.length
decreasing_by
  rename_i hcomma
  exact length_behind_comma_lt hcomma

/-- The names in the labels of a key, rewritten. -/
def prometheusLabels (labels : Chars) : Chars :=
  match pairsOf labels with
  | some pairs => [','].intercalate pairs
  | none => labels

/-- A key back into its metric and its labels, both ready for a scraper. -/
def splitKey (key : Chars) : Chars × Chars :=
  if openBrace ∉ key then (key, [])
  else
    let (metric, _, labels) := partition openBrace key
    (metric, [openBrace] ++ prometheusLabels labels.dropLast ++ [closeBrace])

inductive Kind
  | counter
  | gauge
  | summary
  deriving DecidableEq

def Kind.word : Kind → Chars
  | .counter => "counter".toList
  | .gauge => "gauge".toList
  | .summary => "summary".toList

/-- One line of the scrape. -/
inductive Line
  | type (base : Chars) (kind : Kind)
  | sample (name labels value : Chars)

def Line.text : Line → Chars
  | type base kind => "# TYPE ".toList ++ base ++ [' '] ++ kind.word
  | sample name labels value => name ++ labels ++ [' '] ++ value

theorem Line.text_type (base : Chars) (kind : Kind) :
    (type base kind).text = "# TYPE ".toList ++ base ++ [' '] ++ kind.word := rfl

theorem Line.text_sample (name labels value : Chars) :
    (sample name labels value).text = name ++ labels ++ [' '] ++ value := rfl

section scrape

variable {Seconds : Type} (floatText : Seconds → Chars)

/-- The lines about a counter or a gauge. -/
def numberLines (kind : Kind) (entry : Chars × ℤ) : List Line :=
  let (metric, labels) := splitKey entry.1
  let base := prometheusName metric
  [.type base kind, .sample base labels (toString entry.2).toList]

def summaryLines (entry : Chars × DurationSummary Seconds) : List Line :=
  let (metric, labels) := splitKey entry.1
  let base := prometheusName metric
  [.type base .summary, .sample (base ++ "_count".toList) labels (toString entry.2.count).toList,
    .sample (base ++ "_sum".toList) labels (floatText entry.2.total)]

def lines (metrics : Metrics Seconds) : List Line :=
  (sorted metrics.counts).flatMap (numberLines .counter) ++
    (sorted metrics.gauges).flatMap (numberLines .gauge) ++
    (sorted metrics.durations).flatMap (summaryLines floatText)

/-- Renders a `Metrics` in the Prometheus text format. -/
def prometheusText (metrics : Metrics Seconds) : Chars :=
  [newline].intercalate ((lines floatText metrics).map Line.text) ++
    if (lines floatText metrics).isEmpty then [] else [newline]

end scrape

end Telemetry

end AcemqAmqp
