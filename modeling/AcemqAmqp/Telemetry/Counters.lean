import AcemqAmqp.Telemetry.Scrape
import Mathlib.Data.List.Induction

/-!
# A counter for each label set

A counter is kept under the text of its metric and its labels.  Two counters
have one text when they are the same, and only then as long as nothing in them
reads like what is written between them.
-/

namespace AcemqAmqp

open Cutting Exposition

namespace Telemetry

structure Counter where
  metric : Chars
  labels : Dict Chars Chars

namespace Counter

def key (c : Counter) : Chars := metricKey c.metric c.labels

/-- One metric and one mapping, however it was built. -/
def Same (c d : Counter) : Prop := c.metric = d.metric ∧ c.labels.items.Perm d.labels.items

instance (c d : Counter) : Decidable (c.Same d) := inferInstanceAs (Decidable (_ ∧ _))

/-- No brace opens in the metric, and no quote is in a label. -/
def Plain (c : Counter) : Prop :=
  openBrace ∉ c.metric ∧ ∀ label ∈ c.labels.items, quote ∉ label.1 ∧ quote ∉ label.2

instance (c : Counter) : Decidable c.Plain := inferInstanceAs (Decidable (_ ∧ _))

/-- The deltas recorded under it. -/
def sum (c : Counter) (calls : List (Counter × ℤ)) : ℤ :=
  ((calls.filter fun call ↦ c.Same call.1).map Prod.snd).sum

/-- What is reported for it. -/
def reported {Seconds : Type} (c : Counter) (metrics : Metrics Seconds) : ℤ := (metrics.counts.get? c.key).getD 0

end Counter

variable {Seconds : Type} {c d : Counter} {calls : List (Counter × ℤ)}

/-- `Metrics()` after these calls of `count`. -/
def counted (calls : List (Counter × ℤ)) : Metrics Seconds :=
  calls.foldl (fun metrics call ↦ metrics.count call.1.metric call.1.labels call.2) .new

/-! ## The text of a counter -/

/-- What is before the first quote, and what is behind it. -/
theorem append_inj_of_notMem {char : Char} {front front' rest rest' : Chars} (hfront : char ∉ front)
    (hfront' : char ∉ front') (h : front ++ char :: rest = front' ++ char :: rest') :
    front = front' ∧ rest = rest' := by
  have hparts := congrArg (partition char) h
  rw [partition_append hfront, partition_append hfront'] at hparts
  exact ⟨congrArg Prod.fst hparts, congrArg (fun parts ↦ parts.2.2) hparts⟩

/-- Labels without a quote are read off their text. -/
theorem rendered_injective {labels labels' : List Label}
    (h : ∀ label ∈ labels, quote ∉ label.1 ∧ quote ∉ label.2)
    (h' : ∀ label ∈ labels', quote ∉ label.1 ∧ quote ∉ label.2)
    (heq : [','].intercalate (labels.map rendered) = [','].intercalate (labels'.map rendered)) :
    labels = labels' := by
  -- What follows the closing quote of a value.
  have hsplit : ∀ (label : Label) (rest : List Label), ∃ behind : Chars,
      [','].intercalate ((label :: rest).map rendered) =
        (label.1 ++ ['=']) ++ quote :: (label.2 ++ quote :: behind) ∧
      behind = if rest = [] then [] else ',' :: [','].intercalate (rest.map rendered) := by
    intro label rest
    refine ⟨_, ?_, rfl⟩
    cases rest with
    | nil => simp [rendered]
    | cons next rest =>
        rw [List.map_cons, List.intercalate_cons_of_ne_nil (by simp), if_neg (List.cons_ne_nil _ _)]
        simp [rendered]
  have hplain : ∀ {name : Chars}, quote ∉ name → quote ∉ name ++ ['='] := by
    intro name hname hmem
    obtain hmem | hmem := List.mem_append.mp hmem
    · exact hname hmem
    · exact absurd hmem (by decide)
  induction labels generalizing labels' with
  | nil =>
      cases labels' with
      | nil => rfl
      | cons label' rest' =>
          obtain ⟨behind', htext', -⟩ := hsplit label' rest'
          rw [htext'] at heq
          simp at heq
  | cons label rest ih =>
      cases labels' with
      | nil =>
          obtain ⟨behind, htext, -⟩ := hsplit label rest
          rw [htext] at heq
          simp at heq
      | cons label' rest' =>
          obtain ⟨behind, htext, hbehind⟩ := hsplit label rest
          obtain ⟨behind', htext', hbehind'⟩ := hsplit label' rest'
          rw [List.forall_mem_cons] at h h'
          rw [htext, htext'] at heq
          obtain ⟨hname, heq⟩ := append_inj_of_notMem (hplain h.1.1) (hplain h'.1.1) heq
          obtain ⟨hvalue, heq⟩ := append_inj_of_notMem h.1.2 h'.1.2 heq
          have hrest : rest = rest' := by
            rw [hbehind, hbehind'] at heq
            by_cases hnil : rest = []
            · by_cases hnil' : rest' = []
              · rw [hnil, hnil']
              · rw [if_pos hnil, if_neg hnil'] at heq
                cases heq
            · by_cases hnil' : rest' = []
              · rw [if_neg hnil, if_pos hnil'] at heq
                cases heq
              · rw [if_neg hnil, if_neg hnil'] at heq
                exact ih h.2 h'.2 (List.cons.inj heq).2
          rw [hrest, Prod.ext (List.append_cancel_right hname) hvalue]

theorem key_of_labels (h : c.labels.items ≠ []) :
    c.key = c.metric ++ openBrace :: (inner c.labels ++ [closeBrace]) := by
  rw [Counter.key, metricKey, if_neg h]
  simp [inner]

theorem key_of_no_labels (h : c.labels.items = []) : c.key = c.metric := if_pos h

/-- The same labels are sorted in one way. -/
theorem sorted_eq_of_perm {labels labels' : Dict Chars Chars} (h : labels.items.Perm labels'.items) :
    sorted labels = sorted labels' := by
  have hperm : (sorted labels).Perm (sorted labels') := (perm_sorted labels).trans (h.trans (perm_sorted labels').symm)
  apply hperm.eq_of_pairwise _ (List.pairwise_insertionSort _ _) (List.pairwise_insertionSort _ _)
  intro label label' hlabel hlabel' hle hle'
  -- Two labels of one name are one label of the mapping.
  have hname : label.1 = label'.1 := le_antisymm hle hle'
  have hget := Dict.mem_items_iff.mp ((perm_sorted labels).mem_iff.mp hlabel)
  have hget' := Dict.mem_items_iff.mp (h.mem_iff.mpr ((perm_sorted labels').mem_iff.mp hlabel'))
  rw [← hname, hget] at hget'
  exact Prod.ext hname (Option.some.inj hget')

theorem key_of_same (h : c.Same d) : c.key = d.key := by
  have hnil : c.labels.items = [] ↔ d.labels.items = [] := by
    rw [← List.length_eq_zero_iff, h.2.length_eq, List.length_eq_zero_iff]
  rw [Counter.key, Counter.key, metricKey, metricKey, h.1, sorted_eq_of_perm h.2]
  simp only [hnil]

theorem same_of_key (hc : c.Plain) (hd : d.Plain) (h : c.key = d.key) : c.Same d := by
  by_cases hcnil : c.labels.items = []
  · rw [key_of_no_labels hcnil] at h
    by_cases hdnil : d.labels.items = []
    · rw [key_of_no_labels hdnil] at h
      exact ⟨h, by rw [hcnil, hdnil]⟩
    · rw [key_of_labels hdnil] at h
      exact absurd (h ▸ List.mem_append_right _ List.mem_cons_self) hc.1
  · rw [key_of_labels hcnil] at h
    by_cases hdnil : d.labels.items = []
    · rw [key_of_no_labels hdnil] at h
      exact absurd (h ▸ List.mem_append_right _ List.mem_cons_self) hd.1
    · rw [key_of_labels hdnil] at h
      obtain ⟨hmetric, hinner⟩ := append_inj_of_notMem hc.1 hd.1 h
      have hplain : ∀ {e : Counter}, e.Plain →
          ∀ label ∈ sorted e.labels, quote ∉ label.1 ∧ quote ∉ label.2 :=
        fun he label hmem ↦ he.2 label ((perm_sorted _).mem_iff.mp hmem)
      have hsorted := rendered_injective (hplain hc) (hplain hd) (List.append_cancel_right hinner)
      refine ⟨hmetric, (perm_sorted c.labels).symm.trans ?_⟩
      rw [hsorted]
      exact perm_sorted d.labels

/-- Whatever the labels, their text is the text of one label. -/
theorem exists_rendered (h : c.labels.items ≠ []) :
    ∃ label : Label, c.key = c.metric ++ openBrace :: (rendered label ++ [closeBrace]) := by
  have hone : ∀ labels : List Label, labels ≠ [] →
      ∃ label, [','].intercalate (labels.map rendered) = rendered label := by
    intro labels hne
    induction labels with
    | nil => exact absurd rfl hne
    | cons label rest ih =>
        by_cases hrest : rest = []
        · exact ⟨label, by simp [hrest]⟩
        · obtain ⟨last, hlast⟩ := ih hrest
          refine ⟨(label.1, label.2 ++ [quote, ','] ++ last.1 ++ ['=', quote] ++ last.2), ?_⟩
          rw [List.map_cons, List.intercalate_cons_of_ne_nil (by simpa using hrest), hlast]
          simp [rendered]
  obtain ⟨label, hlabel⟩ := hone _ (sorted_ne_nil h)
  exact ⟨label, by rw [key_of_labels h, inner, hlabel]⟩

/-! ## The number of a counter -/

/-- A text keeps what was recorded under the counters that have it. -/
theorem get?_counted (calls : List (Counter × ℤ)) (key : Chars) :
    (counted calls : Metrics Seconds).counts.get? key =
      if ∃ call ∈ calls, call.1.key = key then
        some ((calls.filter fun call ↦ call.1.key = key).map Prod.snd).sum
      else none := by
  induction calls using List.reverseRecOn with
  | nil => simp [counted, Metrics.new]
  | append_singleton calls call ih =>
      have hstep : (counted (calls ++ [call]) : Metrics Seconds) =
          (counted calls).count call.1.metric call.1.labels call.2 := by
        rw [counted, List.foldl_append]
        rfl
      have hkey : metricKey call.1.metric call.1.labels = call.1.key := rfl
      rw [hstep, Metrics.count, Dict.get?_set, hkey]
      by_cases heq : key = call.1.key
      · subst heq
        rw [if_pos rfl, if_pos ⟨call, by simp, rfl⟩, ih, List.filter_append, List.map_append, List.sum_append]
        split
        · simp
        · rename_i hnone
          have hfilter : calls.filter (fun other ↦ other.1.key = call.1.key) = [] :=
            List.filter_eq_nil_iff.mpr fun other hmem hother ↦ hnone ⟨other, hmem, of_decide_eq_true hother⟩
          simp [hfilter]
      · have hne : call.1.key ≠ key := fun h ↦ heq h.symm
        have hfilter : (calls ++ [call]).filter (fun other ↦ other.1.key = key) =
            calls.filter fun other ↦ other.1.key = key := by
          simp [List.filter_append, hne]
        have hexists : (∃ other ∈ calls ++ [call], other.1.key = key) ↔
            ∃ other ∈ calls, other.1.key = key := by
          simp [or_and_right, exists_or, hne]
        rw [if_neg heq, ih, hfilter]
        simp only [hexists]

theorem reported_counted (calls : List (Counter × ℤ)) (c : Counter) :
    c.reported (counted calls : Metrics Seconds) =
      ((calls.filter fun call ↦ call.1.key = c.key).map Prod.snd).sum := by
  rw [Counter.reported, get?_counted]
  split
  · rfl
  · rename_i hnone
    have hfilter : calls.filter (fun call ↦ call.1.key = c.key) = [] :=
      List.filter_eq_nil_iff.mpr fun call hmem hcall ↦ hnone ⟨call, hmem, of_decide_eq_true hcall⟩
    simp [hfilter]

theorem sum_eq_of_same_iff (h : ∀ call ∈ calls, call.1.key = c.key ↔ c.Same call.1) :
    ((calls.filter fun call ↦ call.1.key = c.key).map Prod.snd).sum = c.sum calls := by
  have hfilter : calls.filter (fun call ↦ call.1.key = c.key) = calls.filter fun call ↦ c.Same call.1 :=
    List.filter_congr fun call hmem ↦ decide_eq_decide.mpr (h call hmem)
  rw [hfilter, Counter.sum]

/-- Its number is its own in every run when nothing else has its text. -/
theorem reported_eq_sum_iff : (∀ calls, c.reported (counted calls : Metrics Seconds) = c.sum calls) ↔
    ∀ d : Counter, d.key = c.key → c.Same d := by
  constructor
  · intro h d hkey
    by_contra hsame
    have hone := h [(d, 1)]
    rw [reported_counted, Counter.sum] at hone
    simp [hkey, hsame] at hone
  · intro h calls
    rw [reported_counted]
    exact sum_eq_of_same_iff fun call _ ↦ ⟨h call.1, fun hsame ↦ (key_of_same hsame).symm⟩

/-- A counter shares its text unless it has no labels, and no metric with a label reads like it. -/
theorem same_of_key_iff : (∀ d : Counter, d.key = c.key → c.Same d) ↔ c.labels.items = [] ∧
    ∀ (metric : Chars) (label : Label), c.metric ≠ metric ++ openBrace :: (rendered label ++ [closeBrace]) := by
  constructor
  · intro h
    have hnil : c.labels.items = [] := by
      obtain ⟨-, hperm⟩ := h ⟨c.key, ∅⟩ (key_of_no_labels rfl)
      exact hperm.eq_nil
    refine ⟨hnil, fun metric label hmetric ↦ ?_⟩
    have hone : (⟨[label], List.nodup_singleton _⟩ : Dict Chars Chars).items ≠ [] := List.cons_ne_nil _ _
    obtain ⟨-, hperm⟩ := h ⟨metric, ⟨[label], List.nodup_singleton _⟩⟩ (by
      rw [key_of_no_labels hnil, hmetric, key_of_labels hone]
      simp [inner, sorted])
    rw [hnil] at hperm
    exact absurd hperm.nil_eq (List.cons_ne_nil _ _).symm
  · rintro ⟨hnil, hmetric⟩ d hkey
    rw [key_of_no_labels hnil] at hkey
    by_cases hdnil : d.labels.items = []
    · rw [key_of_no_labels hdnil] at hkey
      exact ⟨hkey.symm, by rw [hnil, hdnil]⟩
    · obtain ⟨label, hlabel⟩ := exists_rendered hdnil
      exact absurd (hkey.symm.trans hlabel) (hmetric _ _)

/-- Plain counters have a text each, and each the sum of its own deltas; and a counter is sure of
its sum, whatever else is counted, exactly when it is alone with its text. -/
theorem counter_perLabelSet :
    (∀ calls : List (Counter × ℤ), (∀ call ∈ calls, call.1.Plain) → ∀ call ∈ calls,
      (∀ other ∈ calls, call.1.key = other.1.key ↔ call.1.Same other.1) ∧
        (counted calls : Metrics Seconds).counts.get? call.1.key = some (call.1.sum calls)) ∧
    ∀ c : Counter, (∀ calls, c.reported (counted calls : Metrics Seconds) = c.sum calls) ↔
      c.labels.items = [] ∧
        ∀ (metric : Chars) (label : Label), c.metric ≠ metric ++ openBrace :: (rendered label ++ [closeBrace]) := by
  refine ⟨fun calls hplain call hmem ↦ ?_, fun c ↦ reported_eq_sum_iff.trans same_of_key_iff⟩
  have hsame : ∀ other ∈ calls, call.1.key = other.1.key ↔ call.1.Same other.1 :=
    fun other hother ↦ ⟨same_of_key (hplain call hmem) (hplain other hother), key_of_same⟩
  refine ⟨hsame, ?_⟩
  rw [get?_counted, if_pos ⟨call, hmem, rfl⟩,
    sum_eq_of_same_iff fun other hother ↦ eq_comm.trans (hsame other hother)]

/-- Two queues have a number each. -/
theorem counter_perLabelSet_queues :
    let ofQueue (queue : Chars) : Counter := ⟨['s', 'e', 'n', 't'], ⟨[(['q'], queue)], List.nodup_singleton _⟩⟩
    let metrics : Metrics ℕ := counted [(ofQueue ['a'], 1), (ofQueue ['b'], 2), (ofQueue ['a'], 3)]
    metrics.counts.get? (ofQueue ['a']).key = some 4 ∧ metrics.counts.get? (ofQueue ['b']).key = some 2 := by
  intro ofQueue metrics
  have hown := (@counter_perLabelSet ℕ).1 [(ofQueue ['a'], 1), (ofQueue ['b'], 2), (ofQueue ['a'], 3)]
    (by decide)
  exact ⟨(hown (ofQueue ['a'], 1) (by simp)).2, (hown (ofQueue ['b'], 2) (by simp)).2⟩

/-- A value with a quote in it reads like two labels, and both counters get what either is given. -/
theorem counter_sharesKey :
    let one : Counter := ⟨['m'], ⟨[(['a'], ['x', quote, ',', 'b', '=', quote, 'y'])], List.nodup_singleton _⟩⟩
    let two : Counter := ⟨['m'], ⟨[(['a'], ['x']), (['b'], ['y'])], by decide⟩⟩
    let metrics : Metrics ℕ := counted [(one, 1), (two, 2)]
    ¬one.Same two ∧ one.key = two.key ∧ one.reported metrics = 3 ∧ two.reported metrics = 3 ∧
      one.sum [(one, 1), (two, 2)] = 1 ∧ two.sum [(one, 1), (two, 2)] = 2 := by
  decide

end Telemetry

end AcemqAmqp
