import Mathlib.Data.List.Basic
import Mathlib.Data.List.Perm.Basic
import Mathlib.Order.Basic

/-!
# Label sets in the text exposition format

The labels of a sample are written between braces as `name="value"`, with commas
between them.  In a value a backslash, a quote and a line feed are escaped, and a
reader refuses them as they are.
-/

namespace Exposition

def quote : Char := Char.ofNat 34

def backslash : Char := Char.ofNat 92

def newline : Char := Char.ofNat 10

def openBrace : Char := Char.ofNat 123

def closeBrace : Char := Char.ofNat 125

/-- One label: its name and its value. -/
abbrev Label := List Char × List Char

/-- The characters that cannot stand in a value as they are. -/
def Special (c : Char) : Prop := c = backslash ∨ c = quote ∨ c = newline

instance (c : Char) : Decidable (Special c) := inferInstanceAs (Decidable (_ ∨ _ ∨ _))

def escapeChar (c : Char) : List Char :=
  if c = newline then [backslash, 'n'] else if Special c then [backslash, c] else [c]

/-- A value as it is written. -/
def escape (value : List Char) : List Char := value.flatMap escapeChar

def isNameStart (c : Char) : Bool := c.isAlpha || c = '_'

def isNameChar (c : Char) : Bool := c.isAlphanum || c = '_'

/-- What the name of a label may be. -/
def ValidName (name : List Char) : Prop :=
  (∃ c ∈ name.head?, isNameStart c = true) ∧ ∀ c ∈ name, isNameChar c = true

instance (name : List Char) : Decidable (ValidName name) :=
  decidable_of_iff ((name.head?.any isNameStart && name.all isNameChar) = true) (by
    rw [Bool.and_eq_true, Option.any_eq_true, List.all_eq_true]
    exact Iff.rfl)

def writeLabel (label : Label) : List Char := label.1 ++ ['=', quote] ++ escape label.2 ++ [quote]

/-- Labels as they are written, between their braces. -/
def writeLabels (labels : List Label) : List Char :=
  [openBrace] ++ [','].intercalate (labels.map writeLabel) ++ [closeBrace]

/-! ## Reading -/

def unescape? (c : Char) : Option Char :=
  if c = 'n' then some newline else if c = backslash ∨ c = quote then some c else none

/-- A value up to the quote that ends it, and what follows. -/
def readValue : List Char → Option (List Char × List Char)
  | [] => none
  | c :: text =>
      if c = quote then some ([], text)
      else if c = newline then none
      else if c = backslash then
        match text with
        | [] => none
        | e :: text => do
            let c ← unescape? e
            let (value, rest) ← readValue text
            return (c :: value, rest)
      else do
        let (value, rest) ← readValue text
        return (c :: value, rest)

/-- One label, and what follows it. -/
def readLabel (text : List Char) : Option (Label × List Char) :=
  let name := text.takeWhile isNameChar
  if ValidName name ∧ (text.dropWhile isNameChar).take 2 = ['=', quote] then
    (readValue ((text.dropWhile isNameChar).drop 2)).map fun (value, rest) ↦ ((name, value), rest)
  else none

/-! ## Values -/

section values

variable {value text rest : List Char} {c : Char}

theorem escapeChar_of_not_special (h : ¬Special c) : escapeChar c = [c] := by
  rw [escapeChar, if_neg fun hc ↦ h (.inr (.inr hc)), if_neg h]

theorem escape_eq_self (h : ∀ c ∈ value, ¬Special c) : escape value = value := by
  induction value with
  | nil => rfl
  | cons c value ih =>
      rw [List.forall_mem_cons] at h
      rw [escape, List.flatMap_cons, escapeChar_of_not_special h.1]
      exact congrArg (c :: ·) (ih h.2)

theorem length_escape_ge (value : List Char) : value.length ≤ (escape value).length := by
  induction value with
  | nil => exact Nat.le_refl _
  | cons c value ih =>
      have hchar : 1 ≤ (escapeChar c).length := by
        rw [escapeChar]
        split
        · decide
        · split <;> simp
      rw [escape, List.flatMap_cons, List.length_append, List.length_cons, Nat.add_comm]
      exact Nat.add_le_add hchar ih

/-- Escaping keeps the length of the values it leaves alone, and of no others. -/
theorem not_special_of_length_escape (h : (escape value).length = value.length) :
    ∀ c ∈ value, ¬Special c := by
  induction value with
  | nil => simp
  | cons c value ih =>
      have hge := length_escape_ge value
      rw [escape, List.flatMap_cons, List.length_append, List.length_cons] at h
      rw [escape] at hge ih
      rw [List.forall_mem_cons]
      by_cases hc : Special c
      · have htwo : (escapeChar c).length = 2 := by
          rw [escapeChar]
          split
          · rfl
          · rfl
        omega
      · rw [escapeChar_of_not_special hc, List.length_singleton] at h
        exact ⟨hc, ih (by omega)⟩

theorem readValue_quote (text : List Char) : readValue (quote :: text) = some ([], text) := by
  rw [readValue.eq_def]
  exact if_pos rfl

theorem readValue_backslash (c : Char) (text : List Char) :
    readValue (backslash :: c :: text) = (unescape? c).bind fun c ↦
      (readValue text).map fun read ↦ (c :: read.1, read.2) := by
  rw [readValue.eq_def]
  simp only [if_neg (by decide : backslash ≠ quote), if_neg (by decide : backslash ≠ newline), if_true]
  cases unescape? c with
  | none => rfl
  | some c => cases readValue text <;> rfl

theorem readValue_plain (h : ¬Special c) (text : List Char) :
    readValue (c :: text) = (readValue text).map fun read ↦ (c :: read.1, read.2) := by
  obtain ⟨hbackslash, hquote, hnewline⟩ : c ≠ backslash ∧ c ≠ quote ∧ c ≠ newline := by
    simpa only [Special, not_or] using h
  rw [readValue.eq_def]
  simp only [if_neg hquote, if_neg hnewline, if_neg hbackslash]
  cases readValue text <;> rfl

theorem escapeChar_of_special (h : Special c) :
    ∃ e, escapeChar c = [backslash, e] ∧ unescape? e = some c := by
  obtain rfl | rfl | rfl := h
  · exact ⟨backslash, rfl, rfl⟩
  · exact ⟨quote, rfl, rfl⟩
  · exact ⟨'n', rfl, rfl⟩

theorem readValue_escape (value rest : List Char) :
    readValue (escape value ++ quote :: rest) = some (value, rest) := by
  induction value with
  | nil => exact readValue_quote rest
  | cons c value ih =>
      have hsplit : escape (c :: value) ++ quote :: rest = escapeChar c ++ (escape value ++ quote :: rest) := by
        rw [escape, List.flatMap_cons, List.append_assoc]
        rfl
      rw [hsplit]
      by_cases hspecial : Special c
      · obtain ⟨e, he, hread⟩ := escapeChar_of_special hspecial
        rw [he, List.cons_append, List.singleton_append, readValue_backslash, hread, ih]
        rfl
      · rw [escapeChar_of_not_special hspecial, List.singleton_append, readValue_plain hspecial, ih]
        rfl

theorem escapeChar_of_unescape {e : Char} (h : unescape? e = some c) : escapeChar c = [backslash, e] := by
  rw [unescape?] at h
  split at h
  · rename_i hn
    rw [← Option.some.inj h, hn]
    rfl
  · split at h
    · rename_i he
      obtain rfl := Option.some.inj h
      obtain rfl | rfl := he
      · rfl
      · rfl
    · cases h

theorem eq_escape_of_readValue (h : readValue text = some (value, rest)) :
    text = escape value ++ quote :: rest := by
  induction hn : text.length using Nat.strongRecOn generalizing text value rest with
  | ind n ih =>
      subst hn
      cases text with
      | nil => cases h
      | cons c text =>
          by_cases hquote : c = quote
          · rw [hquote, readValue_quote] at h
            obtain ⟨rfl, rfl⟩ := Prod.mk.inj (Option.some.inj h)
            rw [hquote]
            rfl
          by_cases hnewline : c = newline
          · rw [hnewline, readValue.eq_def] at h
            cases h
          by_cases hbackslash : c = backslash
          · rw [hbackslash] at h ⊢
            cases text with
            | nil => cases h
            | cons e text =>
                rw [readValue_backslash, Option.bind_eq_some_iff] at h
                obtain ⟨c, hread, hrest⟩ := h
                obtain ⟨⟨value, rest⟩, hvalue, heq⟩ := Option.map_eq_some_iff.mp hrest
                obtain ⟨rfl, rfl⟩ := Prod.mk.inj heq
                have htext := ih text.length (by simp only [List.length_cons]; omega) hvalue rfl
                rw [escape, List.flatMap_cons, escapeChar_of_unescape hread, htext]
                rfl
          · have hplain : ¬Special c := not_or.mpr ⟨hbackslash, not_or.mpr ⟨hquote, hnewline⟩⟩
            rw [readValue_plain hplain] at h
            obtain ⟨⟨value, rest⟩, hvalue, heq⟩ := Option.map_eq_some_iff.mp h
            obtain ⟨rfl, rfl⟩ := Prod.mk.inj heq
            have htext := ih text.length (by simp) hvalue rfl
            rw [escape, List.flatMap_cons, escapeChar_of_not_special hplain, htext]
            rfl

end values

/-! ## Labels -/

section labels

variable {text rest : List Char} {label : Label} {labels : List Label}

theorem readLabel_writeLabel (hname : ValidName label.1) (rest : List Char) :
    readLabel (writeLabel label ++ rest) = some (label, rest) := by
  obtain ⟨name, value⟩ := label
  have hsplit : writeLabel (name, value) ++ rest = name ++ '=' :: quote :: (escape value ++ quote :: rest) := by
    simp [writeLabel]
  have htake : (name ++ '=' :: quote :: (escape value ++ quote :: rest)).takeWhile isNameChar = name := by
    rw [List.takeWhile_append_of_pos hname.2]
    simp [isNameChar]
  have hdrop : (name ++ '=' :: quote :: (escape value ++ quote :: rest)).dropWhile isNameChar =
      '=' :: quote :: (escape value ++ quote :: rest) := by
    rw [List.dropWhile_append_of_pos hname.2]
    simp [isNameChar]
  rw [hsplit, readLabel, htake, hdrop, if_pos ⟨hname, rfl⟩]
  exact congrArg (Option.map _) (readValue_escape value rest)

theorem eq_writeLabel_of_readLabel (h : readLabel text = some (label, rest)) :
    ValidName label.1 ∧ text = writeLabel label ++ rest := by
  rw [readLabel] at h
  split at h
  · rename_i hfront
    obtain ⟨hname, htwo⟩ := hfront
    obtain ⟨⟨value, rest'⟩, hvalue, heq⟩ := Option.map_eq_some_iff.mp h
    obtain ⟨rfl, rfl⟩ := Prod.mk.inj heq
    refine ⟨hname, ?_⟩
    have hafter := List.take_append_drop 2 (text.dropWhile isNameChar)
    rw [htwo, eq_escape_of_readValue hvalue] at hafter
    have hall := List.takeWhile_append_dropWhile (p := isNameChar) (l := text)
    rw [← hafter] at hall
    simpa [writeLabel] using hall.symm
  · cases h

theorem length_lt_of_readLabel (h : readLabel text = some (label, rest)) : rest.length < text.length := by
  rw [(eq_writeLabel_of_readLabel h).2]
  simp [writeLabel]
  omega

end labels

/-- Labels with commas between them, up to the brace that ends the text. -/
def readRest (text : List Char) : Option (List Label) :=
  match h : readLabel text with
  | none => none
  | some (label, rest) =>
      have := length_lt_of_readLabel h
      match rest with
      | [] => none
      | c :: rest =>
          if c = closeBrace ∧ rest = [] then some [label]
          else if c = ',' then (readRest rest).map (label :: ·)
          else none
termination_by text.length
decreasing_by
  simp only [List.length_cons] at this
  omega

/-- The labels of a sample, which may have none. -/
def readLabels (text : List Char) : Option (List Label) :=
  match text with
  | [] => some []
  | c :: rest =>
      if c ≠ openBrace then none else if rest = [closeBrace] then some [] else readRest rest

section reading

variable {text : List Char} {labels : List Label}

theorem writeLabels_cons {label : Label} (labels : List Label) (h : labels ≠ []) :
    [','].intercalate ((label :: labels).map writeLabel) =
      writeLabel label ++ ',' :: [','].intercalate (labels.map writeLabel) := by
  rw [List.map_cons, List.intercalate_cons_of_ne_nil (by simpa using h), List.append_assoc]
  rfl

theorem readRest_of_readLabel {label : Label} {c : Char} {rest : List Char}
    (h : readLabel text = some (label, c :: rest)) :
    readRest text = if c = closeBrace ∧ rest = [] then some [label]
      else if c = ',' then (readRest rest).map (label :: ·) else none := by
  rw [readRest.eq_def]
  split
  · rename_i hnone
    rw [h] at hnone
    cases hnone
  · rename_i hsome
    rw [h] at hsome
    obtain ⟨rfl, rfl⟩ := Prod.mk.inj (Option.some.inj hsome)
    rfl

theorem exists_of_readRest (h : readRest text = some labels) :
    ∃ label c rest, readLabel text = some (label, c :: rest) := by
  rw [readRest.eq_def] at h
  split at h
  · cases h
  · rename_i label rest hlabel
    cases rest with
    | nil => cases h
    | cons c rest => exact ⟨label, c, rest, hlabel⟩

theorem readRest_eq_some_iff :
    readRest text = some labels ↔ labels ≠ [] ∧ (∀ label ∈ labels, ValidName label.1) ∧
      text = [','].intercalate (labels.map writeLabel) ++ [closeBrace] := by
  constructor
  · intro h
    induction hn : text.length using Nat.strongRecOn generalizing text labels with
    | ind n ih =>
        subst hn
        obtain ⟨label, c, rest, hlabel⟩ := exists_of_readRest h
        have hlength := length_lt_of_readLabel hlabel
        obtain ⟨hname, htext⟩ := eq_writeLabel_of_readLabel hlabel
        rw [readRest_of_readLabel hlabel] at h
        split at h
        · rename_i hend
          obtain rfl := Option.some.inj h
          rw [htext, hend.1, hend.2]
          simpa using hname
        split at h
        · rename_i hcomma
          obtain ⟨labels, hrest, rfl⟩ := Option.map_eq_some_iff.mp h
          rw [List.length_cons] at hlength
          obtain ⟨hne, hnames, hwritten⟩ := ih rest.length (by omega) hrest rfl
          refine ⟨List.cons_ne_nil _ _, List.forall_mem_cons.mpr ⟨hname, hnames⟩, ?_⟩
          rw [htext, hcomma, hwritten, writeLabels_cons labels hne, List.append_assoc]
          rfl
        · cases h
  · rintro ⟨hne, hnames, rfl⟩
    induction labels with
    | nil => exact absurd rfl hne
    | cons label labels ih =>
        rw [List.forall_mem_cons] at hnames
        cases labels with
        | nil =>
            rw [List.map_singleton, List.intercalate_singleton,
              readRest_of_readLabel (readLabel_writeLabel hnames.1 _)]
            exact if_pos ⟨rfl, rfl⟩
        | cons next labels =>
            have hcomma : ¬(',' = closeBrace ∧
                [','].intercalate ((next :: labels).map writeLabel) ++ [closeBrace] = []) :=
              fun h ↦ absurd h.1 (by decide)
            rw [writeLabels_cons _ (List.cons_ne_nil _ _), List.append_assoc, List.cons_append,
              readRest_of_readLabel (readLabel_writeLabel hnames.1 _), if_neg hcomma, if_pos rfl,
              ih (List.cons_ne_nil _ _) hnames.2]
            rfl

/-- What is written reads back, and nothing else does. -/
theorem readLabels_eq_some_iff (hne : labels ≠ []) :
    readLabels text = some labels ↔ (∀ label ∈ labels, ValidName label.1) ∧ text = writeLabels labels := by
  cases text with
  | nil =>
      rw [readLabels, writeLabels]
      simp [hne.symm]
  | cons c rest =>
      rw [readLabels, writeLabels]
      by_cases hopen : c = openBrace
      · have hclosed : rest = [closeBrace] →
            ¬((∀ label ∈ labels, ValidName label.1) ∧
              rest = [','].intercalate (labels.map writeLabel) ++ [closeBrace]) := by
          rintro rfl ⟨-, hwritten⟩
          obtain ⟨label, labels, rfl⟩ := List.exists_cons_of_ne_nil hne
          have hlength := congrArg List.length hwritten
          cases labels with
          | nil =>
              simp [writeLabel] at hlength
              omega
          | cons next labels =>
              rw [writeLabels_cons _ (List.cons_ne_nil _ _)] at hlength
              simp at hlength
              omega
        rw [if_neg (not_not.mpr hopen), hopen, List.singleton_append, List.cons_append, List.cons_inj_right]
        by_cases hnone : rest = [closeBrace]
        · rw [if_pos hnone]
          refine iff_of_false ?_ (hclosed hnone)
          exact fun h ↦ hne (Option.some.inj h).symm
        · rw [if_neg hnone, readRest_eq_some_iff]
          simp [hne]
      · rw [if_pos hopen]
        simp [hopen]

theorem mem_intercalate_comma {c : Char} {parts : List (List Char)} (h : c ∈ [','].intercalate parts) :
    c = ',' ∨ ∃ part ∈ parts, c ∈ part := by
  induction parts with
  | nil => cases h
  | cons part parts ih =>
      cases parts with
      | nil =>
          rw [List.intercalate_singleton] at h
          exact .inr ⟨part, List.mem_singleton_self _, h⟩
      | cons next parts =>
          rw [List.intercalate_cons_of_ne_nil (List.cons_ne_nil _ _), List.mem_append, List.mem_append] at h
          obtain (h | h) | h := h
          · exact .inr ⟨part, List.mem_cons_self, h⟩
          · exact .inl (List.mem_singleton.mp h)
          · obtain hcomma | ⟨other, hother, hc⟩ := ih h
            · exact .inl hcomma
            · exact .inr ⟨other, List.mem_cons_of_mem _ hother, hc⟩

theorem newline_notMem_escape (value : List Char) : newline ∉ escape value := by
  intro hmem
  obtain ⟨c, _, hc⟩ := List.mem_flatMap.mp hmem
  by_cases hspecial : Special c
  · obtain ⟨e, he, hread⟩ := escapeChar_of_special hspecial
    rw [he, List.mem_cons, List.mem_singleton] at hc
    obtain hc | rfl := hc
    · exact absurd hc (by decide)
    · cases hread
  · rw [escapeChar_of_not_special hspecial, List.mem_singleton] at hc
    exact hspecial (.inr (.inr hc.symm))

/-- Labels are written on one line. -/
theorem newline_notMem_writeLabels (hnames : ∀ label ∈ labels, ValidName label.1) :
    newline ∉ writeLabels labels := by
  rw [writeLabels, List.mem_append, List.mem_append, not_or, not_or]
  refine ⟨⟨by decide, fun hmem ↦ ?_⟩, by decide⟩
  obtain hcomma | ⟨part, hpart, hnewline⟩ := mem_intercalate_comma hmem
  · exact absurd hcomma (by decide)
  obtain ⟨label, hlabel, rfl⟩ := List.mem_map.mp hpart
  simp only [writeLabel, List.mem_append, List.mem_cons, List.not_mem_nil, or_false] at hnewline
  obtain ((hname | heq | hquote) | hvalue) | hquote := hnewline
  · exact absurd ((hnames label hlabel).2 _ hname) (by decide)
  · exact absurd heq (by decide)
  · exact absurd hquote (by decide)
  · exact newline_notMem_escape _ hvalue
  · exact absurd hquote (by decide)

end reading

end Exposition
