import Mathlib.Data.List.Nodup

/-!
# Dictionaries that remember insertion order

Assigning to a key that is present replaces its value where it stands, and
assigning to a new key puts it at the end.  Keys occur once, which the
structure carries, so a dictionary is read through `get?` or through its items
without choosing between them.
-/

structure Dict (α β : Type) where
  items : List (α × β)
  nodup : (items.map Prod.fst).Nodup

namespace Dict

variable {α β : Type} [DecidableEq α] {d : Dict α β} {k k' : α} {v v' : β}

instance [DecidableEq β] : DecidableEq (Dict α β) := fun d d' ↦
  decidable_of_iff (d.items = d'.items) (by cases d; cases d'; simp)

def empty : Dict α β := ⟨[], List.nodup_nil⟩

instance : EmptyCollection (Dict α β) := ⟨empty⟩

instance : Inhabited (Dict α β) := ⟨∅⟩

def keys (d : Dict α β) : List α := d.items.map Prod.fst

def values (d : Dict α β) : List β := d.items.map Prod.snd

def get? (d : Dict α β) (k : α) : Option β := d.items.lookup k

instance : Membership α (Dict α β) := ⟨fun d k ↦ k ∈ d.keys⟩

instance : Decidable (k ∈ d) := inferInstanceAs (Decidable (k ∈ d.items.map Prod.fst))

theorem mem_items_iff : (k, v) ∈ d.items ↔ d.get? k = some v := by
  obtain ⟨items, nodup⟩ := d
  simp only [get?]
  induction items with
  | nil => simp
  | cons p items ih =>
      obtain ⟨k₀, v₀⟩ := p
      simp only [List.map_cons, List.nodup_cons] at nodup
      have hrest := ih nodup.2
      by_cases hk : k = k₀
      · subst hk
        have hnot : (k, v) ∉ items := fun hmem ↦ nodup.1 (List.mem_map_of_mem hmem)
        simp [hnot, eq_comm]
      · have hbeq : (k == k₀) = false := by simpa using hk
        simp [List.lookup_cons, hbeq, hk, hrest]

omit [DecidableEq α] in
theorem lookup_map_snd {γ : Type} [BEq α] (f : β → γ) (items : List (α × β)) :
    (items.map fun item ↦ (item.1, f item.2)).lookup k = (items.lookup k).map f := by
  induction items with
  | nil => rfl
  | cons item items ih =>
      rw [List.map_cons, List.lookup_cons, List.lookup_cons, ih]
      split <;> rfl

theorem mem_iff_get? : k ∈ d ↔ ∃ v, d.get? k = some v := by
  change k ∈ d.items.map Prod.fst ↔ _
  simp only [List.mem_map, Prod.exists, exists_and_right, exists_eq_right, mem_items_iff]

theorem get?_eq_none_iff : d.get? k = none ↔ k ∉ d := by
  rw [mem_iff_get?, Option.eq_none_iff_forall_ne_some, not_exists]

omit [DecidableEq α] in
@[simp] theorem items_empty : (∅ : Dict α β).items = [] := rfl

@[simp] theorem get?_empty : (∅ : Dict α β).get? k = none := rfl

/-- `d[k] = v`. -/
def set (d : Dict α β) (k : α) (v : β) : Dict α β where
  items := if k ∈ d then d.items.map fun p ↦ if p.1 = k then (k, v) else p
    else d.items ++ [(k, v)]
  nodup := by
    split
    · have hkeys : (d.items.map fun p ↦ if p.1 = k then (k, v) else p).map Prod.fst =
          d.items.map Prod.fst := by
        rw [List.map_map]
        refine List.map_congr_left fun p _ ↦ ?_
        by_cases hp : p.1 = k <;> simp [hp]
      rw [hkeys]
      exact d.nodup
    · rename_i hk
      rw [List.map_append, List.nodup_append]
      refine ⟨d.nodup, by simp, ?_⟩
      intro a ha b hb hab
      obtain rfl : b = k := by simpa using hb
      exact hk (hab ▸ ha)

/-- `d.setdefault(k, v)`, keeping the dictionary and not the answer. -/
def setDefault (d : Dict α β) (k : α) (v : β) : Dict α β := if k ∈ d then d else d.set k v

/-- The items whose key satisfies `p`, in their order. -/
def filter (d : Dict α β) (p : α → Bool) : Dict α β where
  items := d.items.filter fun item ↦ p item.1
  nodup := d.nodup.sublist (List.filter_sublist.map _)

/-- What is left once items have been deleted from the front, up to the first that `p` spares. -/
def dropWhile (d : Dict α β) (p : α × β → Bool) : Dict α β where
  items := d.items.dropWhile p
  nodup := d.nodup.sublist ((List.dropWhile_sublist p).map _)

/-- `d.pop(k, None)`, keeping the dictionary and not the answer. -/
def erase (d : Dict α β) (k : α) : Dict α β := d.filter (· ≠ k)

/-- `d.update(d')`. -/
def update (d d' : Dict α β) : Dict α β := d'.items.foldl (fun acc p ↦ acc.set p.1 p.2) d

def ofList (items : List (α × β)) : Dict α β := items.foldl (fun acc p ↦ acc.set p.1 p.2) ∅

theorem get?_set : (d.set k v).get? k' = if k' = k then some v else d.get? k' := by
  apply Option.ext
  intro w
  rw [← mem_items_iff]
  by_cases hk : k ∈ d
  · simp only [set, if_pos hk, List.mem_map]
    obtain ⟨v₀, hv₀⟩ := mem_iff_get?.mp hk
    constructor
    · rintro ⟨⟨a, b⟩, hmem, hp⟩
      by_cases ha : a = k
      · obtain ⟨rfl, rfl⟩ : k = k' ∧ v = w := by simpa [ha] using hp
        simp
      · obtain ⟨rfl, rfl⟩ : a = k' ∧ b = w := by simpa [ha] using hp
        simpa [ha, mem_items_iff] using hmem
    · intro hget
      by_cases hk' : k' = k
      · obtain rfl : v = w := by simpa [hk'] using hget
        exact ⟨(k, v₀), mem_items_iff.mpr hv₀, by simp [hk']⟩
      · exact ⟨(k', w), mem_items_iff.mpr (by simpa [hk'] using hget), by simp [hk']⟩
  · simp only [set, if_neg hk, List.mem_append, mem_items_iff, List.mem_singleton,
      Prod.mk.injEq]
    have hnone := get?_eq_none_iff.mpr hk
    by_cases hk' : k' = k
    · subst hk'
      simp [hnone, eq_comm]
    · simp [hk']

@[simp] theorem get?_set_self : (d.set k v).get? k = some v := by simp [get?_set]

theorem get?_set_ne (h : k' ≠ k) : (d.set k v).get? k' = d.get? k' := by simp [get?_set, h]

@[simp] theorem get?_filter {p : α → Bool} :
    (d.filter p).get? k = if p k then d.get? k else none := by
  apply Option.ext
  intro w
  rw [← mem_items_iff]
  by_cases hp : p k <;> simp [filter, mem_items_iff, hp]

@[simp] theorem get?_erase : (d.erase k).get? k' = if k' = k then none else d.get? k' := by
  by_cases h : k' = k <;> simp [erase, h]

theorem get?_setDefault :
    (d.setDefault k v).get? k' = if k' = k then some ((d.get? k).getD v) else d.get? k' := by
  by_cases hk : k ∈ d
  · obtain ⟨v₀, hv₀⟩ := mem_iff_get?.mp hk
    by_cases hk' : k' = k <;> simp [setDefault, hk, hk', hv₀]
  · simp [setDefault, hk, get?_set, get?_eq_none_iff.mpr hk]

theorem get?_foldl_set (items : List (α × β)) (hitems : (items.map Prod.fst).Nodup) :
    (items.foldl (fun acc p ↦ acc.set p.1 p.2) d).get? k =
      (items.lookup k).or (d.get? k) := by
  induction items generalizing d with
  | nil => simp
  | cons p items ih =>
      obtain ⟨k₀, v₀⟩ := p
      simp only [List.map_cons, List.nodup_cons] at hitems
      rw [List.foldl_cons, ih hitems.2, get?_set, List.lookup_cons]
      by_cases hk : k = k₀
      · subst hk
        have hnone : items.lookup k = none := by
          refine List.lookup_eq_none_iff.mpr fun p hp ↦ ?_
          have hne : k ≠ p.1 := fun h ↦ hitems.1 (h ▸ List.mem_map_of_mem hp)
          simpa using hne
        simp [hnone]
      · have hbeq : (k == k₀) = false := by simpa using hk
        simp [hk, hbeq]

theorem get?_update {d' : Dict α β} :
    (d.update d').get? k = (d'.get? k).or (d.get? k) :=
  get?_foldl_set _ d'.nodup

theorem items_set_of_notMem (h : k ∉ d) : (d.set k v).items = d.items ++ [(k, v)] := by
  simp [set, h]

/-- A literal whose keys are distinct is its list of items. -/
theorem items_ofList {items : List (α × β)} (h : (items.map Prod.fst).Nodup) :
    (ofList items).items = items := by
  have hfold : ∀ (rest : List (α × β)) (d : Dict α β),
      ((d.items ++ rest).map Prod.fst).Nodup →
      (rest.foldl (fun acc p ↦ acc.set p.1 p.2) d).items = d.items ++ rest := by
    intro rest
    induction rest with
    | nil => simp
    | cons p rest ih =>
        intro d hd
        have hk : p.1 ∉ d := by
          intro hmem
          rw [List.map_append, List.nodup_append] at hd
          exact hd.2.2 p.1 hmem p.1 (by simp) rfl
        have hitems := items_set_of_notMem (v := p.2) hk
        rw [List.foldl_cons, ih, hitems]
        · simp
        · rw [hitems]
          simpa using hd
  simpa [ofList] using hfold items ∅ (by simpa using h)

/-- What is made of some of the items, under the keys they have. -/
theorem get?_ofList_filterMap {γ : Type} {f : α × β → Option (α × γ)}
    (hf : ∀ item item', f item = some item' → item'.1 = item.1) {w : γ} (h : d.get? k = some v)
    (hw : f (k, v) = some (k, w)) :
    (ofList (d.items.filterMap f)).get? k = some w := by
  have hkeys : ((d.items.filterMap f).map Prod.fst).Sublist (d.items.map Prod.fst) := by
    induction d.items with
    | nil => exact .refl []
    | cons item items ih =>
        rw [List.filterMap_cons]
        cases hitem : f item with
        | none => exact ih.cons _
        | some item' =>
            rw [List.map_cons, List.map_cons, hf item item' hitem]
            exact ih.cons_cons _
  rw [← mem_items_iff, items_ofList (hkeys.nodup d.nodup)]
  exact List.mem_filterMap.mpr ⟨_, mem_items_iff.mpr h, hw⟩
/-! ## What is left out -/

omit [DecidableEq α] in
theorem eq_of_items {d d' : Dict α β} (h : d.items = d'.items) : d = d' := by
  cases d
  cases d'
  simpa using h

theorem eq_empty_of_get? (h : ∀ k, d.get? k = none) : d = ∅ := by
  apply eq_of_items
  refine List.eq_nil_iff_forall_not_mem.mpr fun p hp ↦ ?_
  cases (h p.1).symm.trans (mem_items_iff.mp hp)

theorem items_set_of_mem (h : k ∈ d) :
    (d.set k v).items = d.items.map fun p ↦ if p.1 = k then (k, v) else p := by
  simp [set, h]

@[simp] theorem set_set (d : Dict α β) (k : α) (v v' : β) : (d.set k v).set k v' = d.set k v' := by
  apply eq_of_items
  rw [items_set_of_mem (mem_iff_get?.mpr ⟨v, get?_set_self⟩)]
  by_cases hk : k ∈ d
  · rw [items_set_of_mem hk, items_set_of_mem hk, List.map_map]
    refine List.map_congr_left fun p _ ↦ ?_
    by_cases hp : p.1 = k <;> simp [hp]
  · have hfresh : ∀ p ∈ d.items, p.1 ≠ k := fun p hp heq ↦ hk (heq ▸ List.mem_map_of_mem hp)
    rw [items_set_of_notMem hk, items_set_of_notMem hk, List.map_append, List.map_singleton, if_pos rfl]
    congr 1
    exact (List.map_congr_left fun p hp ↦ if_neg (hfresh p hp)).trans (List.map_id _)

variable {p : α → Bool}

theorem mem_filter : k ∈ d.filter p ↔ p k = true ∧ k ∈ d := by
  rw [mem_iff_get?, mem_iff_get?, get?_filter]
  by_cases hp : p k <;> simp [hp]

/-- Assigning to a name that is left out changes nothing. -/
theorem filter_set_of_neg (h : p k = false) : (d.set k v).filter p = d.filter p := by
  apply eq_of_items
  by_cases hk : k ∈ d
  · have hrest : ∀ items : List (α × β),
        (items.map fun item ↦ if item.1 = k then (k, v) else item).filter (fun item ↦ p item.1) =
          items.filter fun item ↦ p item.1 := by
      intro items
      induction items with
      | nil => rfl
      | cons item items ih =>
          by_cases hitem : item.1 = k
          · simp [hitem, h, ih]
          · simp [hitem, List.filter_cons, ih]
    simp only [filter, set, if_pos hk]
    exact hrest d.items
  · simp [filter, set, hk, h]

theorem filter_set_of_pos (h : p k = true) : (d.set k v).filter p = (d.filter p).set k v := by
  apply eq_of_items
  by_cases hk : k ∈ d
  · have hmem : k ∈ d.filter p := mem_filter.mpr ⟨h, hk⟩
    have hrest : ∀ items : List (α × β),
        (items.map fun item ↦ if item.1 = k then (k, v) else item).filter (fun item ↦ p item.1) =
          (items.filter fun item ↦ p item.1).map fun item ↦ if item.1 = k then (k, v) else item := by
      intro items
      induction items with
      | nil => rfl
      | cons item items ih =>
          by_cases hitem : item.1 = k
          · simp [hitem, h, ih]
          · by_cases hp : p item.1 <;> simp [hitem, hp, ih]
    simp only [set, if_pos hk, if_pos hmem]
    exact hrest d.items
  · have hmem : k ∉ d.filter p := fun hmem ↦ hk (mem_filter.mp hmem).2
    rw [items_set_of_notMem hmem]
    simp [filter, set, hk, h]

/-- What an update writes under names that are left out is left out. -/
theorem filter_update_of_neg {d' : Dict α β} (h : ∀ k ∈ d', p k = false) :
    (d.update d').filter p = d.filter p := by
  have hfold : ∀ (items : List (α × β)) (d : Dict α β), (∀ item ∈ items, p item.1 = false) →
      (items.foldl (fun acc item ↦ acc.set item.1 item.2) d).filter p = d.filter p := by
    intro items
    induction items with
    | nil => exact fun _ _ ↦ rfl
    | cons item items ih =>
        intro d hitems
        rw [List.forall_mem_cons] at hitems
        rw [List.foldl_cons, ih _ hitems.2, filter_set_of_neg hitems.1]
  exact hfold d'.items d fun item hitem ↦ h item.1 (List.mem_map_of_mem hitem)

theorem filter_update_of_pos {d' : Dict α β} (h : ∀ k ∈ d', p k = true) :
    (d.update d').filter p = (d.filter p).update d' := by
  have hfold : ∀ (items : List (α × β)) (d : Dict α β), (∀ item ∈ items, p item.1 = true) →
      (items.foldl (fun acc item ↦ acc.set item.1 item.2) d).filter p =
        items.foldl (fun acc item ↦ acc.set item.1 item.2) (d.filter p) := by
    intro items
    induction items with
    | nil => exact fun _ _ ↦ rfl
    | cons item items ih =>
        intro d hitems
        rw [List.forall_mem_cons] at hitems
        rw [List.foldl_cons, ih _ hitems.2, filter_set_of_pos hitems.1, List.foldl_cons]
  exact hfold d'.items d fun item hitem ↦ h item.1 (List.mem_map_of_mem hitem)

omit [DecidableEq α] in
theorem filter_eq_self (h : ∀ k ∈ d, p k = true) : d.filter p = d :=
  eq_of_items <| List.filter_eq_self.mpr fun item hitem ↦ h item.1 (List.mem_map_of_mem hitem)

omit [DecidableEq α] in
theorem filter_eq_empty (h : ∀ k ∈ d, p k = false) : d.filter p = ∅ :=
  eq_of_items <| List.filter_eq_nil_iff.mpr fun item hitem ↦ by
    simp [h item.1 (List.mem_map_of_mem hitem)]

@[simp] theorem ofList_items (d : Dict α β) : ofList d.items = d := by
  exact eq_of_items (items_ofList d.nodup)

@[simp] theorem empty_update (d : Dict α β) : (∅ : Dict α β).update d = d := ofList_items d

theorem mem_set : k' ∈ d.set k v ↔ k' = k ∨ k' ∈ d := by
  rw [mem_iff_get?, mem_iff_get?, get?_set]
  by_cases hk : k' = k <;> simp [hk]

theorem mem_erase : k' ∈ d.erase k ↔ k' ≠ k ∧ k' ∈ d := by
  rw [mem_iff_get?, mem_iff_get?, get?_erase]
  by_cases hk : k' = k <;> simp [hk]

end Dict
