import AcemqAmqp.Core.Failure
import AcemqAmqp.Foundations.Dict

/-!
# The idempotency store that forgets from the front

`InMemoryIdempotencyStore`: a dictionary in which a key stands with the time it
was claimed and whether the claim became a fact.  A sweep deletes from the
front, and stops at the first key that is still inside the window.
-/

namespace AcemqAmqp

namespace Idempotency

/-- What a store found when it was asked to claim a message. -/
inductive Claim
  | claimed
  | duplicate
  | inProgress
  deriving DecidableEq

structure InMemoryIdempotencyStore where
  ttl : Duration
  positive : 0 < ttl
  seen : Dict String (Instant × Bool)

/-- `now - ttl` is a `datetime`. -/
def Reaches (ttl : Duration) (now : Instant) : Prop := Instant.min ≤ now - ttl ∧ now - ttl ≤ Instant.max

instance (ttl : Duration) (now : Instant) : Decidable (Reaches ttl now) := inferInstanceAs (Decidable (_ ∧ _))

namespace InMemoryIdempotencyStore

variable (store : InMemoryIdempotencyStore) (now : Instant) (key : String)

/-- `_sweep`. -/
def sweep : Except Failure InMemoryIdempotencyStore :=
  if Reaches store.ttl now then
    let cutoff := now - store.ttl
    .ok { store with seen := store.seen.dropWhile fun item ↦ item.2.1 ≤ cutoff }
  else .error ⟨.exception, "OverflowError", "date value out of range"⟩

/-- The answer, and the store as the call leaves it. -/
def claim : Except Failure Claim × InMemoryIdempotencyStore :=
  match store.sweep now with
  | .error failure => (.error failure, store)
  | .ok store =>
      match store.seen.get? key with
      | none => (.ok .claimed, { store with seen := store.seen.set key (now, false) })
      | some held => (.ok (if held.2 then .duplicate else .inProgress), store)

def confirm : InMemoryIdempotencyStore :=
  match store.seen.get? key with
  | none => store
  | some held => { store with seen := store.seen.set key (held.1, true) }

def forget : InMemoryIdempotencyStore := { store with seen := store.seen.erase key }

end InMemoryIdempotencyStore

open InMemoryIdempotencyStore

/-- A call that was made, with its answer. -/
inductive Event
  | claim (now : Instant) (key : String) (answer : Except Failure Claim)
  | confirm (key : String)
  | forget (key : String)

/-- Any calls, at times that do not decrease. -/
inductive Runs (first : InMemoryIdempotencyStore) : Instant → List Event → InMemoryIdempotencyStore → Prop
  | start (last : Instant) : Runs first last [] first
  | claim {last : Instant} {history : List Event} {store : InMemoryIdempotencyStore} {now : Instant} {key : String} :
      Runs first last history store → last ≤ now →
      Runs first now (history ++ [.claim now key (store.claim now key).1]) (store.claim now key).2
  | confirm {last : Instant} {history : List Event} {store : InMemoryIdempotencyStore} {key : String} :
      Runs first last history store → Runs first last (history ++ [.confirm key]) (store.confirm key)
  | forget {last : Instant} {history : List Event} {store : InMemoryIdempotencyStore} {key : String} :
      Runs first last history store → Runs first last (history ++ [.forget key]) (store.forget key)

/-! ## What the history says of a key -/

/-- The key was claimed then, and it has not been forgotten since. -/
def Since (history : List Event) (key : String) (then_ : Instant) (after : List Event) : Prop :=
  (∃ before, history = before ++ .claim then_ key (.ok .claimed) :: after) ∧ .forget key ∉ after

section histories

variable {history after : List Event} {event : Event} {key : String} {then_ : Instant}

theorem since_snoc : Since (history ++ [event]) key then_ after ↔
    (after = [] ∧ event = .claim then_ key (.ok .claimed)) ∨
      ∃ earlier, after = earlier ++ [event] ∧ event ≠ .forget key ∧ Since history key then_ earlier := by
  constructor
  · rintro ⟨⟨before, hsplit⟩, hforget⟩
    rcases List.eq_nil_or_concat after with rfl | ⟨earlier, last, rfl⟩
    · obtain ⟨-, hevent⟩ := List.append_inj' hsplit rfl
      exact .inl ⟨rfl, List.head_eq_of_cons_eq hevent⟩
    · rw [List.concat_eq_append, ← List.cons_append, ← List.append_assoc] at hsplit
      obtain ⟨hhistory, hevent⟩ := List.append_inj' hsplit rfl
      obtain rfl := List.head_eq_of_cons_eq hevent
      rw [List.concat_eq_append] at hforget ⊢
      refine .inr ⟨earlier, rfl, ?_, ⟨before, hhistory⟩, fun hmem ↦ hforget (List.mem_append_left _ hmem)⟩
      rintro rfl
      exact hforget (List.mem_append_right _ List.mem_cons_self)
  · rintro (⟨rfl, rfl⟩ | ⟨earlier, rfl, hevent, ⟨before, rfl⟩, hforget⟩)
    · exact ⟨⟨history, rfl⟩, List.not_mem_nil⟩
    · refine ⟨⟨before, by simp⟩, fun hmem ↦ ?_⟩
      rcases List.mem_append.mp hmem with hmem | hmem
      · exact hforget hmem
      · exact hevent (List.mem_singleton.mp hmem).symm

end histories

/-! ## The order of the dictionary is the order of the claims -/

/-- Keys stand in the order they were claimed in, each with what the history says of it, and
no claim that is still inside the window is missing. -/
structure Kept (store : InMemoryIdempotencyStore) (history : List Event) (last : Instant) : Prop where
  ordered : store.seen.items.Pairwise fun item item' ↦ item.2.1 ≤ item'.2.1
  past : ∀ item ∈ store.seen.items, item.2.1 ≤ last
  recorded : ∀ key held, store.seen.get? key = some held →
    ∃ after, Since history key held.1 after ∧ (held.2 = true ↔ .confirm key ∈ after)
  present : ∀ key then_ after, Since history key then_ after → last - store.ttl < then_ →
    ∃ confirmed, store.seen.get? key = some (then_, confirmed) ∧ (confirmed = true ↔ .confirm key ∈ after)

/-- In a list that is in order, what is deleted from the front is all that is due. -/
theorem mem_dropWhile {items : List (String × Instant × Bool)} {cutoff : Instant} {item : String × Instant × Bool}
    (hordered : items.Pairwise fun item item' ↦ item.2.1 ≤ item'.2.1) :
    item ∈ items.dropWhile (fun item ↦ item.2.1 ≤ cutoff) ↔ item ∈ items ∧ cutoff < item.2.1 := by
  induction items with
  | nil => simp
  | cons first rest ih =>
      obtain ⟨hfirst, hrest⟩ := List.pairwise_cons.mp hordered
      by_cases hdue : first.2.1 ≤ cutoff
      · rw [List.dropWhile_cons_of_pos (by simpa using hdue), ih hrest, List.mem_cons]
        constructor
        · rintro ⟨hmem, hlater⟩
          exact ⟨.inr hmem, hlater⟩
        · rintro ⟨rfl | hmem, hlater⟩
          · exact absurd hdue (not_le.mpr hlater)
          · exact ⟨hmem, hlater⟩
      · rw [List.dropWhile_cons_of_neg (by simpa using hdue)]
        refine ⟨fun hmem ↦ ⟨hmem, ?_⟩, And.left⟩
        rcases List.mem_cons.mp hmem with rfl | hmem
        · exact not_le.mp hdue
        · exact (not_le.mp hdue).trans_le (hfirst item hmem)

/-- The store after a sweep. -/
def swept (store : InMemoryIdempotencyStore) (now : Instant) : InMemoryIdempotencyStore :=
  { store with seen := store.seen.dropWhile fun item ↦ item.2.1 ≤ now - store.ttl }

theorem claim_of_reaches {store : InMemoryIdempotencyStore} {now : Instant} (key : String)
    (h : Reaches store.ttl now) : store.claim now key =
      match (swept store now).seen.get? key with
      | none => (.ok .claimed, { swept store now with seen := (swept store now).seen.set key (now, false) })
      | some held => (.ok (if held.2 then .duplicate else .inProgress), swept store now) := by
  rw [InMemoryIdempotencyStore.claim, InMemoryIdempotencyStore.sweep, if_pos h]
  rfl

theorem claim_of_not_reaches {store : InMemoryIdempotencyStore} {now : Instant} (key : String)
    (h : ¬Reaches store.ttl now) :
    store.claim now key = (.error ⟨.exception, "OverflowError", "date value out of range"⟩, store) := by
  rw [InMemoryIdempotencyStore.claim, InMemoryIdempotencyStore.sweep, if_neg h]

theorem mem_snoc_confirm {events : List Event} {key other : String} (hkey : other ≠ key) :
    .confirm other ∈ events ++ [.confirm key] ↔ .confirm other ∈ events := by
  simp [hkey]

namespace Kept

variable {store : InMemoryIdempotencyStore} {history : List Event} {last now : Instant} {key : String}

theorem later (h : Kept store history last) (hnow : last ≤ now) : Kept store history now where
  ordered := h.ordered
  past item hitem := (h.past item hitem).trans hnow
  recorded := h.recorded
  present key then_ after hsince hinside := by
    refine h.present key then_ after hsince ?_
    have hle : last - store.ttl ≤ now - store.ttl := sub_le_sub_right hnow _
    exact hle.trans_lt hinside

/-- A call that changes nothing, and is no claim and no forgetting. -/
theorem snoc {event : Event} (h : Kept store history last)
    (hclaim : ∀ key then_, event ≠ .claim then_ key (.ok .claimed))
    (hforget : ∀ key, event ≠ .forget key) (hconfirm : ∀ key ∈ store.seen, event ≠ .confirm key) :
    Kept store (history ++ [event]) last where
  ordered := h.ordered
  past := h.past
  recorded key held hheld := by
    obtain ⟨after, hsince, hconfirmed⟩ := h.recorded key held hheld
    have hne := hconfirm key (Dict.mem_iff_get?.mpr ⟨held, hheld⟩)
    refine ⟨after ++ [event], since_snoc.mpr (.inr ⟨after, rfl, hforget key, hsince⟩), ?_⟩
    rw [hconfirmed, List.mem_append, List.mem_singleton]
    exact ⟨.inl, fun hmem ↦ hmem.resolve_right fun heq ↦ hne heq.symm⟩
  present key then_ after hsince hinside := by
    rcases since_snoc.mp hsince with ⟨-, heq⟩ | ⟨earlier, rfl, -, hsince⟩
    · exact absurd heq (hclaim key then_)
    · obtain ⟨confirmed, hget, hconfirmed⟩ := h.present key then_ earlier hsince hinside
      have hne := hconfirm key (Dict.mem_iff_get?.mpr ⟨_, hget⟩)
      refine ⟨confirmed, hget, ?_⟩
      rw [hconfirmed, List.mem_append, List.mem_singleton]
      exact ⟨.inl, fun hmem ↦ hmem.resolve_right fun heq ↦ hne heq.symm⟩

theorem get?_swept {held : Instant × Bool} (h : Kept store history last) :
    (swept store now).seen.get? key = some held ↔ store.seen.get? key = some held ∧ now - store.ttl < held.1 := by
  rw [← Dict.mem_items_iff, ← Dict.mem_items_iff]
  exact mem_dropWhile h.ordered

theorem sweep (h : Kept store history last) (hnow : last ≤ now) : Kept (swept store now) history now := by
  have hlater := h.later hnow
  have hsub : (swept store now).seen.items.Sublist store.seen.items := List.dropWhile_sublist _
  refine ⟨h.ordered.sublist hsub, fun item hitem ↦ hlater.past item (hsub.subset hitem), ?_, ?_⟩
  · exact fun key held hheld ↦ h.recorded key held ((get?_swept h).mp hheld).1
  · intro key then_ after hsince hinside
    obtain ⟨confirmed, hget, hconfirmed⟩ := hlater.present key then_ after hsince hinside
    exact ⟨confirmed, (get?_swept h).mpr ⟨hget, hinside⟩, hconfirmed⟩

theorem confirm (h : Kept store history last) (key : String) :
    Kept (store.confirm key) (history ++ [.confirm key]) last := by
  rw [InMemoryIdempotencyStore.confirm]
  cases hget : store.seen.get? key with
  | none =>
      refine h.snoc nofun nofun ?_
      rintro other hother heq
      obtain rfl := Event.confirm.inj heq
      exact Dict.get?_eq_none_iff.mp hget hother
  | some held =>
      have hmem : key ∈ store.seen := Dict.mem_iff_get?.mpr ⟨held, hget⟩
      have htimes : ∀ item ∈ store.seen.items,
          (if item.1 = key then (key, held.1, true) else item).2.1 = item.2.1 := by
        intro item hitem
        split
        · rename_i hkey
          have hheld := Dict.mem_items_iff.mp (hkey ▸ hitem : (key, item.2) ∈ store.seen.items)
          rw [Option.some.inj (hget.symm.trans hheld)]
        · rfl
      refine ⟨?_, ?_, ?_, ?_⟩
      · rw [Dict.items_set_of_mem hmem, List.pairwise_map]
        exact h.ordered.imp_of_mem fun hitem hitem' hle ↦ by rwa [htimes _ hitem, htimes _ hitem']
      · rw [Dict.items_set_of_mem hmem]
        intro item hitem
        obtain ⟨before, hbefore, rfl⟩ := List.mem_map.mp hitem
        rw [htimes before hbefore]
        exact h.past before hbefore
      · intro other held' hheld'
        by_cases hkey : other = key
        · subst hkey
          obtain rfl := Option.some.inj (Dict.get?_set_self.symm.trans hheld')
          obtain ⟨after, hsince, -⟩ := h.recorded other held hget
          refine ⟨after ++ [.confirm other], since_snoc.mpr (.inr ⟨after, rfl, nofun, hsince⟩), ?_⟩
          exact iff_of_true rfl (List.mem_append_right _ List.mem_cons_self)
        · rw [Dict.get?_set_ne hkey] at hheld'
          obtain ⟨after, hsince, hconfirmed⟩ := h.recorded other held' hheld'
          refine ⟨after ++ [.confirm key], since_snoc.mpr (.inr ⟨after, rfl, nofun, hsince⟩), ?_⟩
          rw [hconfirmed, mem_snoc_confirm hkey]
      · intro other then_ after hsince hinside
        rcases since_snoc.mp hsince with ⟨-, heq⟩ | ⟨earlier, rfl, -, hsince⟩
        · cases heq
        · obtain ⟨confirmed, hother, hconfirmed⟩ := h.present other then_ earlier hsince hinside
          by_cases hkey : other = key
          · subst hkey
            obtain rfl := Option.some.inj (hget.symm.trans hother)
            exact ⟨true, Dict.get?_set_self, iff_of_true rfl (List.mem_append_right _ List.mem_cons_self)⟩
          · refine ⟨confirmed, (Dict.get?_set_ne hkey).trans hother, ?_⟩
            rw [hconfirmed, mem_snoc_confirm hkey]

theorem forget (h : Kept store history last) (key : String) :
    Kept (store.forget key) (history ++ [.forget key]) last := by
  have hsub : (store.forget key).seen.items.Sublist store.seen.items := List.filter_sublist
  have hget (other : String) (hkey : other ≠ key) : (store.forget key).seen.get? other = store.seen.get? other :=
    Dict.get?_erase.trans (if_neg hkey)
  have hne {other : String} {held : Instant × Bool} (hheld : (store.forget key).seen.get? other = some held) :
      other ≠ key := by
    rintro rfl
    cases (Dict.get?_erase.trans (if_pos rfl)).symm.trans hheld
  refine ⟨h.ordered.sublist hsub, fun item hitem ↦ h.past item (hsub.subset hitem), ?_, ?_⟩
  · intro other held hheld
    have hkey := hne hheld
    obtain ⟨after, hsince, hconfirmed⟩ := h.recorded other held ((hget other hkey).symm.trans hheld)
    have hforget : Event.forget key ≠ .forget other := fun heq ↦ hkey (Event.forget.inj heq).symm
    refine ⟨after ++ [.forget key], since_snoc.mpr (.inr ⟨after, rfl, hforget, hsince⟩), ?_⟩
    simp [hconfirmed]
  · intro other then_ after hsince hinside
    rcases since_snoc.mp hsince with ⟨-, heq⟩ | ⟨earlier, rfl, hforget, hsince⟩
    · cases heq
    · have hkey : other ≠ key := fun heq ↦ hforget (heq ▸ rfl)
      obtain ⟨confirmed, hother, hconfirmed⟩ := h.present other then_ earlier hsince hinside
      refine ⟨confirmed, (hget other hkey).trans hother, ?_⟩
      simp [hconfirmed]

/-- A key that is free is claimed, and stands last. -/
theorem enter (h : Kept store history now) (hget : store.seen.get? key = none) :
    Kept { store with seen := store.seen.set key (now, false) }
      (history ++ [.claim now key (.ok .claimed)]) now := by
  have hitems : (store.seen.set key (now, false)).items = store.seen.items ++ [(key, now, false)] :=
    Dict.items_set_of_notMem (Dict.get?_eq_none_iff.mp hget)
  have hne {other : String} {held : Instant × Bool} (hheld : store.seen.get? other = some held) : other ≠ key := by
    rintro rfl
    cases hget.symm.trans hheld
  refine ⟨?_, ?_, ?_, ?_⟩
  · rw [hitems, List.pairwise_append]
    refine ⟨h.ordered, List.pairwise_singleton _ _, fun item hitem item' hitem' ↦ ?_⟩
    rw [List.mem_singleton.mp hitem']
    exact h.past item hitem
  · rw [hitems]
    intro item hitem
    rcases List.mem_append.mp hitem with hitem | hitem
    · exact h.past item hitem
    · rw [List.mem_singleton.mp hitem]
  · intro other held hheld
    by_cases hkey : other = key
    · subst hkey
      obtain rfl := Option.some.inj (Dict.get?_set_self.symm.trans hheld)
      exact ⟨[], since_snoc.mpr (.inl ⟨rfl, rfl⟩), by simp⟩
    · rw [Dict.get?_set_ne hkey] at hheld
      obtain ⟨after, hsince, hconfirmed⟩ := h.recorded other held hheld
      refine ⟨after ++ [_], since_snoc.mpr (.inr ⟨after, rfl, nofun, hsince⟩), ?_⟩
      simp [hconfirmed]
  · intro other then_ after hsince hinside
    rcases since_snoc.mp hsince with ⟨rfl, heq⟩ | ⟨earlier, rfl, -, hsince⟩
    · obtain ⟨rfl, rfl, -⟩ := Event.claim.inj heq
      exact ⟨false, Dict.get?_set_self, by simp⟩
    · obtain ⟨confirmed, hother, hconfirmed⟩ := h.present other then_ earlier hsince hinside
      refine ⟨confirmed, (Dict.get?_set_ne (hne hother)).trans hother, ?_⟩
      simp [hconfirmed]

theorem claim (h : Kept store history last) (hnow : last ≤ now) (key : String) :
    Kept (store.claim now key).2 (history ++ [.claim now key (store.claim now key).1]) now := by
  by_cases hreaches : Reaches store.ttl now
  · have hswept := h.sweep hnow
    rw [claim_of_reaches key hreaches]
    cases hget : (swept store now).seen.get? key with
    | none => exact hswept.enter hget
    | some held =>
        refine hswept.snoc (fun _ _ heq ↦ ?_) nofun nofun
        obtain ⟨-, -, hanswer⟩ := Event.claim.inj heq
        have hclaim := Except.ok.inj hanswer
        split at hclaim <;> cases hclaim
  · rw [claim_of_not_reaches key hreaches]
    exact (h.later hnow).snoc nofun nofun nofun

end Kept

theorem ttl_claim (store : InMemoryIdempotencyStore) (now : Instant) (key : String) :
    (store.claim now key).2.ttl = store.ttl := by
  by_cases hreaches : Reaches store.ttl now
  · rw [claim_of_reaches key hreaches]
    split <;> rfl
  · rw [claim_of_not_reaches key hreaches]

theorem ttl_confirm (store : InMemoryIdempotencyStore) (key : String) : (store.confirm key).ttl = store.ttl := by
  rw [InMemoryIdempotencyStore.confirm]
  split <;> rfl

/-! ## Any run -/

/-- A store nobody has used. -/
def unused (ttl : Duration) (hpositive : 0 < ttl) : InMemoryIdempotencyStore := ⟨ttl, hpositive, ∅⟩

variable {ttl : Duration} {hpositive : 0 < ttl} {history : List Event} {store : InMemoryIdempotencyStore}
  {last now : Instant}

theorem Runs.kept (hruns : Runs (unused ttl hpositive) last history store) :
    Kept store history last ∧ store.ttl = ttl := by
  induction hruns with
  | start last =>
      refine ⟨⟨List.Pairwise.nil, nofun, nofun, ?_⟩, rfl⟩
      rintro key then_ after ⟨⟨before, hsplit⟩, -⟩
      cases before <;> cases hsplit
  | claim _ hnow ih => exact ⟨ih.1.claim hnow _, (ttl_claim _ _ _).trans ih.2⟩
  | confirm _ ih => exact ⟨ih.1.confirm _, (ttl_confirm _ _).trans ih.2⟩
  | forget _ ih => exact ⟨ih.1.forget _, ih.2⟩

/-- What is asked of a claim: it is answered by what was claimed inside the window and not
forgotten since, and it leaves nothing else behind. -/
structure ForgetsExactly (store : InMemoryIdempotencyStore) (history : List Event) (now : Instant) (key : String) :
    Prop where
  claimed : (store.claim now key).1 = .ok .claimed ↔
    ¬∃ then_ after, now - store.ttl < then_ ∧ Since history key then_ after
  duplicate : (store.claim now key).1 = .ok .duplicate ↔
    ∃ then_ after, now - store.ttl < then_ ∧ Since history key then_ after ∧ .confirm key ∈ after
  inProgress : (store.claim now key).1 = .ok .inProgress ↔
    (∃ then_ after, now - store.ttl < then_ ∧ Since history key then_ after) ∧
      ¬∃ then_ after, now - store.ttl < then_ ∧ Since history key then_ after ∧ .confirm key ∈ after
  holds : ∀ other ∈ (store.claim now key).2.seen, ∃ then_ after, now - store.ttl < then_ ∧
    Since (history ++ [.claim now key (store.claim now key).1]) other then_ after

/-- What a claim leaves was claimed inside the window. -/
theorem inside_of_claim (h : Kept store history last) (hreaches : Reaches store.ttl now) {key other : String}
    {held : Instant × Bool} (hheld : (store.claim now key).2.seen.get? other = some held) :
    now - store.ttl < held.1 := by
  rw [claim_of_reaches key hreaches] at hheld
  cases hget : (swept store now).seen.get? key with
  | none =>
      rw [hget] at hheld
      by_cases hkey : other = key
      · subst hkey
        obtain rfl := Option.some.inj (Dict.get?_set_self.symm.trans hheld)
        exact sub_lt_self now store.positive
      · exact ((h.get?_swept).mp ((Dict.get?_set_ne hkey).symm.trans hheld)).2
  | some _ =>
      rw [hget] at hheld
      exact ((h.get?_swept).mp hheld).2

theorem Kept.forgetsExactly (h : Kept store history last) (hnow : last ≤ now) (hreaches : Reaches store.ttl now)
    (key : String) : ForgetsExactly store history now key := by
  have hholds : ∀ other ∈ (store.claim now key).2.seen, ∃ then_ after, now - store.ttl < then_ ∧
      Since (history ++ [.claim now key (store.claim now key).1]) other then_ after := by
    intro other hother
    obtain ⟨held, hheld⟩ := Dict.mem_iff_get?.mp hother
    obtain ⟨after, hsince, -⟩ := (h.claim hnow key).recorded other held hheld
    exact ⟨held.1, after, inside_of_claim h hreaches hheld, hsince⟩
  have hpresent := (h.sweep hnow).present key
  cases hget : (swept store now).seen.get? key with
  | none =>
      have hanswer : (store.claim now key).1 = .ok .claimed := by rw [claim_of_reaches key hreaches, hget]
      have hdead : ¬∃ then_ after, now - store.ttl < then_ ∧ Since history key then_ after := by
        rintro ⟨then_, after, hinside, hsince⟩
        obtain ⟨confirmed, hsome, -⟩ := hpresent then_ after hsince hinside
        cases hget.symm.trans hsome
      refine ⟨iff_of_true hanswer hdead, iff_of_false (fun heq ↦ ?_) ?_, iff_of_false (fun heq ↦ ?_) ?_, hholds⟩
      · cases hanswer.symm.trans heq
      · rintro ⟨then_, after, hinside, hsince, -⟩
        exact hdead ⟨then_, after, hinside, hsince⟩
      · cases hanswer.symm.trans heq
      · exact fun hlive ↦ hdead hlive.1
  | some held =>
      have hanswer : (store.claim now key).1 = .ok (if held.2 then .duplicate else .inProgress) := by
        rw [claim_of_reaches key hreaches, hget]
      obtain ⟨hheld, hinside⟩ := (h.get?_swept).mp hget
      obtain ⟨after, hsince, hconfirmed⟩ := h.recorded key held hheld
      have hlive : ∃ then_ after, now - store.ttl < then_ ∧ Since history key then_ after :=
        ⟨held.1, after, hinside, hsince⟩
      -- Whichever live claim is looked at, it is the one that is held.
      have hdone : (∃ then_ after, now - store.ttl < then_ ∧ Since history key then_ after ∧ .confirm key ∈ after) ↔
          held.2 = true := by
        constructor
        · rintro ⟨then_, after', hinside', hsince', hmem⟩
          obtain ⟨confirmed, hsome, hiff⟩ := hpresent then_ after' hsince' hinside'
          rw [Option.some.inj (hget.symm.trans hsome)]
          exact hiff.mpr hmem
        · exact fun htrue ↦ ⟨held.1, after, hinside, hsince, hconfirmed.mp htrue⟩
      refine ⟨iff_of_false (fun heq ↦ ?_) (not_not.mpr hlive), ?_, ?_, hholds⟩
      · have hclaim := Except.ok.inj (hanswer.symm.trans heq)
        split at hclaim <;> cases hclaim
      · rw [hdone, hanswer]
        cases held.2 <;> decide
      · rw [hdone, hanswer, and_iff_right hlive]
        cases held.2 <;> decide

/-- A claim does what is asked of it exactly when the window does not reach back to before
the first `datetime` there is. -/
theorem claim_forgetsExactly_iff (hruns : Runs (unused ttl hpositive) last history store) (hnow : last ≤ now)
    (key : String) : ForgetsExactly store history now key ↔ Reaches ttl now := by
  obtain ⟨hkept, rfl⟩ := hruns.kept
  constructor
  · intro h
    by_contra hreaches
    have hraises := congrArg Prod.fst (claim_of_not_reaches key hreaches)
    have hlive := h.claimed.not.mp fun heq ↦ nomatch hraises.symm.trans heq
    have hopen := h.duplicate.not.mp fun heq ↦ nomatch hraises.symm.trans heq
    have hanswer := h.inProgress.mpr ⟨not_not.mp hlive, hopen⟩
    cases hraises.symm.trans hanswer
  · exact fun hreaches ↦ hkept.forgetsExactly hnow hreaches key

/-- A window of one hour, and half an hour after the first claim. -/
def hourly : InMemoryIdempotencyStore := unused 3600000000 (by decide)

def halfPast : Instant := 1760001800000000

def leftBehind : InMemoryIdempotencyStore := (hourly.claim 1760000000000000 "m1").2

def halfway : InMemoryIdempotencyStore := (leftBehind.claim halfPast "m2").2.confirm "m2"

/-- A key is claimed and left, another is confirmed, and a third is forgotten. -/
def busyHour : InMemoryIdempotencyStore := (halfway.claim halfPast "m3").2.forget "m3"

def busyHistory : List Event :=
  [.claim 1760000000000000 "m1" (.ok .claimed), .claim halfPast "m2" (.ok .claimed), .confirm "m2",
    .claim halfPast "m3" (.ok .claimed), .forget "m3"]

theorem runs_busyHour : Runs hourly halfPast busyHistory busyHour := by
  have hleft : Runs hourly 1760000000000000 (busyHistory.take 1) leftBehind := .claim (.start 0) (by decide)
  have hsettled : Runs hourly halfPast (busyHistory.take 3) halfway := .confirm (.claim hleft (by decide))
  exact .forget (.claim hsettled le_rfl)

/-- An hour after the first claim it is over, the confirmed key is a duplicate, and the forgotten
one can be claimed. -/
theorem claim_forgetsExactly_hour :
    ForgetsExactly busyHour busyHistory 1760003600000000 "m1" ∧
    ForgetsExactly busyHour busyHistory 1760003600000000 "m2" ∧
    ForgetsExactly busyHour busyHistory 1760003600000000 "m3" ∧
    (busyHour.claim 1760003600000000 "m1").1 = .ok .claimed ∧
    (busyHour.claim 1760003600000000 "m2").1 = .ok .duplicate ∧
    (busyHour.claim 1760003600000000 "m3").1 = .ok .claimed := by
  have hexactly : ∀ key, ForgetsExactly busyHour busyHistory 1760003600000000 key := fun key ↦
    (claim_forgetsExactly_iff runs_busyHour (by decide) key).mpr (by decide)
  refine ⟨hexactly "m1", hexactly "m2", hexactly "m3", ?_, ?_, ?_⟩ <;> decide +kernel

/-- A window of 999999 days. -/
theorem not_claim_forgetsExactly :
    ¬ForgetsExactly (unused 86399913600000000 (by decide)) [] 1760000000000000 "m1" := by
  intro h
  have hclaimed : (InMemoryIdempotencyStore.claim (unused 86399913600000000 (by decide)) 1760000000000000 "m1").1 =
      .ok .claimed := by
    refine h.claimed.mpr ?_
    rintro ⟨then_, after, -, ⟨before, hsplit⟩, -⟩
    cases before <;> cases hsplit
  revert hclaimed
  decide

end Idempotency

end AcemqAmqp
