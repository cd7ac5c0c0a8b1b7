import AcemqAmqp.Ordering.KeyedLocks

/-!
# Each key is a lock that is taken in turn

What a task does under one key is a step of that key's lock and of nobody
else's, and the two tables hold exactly the keys that somebody is at.
-/

namespace AcemqAmqp

namespace Ordering

open FairLock

variable {Key : Type} [DecidableEq Key]

/-! ## What is seen from one key -/

/-- The visits to a key. -/
def seen (visits : List (Visit Key)) (key : Key) : List (ℕ × Stage) :=
  (visits.filter (·.key = key)).map fun v ↦ (v.number, v.stage)

/-- The numbers that were written down with a key. -/
def under (history : List (ℕ × Key)) (key : Key) : List ℕ := (history.filter (·.2 = key)).map Prod.fst

section views

variable {visits : List (Visit Key)} {history : List (ℕ × Key)} {key : Key} {n : ℕ} {stage : Stage}

theorem mem_seen : (n, stage) ∈ seen visits key ↔ ∃ v ∈ visits, v.key = key ∧ v.number = n ∧ v.stage = stage := by
  simp [seen, and_assoc]

theorem mem_under : n ∈ under history key ↔ (n, key) ∈ history := by
  simp [under]

theorem seen_snoc (v : Visit Key) :
    seen (visits ++ [v]) key = if v.key = key then seen visits key ++ [(v.number, v.stage)] else seen visits key := by
  by_cases hv : v.key = key <;> simp [seen, List.filter_append, hv]

theorem under_snoc (p : ℕ × Key) :
    under (history ++ [p]) key = if p.2 = key then under history key ++ [p.1] else under history key := by
  by_cases hp : p.2 = key <;> simp [under, List.filter_append, hp]

theorem seen_amend (who : Option ℕ) (f : Stage → Stage) :
    seen (amend visits who f) key = alter (seen visits key) who f := by
  have hkey : ∀ v : Visit Key, (if some v.number = who then { v with stage := f v.stage } else v).key = v.key := by
    intro v
    split <;> rfl
  rw [seen, seen, amend, alter, List.filter_map, List.map_map, List.map_map]
  have hfilter : (fun v : Visit Key ↦ decide (v.key = key)) ∘
      (fun v ↦ if some v.number = who then { v with stage := f v.stage } else v) = fun v ↦ decide (v.key = key) :=
    funext fun v ↦ by rw [Function.comp_apply, hkey v]
  rw [hfilter]
  refine List.map_congr_left fun v _ ↦ ?_
  by_cases hv : some v.number = who <;> simp [hv]

theorem seen_drop : seen (drop visits n) key = gone (seen visits key) n := by
  rw [seen, seen, drop, gone, List.filter_map, List.filter_filter, List.filter_filter]
  congr 1
  refine List.filter_congr fun v _ ↦ ?_
  rw [Bool.and_comm]
  rfl

omit [DecidableEq Key] in
theorem mem_amend {who : Option ℕ} {f : Stage → Stage} {v : Visit Key} (h : v ∈ amend visits who f) :
    ∃ v' ∈ visits, v'.number = v.number ∧ v'.key = v.key ∧ v'.lock = v.lock := by
  obtain ⟨v', hv', rfl⟩ := List.mem_map.mp h
  refine ⟨v', hv', ?_⟩
  split <;> exact ⟨rfl, rfl, rfl⟩

omit [DecidableEq Key] in
theorem number_amend (who : Option ℕ) (f : Stage → Stage) :
    (amend visits who f).map Visit.number = visits.map Visit.number := by
  rw [amend, List.map_map]
  refine List.map_congr_left fun v _ ↦ ?_
  rw [Function.comp_apply]
  split <;> rfl

end views

omit [DecidableEq Key] in
theorem amend_none (visits : List (Visit Key)) (f : Stage → Stage) : amend visits none f = visits :=
  (List.map_congr_left fun _ _ ↦ if_neg nofun).trans (List.map_id _)

theorem letGo_ok {tables : KeyedLocks Key} {key : Key} {left : ℕ}
    (hholders : tables.holders.get? key = some ((left : ℤ) + 1)) (hkey : key ∈ tables.locks) :
    ∃ tables', tables.letGo key = .ok tables' ∧
      (∀ other, tables'.locks.get? other = if other = key ∧ left = 0 then none else tables.locks.get? other) ∧
      ∀ other, tables'.holders.get? other =
        if other = key then if left = 0 then none else some (left : ℤ) else tables.holders.get? other := by
  rw [KeyedLocks.letGo, hholders]
  simp only [Int.add_sub_cancel]
  by_cases hleft : left = 0
  · subst hleft
    refine ⟨_, by rw [if_neg (by simp), if_pos hkey], fun other ↦ ?_, fun other ↦ ?_⟩
    · simp
    · simp
  · refine ⟨_, if_pos (by exact_mod_cast hleft), fun other ↦ ?_, fun other ↦ ?_⟩
    · simp [hleft]
    · simp [Dict.get?_set, hleft]

/-- The lock of a key, or one nobody has asked for. -/
def lockUnder (locks : Dict Key ℕ) (objects : ℕ → Lock) (key : Key) : Lock :=
  ((locks.get? key).map objects).getD .fresh

/-- No two keys share a lock. -/
def Apart (locks : Dict Key ℕ) : Prop :=
  ∀ key key' lock, locks.get? key = some lock → locks.get? key' = some lock → key = key'

section locks

variable {locks : Dict Key ℕ} {objects : ℕ → Lock} {key : Key} {lock : ℕ} {changed : Lock}

theorem lockUnder_some (h : locks.get? key = some lock) : lockUnder locks objects key = objects lock := by
  rw [lockUnder, h]
  rfl

theorem lockUnder_update (h : locks.get? key = some lock) :
    lockUnder locks (Function.update objects lock changed) key = changed := by
  rw [lockUnder_some h, Function.update_self]

theorem lockUnder_update_ne {key' : Key} (happart : Apart locks) (h : locks.get? key = some lock) (hne : key' ≠ key) :
    lockUnder locks (Function.update objects lock changed) key' = lockUnder locks objects key' := by
  rw [lockUnder, lockUnder]
  cases hkey' : locks.get? key' with
  | none => rfl
  | some other =>
      have hother : other ≠ lock := by
        rintro rfl
        exact hne (happart _ _ _ hkey' h)
      exact Function.update_of_ne hother _ _

end locks

namespace World

variable {w w' : World Key} {n : ℕ} {key : Key} {lock : ℕ} {v : Visit Key}

def on (w : World Key) (key : Key) : Queue where
  lock := lockUnder w.tables.locks w.objects key
  visits := seen w.visits key
  asked := under w.asked key
  entries := under w.entries key
  cancels := under w.cancels key

/-- Numbers are given out in turn, every visit is to the lock under its key, and each key
is a lock that is taken in turn. -/
structure Kept (w : World Key) : Prop where
  ordered : (w.visits.map Visit.number).Pairwise (· < ·)
  lock : ∀ v ∈ w.visits, w.tables.locks.get? v.key = some v.lock
  made : ∀ key lock, w.tables.locks.get? key = some lock → lock < w.made
  apart : Apart w.tables.locks
  present : ∀ key ∈ w.tables.locks, seen w.visits key ≠ []
  holders : ∀ key, w.tables.holders.get? key =
    if seen w.visits key = [] then none else some ((seen w.visits key).length : ℤ)
  fair : ∀ key, (w.on key).Fair

theorem kept_empty : (empty : World Key).Kept where
  ordered := List.Pairwise.nil
  lock := nofun
  made := nofun
  apart := nofun
  present := nofun
  holders _ := rfl
  fair _ := Queue.fair_empty

theorem stageOf_eq (h : w.Kept) (hv : v ∈ w.visits) : w.stageOf v.number = some v.stage := by
  have hnodup : (w.visits.map Visit.number).Nodup := h.ordered.imp fun hlt ↦ hlt.ne
  rw [stageOf]
  cases hfind : w.visits.find? (·.number = v.number) with
  | none =>
      have hnot := List.find?_eq_none.mp hfind v hv
      simp at hnot
  | some other =>
      have hother : other.number = v.number := by simpa using List.find?_some hfind
      rw [List.inj_on_of_nodup_map hnodup (List.mem_of_find?_eq_some hfind) hv hother]
      rfl

theorem mem_on (hv : v ∈ w.visits) : (v.number, v.stage) ∈ (w.on v.key).visits :=
  mem_seen.mpr ⟨v, hv, rfl, rfl, rfl⟩

/-- A visit is under one key only. -/
theorem notMem_on {other : Key} (h : w.Kept) (hn : n ∈ (seen w.visits key).map Prod.fst) (hne : other ≠ key) :
    n ∉ (seen w.visits other).map Prod.fst := by
  have hnodup : (w.visits.map Visit.number).Nodup := h.ordered.imp fun hlt ↦ hlt.ne
  intro hother
  obtain ⟨⟨_, stage⟩, hp, rfl⟩ := List.mem_map.mp hn
  obtain ⟨v, hv, rfl, hnumber, -⟩ := mem_seen.mp hp
  obtain ⟨⟨_, stage'⟩, hp', heq⟩ := List.mem_map.mp hother
  obtain ⟨v', hv', rfl, hnumber', -⟩ := mem_seen.mp hp'
  have hsame : v'.number = v.number := hnumber'.trans (heq.trans hnumber.symm)
  exact hne (congrArg Visit.key (List.inj_on_of_nodup_map hnodup hv' hv hsame))

/-! ## Each step -/

/-- What a task does is a step under its key, and nothing under any other. -/
structure Acts (key : Key) (w w' : World Key) (q : Queue) : Prop where
  here : w'.on key = q
  elsewhere : ∀ other, other ≠ key → w'.on other = w.on other

/-- The lock that `hold` finds, and what it leaves as it was. -/
structure Found (w w' : World Key) (key : Key) (lock : ℕ) : Prop where
  here : w'.tables.locks.get? key = some lock
  elsewhere : ∀ other, other ≠ key → w'.tables.locks.get? other = w.tables.locks.get? other
  keeps : ∀ other lock, w.tables.locks.get? other = some lock → w'.tables.locks.get? other = some lock
  made : ∀ key lock, w'.tables.locks.get? key = some lock → lock < w'.made
  apart : Apart w'.tables.locks
  on : ∀ other, w'.on other = w.on other
  holders : w'.tables.holders = w.tables.holders
  visits : w'.visits = w.visits

theorem find_found (h : w.Kept) (key : Key) : Found w (w.find key).1 key (w.find key).2 := by
  rw [find]
  cases hkey : w.tables.locks.get? key with
  | some lock => exact ⟨hkey, fun _ _ ↦ rfl, fun _ _ ↦ id, h.made, h.apart, fun _ ↦ rfl, rfl, rfl⟩
  | none =>
      have hget (other : Key) (lock : ℕ) (hother : (w.tables.locks.set key w.made).get? other = some lock) :
          other = key ∧ lock = w.made ∨ w.tables.locks.get? other = some lock ∧ lock < w.made := by
        rw [Dict.get?_set] at hother
        split at hother
        · exact .inl ⟨‹_›, (Option.some.inj hother).symm⟩
        · exact .inr ⟨hother, h.made other lock hother⟩
      refine ⟨Dict.get?_set_self, fun _ hne ↦ Dict.get?_set_ne hne, ?_, ?_, ?_, fun other ↦ ?_, rfl, rfl⟩
      · intro other lock hother
        have hne : other ≠ key := by
          rintro rfl
          cases hkey.symm.trans hother
        exact (Dict.get?_set_ne hne).trans hother
      · intro other lock hother
        rcases hget other lock hother with ⟨-, rfl⟩ | ⟨-, hlt⟩
        · exact Nat.lt_succ_self _
        · exact Nat.lt_succ_of_lt hlt
      · intro one two lock hone htwo
        rcases hget one lock hone with ⟨rfl, rfl⟩ | ⟨hone, hlt⟩
        · rcases hget two _ htwo with ⟨rfl, -⟩ | ⟨-, hlt⟩
          · rfl
          · exact absurd hlt (lt_irrefl _)
        · rcases hget two lock htwo with ⟨-, rfl⟩ | ⟨htwo, -⟩
          · exact absurd hlt (lt_irrefl _)
          · exact h.apart one two lock hone htwo
      · -- The new lock is one that nobody has asked for, which is what a key without a lock has.
        have hlock : lockUnder (w.tables.locks.set key w.made) (Function.update w.objects w.made .fresh) other =
            lockUnder w.tables.locks w.objects other := by
          by_cases hother : other = key
          · subst hother
            rw [lockUnder_update Dict.get?_set_self, lockUnder, hkey]
            rfl
          · rw [lockUnder, lockUnder, Dict.get?_set_ne hother]
            cases hget : w.tables.locks.get? other with
            | none => rfl
            | some lock => exact Function.update_of_ne (h.made other lock hget).ne _ _
        rw [on, hlock]
        rfl

theorem acquire_acts (hkey : w.tables.locks.get? key = some lock) (hapart : Apart w.tables.locks)
    (hstages : ∀ n ∈ (w.objects lock).waiters, w.stageOf n = (w.on key).stageOf n) :
    Acts key w (w.acquire n key lock) ((w.on key).ask n) := by
  have hfree := Lock.free_congr hstages
  have hlock : (w.on key).lock = w.objects lock := lockUnder_some hkey
  rw [acquire, Queue.ask, hlock, ← hfree]
  split
  · refine ⟨?_, fun other hne ↦ ?_⟩
    · rw [on, lockUnder_update hkey, seen_snoc, if_pos rfl, under_snoc, if_pos rfl, under_snoc, if_pos rfl]
      rfl
    · rw [on, lockUnder_update_ne hapart hkey hne, seen_snoc, if_neg hne.symm, under_snoc, if_neg hne.symm,
        under_snoc, if_neg hne.symm]
      rfl
  · refine ⟨?_, fun other hne ↦ ?_⟩
    · rw [on, lockUnder_update hkey, seen_snoc, if_pos rfl, under_snoc, if_pos rfl]
      rfl
    · rw [on, lockUnder_update_ne hapart hkey hne, seen_snoc, if_neg hne.symm, under_snoc, if_neg hne.symm]
      rfl

theorem hold_acts (h : w.Kept) (n : ℕ) (key : Key) : Acts key w (w.hold n key) ((w.on key).ask n) := by
  have hfound := find_found h key
  rw [hold]
  generalize w.find key = found at hfound ⊢
  obtain ⟨w', lock⟩ := found
  have hlock : w'.objects lock = (w.on key).lock := by
    rw [← hfound.on key]
    exact (lockUnder_some hfound.here).symm
  have hstages : ∀ m ∈ (w'.objects lock).waiters, w'.stageOf m = (w.on key).stageOf m := by
    intro m hm
    rw [hlock, (h.fair key).sound.waiters] at hm
    obtain ⟨⟨_, stage⟩, hp, rfl⟩ := List.mem_map.mp hm
    have hp := (List.mem_filter.mp hp).1
    obtain ⟨v, hv, -, rfl, rfl⟩ := mem_seen.mp hp
    have hsame : w'.stageOf v.number = w.stageOf v.number := by rw [stageOf, stageOf, hfound.visits]
    rw [hsame, stageOf_eq h hv]
    exact ((lookup_eq_some_iff (h.fair key).sound.ordered).mpr hp).symm
  rw [← hfound.on key] at hstages ⊢
  obtain ⟨hhere, helsewhere⟩ := @acquire_acts _ _ { w' with tables := w'.tables.count key } n key lock
    hfound.here hfound.apart hstages
  exact ⟨hhere, fun other hne ↦ (helsewhere other hne).trans (hfound.on other)⟩

theorem resume_acts (h : w.Kept) (hv : v ∈ w.visits) :
    Acts v.key w (w.resume v) ((w.on v.key).resume v.number) := by
  have hkey := h.lock v hv
  have hlock : (w.on v.key).lock = w.objects v.lock := lockUnder_some hkey
  refine ⟨?_, fun other hne ↦ ?_⟩
  · rw [resume, on, lockUnder_update hkey, seen_amend, under_snoc, if_pos rfl, Queue.resume, hlock]
    rfl
  · have hnot := notMem_on h (List.mem_map_of_mem (mem_on hv)) hne
    rw [resume, on, lockUnder_update_ne h.apart hkey hne, seen_amend, alter_notMem hnot, under_snoc, if_neg hne.symm]
    rfl

theorem cancel_acts (h : w.Kept) (hv : v ∈ w.visits) :
    Acts v.key w (w.cancel v) ((w.on v.key).cancel v.number) := by
  refine ⟨?_, fun other hne ↦ ?_⟩
  · rw [cancel, on, seen_amend, under_snoc, if_pos rfl]
    rfl
  · have hnot := notMem_on h (List.mem_map_of_mem (mem_on hv)) hne
    rw [cancel, on, seen_amend, alter_notMem hnot, under_snoc, if_neg hne.symm]
    rfl

theorem waiters_seen (h : w.Kept) (hkey : w.tables.locks.get? key = some lock) :
    ∀ m ∈ (w.objects lock).waiters, m ∈ (seen w.visits key).map Prod.fst := by
  intro m hm
  have hlock : (w.on key).lock = w.objects lock := lockUnder_some hkey
  rw [← hlock, (h.fair key).sound.waiters] at hm
  obtain ⟨p, hp, rfl⟩ := List.mem_map.mp hm
  exact List.mem_map_of_mem (List.mem_filter.mp hp).1

/-- Nobody under another key goes, and nobody under another key is woken. -/
theorem elsewhere_wake {other : Key} {who : Option ℕ} (h : w.Kept) (hv : v ∈ w.visits) (hne : other ≠ v.key)
    (hwho : ∀ m ∈ who, m ∈ (seen w.visits v.key).map Prod.fst) :
    alter (gone (seen w.visits other) v.number) who Stage.wake = seen w.visits other := by
  rw [gone_notMem (notMem_on h (List.mem_map_of_mem (mem_on hv)) hne)]
  cases who with
  | none => exact alter_none _ _
  | some m => exact alter_notMem (notMem_on h (hwho m rfl) hne)

theorem acquireRaises_acts (h : w.Kept) (hv : v ∈ w.visits) :
    Acts v.key w (w.acquireRaises v) ((w.on v.key).giveUp v.number) := by
  have hkey := h.lock v hv
  have hlock : (w.on v.key).lock = w.objects v.lock := lockUnder_some hkey
  have hlocked : ((w.objects v.lock).without v.number).locked = (w.objects v.lock).locked := rfl
  have hwho : ∀ m ∈ ((w.objects v.lock).without v.number).waiters.head?, m ∈ (seen w.visits v.key).map Prod.fst :=
    fun m hm ↦ waiters_seen h hkey m (List.mem_filter.mp (List.mem_of_mem_head? hm)).1
  rw [acquireRaises, Queue.giveUp, hlock]
  simp only [Function.update_self, hlocked]
  split
  · refine ⟨?_, fun other hne ↦ ?_⟩
    · rw [on, lockUnder_update hkey, seen_drop]
      rfl
    · rw [on, lockUnder_update_ne h.apart hkey hne, seen_drop]
      have hsame := @elsewhere_wake _ _ w v other none h hv hne fun m hm ↦ absurd hm (Option.not_mem_none m)
      rw [alter_none] at hsame
      rw [hsame]
      rfl
  · rw [wakeUpFirst]
    simp only [Function.update_self]
    refine ⟨?_, fun other hne ↦ ?_⟩
    · rw [on, lockUnder_update hkey, seen_amend, seen_drop]
      rfl
    · rw [on, lockUnder_update_ne h.apart hkey hne, seen_amend, seen_drop, elsewhere_wake h hv hne hwho]
      rfl

theorem release_acts (h : w.Kept) (hv : v ∈ w.visits) (hinside : v.stage = .inside) :
    ∃ w', { w with visits := drop w.visits v.number }.release v.lock = .ok w' ∧
      Acts v.key w w' ((w.on v.key).leave v.number) ∧ w'.tables = w.tables ∧ w'.made = w.made ∧
      ∃ who, w'.visits = amend (drop w.visits v.number) who Stage.wake := by
  have hkey := h.lock v hv
  have hlock : (w.on v.key).lock = w.objects v.lock := lockUnder_some hkey
  have hlocked : (w.objects v.lock).locked = true := by
    rw [← hlock]
    exact (h.fair v.key).sound.locked_of_inside (hinside ▸ mem_on hv)
  refine ⟨_, if_pos hlocked, ?_, rfl, rfl, _, rfl⟩
  rw [wakeUpFirst, Queue.leave, hlock]
  simp only [Function.update_self]
  refine ⟨?_, fun other hne ↦ ?_⟩
  · rw [on, lockUnder_update hkey, seen_amend, seen_drop]
    rfl
  · have hwho : ∀ m ∈ (w.objects v.lock).waiters.head?, m ∈ (seen w.visits v.key).map Prod.fst :=
      fun m hm ↦ waiters_seen h hkey m (List.mem_of_mem_head? hm)
    rw [on, lockUnder_update_ne h.apart hkey hne, seen_amend, seen_drop, elsewhere_wake h hv hne hwho]
    rfl

/-- `_let_go` does not raise, and forgets the key exactly when nobody is left at it. -/
theorem letGo_kept {w₁ : World Key} {q : Queue} {who : Option ℕ} (h : w.Kept) (hv : v ∈ w.visits)
    (hacts : Acts v.key w w₁ q) (hfair : q.Fair) (htables : w₁.tables = w.tables) (hmade : w₁.made = w.made)
    (hvisits : w₁.visits = amend (drop w.visits v.number) who Stage.wake) :
    ∃ tables, w₁.tables.letGo v.key = .ok tables ∧ { w₁ with tables }.Kept ∧
      ∀ other, { w₁ with tables }.on other = w₁.on other := by
  have hhere : (v.number, v.stage) ∈ seen w.visits v.key := mem_on hv
  have hcount : (seen w₁.visits v.key).length + 1 = (seen w.visits v.key).length := by
    rw [hvisits, seen_amend, seen_drop, alter, List.length_map]
    exact length_gone (h.fair v.key).sound.ordered hhere
  have hother : ∀ other, other ≠ v.key → seen w₁.visits other = seen w.visits other := fun other hne ↦
    congrArg Queue.visits (hacts.elsewhere other hne)
  have hholders : w₁.tables.holders.get? v.key = some (((seen w₁.visits v.key).length : ℤ) + 1) := by
    rw [htables, h.holders v.key, if_neg (List.ne_nil_of_mem hhere), ← hcount]
    rfl
  have hkey : v.key ∈ w₁.tables.locks := by
    rw [htables]
    exact Dict.mem_iff_get?.mpr ⟨_, h.lock v hv⟩
  obtain ⟨tables, hletGo, hlocks, hheld⟩ := letGo_ok hholders hkey
  rw [htables] at hlocks hheld
  have hon : ∀ other, { w₁ with tables }.on other = w₁.on other := by
    intro other
    have hlock : lockUnder tables.locks w₁.objects other = lockUnder w₁.tables.locks w₁.objects other := by
      rw [lockUnder, hlocks other, htables]
      split
      · rename_i hgone
        obtain ⟨rfl, hgone⟩ := hgone
        have hfresh := hfair.fresh_of_nil (by rw [← hacts.here]; exact List.eq_nil_of_length_eq_zero hgone)
        rw [← hacts.here] at hfresh
        rw [← htables]
        exact hfresh.symm
      · rfl
    rw [on, hlock]
    rfl
  refine ⟨tables, hletGo, ⟨?_, ?_, ?_, ?_, ?_, ?_, ?_⟩, hon⟩
  · rw [hvisits, number_amend]
    exact h.ordered.sublist (List.filter_sublist.map _)
  · intro v' hv'
    have hseen : seen w₁.visits v'.key ≠ [] := List.ne_nil_of_mem (mem_on (w := w₁) hv')
    rw [hvisits] at hv'
    obtain ⟨v'', hv'', -, hkey'', hlock''⟩ := mem_amend hv'
    rw [hlocks, if_neg, ← hkey'', ← hlock'']
    · exact h.lock v'' (List.mem_filter.mp hv'').1
    · rintro ⟨heq, hnone⟩
      rw [heq] at hseen
      exact hseen (List.eq_nil_of_length_eq_zero hnone)
  · intro key lock hget
    rw [hlocks] at hget
    split at hget
    · cases hget
    · rw [hmade]
      exact h.made key lock hget
  · intro one two lock hone htwo
    rw [hlocks] at hone htwo
    split at hone
    · cases hone
    · split at htwo
      · cases htwo
      · exact h.apart one two lock hone htwo
  · intro key hmem
    obtain ⟨lock, hget⟩ := Dict.mem_iff_get?.mp hmem
    rw [hlocks] at hget
    split at hget
    · cases hget
    · rename_i hstays
      by_cases hsame : key = v.key
      · subst hsame
        intro hnil
        exact hstays ⟨rfl, by rw [hnil]; rfl⟩
      · rw [hother key hsame]
        exact h.present key (Dict.mem_iff_get?.mpr ⟨lock, hget⟩)
  · intro key
    rw [hheld]
    by_cases hsame : key = v.key
    · subst hsame
      rw [if_pos rfl]
      simp only [List.length_eq_zero_iff]
    · rw [if_neg hsame, h.holders key, hother key hsame]
  · intro key
    rw [hon]
    by_cases hsame : key = v.key
    · rw [hsame, hacts.here]
      exact hfair
    · rw [hacts.elsewhere key hsame]
      exact h.fair key

omit [DecidableEq Key] in
theorem acquire_tables : (w.acquire n key lock).tables = w.tables := by
  rw [acquire]
  split <;> rfl

omit [DecidableEq Key] in
theorem acquire_made : (w.acquire n key lock).made = w.made := by
  rw [acquire]
  split <;> rfl

omit [DecidableEq Key] in
theorem acquire_visits : ∃ stage, (w.acquire n key lock).visits = w.visits ++ [⟨n, key, lock, stage⟩] := by
  rw [acquire]
  split
  · exact ⟨.inside, rfl⟩
  · exact ⟨.pending, rfl⟩

theorem visits_lt (h : w.Kept) (hn : ∀ p ∈ w.asked, p.1 < n) : ∀ v ∈ w.visits, v.number < n := fun v hv ↦
  hn _ (mem_under.mp ((h.fair v.key).record.known (mem_on hv)))

theorem hold_kept (h : w.Kept) (hn : ∀ p ∈ w.asked, p.1 < n) (key : Key) : (w.hold n key).Kept := by
  obtain ⟨w', lock, hfound, hhold⟩ : ∃ w' lock, Found w w' key lock ∧
      w.hold n key = { w' with tables := w'.tables.count key }.acquire n key lock :=
    ⟨_, _, find_found h key, rfl⟩
  have hacts := hold_acts h n key
  have hfair : ((w.on key).ask n).Fair := (h.fair key).ask fun m hm ↦ hn _ (mem_under.mp hm)
  have hlt := visits_lt h hn
  have htables : (w.hold n key).tables = w'.tables.count key := by rw [hhold, acquire_tables]
  have hmade : (w.hold n key).made = w'.made := by rw [hhold, acquire_made]
  obtain ⟨stage, hvisits⟩ : ∃ stage, (w.hold n key).visits = w.visits ++ [⟨n, key, lock, stage⟩] := by
    rw [hhold, ← hfound.visits]
    exact acquire_visits
  have hseen (other : Key) : seen (w.hold n key).visits other =
      if key = other then seen w.visits other ++ [(n, stage)] else seen w.visits other := by
    rw [hvisits, seen_snoc]
  refine ⟨?_, ?_, ?_, ?_, ?_, ?_, ?_⟩
  · rw [hvisits, List.map_append, List.pairwise_append]
    refine ⟨h.ordered, List.pairwise_singleton _ _, fun m hm k hk ↦ ?_⟩
    obtain ⟨v, hv, rfl⟩ := List.mem_map.mp hm
    obtain rfl := List.mem_singleton.mp hk
    exact hlt v hv
  · rw [hvisits, htables]
    intro v hv
    rcases List.mem_append.mp hv with hv | hv
    · exact hfound.keeps v.key v.lock (h.lock v hv)
    · obtain rfl := List.mem_singleton.mp hv
      exact hfound.here
  · rw [htables, hmade]
    exact hfound.made
  · rw [htables]
    exact hfound.apart
  · intro other hmem
    rw [hseen]
    rw [htables] at hmem
    split
    · exact List.append_ne_nil_of_right_ne_nil _ (List.cons_ne_nil _ _)
    · rename_i hne
      obtain ⟨lock', hget⟩ := Dict.mem_iff_get?.mp hmem
      rw [KeyedLocks.count, hfound.elsewhere other (Ne.symm hne)] at hget
      exact h.present other (Dict.mem_iff_get?.mpr ⟨lock', hget⟩)
  · intro other
    rw [htables, hseen, KeyedLocks.count, hfound.holders, Dict.get?_set]
    by_cases hsame : other = key
    · subst hsame
      rw [if_pos rfl, if_pos rfl, h.holders other]
      by_cases hnil : seen w.visits other = [] <;> simp [hnil]
    · rw [if_neg hsame, if_neg (Ne.symm hsame), h.holders other]
  · intro other
    by_cases hsame : other = key
    · rw [hsame, hacts.here]
      exact hfair
    · rw [hacts.elsewhere other hsame]
      exact h.fair other

/-- The visits are the same ones at the same locks. -/
theorem amend_kept {q : Queue} {who : Option ℕ} {f : Stage → Stage} (h : w.Kept) (hacts : Acts key w w' q)
    (hfair : q.Fair) (htables : w'.tables = w.tables) (hmade : w'.made = w.made)
    (hvisits : w'.visits = amend w.visits who f) : w'.Kept := by
  have hlength (other : Key) : (seen w'.visits other).length = (seen w.visits other).length := by
    rw [hvisits, seen_amend, alter, List.length_map]
  have hnil (other : Key) : seen w'.visits other = [] ↔ seen w.visits other = [] := by
    rw [← List.length_eq_zero_iff, hlength, List.length_eq_zero_iff]
  refine ⟨?_, ?_, ?_, ?_, ?_, ?_, ?_⟩
  · rw [hvisits, number_amend]
    exact h.ordered
  · rw [hvisits, htables]
    intro v hv
    obtain ⟨v', hv', -, hkey, hlock⟩ := mem_amend hv
    rw [← hkey, ← hlock]
    exact h.lock v' hv'
  · rw [htables, hmade]
    exact h.made
  · rw [htables]
    exact h.apart
  · rw [htables]
    exact fun other hother ↦ (hnil other).not.mpr (h.present other hother)
  · intro other
    rw [htables, h.holders other, hlength]
    simp only [hnil]
  · intro other
    by_cases hsame : other = key
    · rw [hsame, hacts.here]
      exact hfair
    · rw [hacts.elsewhere other hsame]
      exact h.fair other

omit [DecidableEq Key] in
theorem acquireRaises_rest (w : World Key) (v : Visit Key) :
    (w.acquireRaises v).tables = w.tables ∧ (w.acquireRaises v).made = w.made ∧
      ∃ who, (w.acquireRaises v).visits = amend (drop w.visits v.number) who Stage.wake := by
  rw [acquireRaises]
  dsimp only
  split
  · exact ⟨rfl, rfl, none, (amend_none _ _).symm⟩
  · exact ⟨rfl, rfl, _, rfl⟩

/-- A cancelled wait goes on to the end of `hold` with its own exception. -/
theorem raise_ok (h : w.Kept) (hv : v ∈ w.visits) (hquits : v.stage.Quits) :
    ∃ w', w.raise v = .ok w' ∧ w'.Kept ∧ Acts v.key w w' ((w.on v.key).giveUp v.number) := by
  have hacts := acquireRaises_acts h hv
  have hfair := (h.fair v.key).giveUp (mem_on hv) hquits
  obtain ⟨htables, hmade, who, hvisits⟩ := acquireRaises_rest w v
  obtain ⟨tables, hletGo, hkept, hon⟩ := letGo_kept h hv hacts hfair htables hmade hvisits
  refine ⟨_, ?_, hkept, (hon _).trans hacts.here, fun other hne ↦ (hon _).trans (hacts.elsewhere other hne)⟩
  rw [raise, hletGo]
  rfl

/-- Who leaves the body of `hold` releases a lock that it has. -/
theorem leave_ok (h : w.Kept) (hv : v ∈ w.visits) (hinside : v.stage = .inside) :
    ∃ w', w.leave v = .ok w' ∧ w'.Kept ∧ Acts v.key w w' ((w.on v.key).leave v.number) := by
  have hfair := (h.fair v.key).leave (hinside ▸ mem_on hv)
  obtain ⟨w₁, hrelease, hacts, htables, hmade, who, hvisits⟩ := release_acts h hv hinside
  obtain ⟨tables, hletGo, hkept, hon⟩ := letGo_kept h hv hacts hfair htables hmade hvisits
  refine ⟨_, ?_, hkept, (hon _).trans hacts.here, fun other hne ↦ (hon _).trans (hacts.elsewhere other hne)⟩
  rw [leave, hrelease, Fallible.ok_bind, hletGo]
  rfl

/-- A step under a key is a step of that key's lock. -/
theorem Move.acts (h : w.Kept) (hmove : Move key w w') : w'.Kept ∧ ∃ q, (w.on key).Move q ∧ Acts key w w' q := by
  cases hmove with
  | hold hn => exact ⟨hold_kept h hn key, _, .ask fun m hm ↦ hn _ (mem_under.mp hm), hold_acts h _ key⟩
  | resume hv hstage =>
      have hwoken : (_, Stage.woken) ∈ (w.on _).visits := hstage ▸ mem_on hv
      have hacts := resume_acts h hv
      have hkept := @amend_kept _ _ _ _ _ _ _ (fun _ ↦ .inside) h hacts ((h.fair _).resume hwoken) rfl rfl rfl
      exact ⟨hkept, _, .resume hwoken, hacts⟩
  | cancel hv hstage =>
      have hacts := cancel_acts h hv
      have hkept := amend_kept h hacts ((h.fair _).cancel (mem_on hv) hstage) rfl rfl rfl
      exact ⟨hkept, _, .cancel (mem_on hv) hstage, hacts⟩
  | raise hv hquits hraise =>
      obtain ⟨_, hok, hkept, hacts⟩ := raise_ok h hv hquits
      obtain rfl := Except.ok.inj (hok.symm.trans hraise)
      exact ⟨hkept, _, .giveUp (mem_on hv) hquits, hacts⟩
  | leave hv hinside hleave =>
      obtain ⟨_, hok, hkept, hacts⟩ := leave_ok h hv hinside
      obtain rfl := Except.ok.inj (hok.symm.trans hleave)
      exact ⟨hkept, _, .leave (hinside ▸ mem_on hv), hacts⟩

theorem Reaches.kept (h : w.Kept) (hreaches : w.Reaches w') : w'.Kept := by
  induction hreaches with
  | refl => exact h
  | tail _ hmove ih =>
      obtain ⟨_, hmove⟩ := hmove
      exact (hmove.acts ih).1

/-! ## Any run -/

/-- What whoever calls `hold` relies on. -/
structure InTurn (w : World Key) : Prop where
  /-- No two are inside the same key. -/
  exclusive : ∀ v ∈ w.visits, ∀ v' ∈ w.visits, v.stage = .inside → v'.stage = .inside → v.key = v'.key → v = v'
  /-- Those that entered are the first that asked, without those that were cancelled. -/
  inOrder : ∀ key, under w.entries key <+: (under w.asked key).filter (· ∉ under w.cancels key)
  /-- Visits share a lock when they share a key, and only then. -/
  together : ∀ v ∈ w.visits, ∀ v' ∈ w.visits, v.lock = v'.lock ↔ v.key = v'.key
  /-- A visit that sleeps does so while another at its key is inside or about to go on. -/
  waits : ∀ v ∈ w.visits, v.stage = .pending → ∃ v' ∈ w.visits, v'.key = v.key ∧ v'.stage ≠ .pending
  /-- What is done under one key is not seen under another. -/
  alone : ∀ key w', Move key w w' → ∀ other, other ≠ key → w'.on other = w.on other
  /-- The lock of a visit is the one that the next visit to its key finds. -/
  visible : ∀ v ∈ w.visits, w.tables.locks.get? v.key = some v.lock ∧ (w.find v.key).2 = v.lock
  held : ∀ key, key ∈ w.tables.locks ↔ ∃ v ∈ w.visits, v.key = key
  counted : ∀ key, w.tables.holders.get? key =
    if ∃ v ∈ w.visits, v.key = key then some ((w.visits.countP (·.key = key) : ℕ) : ℤ) else none
  forgotten : w.visits = [] → w.tables.locks = ∅ ∧ w.tables.holders = ∅
  /-- Neither end of `hold` raises an exception of its own. -/
  ends : ∀ v ∈ w.visits, (v.stage = .inside → ∃ w', w.leave v = .ok w') ∧
    (v.stage.Quits → ∃ w', w.raise v = .ok w')

theorem seen_ne_nil : seen w.visits key ≠ [] ↔ ∃ v ∈ w.visits, v.key = key := by
  rw [seen, ne_eq, List.map_eq_nil_iff, List.filter_eq_nil_iff]
  simp

theorem Kept.held (h : w.Kept) (key : Key) : key ∈ w.tables.locks ↔ ∃ v ∈ w.visits, v.key = key := by
  constructor
  · exact fun hkey ↦ seen_ne_nil.mp (h.present key hkey)
  · rintro ⟨v, hv, rfl⟩
    exact Dict.mem_iff_get?.mpr ⟨_, h.lock v hv⟩

theorem Kept.inTurn (h : w.Kept) : w.InTurn where
  exclusive v hv v' hv' hinside hinside' hkey := by
    have hhere := mem_on hv
    have hthere := mem_on hv'
    rw [hinside] at hhere
    rw [hinside', ← hkey] at hthere
    have hnodup : (w.visits.map Visit.number).Nodup := h.ordered.imp fun hlt ↦ hlt.ne
    exact List.inj_on_of_nodup_map hnodup hv hv' ((h.fair v.key).exclusive hhere hthere)
  inOrder key := (h.fair key).first_asked
  together v hv v' hv' := by
    have hlock := h.lock v hv
    have hlock' := h.lock v' hv'
    constructor
    · intro heq
      exact h.apart _ _ v'.lock (heq ▸ hlock) hlock'
    · intro heq
      rw [heq] at hlock
      exact Option.some.inj (hlock.symm.trans hlock')
  waits v hv hpending := by
    obtain ⟨m, stage, hm, hstage⟩ := (h.fair v.key).awake_of_pending (hpending ▸ mem_on hv)
    obtain ⟨v', hv', hkey, -, rfl⟩ := mem_seen.mp hm
    exact ⟨v', hv', hkey, hstage⟩
  alone _ _ hmove := by
    obtain ⟨-, _, -, hacts⟩ := hmove.acts h
    exact hacts.elsewhere
  visible v hv := by
    have hlock := h.lock v hv
    refine ⟨hlock, ?_⟩
    rw [find, hlock]
  held := h.held
  counted key := by
    have hlength : (seen w.visits key).length = w.visits.countP (·.key = key) := by
      rw [seen, List.length_map, List.countP_eq_length_filter]
    rw [h.holders key, ← hlength]
    by_cases hnil : seen w.visits key = []
    · rw [if_pos hnil, if_neg (seen_ne_nil.not.mp (not_not.mpr hnil))]
    · rw [if_neg hnil, if_pos (seen_ne_nil.mp hnil)]
  forgotten hnil := by
    have hnone : ∀ key, seen w.visits key = [] := fun key ↦ by rw [hnil]; rfl
    constructor
    · exact Dict.eq_empty_of_get? fun key ↦ Dict.get?_eq_none_iff.mpr fun hkey ↦ h.present key hkey (hnone key)
    · exact Dict.eq_empty_of_get? fun key ↦ by rw [h.holders key, if_pos (hnone key)]
  ends v hv := by
    constructor
    · intro hinside
      obtain ⟨w', hleave, -⟩ := leave_ok h hv hinside
      exact ⟨w', hleave⟩
    · intro hquits
      obtain ⟨w', hraise, -⟩ := raise_ok h hv hquits
      exact ⟨w', hraise⟩

/-- Whatever the tasks do, in whatever order, each key is taken in turn and nothing is left
behind. -/
theorem hold_inTurn (hreaches : empty.Reaches w) : w.InTurn := (hreaches.kept kept_empty).inTurn

theorem hold_inTurn_two : (((empty : World String).hold 0 "order-1").hold 1 "order-1").InTurn :=
  hold_inTurn (.tail (.single ⟨_, .hold nofun⟩) ⟨_, .hold (by decide)⟩)

end World

end Ordering

end AcemqAmqp
