import Mathlib.Data.List.Sort
import Mathlib.Logic.Function.Basic

/-!
# A lock that is taken in turn

`asyncio.Lock`, with the visits that were made to it.  A visit that finds the
lock taken waits for a future.  A release wakes the first of those that wait,
and whoever is woken passes that on if it has been cancelled meanwhile.  The
numbers of the visits are in the order they asked in.
-/

namespace FairLock

/-- How far a visit is: its future has no result yet, it has one, it is cancelled, it has
a result and the visit is cancelled all the same, or the visit has the lock. -/
inductive Stage
  | pending
  | woken
  | cancelled
  | cancelling
  | inside
  deriving DecidableEq

namespace Stage

/-- `fut.set_result(True)`, unless it is done. -/
def wake : Stage → Stage
  | pending => woken
  | stage => stage

/-- `task.cancel()`, while the task waits for its future. -/
def cancel : Stage → Stage
  | pending => cancelled
  | woken => cancelling
  | stage => stage

/-- Its future has its result. -/
def Next (stage : Stage) : Prop := stage = woken ∨ stage = cancelling

/-- It has not been cancelled, and does not have the lock yet. -/
def Asks (stage : Stage) : Prop := stage = pending ∨ stage = woken

/-- It has been cancelled before it had the lock. -/
def Quits (stage : Stage) : Prop := stage = cancelled ∨ stage = cancelling

end Stage

structure Lock where
  locked : Bool
  waiters : List ℕ
  deriving DecidableEq

namespace Lock

/-- A lock nobody has asked for. -/
def fresh : Lock := ⟨false, []⟩

/-- `acquire` takes the lock without waiting. -/
def free (lock : Lock) (stageOf : ℕ → Option Stage) : Bool :=
  !lock.locked && lock.waiters.all fun n ↦ stageOf n = some .cancelled

/-- `self._waiters.remove(fut)`. -/
def without (lock : Lock) (n : ℕ) : Lock := { lock with waiters := lock.waiters.filter (· ≠ n) }

theorem free_congr {lock : Lock} {stageOf stageOf' : ℕ → Option Stage}
    (h : ∀ n ∈ lock.waiters, stageOf n = stageOf' n) : lock.free stageOf = lock.free stageOf' := by
  rw [free, free]
  congr 1
  rw [Bool.eq_iff_iff, List.all_eq_true, List.all_eq_true]
  exact forall₂_congr fun n hn ↦ by rw [h n hn]

end Lock

/-- A lock, the visits that wait for it or have it, and what has happened so far: who
asked, who got the lock, and who was cancelled while waiting. -/
structure Queue where
  lock : Lock
  visits : List (ℕ × Stage)
  asked : List ℕ
  entries : List ℕ
  cancels : List ℕ

/-- The visits with the stage of one of them changed. -/
def alter (visits : List (ℕ × Stage)) (who : Option ℕ) (f : Stage → Stage) : List (ℕ × Stage) :=
  visits.map fun p ↦ if some p.1 = who then (p.1, f p.2) else p

/-- The visits without one of them. -/
def gone (visits : List (ℕ × Stage)) (n : ℕ) : List (ℕ × Stage) := visits.filter (·.1 ≠ n)

namespace Queue

variable (q : Queue) (n : ℕ)

def stageOf (n : ℕ) : Option Stage := q.visits.lookup n

/-- `acquire`, up to its wait. -/
def ask : Queue :=
  if q.lock.free q.stageOf then
    { lock := { q.lock with locked := true }
      visits := q.visits ++ [(n, .inside)]
      asked := q.asked ++ [n]
      entries := q.entries ++ [n]
      cancels := q.cancels }
  else
    { lock := { q.lock with waiters := q.lock.waiters ++ [n] }
      visits := q.visits ++ [(n, .pending)]
      asked := q.asked ++ [n]
      entries := q.entries
      cancels := q.cancels }

/-- `acquire`, from its wait on. -/
def resume : Queue :=
  { q with
    lock := { q.lock.without n with locked := true }
    visits := alter q.visits (some n) fun _ ↦ .inside
    entries := q.entries ++ [n] }

/-- The visit is cancelled while it waits. -/
def cancel : Queue :=
  { q with
    visits := alter q.visits (some n) Stage.cancel
    cancels := q.cancels ++ [n] }

/-- `acquire`, from its wait on, when that raises `CancelledError`. -/
def giveUp : Queue :=
  { q with
    lock := q.lock.without n
    visits :=
      if q.lock.locked then gone q.visits n
      else alter (gone q.visits n) (q.lock.without n).waiters.head? Stage.wake }

/-- `release`. -/
def leave : Queue :=
  { q with
    lock := { q.lock with locked := false }
    visits := alter (gone q.visits n) q.lock.waiters.head? Stage.wake }

/-- What can happen next. -/
inductive Move : Queue → Queue → Prop
  | ask {q : Queue} {n : ℕ} : (∀ m ∈ q.asked, m < n) → Move q (q.ask n)
  | resume {q : Queue} {n : ℕ} : (n, .woken) ∈ q.visits → Move q (q.resume n)
  | cancel {q : Queue} {n : ℕ} {stage : Stage} : (n, stage) ∈ q.visits → stage ≠ .inside → Move q (q.cancel n)
  | giveUp {q : Queue} {n : ℕ} {stage : Stage} : (n, stage) ∈ q.visits → stage.Quits → Move q (q.giveUp n)
  | leave {q : Queue} {n : ℕ} : (n, .inside) ∈ q.visits → Move q (q.leave n)

end Queue

/-- Nobody has been here. -/
def Queue.empty : Queue := ⟨.fresh, [], [], [], []⟩

/-! ## Who is there -/

section visits

variable {visits : List (ℕ × Stage)} {n m : ℕ} {stage : Stage}

/-- The visits are in the order they asked in. -/
def Ordered (visits : List (ℕ × Stage)) : Prop := (visits.map Prod.fst).Pairwise (· < ·)

theorem Ordered.unique (h : Ordered visits) {stage stage' : Stage} (hn : (n, stage) ∈ visits)
    (hn' : (n, stage') ∈ visits) : stage = stage' := by
  have hnodup : (visits.map Prod.fst).Nodup := h.imp fun hlt ↦ hlt.ne
  have heq := List.inj_on_of_nodup_map hnodup hn hn' rfl
  exact (Prod.mk.inj heq).2

theorem mem_alter {f : Stage → Stage} : (m, stage) ∈ alter visits (some n) f ↔
    ∃ before, (m, before) ∈ visits ∧ stage = if m = n then f before else before := by
  rw [alter, List.mem_map]
  constructor
  · rintro ⟨⟨k, before⟩, hk, heq⟩
    by_cases hkn : k = n
    · rw [if_pos (congrArg some hkn)] at heq
      obtain ⟨rfl, rfl⟩ := Prod.mk.inj heq
      exact ⟨before, hk, (if_pos hkn).symm⟩
    · rw [if_neg fun h ↦ hkn (Option.some.inj h)] at heq
      obtain ⟨rfl, rfl⟩ := Prod.mk.inj heq
      exact ⟨before, hk, (if_neg hkn).symm⟩
  · rintro ⟨before, hm, rfl⟩
    refine ⟨(m, before), hm, ?_⟩
    by_cases hmn : m = n
    · rw [if_pos (congrArg some hmn), if_pos hmn]
    · rw [if_neg fun h ↦ hmn (Option.some.inj h), if_neg hmn]

@[simp] theorem fst_alter (visits : List (ℕ × Stage)) (who : Option ℕ) (f : Stage → Stage) :
    (alter visits who f).map Prod.fst = visits.map Prod.fst := by
  rw [alter, List.map_map]
  refine List.map_congr_left fun p _ ↦ ?_
  by_cases hp : some p.1 = who <;> simp [hp]

@[simp] theorem alter_none (visits : List (ℕ × Stage)) (f : Stage → Stage) : alter visits none f = visits := by
  rw [alter]
  exact (List.map_congr_left fun p _ ↦ if_neg nofun).trans (List.map_id _)

theorem alter_notMem {f : Stage → Stage} (h : n ∉ visits.map Prod.fst) : alter visits (some n) f = visits := by
  rw [alter]
  refine (List.map_congr_left fun p hp ↦ if_neg fun heq ↦ h ?_).trans (List.map_id _)
  obtain rfl := Option.some.inj heq
  exact List.mem_map_of_mem hp

theorem alter_cons_self {f : Stage → Stage} (h : Ordered ((n, stage) :: visits)) :
    alter ((n, stage) :: visits) (some n) f = (n, f stage) :: visits := by
  have hnot : n ∉ visits.map Prod.fst := fun hmem ↦ lt_irrefl n ((List.pairwise_cons.mp h).1 n hmem)
  rw [alter, List.map_cons, if_pos rfl, ← alter, alter_notMem hnot]

theorem alter_snoc {f : Stage → Stage} (h : n ∉ visits.map Prod.fst) :
    alter (visits ++ [(n, stage)]) (some n) f = visits ++ [(n, f stage)] := by
  have hkeep := @alter_notMem visits n f h
  rw [alter] at hkeep
  rw [alter, List.map_append, hkeep]
  simp

theorem mem_gone : (m, stage) ∈ gone visits n ↔ (m, stage) ∈ visits ∧ m ≠ n := by
  rw [gone, List.mem_filter]
  simp

theorem gone_notMem (h : n ∉ visits.map Prod.fst) : gone visits n = visits := by
  rw [gone, List.filter_eq_self]
  intro p hp
  have hne : p.1 ≠ n := fun heq ↦ h (heq ▸ List.mem_map_of_mem hp)
  simpa using hne

theorem length_gone (h : Ordered visits) (hn : (n, stage) ∈ visits) : (gone visits n).length + 1 = visits.length := by
  induction visits with
  | nil => cases hn
  | cons p visits ih =>
      obtain ⟨hfirst, hrest⟩ := List.pairwise_cons.mp h
      by_cases hp : p.1 = n
      · have hnot : n ∉ visits.map Prod.fst := fun hmem ↦ lt_irrefl _ (hp ▸ hfirst n hmem)
        have hkeep := gone_notMem hnot
        rw [gone] at hkeep
        rw [gone, List.filter_cons_of_neg (by simpa using hp), hkeep, List.length_cons]
      · have hmem : (n, stage) ∈ visits := by
          rcases List.mem_cons.mp hn with rfl | hmem
          · exact absurd rfl hp
          · exact hmem
        rw [gone, List.filter_cons_of_pos (by simpa using hp), List.length_cons, List.length_cons, ← gone,
          ih hrest hmem]

theorem Ordered.gone (h : Ordered visits) (n : ℕ) : Ordered (gone visits n) :=
  h.sublist (List.filter_sublist.map _)

theorem Ordered.alter (h : Ordered visits) (who : Option ℕ) (f : Stage → Stage) :
    Ordered (alter visits who f) := by
  rw [Ordered, fst_alter]
  exact h

theorem Ordered.snoc (h : Ordered visits) (hn : ∀ m ∈ visits.map Prod.fst, m < n) :
    Ordered (visits ++ [(n, stage)]) := by
  rw [Ordered, List.map_append, List.pairwise_append]
  refine ⟨h, List.pairwise_singleton _ _, fun m hm k hk ↦ ?_⟩
  obtain rfl := List.mem_singleton.mp hk
  exact hn m hm

/-- The visits that have futures, in their order. -/
def waiting (visits : List (ℕ × Stage)) : List ℕ := (visits.filter (·.2 ≠ .inside)).map Prod.fst

theorem lookup_eq_some_iff (h : Ordered visits) : visits.lookup n = some stage ↔ (n, stage) ∈ visits := by
  induction visits with
  | nil => simp
  | cons p visits ih =>
      obtain ⟨hhead, hrest⟩ := List.pairwise_cons.mp h
      rw [List.lookup_cons]
      by_cases hp : n = p.1
      · subst hp
        simp only [beq_self_eq_true, Option.some.injEq, List.mem_cons]
        constructor
        · rintro rfl
          exact .inl rfl
        · rintro (heq | hmem)
          · exact (Prod.mk.inj heq).2.symm ▸ rfl
          · exact absurd (hhead _ (List.mem_map_of_mem hmem)) (lt_irrefl _)
      · have hne : (n == p.1) = false := by simpa using hp
        rw [hne]
        simp only [ih hrest, List.mem_cons]
        refine ⟨.inr, ?_⟩
        rintro (rfl | hmem)
        · exact absurd rfl hp
        · exact hmem

end visits

/-! ## One has the lock, or one is woken -/

/-- One visit has the lock, and nobody has been woken. -/
def Taken (visits : List (ℕ × Stage)) : Prop :=
  (∃ n, (n, .inside) ∈ visits) ∧
    (∀ n m, (n, Stage.inside) ∈ visits → (m, Stage.inside) ∈ visits → n = m) ∧
    ∀ p ∈ visits, ¬p.2.Next

/-- Nobody has the lock, the first in line is not asleep, and nobody behind has been woken. -/
def Free (visits : List (ℕ × Stage)) : Prop :=
  (∀ p ∈ visits, p.2 ≠ .inside) ∧ (∀ p ∈ visits.head?, p.2 ≠ .pending) ∧ ∀ p ∈ visits.tail, ¬p.2.Next

/-- The lock says whether it is taken, and its waiters are those that wait. -/
structure Sound (lock : Lock) (visits : List (ℕ × Stage)) : Prop where
  ordered : Ordered visits
  waiters : lock.waiters = waiting visits
  taken : lock.locked = true → Taken visits
  free : lock.locked = false → Free visits

section sound

variable {lock : Lock} {visits : List (ℕ × Stage)} {n : ℕ} {stage : Stage}

theorem waiting_gone (visits : List (ℕ × Stage)) (n : ℕ) :
    waiting (gone visits n) = (waiting visits).filter (· ≠ n) := by
  rw [waiting, waiting, gone, List.filter_map, List.filter_filter, List.filter_filter]
  congr 1
  refine List.filter_congr fun p _ ↦ ?_
  rw [Bool.and_comm]
  rfl

theorem waiting_alter {f : Stage → Stage} (hf : ∀ stage, f stage = .inside ↔ stage = .inside)
    (visits : List (ℕ × Stage)) (who : Option ℕ) : waiting (alter visits who f) = waiting visits := by
  induction visits with
  | nil => rfl
  | cons p visits ih =>
      have hstep : waiting (alter (p :: visits) who f) =
          waiting [if some p.1 = who then (p.1, f p.2) else p] ++ waiting (alter visits who f) := by
        simp only [waiting, alter, ← List.map_append, ← List.filter_append]
        rfl
      have hcons : waiting (p :: visits) = waiting [p] ++ waiting visits := by
        simp only [waiting, ← List.map_append, ← List.filter_append]
        rfl
      rw [hstep, hcons, ih]
      congr 1
      by_cases hp : some p.1 = who
      · by_cases hinside : p.2 = .inside
        · simp [waiting, hp, hinside, (hf _).mpr]
        · simp [waiting, hp, hinside, (hf _).not.mpr]
      · rw [if_neg hp]

theorem wake_inside (stage : Stage) : stage.wake = .inside ↔ stage = .inside := by cases stage <;> decide

theorem cancel_inside (stage : Stage) : stage.cancel = .inside ↔ stage = .inside := by cases stage <;> decide

theorem next_cancel (stage : Stage) : stage.cancel.Next ↔ stage.Next := by
  cases stage <;> simp [Stage.cancel, Stage.Next]

theorem cancel_ne_pending (stage : Stage) : stage.cancel ≠ .pending := by cases stage <;> decide

theorem wake_ne_pending (stage : Stage) : stage.wake ≠ .pending := by cases stage <;> decide

/-- The first in line is woken, and the rest sleeps on. -/
theorem free_wake {rest : List (ℕ × Stage)} (hordered : Ordered rest) (hinside : ∀ p ∈ rest, p.2 ≠ .inside)
    (htail : ∀ p ∈ rest.tail, ¬p.2.Next) : Free (alter rest (waiting rest).head? Stage.wake) := by
  cases rest with
  | nil => exact ⟨nofun, nofun, nofun⟩
  | cons p rest =>
      have hp := hinside p List.mem_cons_self
      have hhead : (waiting (p :: rest)).head? = some p.1 := by simp [waiting, hp]
      rw [hhead, alter_cons_self hordered]
      refine ⟨?_, ?_, htail⟩
      · intro p' hp'
        rcases List.mem_cons.mp hp' with rfl | hp'
        · exact (wake_inside p.2).not.mpr hp
        · exact hinside p' (List.mem_cons_of_mem _ hp')
      · intro p' hp'
        obtain rfl := Option.some.inj hp'
        exact wake_ne_pending p.2

namespace Sound

theorem locked_of_inside (h : Sound lock visits) (hn : (n, .inside) ∈ visits) : lock.locked = true := by
  by_contra hfree
  exact (h.free (by simpa using hfree)).1 _ hn rfl

/-- Who has been woken is the first in line, and the lock is free. -/
theorem head_of_next (h : Sound lock visits) (hn : (n, stage) ∈ visits) (hnext : stage.Next) :
    lock.locked = false ∧ ∃ rest, visits = (n, stage) :: rest := by
  have hfree : lock.locked = false := by
    by_contra htaken
    exact (h.taken (by simpa using htaken)).2.2 _ hn hnext
  refine ⟨hfree, ?_⟩
  cases visits with
  | nil => cases hn
  | cons p rest =>
      rcases List.mem_cons.mp hn with rfl | hn
      · exact ⟨rest, rfl⟩
      · exact absurd hnext ((h.free hfree).2.2 _ hn)

theorem stageOf_waiter (h : Sound lock visits) {p : ℕ × Stage} (hp : p ∈ visits) (hinside : p.2 ≠ .inside)
    (hfree : lock.free (fun n ↦ visits.lookup n) = true) : p.2 = .cancelled := by
  rw [Lock.free, Bool.and_eq_true, List.all_eq_true] at hfree
  have hmem : p.1 ∈ lock.waiters := by
    rw [h.waiters, waiting]
    exact List.mem_map_of_mem (List.mem_filter.mpr ⟨hp, by simpa using hinside⟩)
  have hlookup : visits.lookup p.1 = some .cancelled := of_decide_eq_true (hfree.2 _ hmem)
  exact h.ordered.unique hp ((lookup_eq_some_iff h.ordered).mp hlookup)

/-- A visit that takes the lock at once finds nobody but visits that are cancelled. -/
theorem ask_free (h : Sound lock visits) (hfree : lock.free (fun n ↦ visits.lookup n) = true)
    (hn : ∀ m ∈ visits.map Prod.fst, m < n) :
    (∀ p ∈ visits, p.2 = .cancelled) ∧ Sound { lock with locked := true } (visits ++ [(n, .inside)]) := by
  have hunlocked : lock.locked = false := by
    rw [Lock.free, Bool.and_eq_true] at hfree
    simpa using hfree.1
  have hcancelled : ∀ p ∈ visits, p.2 = .cancelled := fun p hp ↦
    h.stageOf_waiter hp ((h.free hunlocked).1 p hp) hfree
  refine ⟨hcancelled, h.ordered.snoc hn, ?_, fun _ ↦ ⟨⟨n, by simp⟩, ?_, ?_⟩, nofun⟩
  · simp [h.waiters, waiting]
  · have honly : ∀ m, (m, Stage.inside) ∈ visits ++ [(n, Stage.inside)] → m = n := by
      intro m hm
      rcases List.mem_append.mp hm with hm | hm
      · cases hcancelled _ hm
      · exact (Prod.mk.inj (List.mem_singleton.mp hm)).1
    intro m m' hm hm'
    rw [honly m hm, honly m' hm']
  · intro p hp
    rcases List.mem_append.mp hp with hp | hp
    · rw [hcancelled p hp]
      simp [Stage.Next]
    · rw [List.mem_singleton.mp hp]
      simp [Stage.Next]

theorem ask_taken (h : Sound lock visits) (hfree : lock.free (fun n ↦ visits.lookup n) = false)
    (hn : ∀ m ∈ visits.map Prod.fst, m < n) :
    Sound { lock with waiters := lock.waiters ++ [n] } (visits ++ [(n, .pending)]) := by
  have hnext : ¬(n, Stage.pending).2.Next := by simp [Stage.Next]
  refine ⟨h.ordered.snoc hn, ?_, fun hlocked ↦ ?_, fun hunlocked ↦ ?_⟩
  · simp [h.waiters, waiting]
  · obtain ⟨⟨m, hm⟩, hone, hsleep⟩ := h.taken hlocked
    refine ⟨⟨m, List.mem_append_left _ hm⟩, ?_, ?_⟩
    · intro k k' hk hk'
      exact hone k k' (by simpa using hk) (by simpa using hk')
    · intro p hp
      rcases List.mem_append.mp hp with hp | hp
      · exact hsleep p hp
      · rwa [List.mem_singleton.mp hp]
  · have hunlocked : lock.locked = false := hunlocked
    obtain ⟨hinside, hhead, htail⟩ := h.free hunlocked
    have hsome : visits ≠ [] := by
      rintro rfl
      rw [Lock.free, hunlocked, h.waiters] at hfree
      cases hfree
    obtain ⟨p, rest, rfl⟩ := List.exists_cons_of_ne_nil hsome
    refine ⟨?_, hhead, ?_⟩
    · intro p' hp'
      rcases List.mem_append.mp hp' with hp' | hp'
      · exact hinside p' hp'
      · rw [List.mem_singleton.mp hp']
        exact Stage.noConfusion
    · intro p' hp'
      rcases List.mem_append.mp hp' with hp' | hp'
      · exact htail p' hp'
      · rwa [List.mem_singleton.mp hp']

theorem resume (h : Sound lock visits) (hn : (n, .woken) ∈ visits) :
    Sound { lock.without n with locked := true } (alter visits (some n) fun _ ↦ .inside) := by
  obtain ⟨hunlocked, rest, rfl⟩ := h.head_of_next hn (.inl rfl)
  obtain ⟨hinside, -, htail⟩ := h.free hunlocked
  have hordered := h.ordered.alter (some n) fun _ ↦ .inside
  rw [alter_cons_self h.ordered] at hordered ⊢
  refine ⟨hordered, ?_, fun _ ↦ ⟨⟨n, List.mem_cons_self⟩, ?_, ?_⟩, nofun⟩
  · have hnot : n ∉ waiting rest := by
      intro hmem
      obtain ⟨p, hp, hpn⟩ := List.mem_map.mp hmem
      have hlt := (List.pairwise_cons.mp h.ordered).1 _ (List.mem_map_of_mem (List.mem_filter.mp hp).1)
      exact hlt.ne hpn.symm
    have hwaiting : waiting ((n, .woken) :: rest) = n :: waiting rest := rfl
    rw [Lock.without, h.waiters, hwaiting, List.filter_cons_of_neg (by simp)]
    exact List.filter_eq_self.mpr fun m hm ↦ by simpa using fun heq : m = n ↦ hnot (heq ▸ hm)
  · have honly : ∀ m, (m, Stage.inside) ∈ (n, Stage.inside) :: rest → m = n := by
      intro m hm
      rcases List.mem_cons.mp hm with hm | hm
      · exact (Prod.mk.inj hm).1
      · exact absurd rfl (hinside _ (List.mem_cons_of_mem _ hm))
    intro m m' hm hm'
    rw [honly m hm, honly m' hm']
  · intro p hp
    rcases List.mem_cons.mp hp with rfl | hp
    · simp [Stage.Next]
    · exact htail p hp

theorem cancel (h : Sound lock visits) (n : ℕ) : Sound lock (alter visits (some n) Stage.cancel) := by
  have hsame : ∀ p ∈ alter visits (some n) Stage.cancel, ∃ p' ∈ visits,
      p'.1 = p.1 ∧ (p.2 = .inside ↔ p'.2 = .inside) ∧ (p.2.Next ↔ p'.2.Next) := by
    rintro ⟨m, stage⟩ hm
    obtain ⟨before, hbefore, rfl⟩ := mem_alter.mp hm
    refine ⟨_, hbefore, rfl, ?_⟩
    split
    · exact ⟨cancel_inside before, next_cancel before⟩
    · exact ⟨Iff.rfl, Iff.rfl⟩
  have hinsideOf {m : ℕ} (hm : (m, .inside) ∈ alter visits (some n) Stage.cancel) : (m, .inside) ∈ visits := by
    obtain ⟨⟨m', stage⟩, hmem, rfl, hinside, -⟩ := hsame _ hm
    obtain rfl : stage = .inside := hinside.mp rfl
    exact hmem
  refine ⟨h.ordered.alter _ _, ?_, fun hlocked ↦ ?_, fun hunlocked ↦ ?_⟩
  · rw [waiting_alter cancel_inside, h.waiters]
  · obtain ⟨⟨m, hm⟩, hone, hsleep⟩ := h.taken hlocked
    refine ⟨⟨m, mem_alter.mpr ⟨_, hm, ?_⟩⟩, fun k k' hk hk' ↦ hone k k' (hinsideOf hk) (hinsideOf hk'), ?_⟩
    · split <;> rfl
    · intro p hp
      obtain ⟨p', hp', -, -, hnext⟩ := hsame p hp
      exact hnext.not.mpr (hsleep p' hp')
  · obtain ⟨hinside, hhead, htail⟩ := h.free hunlocked
    cases visits with
    | nil => exact ⟨nofun, nofun, nofun⟩
    | cons p rest =>
        refine ⟨?_, ?_, ?_⟩
        · rintro ⟨m, stage⟩ hm rfl
          exact hinside _ (hinsideOf hm) rfl
        · intro p' hp'
          obtain rfl := Option.some.inj hp'
          have hp := hhead p rfl
          dsimp only
          split
          · exact cancel_ne_pending p.2
          · exact hp
        · intro p' hp'
          obtain ⟨p'', hp'', rfl⟩ := List.mem_map.mp hp'
          have hsleep := htail p'' hp''
          split
          · exact (next_cancel p''.2).not.mpr hsleep
          · exact hsleep

theorem giveUp (h : Sound lock visits) (hn : (n, stage) ∈ visits) (hstage : stage ≠ .inside) :
    Sound (lock.without n) (if lock.locked then gone visits n
      else alter (gone visits n) (lock.without n).waiters.head? Stage.wake) := by
  have hwaiters : (lock.without n).waiters = waiting (gone visits n) := by
    rw [waiting_gone, Lock.without, h.waiters]
  split
  · rename_i hlocked
    refine ⟨h.ordered.gone n, hwaiters, fun _ ↦ ?_, fun hunlocked ↦ ?_⟩
    · obtain ⟨⟨m, hm⟩, hone, hsleep⟩ := h.taken hlocked
      refine ⟨⟨m, mem_gone.mpr ⟨hm, ?_⟩⟩, ?_, fun p hp ↦ hsleep p (mem_gone.mp hp).1⟩
      · rintro rfl
        exact hstage (h.ordered.unique hn hm)
      · exact fun k k' hk hk' ↦ hone k k' (mem_gone.mp hk).1 (mem_gone.mp hk').1
    · exact absurd (hlocked.symm.trans hunlocked) (by decide)
  · rename_i hlocked
    obtain ⟨hinside, -, htail⟩ := h.free (by simpa using hlocked)
    refine ⟨(h.ordered.gone n).alter _ _, ?_, fun htaken ↦ absurd htaken hlocked, fun _ ↦ ?_⟩
    · rw [waiting_alter wake_inside, hwaiters]
    · rw [hwaiters]
      refine free_wake (h.ordered.gone n) (fun p hp ↦ hinside p (mem_gone.mp hp).1) ?_
      intro p hp
      cases visits with
      | nil => cases hp
      | cons first rest =>
          by_cases hfirst : first.1 = n
          · rw [gone, List.filter_cons_of_neg (by simpa using hfirst)] at hp
            exact htail p (List.mem_filter.mp (List.mem_of_mem_tail hp)).1
          · rw [gone, List.filter_cons_of_pos (by simpa using hfirst)] at hp
            exact htail p (List.mem_filter.mp hp).1

theorem leave (h : Sound lock visits) (hn : (n, .inside) ∈ visits) :
    Sound { lock with locked := false } (alter (gone visits n) lock.waiters.head? Stage.wake) := by
  obtain ⟨-, hone, hsleep⟩ := h.taken (h.locked_of_inside hn)
  have hwaiters : lock.waiters = waiting (gone visits n) := by
    rw [waiting_gone, h.waiters]
    refine (List.filter_eq_self.mpr fun m hm ↦ ?_).symm
    obtain ⟨p, hp, rfl⟩ := List.mem_map.mp hm
    obtain ⟨hp, hstage⟩ := List.mem_filter.mp hp
    have hne : p.1 ≠ n := by
      rintro rfl
      rw [h.ordered.unique hp hn] at hstage
      cases hstage
    simpa using hne
  refine ⟨(h.ordered.gone n).alter _ _, ?_, nofun, fun _ ↦ ?_⟩
  · rw [waiting_alter wake_inside]
    exact hwaiters
  · rw [hwaiters]
    refine free_wake (h.ordered.gone n) ?_ fun p hp ↦ hsleep p (mem_gone.mp (List.mem_of_mem_tail hp)).1
    rintro ⟨m, stage⟩ hm rfl
    exact (mem_gone.mp hm).2 (hone m n (mem_gone.mp hm).1 hn)

end Sound

end sound

/-! ## Who had it, in which order -/

/-- Who asked, who got the lock and who was cancelled, beside the visits that are there. -/
structure Record (visits : List (ℕ × Stage)) (asked entries cancels : List ℕ) : Prop where
  sorted : asked.Pairwise (· < ·)
  known {n stage} : (n, stage) ∈ visits → n ∈ asked
  accounted {n} : n ∈ asked → n ∈ visits.map Prod.fst ∨ n ∈ entries ∨ n ∈ cancels
  entered {n} : (n, .inside) ∈ visits → n ∈ entries
  quit {n stage} : (n, stage) ∈ visits → stage.Quits → n ∈ cancels
  stayed {n stage} : (n, stage) ∈ visits → stage.Asks → n ∉ cancels
  ahead {n stage} : (n, stage) ∈ visits → stage.Asks → ∀ e ∈ entries, e < n
  prior {n} : n ∈ entries ∨ n ∈ cancels → n ∈ asked
  apart {n} : n ∈ cancels → n ∉ entries
  inOrder : entries.Pairwise (· < ·)
  turn {e n} : e ∈ entries → n ∈ asked → n < e → n ∈ entries ∨ n ∈ cancels

namespace Record

variable {visits : List (ℕ × Stage)} {asked entries cancels : List ℕ} {n : ℕ} {stage : Stage}

theorem empty : Record [] [] [] [] := by constructor <;> simp

theorem visits_lt (h : Record visits asked entries cancels) (hn : ∀ m ∈ asked, m < n) :
    ∀ m ∈ visits.map Prod.fst, m < n := by
  intro m hm
  obtain ⟨p, hp, rfl⟩ := List.mem_map.mp hm
  exact hn _ (h.known hp)

theorem mem_snoc {m : ℕ} {before : Stage} (h : (m, before) ∈ visits ++ [(n, stage)]) :
    (m, before) ∈ visits ∨ m = n ∧ before = stage :=
  (List.mem_append.mp h).imp_right fun hm ↦ Prod.mk.inj (List.mem_singleton.mp hm)

theorem not_asks (hasks : stage.Asks) (hinside : stage = .inside) : False := by
  subst hinside
  rcases hasks with h | h <;> cases h

/-- Who comes last. -/
theorem ask (h : Record visits asked entries cancels) (hn : ∀ m ∈ asked, m < n) :
    Record (visits ++ [(n, .pending)]) (asked ++ [n]) entries cancels where
  sorted := List.pairwise_append.mpr ⟨h.sorted, List.pairwise_singleton _ _, by simpa using hn⟩
  known hp := by
    rcases mem_snoc hp with hp | ⟨rfl, -⟩
    · exact List.mem_append_left _ (h.known hp)
    · exact List.mem_append_right _ List.mem_cons_self
  accounted hm := by
    rw [List.map_append, List.mem_append, or_assoc]
    rcases List.mem_append.mp hm with hm | hm
    · exact (h.accounted hm).imp_right .inr
    · exact .inr (.inl hm)
  entered hp := by
    rcases mem_snoc hp with hp | ⟨-, hinside⟩
    · exact h.entered hp
    · cases hinside
  quit hp hquits := by
    rcases mem_snoc hp with hp | ⟨-, rfl⟩
    · exact h.quit hp hquits
    · rcases hquits with hquits | hquits <;> cases hquits
  stayed hp hasks := by
    rcases mem_snoc hp with hp | ⟨rfl, -⟩
    · exact h.stayed hp hasks
    · exact fun hmem ↦ lt_irrefl _ (hn _ (h.prior (.inr hmem)))
  ahead hp hasks e he := by
    rcases mem_snoc hp with hp | ⟨rfl, -⟩
    · exact h.ahead hp hasks e he
    · exact hn e (h.prior (.inl he))
  prior hm := List.mem_append_left _ (h.prior hm)
  apart := h.apart
  inOrder := h.inOrder
  turn he hm hlt := by
    rcases List.mem_append.mp hm with hm | hm
    · exact h.turn he hm hlt
    · rw [List.mem_singleton.mp hm] at hlt
      exact absurd (hn _ (h.prior (.inl he))) hlt.asymm

/-- Who gets the lock is the first of those that still ask for it. -/
theorem enter (h : Record visits asked entries cancels) (hn : (n, stage) ∈ visits) (hasks : stage.Asks)
    (hfirst : ∀ m before, (m, before) ∈ visits → before.Asks → n ≤ m) :
    Record (alter visits (some n) fun _ ↦ .inside) asked (entries ++ [n]) cancels where
  sorted := h.sorted
  known hp := by
    obtain ⟨before, hbefore, -⟩ := mem_alter.mp hp
    exact h.known hbefore
  accounted hm := by
    rw [fst_alter]
    exact (h.accounted hm).imp_right (Or.imp_left (List.mem_append_left _))
  entered {m} hp := by
    obtain ⟨before, hbefore, heq⟩ := mem_alter.mp hp
    by_cases hmn : m = n
    · exact List.mem_append_right _ (List.mem_singleton.mpr hmn)
    · rw [if_neg hmn] at heq
      exact List.mem_append_left _ (h.entered (heq ▸ hbefore))
  quit {m} _ hp hquits := by
    obtain ⟨before, hbefore, rfl⟩ := mem_alter.mp hp
    by_cases hmn : m = n
    · rw [if_pos hmn] at hquits
      rcases hquits with hquits | hquits <;> cases hquits
    · rw [if_neg hmn] at hquits
      exact h.quit hbefore hquits
  stayed {m} _ hp hasks := by
    obtain ⟨before, hbefore, rfl⟩ := mem_alter.mp hp
    by_cases hmn : m = n
    · exact (not_asks hasks (if_pos hmn)).elim
    · rw [if_neg hmn] at hasks
      exact h.stayed hbefore hasks
  ahead {m} _ hp hasks e he := by
    obtain ⟨before, hbefore, rfl⟩ := mem_alter.mp hp
    by_cases hmn : m = n
    · exact (not_asks hasks (if_pos hmn)).elim
    · rw [if_neg hmn] at hasks
      rcases List.mem_append.mp he with he | he
      · exact h.ahead hbefore hasks e he
      · rw [List.mem_singleton.mp he]
        exact lt_of_le_of_ne (hfirst m before hbefore hasks) (Ne.symm hmn)
  prior hm := by
    rw [List.mem_append, List.mem_singleton, or_right_comm] at hm
    rcases hm with hm | rfl
    · exact h.prior hm
    · exact h.known hn
  apart hm he := by
    rcases List.mem_append.mp he with he | he
    · exact h.apart hm he
    · rw [List.mem_singleton.mp he] at hm
      exact h.stayed hn hasks hm
  inOrder := by
    refine List.pairwise_append.mpr ⟨h.inOrder, List.pairwise_singleton _ _, fun e he m hm ↦ ?_⟩
    rw [List.mem_singleton.mp hm]
    exact h.ahead hn hasks e he
  turn {e m} he hm hlt := by
    rcases List.mem_append.mp he with he | he
    · exact (h.turn he hm hlt).imp_left (List.mem_append_left _)
    · rw [List.mem_singleton.mp he] at hlt
      rcases h.accounted hm with hvisit | hdone
      · obtain ⟨⟨_, before⟩, hp, rfl⟩ := List.mem_map.mp hvisit
        -- Whoever came earlier and is still there has been cancelled, or it has had the lock.
        cases before with
        | pending => exact absurd (hfirst _ _ hp (.inl rfl)) hlt.not_ge
        | woken => exact absurd (hfirst _ _ hp (.inr rfl)) hlt.not_ge
        | cancelled => exact .inr (h.quit hp (.inl rfl))
        | cancelling => exact .inr (h.quit hp (.inr rfl))
        | inside => exact .inl (List.mem_append_left _ (h.entered hp))
      · exact hdone.imp_left (List.mem_append_left _)

theorem not_asks_cancel (hasks : stage.cancel.Asks) : False := by
  cases stage <;> rcases hasks with h | h <;> cases h

theorem notMem_entries (h : Record visits asked entries cancels) (hn : (n, stage) ∈ visits)
    (hstage : stage ≠ .inside) : n ∉ entries := by
  have hasks (hasks : stage.Asks) : n ∉ entries := fun he ↦ lt_irrefl n (h.ahead hn hasks n he)
  cases stage with
  | pending => exact hasks (.inl rfl)
  | woken => exact hasks (.inr rfl)
  | cancelled => exact h.apart (h.quit hn (.inl rfl))
  | cancelling => exact h.apart (h.quit hn (.inr rfl))
  | inside => exact absurd rfl hstage

theorem cancel (h : Record visits asked entries cancels) (hn : (n, stage) ∈ visits)
    (hstage : stage ≠ .inside) : Record (alter visits (some n) Stage.cancel) asked entries (cancels ++ [n]) where
  sorted := h.sorted
  known hp := by
    obtain ⟨before, hbefore, -⟩ := mem_alter.mp hp
    exact h.known hbefore
  accounted hm := by
    rw [fst_alter]
    exact (h.accounted hm).imp_right (Or.imp_right (List.mem_append_left _))
  entered {m} hp := by
    obtain ⟨before, hbefore, heq⟩ := mem_alter.mp hp
    by_cases hmn : m = n
    · rw [if_pos hmn, eq_comm, cancel_inside] at heq
      exact h.entered (heq ▸ hbefore)
    · rw [if_neg hmn] at heq
      exact h.entered (heq ▸ hbefore)
  quit {m} _ hp hquits := by
    obtain ⟨before, hbefore, rfl⟩ := mem_alter.mp hp
    by_cases hmn : m = n
    · exact List.mem_append_right _ (List.mem_singleton.mpr hmn)
    · rw [if_neg hmn] at hquits
      exact List.mem_append_left _ (h.quit hbefore hquits)
  stayed {m} _ hp hasks hmem := by
    obtain ⟨before, hbefore, rfl⟩ := mem_alter.mp hp
    by_cases hmn : m = n
    · rw [if_pos hmn] at hasks
      exact not_asks_cancel hasks
    · rw [if_neg hmn] at hasks
      rcases List.mem_append.mp hmem with hmem | hmem
      · exact h.stayed hbefore hasks hmem
      · exact hmn (List.mem_singleton.mp hmem)
  ahead {m} _ hp hasks := by
    obtain ⟨before, hbefore, rfl⟩ := mem_alter.mp hp
    by_cases hmn : m = n
    · rw [if_pos hmn] at hasks
      exact (not_asks_cancel hasks).elim
    · rw [if_neg hmn] at hasks
      exact h.ahead hbefore hasks
  prior hm := by
    rw [List.mem_append, List.mem_singleton, ← or_assoc] at hm
    rcases hm with hm | rfl
    · exact h.prior hm
    · exact h.known hn
  apart hm := by
    rcases List.mem_append.mp hm with hm | hm
    · exact h.apart hm
    · rw [List.mem_singleton.mp hm]
      exact h.notMem_entries hn hstage
  inOrder := h.inOrder
  turn he hm hlt := (h.turn he hm hlt).imp_right (List.mem_append_left _)

theorem quits_wake (stage : Stage) : stage.wake.Quits ↔ stage.Quits := by
  cases stage <;> simp [Stage.Quits, Stage.wake]

theorem asks_wake (stage : Stage) : stage.wake.Asks ↔ stage.Asks := by
  cases stage <;> simp [Stage.Asks, Stage.wake]

theorem wake (h : Record visits asked entries cancels) (who : Option ℕ) :
    Record (alter visits who Stage.wake) asked entries cancels := by
  have hsame {m : ℕ} {after : Stage} (hm : (m, after) ∈ alter visits who Stage.wake) :
      ∃ before, (m, before) ∈ visits ∧ (after = .inside ↔ before = .inside) ∧
        (after.Quits ↔ before.Quits) ∧ (after.Asks ↔ before.Asks) := by
    cases who with
    | none =>
        rw [alter_none] at hm
        exact ⟨after, hm, Iff.rfl, Iff.rfl, Iff.rfl⟩
    | some n =>
        obtain ⟨before, hbefore, rfl⟩ := mem_alter.mp hm
        refine ⟨before, hbefore, ?_⟩
        split
        · exact ⟨wake_inside before, quits_wake before, asks_wake before⟩
        · exact ⟨Iff.rfl, Iff.rfl, Iff.rfl⟩
  refine ⟨h.sorted, ?_, ?_, ?_, ?_, ?_, ?_, h.prior, h.apart, h.inOrder, h.turn⟩
  · intro m after hm
    obtain ⟨before, hbefore, -⟩ := hsame hm
    exact h.known hbefore
  · intro m hm
    rw [fst_alter]
    exact h.accounted hm
  · intro m hm
    obtain ⟨before, hbefore, hinside, -⟩ := hsame hm
    exact h.entered (hinside.mp rfl ▸ hbefore)
  · intro m after hm hquits
    obtain ⟨before, hbefore, -, hsame, -⟩ := hsame hm
    exact h.quit hbefore (hsame.mp hquits)
  · intro m after hm hasks
    obtain ⟨before, hbefore, -, -, hsame⟩ := hsame hm
    exact h.stayed hbefore (hsame.mp hasks)
  · intro m after hm hasks
    obtain ⟨before, hbefore, -, -, hsame⟩ := hsame hm
    exact h.ahead hbefore (hsame.mp hasks)

/-- Who goes has had the lock, or was cancelled. -/
theorem gone (h : Record visits asked entries cancels) (hn : n ∈ entries ∨ n ∈ cancels) :
    Record (gone visits n) asked entries cancels where
  sorted := h.sorted
  known hm := h.known (mem_gone.mp hm).1
  accounted {m} hm := by
    rcases h.accounted hm with hvisit | hdone
    · by_cases hmn : m = n
      · exact .inr (hmn ▸ hn)
      · obtain ⟨p, hp, rfl⟩ := List.mem_map.mp hvisit
        exact .inl (List.mem_map_of_mem (mem_gone.mpr ⟨hp, hmn⟩))
    · exact .inr hdone
  entered hm := h.entered (mem_gone.mp hm).1
  quit hm := h.quit (mem_gone.mp hm).1
  stayed hm := h.stayed (mem_gone.mp hm).1
  ahead hm := h.ahead (mem_gone.mp hm).1
  prior := h.prior
  apart := h.apart
  inOrder := h.inOrder
  turn := h.turn

end Record

/-- A list that takes nothing before what comes earlier begins the other. -/
theorem prefix_of_earlier {taken line : List ℕ} (htaken : taken.Pairwise (· < ·)) (hline : line.Pairwise (· < ·))
    (hsub : ∀ e ∈ taken, e ∈ line) (hearlier : ∀ e ∈ taken, ∀ n ∈ line, n < e → n ∈ taken) :
    taken <+: line := by
  induction taken generalizing line with
  | nil => exact List.nil_prefix
  | cons e taken ih =>
      obtain ⟨hefirst, hrest⟩ := List.pairwise_cons.mp htaken
      cases line with
      | nil => cases hsub e List.mem_cons_self
      | cons n line =>
          obtain ⟨hnfirst, hbehind⟩ := List.pairwise_cons.mp hline
          have hne : n = e := by
            rcases List.mem_cons.mp (hsub e List.mem_cons_self) with heq | he
            · exact heq.symm
            · have hlt := hnfirst e he
              rcases List.mem_cons.mp (hearlier e List.mem_cons_self n List.mem_cons_self hlt) with heq | hn
              · exact heq
              · exact absurd (hefirst n hn) hlt.asymm
          subst hne
          refine List.cons_prefix_cons.mpr ⟨rfl, ih hrest hbehind (fun m hm ↦ ?_) fun m hm k hk hlt ↦ ?_⟩
          · exact List.mem_of_ne_of_mem (hefirst m hm).ne' (hsub m (List.mem_cons_of_mem _ hm))
          · have hmem := hearlier m (List.mem_cons_of_mem _ hm) k (List.mem_cons_of_mem _ hk) hlt
            exact List.mem_of_ne_of_mem (hnfirst k hk).ne' hmem

/-! ## Any run -/

/-- The lock and the visits agree, and so do the visits and what has happened. -/
structure Queue.Fair (q : Queue) : Prop where
  sound : Sound q.lock q.visits
  record : Record q.visits q.asked q.entries q.cancels

namespace Queue

variable {q q' : Queue} {n : ℕ}

theorem fair_empty : Fair .empty where
  sound := ⟨List.Pairwise.nil, rfl, nofun, fun _ ↦ ⟨nofun, nofun, nofun⟩⟩
  record := Record.empty

namespace Fair

theorem ask (h : q.Fair) (hn : ∀ m ∈ q.asked, m < n) : (q.ask n).Fair := by
  have hlast := h.record.visits_lt hn
  have hrecord := h.record.ask hn
  rw [Queue.ask]
  split
  · rename_i hfree
    obtain ⟨hcancelled, hsound⟩ := h.sound.ask_free hfree hlast
    refine ⟨hsound, ?_⟩
    have hnot : n ∉ q.visits.map Prod.fst := fun hmem ↦ lt_irrefl n (hlast n hmem)
    have hinside := @alter_snoc q.visits n .pending (fun _ ↦ .inside) hnot
    dsimp only
    rw [← hinside]
    refine hrecord.enter (List.mem_append_right _ List.mem_cons_self) (.inl rfl) fun m before hm hasks ↦ ?_
    rcases Record.mem_snoc hm with hm | ⟨rfl, -⟩
    · obtain rfl : before = .cancelled := hcancelled _ hm
      rcases hasks with hasks | hasks <;> cases hasks
    · exact le_rfl
  · rename_i hfree
    exact ⟨h.sound.ask_taken (Bool.eq_false_of_not_eq_true hfree) hlast, hrecord⟩

theorem resume (h : q.Fair) (hn : (n, .woken) ∈ q.visits) : (q.resume n).Fair where
  sound := h.sound.resume hn
  record := by
    refine h.record.enter hn (.inr rfl) fun m before hm _ ↦ ?_
    obtain ⟨-, rest, hvisits⟩ := h.sound.head_of_next hn (.inl rfl)
    have hordered := h.sound.ordered
    rw [hvisits] at hm hordered
    rcases List.mem_cons.mp hm with heq | hm
    · exact (Prod.mk.inj heq).1.ge
    · exact ((List.pairwise_cons.mp hordered).1 m (List.mem_map_of_mem hm)).le

theorem cancel {stage : Stage} (h : q.Fair) (hn : (n, stage) ∈ q.visits) (hstage : stage ≠ .inside) :
    (q.cancel n).Fair :=
  ⟨h.sound.cancel n, h.record.cancel hn hstage⟩

theorem giveUp {stage : Stage} (h : q.Fair) (hn : (n, stage) ∈ q.visits) (hquits : stage.Quits) :
    (q.giveUp n).Fair where
  sound := h.sound.giveUp hn (by rintro rfl; rcases hquits with h | h <;> cases h)
  record := by
    have hgone := h.record.gone (.inr (h.record.quit hn hquits))
    rw [Queue.giveUp]
    dsimp only
    split
    · exact hgone
    · exact hgone.wake _

theorem leave (h : q.Fair) (hn : (n, .inside) ∈ q.visits) : (q.leave n).Fair :=
  ⟨h.sound.leave hn, (h.record.gone (.inl (h.record.entered hn))).wake _⟩

/-- What one step preserves. -/
theorem move (h : q.Fair) (hmove : q.Move q') : q'.Fair := by
  cases hmove with
  | ask hn => exact h.ask hn
  | resume hn => exact h.resume hn
  | cancel hn hstage => exact h.cancel hn hstage
  | giveUp hn hquits => exact h.giveUp hn hquits
  | leave hn => exact h.leave hn

/-- No two have the lock at once. -/
theorem exclusive {m : ℕ} (h : q.Fair) (hn : (n, .inside) ∈ q.visits) (hm : (m, .inside) ∈ q.visits) : n = m :=
  (h.sound.taken (h.sound.locked_of_inside hn)).2.1 n m hn hm

/-- Who sleeps waits for a visit that has the lock or is about to go on. -/
theorem awake_of_pending (h : q.Fair) (hn : (n, .pending) ∈ q.visits) :
    ∃ m stage, (m, stage) ∈ q.visits ∧ stage ≠ .pending := by
  cases hlocked : q.lock.locked with
  | true =>
      obtain ⟨m, hm⟩ := (h.sound.taken hlocked).1
      exact ⟨m, .inside, hm, nofun⟩
  | false =>
      cases hvisits : q.visits with
      | nil =>
          rw [hvisits] at hn
          cases hn
      | cons p rest =>
          refine ⟨p.1, p.2, List.mem_cons_self, (h.sound.free hlocked).2.1 p ?_⟩
          rw [hvisits]
          rfl

/-- Nobody is there, so the lock is as at first. -/
theorem fresh_of_nil (h : q.Fair) (hnil : q.visits = []) : q.lock = .fresh := by
  have hlocked : q.lock.locked = false := by
    by_contra htaken
    obtain ⟨⟨m, hm⟩, -⟩ := h.sound.taken (by simpa using htaken)
    rw [hnil] at hm
    cases hm
  have hwaiters : q.lock.waiters = [] := by rw [h.sound.waiters, hnil]; rfl
  cases hlock : q.lock with
  | mk locked waiters => simp_all [Lock.fresh]

/-- Those that got the lock are the first that asked, without those that were cancelled. -/
theorem first_asked (h : q.Fair) : q.entries <+: q.asked.filter (· ∉ q.cancels) := by
  refine prefix_of_earlier h.record.inOrder (h.record.sorted.filter _) (fun e he ↦ ?_) fun e he n hn hlt ↦ ?_
  · have hnot : e ∉ q.cancels := fun hmem ↦ h.record.apart hmem he
    exact List.mem_filter.mpr ⟨h.record.prior (.inl he), decide_eq_true hnot⟩
  · obtain ⟨hn, hnot⟩ := List.mem_filter.mp hn
    exact (h.record.turn he hn hlt).resolve_right (of_decide_eq_true hnot)

end Fair

end Queue

end FairLock
