import AcemqAmqp.Consumer.Startup

/-!
# What is undone when starting fails

What always holds of the consumers somebody starts, and what has become of those
that were closed again.
-/

namespace AcemqAmqp

namespace Consumer

open Interaction Program

variable {Payload : Type} {S : Interface} {n : ℕ} {c : Consumer} {chain : ConsumeNext Payload S}

/-! ## The calls of `close` -/

section calls

variable {s s' : Shutdown Payload S n} {e : List (Happening Payload S)}

/-- A call that is over stays as it is. -/
theorem Shutdown.Move.over (hmove : Shutdown.Move c chain s e s') {i : ℕ} {call : Call}
    (hcall : s.calls[i]? = some call) (hover : call.over = true) : s'.calls[i]? = some call := by
  have hset : ∀ {j : ℕ} {was is : Call}, s.calls[j]? = some was → was.over = false →
      (s.calls.set j is)[i]? = some call := by
    intro j was is hwas hnot
    rw [List.getElem?_set_ne]
    · exact hcall
    · rintro rfl
      rw [hcall] at hwas
      obtain rfl := Option.some.inj hwas
      rw [hover] at hnot
      cases hnot
  have happend : ∀ {is : Call}, (s.calls ++ [is])[i]? = some call := fun {is} ↦
    (List.getElem?_append_left (List.getElem?_eq_some_iff.mp hcall).1).trans hcall
  cases hmove with
  | deliver | take | leave | ask | settled | unsettled | dies | stopped | giveBack | skip | drained
  | joined | deadline | interrupted | giveBackFailed => exact hcall
  | halt =>
      rw [Shutdown.halt]
      split
      · exact happend
      · exact hcall
  | call =>
      rw [Shutdown.called]
      split
      · exact happend
      · exact happend
  | start hscheduled =>
      rw [Shutdown.started]
      split
      · exact hset hscheduled rfl
      · exact hset hscheduled rfl
  | calledOff failure hwaits =>
      obtain hscheduled | hawaiting := hwaits
      · exact hset hscheduled rfl
      · exact hset hawaiting rfl
  | heard hawaiting => exact hset hawaiting rfl
  | abandoned failure hcloses | release answer hcloses => exact hset hcloses.2 rfl

/-- The call that closes stays the one that does. -/
theorem Shutdown.Move.closer (hmove : Shutdown.Move c chain s e s') :
    s'.closer = s.closer ∨ s.closer = none ∧ ∃ i, s'.Closes i := by
  cases hmove with
  | deliver | take | leave | ask | settled | unsettled | dies | stopped | giveBack | skip | drained
  | joined | deadline | interrupted | giveBackFailed | calledOff | heard | abandoned | release => exact .inl rfl
  | halt =>
      rw [Shutdown.halt]
      split <;> exact .inl rfl
  | call =>
      rw [Shutdown.called]
      split
      · exact .inr ⟨‹_›, _, rfl, List.getElem?_concat_length⟩
      · exact .inl rfl
  | start hscheduled =>
      rw [Shutdown.started]
      split
      · exact .inr ⟨‹_›, _, rfl, List.getElem?_set_self (List.getElem?_eq_some_iff.mp hscheduled).1⟩
      · exact .inl rfl

theorem Shutdown.called_closer (s : Shutdown Payload S n) : s.called.closer ≠ none := by
  rw [Shutdown.called]
  split
  · exact nofun
  · rename_i i hi
    change s.closer ≠ none
    rw [hi]
    exact nofun

end calls

/-! ## One consumer -/

theorem forall_all {s : Running Payload S n} : (∀ worker ∈ s.all, worker.over) ↔ ∀ i, (s.workers i).over := by
  simp [Running.all]

/-- What is always so of a consumer that has its workers: the list has it until the `finally` of `close` has
run to its end, and its workers are done by then, unless it was closed before it had any. -/
structure Staffed.Kept (x : Staffed Payload S n) (listed : Prop) : Prop where
  closing : x.cleanup = none → ∀ i, x.shutdown.closer = some i → x.shutdown.calls[i]? = some .closing
  ended : x.cleanup ≠ none →
    ∃ i call, x.shutdown.closer = some i ∧ x.shutdown.calls[i]? = some call ∧ call.over = true
  listed : listed ↔ x.cleanup ≠ some (.ok ())
  idle : x.early = false → x.cleanup = some (.ok ()) → ∀ i, (x.shutdown.running.workers i).over

/-- The same of a consumer that has none yet, or never starts. -/
def Standing.Fits (listed : Prop) : Standing Payload S n → Prop
  | declaring early => listed ↔ early = false
  | subscribing x | started x => x.Kept listed
  | dismissing _ _ => True
  | failed _ workers => ¬listed ∧ ∀ worker ∈ workers, worker.over

section standing

variable {x x' : Staffed Payload S n} {standing standing' : Standing Payload S n}
  {declares subscribed untracked early : Bool} {listed : Prop}

theorem and_false_eq {p : Prop} : (p ∧ false = false) = p := propext (and_iff_left rfl)

theorem not_and_true {p : Prop} : ¬(p ∧ true = false) := fun hp ↦ Bool.noConfusion hp.2

namespace Staffed

theorem Kept.not_closes (hk : x.Kept listed) {i : ℕ} (hcloses : x.shutdown.Closes i) : x.cleanup = none := by
  by_contra hcleanup
  obtain ⟨j, call, hj, hcall, hover⟩ := hk.ended hcleanup
  obtain rfl := Option.some.inj (hj.symm.trans hcloses.1)
  obtain rfl := Option.some.inj (hcall.symm.trans hcloses.2)
  cases hover

theorem kept_made (hlisted : listed ↔ early = false) : (made Payload S n early).Kept listed := by
  cases early with
  | false =>
      refine ⟨fun _ i hi ↦ ?_, fun hnone ↦ absurd rfl hnone, iff_of_true (hlisted.mpr rfl) nofun, fun _ ↦ nofun⟩
      cases hi
  | true =>
      refine ⟨nofun, fun _ ↦ ⟨0, .returned true, rfl, rfl, rfl⟩, ?_, nofun⟩
      exact iff_of_false (fun h ↦ Bool.noConfusion (hlisted.mp h)) fun hne ↦ hne rfl

theorem Kept.goes_on {s s' : Shutdown Payload S n} {e : List (Happening Payload S)}
    {cleanup : Option (Except Failure Unit)} (hk : Kept ⟨early, s, cleanup⟩ listed)
    (hmove : Shutdown.Move c chain s e s') (hcloses : ∀ i, s.Closes i → s'.Closes i) :
    Kept ⟨early, s', cleanup⟩ listed := by
  refine ⟨fun hcleanup i hi ↦ ?_, fun hcleanup ↦ ?_, hk.listed, fun hearly hcleanup i ↦ ?_⟩
  · obtain hsame | ⟨-, j, hj⟩ := hmove.closer
    · have hcloser : s.closer = some i := hsame.symm.trans hi
      exact (hcloses i ⟨hcloser, hk.closing hcleanup i hcloser⟩).2
    · obtain rfl := Option.some.inj (hi.symm.trans hj.1)
      exact hj.2
  · obtain ⟨i, call, hi, hcall, hover⟩ := hk.ended hcleanup
    refine ⟨i, call, ?_, hmove.over hcall hover, hover⟩
    obtain hsame | ⟨hnone, -⟩ := hmove.closer
    · exact hsame.trans hi
    · cases hi.symm.trans hnone
  · have hover : (s.running.workers i).over := hk.idle hearly hcleanup i
    change (s'.running.workers i).over
    obtain hruns | ⟨hsame, -⟩ := hmove.runs
    · exact hruns.over hover
    · rwa [hsame]

/-- The call that closes comes to its end. -/
theorem Kept.ends {s s' : Shutdown Payload S n} {i : ℕ} {call : Call} {cleanup : Option (Except Failure Unit)}
    (answer : Except Failure Unit) (hk : Kept ⟨early, s, cleanup⟩ listed) (hcloses : s.Closes i)
    (hcloser : s'.closer = s.closer) (hcalls : s'.calls = s.calls.set i call) (hover : call.over = true)
    (hidle : answer = .ok () → ∀ j, (s'.running.workers j).over) :
    Kept ⟨early, s', some answer⟩ (listed ∧ answer.isOk = false) := by
  refine ⟨nofun, fun _ ↦ ⟨i, call, hcloser.trans hcloses.1, ?_, hover⟩, ?_,
    fun _ hanswer ↦ hidle (Option.some.inj hanswer)⟩
  · change s'.calls[i]? = some call
    rw [hcalls]
    exact List.getElem?_set_self (List.getElem?_eq_some_iff.mp hcloses.2).1
  · have hlisted : listed := by
      rw [hk.listed, hk.not_closes hcloses]
      exact nofun
    cases answer with
    | ok => exact iff_of_false not_and_true fun hne ↦ hne rfl
    | error failure => exact iff_of_true ⟨hlisted, rfl⟩ nofun

theorem over_ending {s : Shutdown Payload S n} (answer : Except Failure Unit) (verdict : Except Failure Bool) :
    (s.ending answer verdict).over = true := by
  unfold Shutdown.ending
  split <;> rfl

theorem Move.kept (hmove : Move c chain subscribed x untracked x') (hk : x.Kept listed) :
    x'.Kept (listed ∧ untracked = false) := by
  cases hmove with
  | goes hmove hcloses =>
      rw [and_false_eq]
      exact hk.goes_on hmove hcloses
  | unstopped =>
      rw [and_false_eq]
      exact ⟨hk.closing, hk.ended, hk.listed, hk.idle⟩
  | abandoned failure hcloses => exact hk.ends (.error failure) hcloses rfl rfl rfl nofun
  | @released early s i clean verdict cleanup answer hcloses =>
      exact hk.ends answer hcloses rfl rfl (over_ending answer verdict) fun _ j ↦ over_cut _

theorem Move.closer (hmove : Move c chain subscribed x untracked x') (hclosed : x.shutdown.closer ≠ none) :
    x'.shutdown.closer ≠ none := by
  cases hmove with
  | goes hmove =>
      obtain hsame | ⟨hnone, -⟩ := hmove.closer
      · exact hsame.trans_ne hclosed
      · exact absurd hnone hclosed
  | unstopped | abandoned | released => exact hclosed

/-- `close` is called. -/
theorem Kept.called (c : Consumer) (chain : ConsumeNext Payload S) (hk : x.Kept listed) :
    Kept { x with shutdown := x.shutdown.called } listed := by
  obtain ⟨early, s, cleanup⟩ := x
  have hmove : Shutdown.Move c chain s [] s.called := .call
  refine hk.goes_on hmove fun i hi ↦ ?_
  have hcalls : ∀ call, (s.calls ++ [call])[i]? = some .closing := fun call ↦
    (List.getElem?_append_left (List.getElem?_eq_some_iff.mp hi.2).1).trans hi.2
  rw [Shutdown.called]
  split
  · rename_i hnone
    cases hi.1.symm.trans hnone
  · exact ⟨hi.1, hcalls _⟩

end Staffed

/-- A consumer goes on, and the list loses it when it is told to. -/
theorem Standing.Move.fits (hmove : Standing.Move c chain declares standing untracked standing')
    (hfits : standing.Fits listed) : standing'.Fits (listed ∧ untracked = false) := by
  cases hmove with
  | shut => exact iff_of_false not_and_true nofun
  | declared =>
      rw [and_false_eq]
      exact Staffed.kept_made hfits
  | refused failure => exact ⟨not_and_true, fun _ hmem ↦ absurd hmem List.not_mem_nil⟩
  | meanwhile hmove | goes hmove => exact hmove.kept hfits
  | subscribed =>
      rw [and_false_eq]
      exact hfits
  | rejected | leave | emptied | swept => trivial
  | gathered hover => exact ⟨not_and_true, forall_all.mpr hover⟩
  | interrupted cancelled =>
      refine ⟨not_and_true, fun worker hmem ↦ ?_⟩
      obtain ⟨w, -, rfl⟩ := List.mem_map.mp hmem
      exact over_cut w

theorem Standing.Move.failed (hmove : Standing.Move c chain declares standing untracked standing')
    (hfailed : standing.Failed) :
    standing'.Failed := by
  cases hmove <;> exact hfailed.elim

theorem Standing.Move.closed (hmove : Standing.Move c chain declares standing untracked standing')
    (hclosed : standing.Closed) :
    standing'.Closed := by
  cases hmove with
  | shut | declared | refused | meanwhile | subscribed | rejected | leave | emptied | swept | gathered
  | interrupted => exact hclosed.elim
  | goes hmove => exact hmove.closer hclosed

/-- Every consumer that failed to start is gone; one that was closed is unless its `close` was cut short or
has not come to its end, or it was closed too early. -/
theorem Standing.Fits.gone_iff (hfits : standing.Fits listed) (hover : standing.Failed ∨ standing.Closed) :
    ¬listed ∧ standing.Idle ↔ ¬standing.CutShort ∧ ¬standing.UnderWay ∧ ¬standing.Stray := by
  cases standing with
  | declaring | subscribing | dismissing => exact (hover.elim id id).elim
  | failed failure workers => exact iff_of_true hfits ⟨id, id, id⟩
  | started x =>
      have hclosed : x.shutdown.closer ≠ none := hover.resolve_left id
      constructor
      · rintro ⟨hlost, hidle⟩
        have hcleanup : x.cleanup = some (.ok ()) := not_not.mp fun hne ↦ hlost (hfits.listed.mpr hne)
        obtain ⟨i, call, hi, hcall, hover⟩ := hfits.ended (by rw [hcleanup]; exact nofun)
        refine ⟨?_, ?_, ?_⟩
        · rintro ⟨failure, hfailure⟩
          cases hcleanup.symm.trans hfailure
        · rintro ⟨j, call', hj, hcall', hnot⟩
          obtain rfl := Option.some.inj (hi.symm.trans hj)
          obtain rfl := Option.some.inj (hcall.symm.trans hcall')
          rw [hover] at hnot
          cases hnot
        · rintro ⟨-, worker, hworker, hnot⟩
          exact hnot (hidle worker hworker)
      · rintro ⟨hcut, hunder, hstray⟩
        have hcleanup : x.cleanup = some (.ok ()) := by
          cases hx : x.cleanup with
          | none =>
              obtain ⟨i, hi⟩ := Option.ne_none_iff_exists'.mp hclosed
              exact absurd ⟨i, .closing, hi, hfits.closing hx i hi, rfl⟩ hunder
          | some answer =>
              cases answer with
              | ok => rfl
              | error failure => exact absurd ⟨failure, hx⟩ hcut
        refine ⟨fun hl ↦ hfits.listed.mp hl hcleanup, fun worker hworker ↦ ?_⟩
        cases hearly : x.early with
        | false => exact forall_all.mpr (hfits.idle hearly hcleanup) worker hworker
        | true => exact not_not.mp fun hnot ↦ hstray ⟨hearly, worker, hworker, hnot⟩

end standing

/-! ## All that somebody starts -/

namespace World

variable {w w' : World Payload S} {t : List (Event (Startup Payload S))}

/-- `closed`, of the consumer `k`. -/
def Closed (w : World Payload S) (k : ℕ) : Prop := ∃ m, w.members[k]? = some m ∧ m.standing.Closed

/-- The consumer `k` did not start. -/
def Failed (w : World Payload S) (k : ℕ) : Prop := ∃ m, w.members[k]? = some m ∧ m.standing.Failed

/-- What has been seen of the consumers agrees with what they are. -/
structure Agrees (w : World Payload S) (t : List (Event (Startup Payload S))) : Prop where
  closed : ∀ k i, ⟨.close k, i⟩ ∈ t → w.Closed k
  failed : ∀ k failure, ⟨.started k, .error failure⟩ ∈ t → w.Failed k

/-- What always holds of the consumers somebody starts. -/
structure Sound (w : World Payload S) (t : List (Event (Startup Payload S))) : Prop where
  nodup : w.listed.Nodup
  fresh : ∀ k ∈ w.listed, k < w.members.length
  fits : ∀ (k : ℕ) (m : Member Payload S), w.members[k]? = some m →
    m.standing.Fits (k ∈ w.listed)
  asked : ∀ k < w.members.length, ∃ setup, ⟨.consume setup, .ok k⟩ ∈ t

/-- One of the consumers goes on. -/
def moved (w : World Payload S) (k : ℕ) (m : Member Payload S) (untracked : Bool) : World Payload S :=
  if untracked then (w.set k m).untrack k else w.set k m

section moved

variable {k j : ℕ} {m m' : Member Payload S} {untracked : Bool}

theorem moved_members : (w.moved k m untracked).members = w.members.set k m := by
  unfold moved
  split <;> rfl

theorem mem_moved_listed (hnodup : w.listed.Nodup) :
    j ∈ (w.moved k m untracked).listed ↔ j ∈ w.listed ∧ (j = k → untracked = false) := by
  cases untracked with
  | false => exact (and_iff_left fun _ ↦ rfl).symm
  | true =>
      change j ∈ w.listed.erase k ↔ _
      rw [hnodup.mem_erase_iff, and_comm]
      exact and_congr_right fun _ ↦ ⟨fun hne heq ↦ absurd heq hne, fun h heq ↦ Bool.noConfusion (h heq)⟩

theorem moved_self (hk : w.members[k]? = some m') : (w.moved k m untracked).members[k]? = some m := by
  rw [moved_members]
  exact List.getElem?_set_self (List.getElem?_eq_some_iff.mp hk).1

theorem moved_other (hj : j ≠ k) : (w.moved k m untracked).members[j]? = w.members[j]? := by
  rw [moved_members]
  exact List.getElem?_set_ne (Ne.symm hj)

/-- What is so of the others stays so. -/
theorem exists_moved {P : Member Payload S → Prop} (hk : w.members[k]? = some m') (hP : P m' → P m)
    (h : ∃ found, w.members[j]? = some found ∧ P found) :
    ∃ found, (w.moved k m untracked).members[j]? = some found ∧ P found := by
  obtain ⟨found, hfound, hfoundP⟩ := h
  by_cases hj : j = k
  · subst hj
    obtain rfl := Option.some.inj (hk.symm.trans hfound)
    exact ⟨m, moved_self hk, hP hfoundP⟩
  · exact ⟨found, (moved_other hj).trans hfound, hfoundP⟩

theorem Agrees.moved (ha : w.Agrees t) (hk : w.members[k]? = some m')
    (hclosed : m'.standing.Closed → m.standing.Closed) (hfailed : m'.standing.Failed → m.standing.Failed) :
    (w.moved k m untracked).Agrees t :=
  ⟨fun j i hmem ↦ exists_moved hk hclosed (ha.closed j i hmem),
    fun j failure hmem ↦ exists_moved hk hfailed (ha.failed j failure hmem)⟩

theorem Sound.moved (hs : w.Sound t) (hk : w.members[k]? = some m')
    (hfits : m.standing.Fits (k ∈ w.listed ∧ untracked = false)) :
    (w.moved k m untracked).Sound t where
  nodup := by
    cases untracked with
    | false => exact hs.nodup
    | true => exact hs.nodup.erase k
  fresh j hj := by
    rw [moved_members, List.length_set]
    exact hs.fresh j ((mem_moved_listed hs.nodup).mp hj).1
  fits j found hfound := by
    by_cases hj : j = k
    · subst hj
      obtain rfl := Option.some.inj ((moved_self hk).symm.trans hfound)
      have hlisted : (j ∈ (w.moved j m untracked).listed) = (j ∈ w.listed ∧ untracked = false) := by
        rw [mem_moved_listed hs.nodup]
        exact propext (and_congr_right fun _ ↦ ⟨fun h ↦ h rfl, fun h _ ↦ h⟩)
      rwa [hlisted]
    · have hlisted : (j ∈ (w.moved k m untracked).listed) = (j ∈ w.listed) := by
        rw [mem_moved_listed hs.nodup]
        exact propext (and_iff_left fun heq ↦ absurd heq hj)
      rw [hlisted]
      exact hs.fits j found ((moved_other hj).symm.trans hfound)
  asked j hj := by
    rw [moved_members, List.length_set] at hj
    exact hs.asked j hj

end moved

/-- More is seen. -/
theorem Sound.more (hs : w.Sound t) (e : Event (Startup Payload S)) : w.Sound (t ++ [e]) := by
  refine ⟨hs.nodup, hs.fresh, hs.fits, fun k hk ↦ ?_⟩
  obtain ⟨setup, hmem⟩ := hs.asked k hk
  exact ⟨setup, List.mem_append_left _ hmem⟩

theorem Drift.sound (hdrift : Drift w w') (hs : w.Sound t) : w'.Sound t := by
  cases hdrift with
  | moves hk hmove => exact hs.moved hk (hmove.fits (hs.fits _ _ hk))
  | disconnect => exact ⟨hs.nodup, hs.fresh, hs.fits, hs.asked⟩

theorem Drift.agrees (hdrift : Drift w w') (ha : w.Agrees t) : w'.Agrees t := by
  cases hdrift with
  | moves hk hmove => exact ha.moved hk hmove.closed hmove.failed
  | disconnect => exact ⟨ha.closed, ha.failed⟩

/-- Another consumer is made. -/
theorem Sound.enlist (hs : w.Sound t) (setup : Setup Payload S) :
    (w.enlist setup).2.Sound (t ++ [⟨.consume setup, (w.enlist setup).1⟩]) := by
  unfold World.enlist
  split
  · exact hs.more _
  · split
    · exact hs.more _
    · have hnew : w.members.length ∉ w.listed := fun hmem ↦ lt_irrefl _ (hs.fresh _ hmem)
      refine ⟨?_, fun k hk ↦ ?_, fun k m hm ↦ ?_, fun k hk ↦ ?_⟩
      · refine List.nodup_append.mpr ⟨hs.nodup, List.nodup_singleton _, fun k hk j hj ↦ ?_⟩
        rw [List.mem_singleton.mp hj]
        rintro rfl
        exact hnew hk
      · rw [List.length_append]
        obtain hold | hlast := List.mem_append.mp hk
        · exact (hs.fresh k hold).trans_le (Nat.le_add_right _ _)
        · rw [List.mem_singleton.mp hlast]
          exact Nat.lt_succ_self _
      · by_cases hlt : k < w.members.length
        · change (w.members ++ _)[k]? = _ at hm
          rw [List.getElem?_append_left hlt] at hm
          have hsame : (k ∈ w.listed ++ [w.members.length]) = (k ∈ w.listed) := by
            rw [List.mem_append, List.mem_singleton]
            exact propext (or_iff_left hlt.ne)
          change m.standing.Fits (k ∈ w.listed ++ [w.members.length])
          rw [hsame]
          exact hs.fits k m hm
        · have hle := (List.getElem?_eq_some_iff.mp hm).1
          rw [List.length_append, List.length_singleton] at hle
          obtain rfl : k = w.members.length := by omega
          obtain rfl := Option.some.inj (List.getElem?_concat_length.symm.trans hm)
          exact iff_of_true (List.mem_append_right _ (List.mem_singleton_self _)) rfl
      · rw [List.length_append, List.length_singleton] at hk
        by_cases hlt : k < w.members.length
        · obtain ⟨setup', hmem⟩ := hs.asked k hlt
          exact ⟨setup', List.mem_append_left _ hmem⟩
        · obtain rfl : k = w.members.length := by omega
          exact ⟨setup, List.mem_append_right _ (List.mem_singleton_self _)⟩

theorem Answer.sound {q : Demand Payload S} {r : (Startup Payload S).Ans q} (hanswer : Answer w q r w')
    (hs : w.Sound t) : w'.Sound (t ++ [⟨q, r⟩]) := by
  cases hanswer with
  | declare | started | failed | closed => exact hs.more _
  | consume => exact hs.enlist _
  | @close k m x hk hstanding =>
      have hfits := hs.fits k m hk
      rw [hstanding] at hfits
      have hcalled : Staffed.Kept { x with shutdown := x.shutdown.called } (k ∈ w.listed ∧ false = false) := by
        rw [and_false_eq]
        exact Staffed.Kept.called m.setup.consumer m.setup.chain hfits
      have hsound : (w.moved k ⟨m.setup, .started { x with shutdown := x.shutdown.called }⟩ false).Sound t :=
        hs.moved hk hcalled
      exact hsound.more _

theorem exists_enlist {P : Member Payload S → Prop} {setup : Setup Payload S} {k : ℕ}
    (h : ∃ m, w.members[k]? = some m ∧ P m) : ∃ m, (w.enlist setup).2.members[k]? = some m ∧ P m := by
  obtain ⟨m, hm, hP⟩ := h
  refine ⟨m, ?_, hP⟩
  unfold World.enlist
  split
  · exact hm
  · split
    · exact hm
    · exact (List.getElem?_append_left (List.getElem?_eq_some_iff.mp hm).1).trans hm

/-- Another event is seen, and the consumers are what they are. -/
theorem Agrees.snoc {e : Event (Startup Payload S)} (ha : w.Agrees t)
    (hclosed : ∀ k i, e = ⟨.close k, i⟩ → w.Closed k)
    (hfailed : ∀ k failure, e = ⟨.started k, .error failure⟩ → w.Failed k) : w.Agrees (t ++ [e]) := by
  refine ⟨fun k i hmem ↦ ?_, fun k failure hmem ↦ ?_⟩
  · obtain hold | hlast := List.mem_append.mp hmem
    · exact ha.closed k i hold
    · exact hclosed k i (List.mem_singleton.mp hlast).symm
  · obtain hold | hlast := List.mem_append.mp hmem
    · exact ha.failed k failure hold
    · exact hfailed k failure (List.mem_singleton.mp hlast).symm

theorem Answer.agrees {q : Demand Payload S} {r : (Startup Payload S).Ans q} (hanswer : Answer w q r w')
    (ha : w.Agrees t) : w'.Agrees (t ++ [⟨q, r⟩]) := by
  cases hanswer with
  | declare | closed => exact ha.snoc (fun _ _ ↦ nofun) fun _ _ ↦ nofun
  | @consume setup =>
      have henlisted : (w.enlist setup).2.Agrees t := ⟨fun k i hmem ↦ exists_enlist (ha.closed k i hmem),
        fun k failure hmem ↦ exists_enlist (ha.failed k failure hmem)⟩
      exact henlisted.snoc (fun _ _ ↦ nofun) fun _ _ ↦ nofun
  | started => exact ha.snoc (fun _ _ ↦ nofun) fun _ _ ↦ nofun
  | @failed k m failure workers hk hstanding =>
      refine ha.snoc (fun _ _ ↦ nofun) fun j failure' heq ↦ ?_
      obtain rfl : k = j := by
        injection heq with hq
        exact Demand.started.inj hq
      refine ⟨m, hk, ?_⟩
      rw [hstanding]
      trivial
  | @close k m x hk hstanding =>
      have hmoved : (w.moved k ⟨m.setup, .started { x with shutdown := x.shutdown.called }⟩ false).Agrees t := by
        refine ha.moved hk (fun _ ↦ x.shutdown.called_closer) fun hfailed ↦ ?_
        rw [hstanding] at hfailed
        exact hfailed.elim
      refine hmoved.snoc (fun j i heq ↦ ?_) fun _ _ ↦ nofun
      obtain rfl : k = j := by
        injection heq with hq
        exact Demand.close.inj hq
      exact ⟨_, moved_self hk, x.shutdown.called_closer⟩

/-! ## Whoever starts them -/

section reaches

variable {α : Type} {p rest : Program (Startup Payload S) Failure α} {init : World Payload S} {x : Except Failure α}

theorem Reaches.sound (h : Reaches p init w t rest) (hinit : init.Sound []) : w.Sound t := by
  obtain ⟨h, ps, hreaches, rfl, -⟩ := h
  refine hreaches.invariant (fun w h ↦ w.Sound (project () h)) hinit ?_ fun _ _ _ hs hdrift ↦ hdrift.sound hs
  intro s h ps d q next r s' _ hs _ hanswer
  rw [project_append, project_self]
  exact hanswer.sound hs

theorem Reaches.agrees (h : Reaches p init w t rest) : w.Agrees t := by
  obtain ⟨h, ps, hreaches, rfl, -⟩ := h
  have hinit : init.Agrees (project () []) :=
    ⟨fun _ _ hmem ↦ absurd hmem List.not_mem_nil, fun _ _ hmem ↦ absurd hmem List.not_mem_nil⟩
  refine hreaches.invariant (fun w h ↦ w.Agrees (project () h)) hinit ?_ fun _ _ _ ha hdrift ↦ hdrift.agrees ha
  intro s h ps d q next r s' _ ha _ hanswer
  rw [project_append, project_self]
  exact hanswer.agrees ha

theorem Reaches.runs (h : Reaches p init w t (ofExcept x)) : Runs (Anything _) p t x := by
  obtain ⟨h, ps, hreaches, rfl, hrest⟩ := h
  have hresidual := hreaches.residual (fun _ _ _ _ _ _ ↦ trivial) ()
  rw [hrest] at hresidual
  have hend : Runs (Anything _) (ofExcept x : Program (Startup Payload S) Failure α) [] x := by
    cases x with
    | ok a => exact .ret a
    | error e => exact .raise e
  have hruns := hresidual.runs hend
  rwa [List.append_nil] at hruns

end reaches

end World

/-! ## What they ask -/

/-- The consumer `k` did not start, or was closed. -/
def Undone (k : ℕ) (t : List (Event (Startup Payload S))) : Prop :=
  (∃ failure, ⟨.started k, .error failure⟩ ∈ t) ∨ ∃ i, ⟨.close k, i⟩ ∈ t

/-- Every consumer that was made is among `ks`, or undone. -/
def HeldOrUndone (ks : List ℕ) (t : List (Event (Startup Payload S))) : Prop :=
  ∀ setup k, ⟨.consume setup, .ok k⟩ ∈ t → k ∈ ks ∨ Undone k t

section asks

variable {ks : List ℕ} {t t' : List (Event (Startup Payload S))}

theorem Undone.append {k : ℕ} (h : Undone k t) (t' : List (Event (Startup Payload S))) : Undone k (t ++ t') := by
  obtain ⟨failure, hmem⟩ | ⟨i, hmem⟩ := h
  · exact .inl ⟨failure, List.mem_append_left _ hmem⟩
  · exact .inr ⟨i, List.mem_append_left _ hmem⟩

theorem always_consume (setup : Setup Payload S) (h : HeldOrUndone ks t) :
    (consume setup).Always (Anything _) fun t' x ↦
      onEnd x (fun k ↦ HeldOrUndone (ks ++ [k]) (t ++ t')) fun _ ↦ HeldOrUndone ks (t ++ t') := by
  have hold : ∀ {t' : List (Event (Startup Payload S))} {k : ℕ}, k ∈ ks ∨ Undone k t → k ∈ ks ∨ Undone k (t ++ t') :=
    fun {t' k} ↦ Or.imp_right fun hundone ↦ hundone.append t'
  rw [consume, always_bind, always_call]
  rintro (failure | k) -
  · refine fun setup' j hmem ↦ ?_
    obtain hbefore | hlast := List.mem_append.mp hmem
    · exact hold (h setup' j hbefore)
    · cases List.mem_singleton.mp hlast
  · rw [id, onEnd_ok, always_bind, always_call]
    rintro (failure | ⟨⟩) -
    · refine fun setup' j hmem ↦ ?_
      obtain hbefore | hnew := List.mem_append.mp hmem
      · exact hold (h setup' j hbefore)
      · obtain hmade | hstarted := List.mem_cons.mp hnew
        · obtain rfl : j = k := by
            injection hmade with hq hr
            exact Except.ok.inj hr
          exact .inr (.inl ⟨failure, List.mem_append_right _ (List.mem_cons_of_mem _ (List.mem_singleton_self _))⟩)
        · cases List.mem_singleton.mp hstarted
    · refine fun setup' j hmem ↦ ?_
      obtain hbefore | hnew := List.mem_append.mp hmem
      · exact (hold (h setup' j hbefore)).imp_left fun hmem ↦ List.mem_append_left _ hmem
      · obtain hmade | hstarted := List.mem_cons.mp hnew
        · obtain rfl : j = k := by
            injection hmade with hq hr
            exact Except.ok.inj hr
          exact .inl (List.mem_append_right _ (List.mem_singleton_self _))
        · cases List.mem_singleton.mp hstarted

end asks

/-! ## All or nothing -/

namespace World

/-- Before anything is started. -/
def before (closed : Bool) : World Payload S := ⟨closed, [], []⟩

/-- Every consumer that was made is gone: the connection's list has lost it, none of its workers is left
running, and it was closed, or had not started. -/
def AllOrNothing (w : World Payload S) : Prop := ∀ (k : ℕ) (m : Member Payload S), w.members[k]? = some m →
  (k ∉ w.listed ∧ m.standing.Idle) ∧ (m.standing.Failed ∨ m.standing.Closed)

/-- No `close` was cut short before it came to `_untrack`, none is still under way, and none came too early. -/
def Unhindered (w : World Payload S) : Prop := ∀ (k : ℕ) (m : Member Payload S), w.members[k]? = some m →
  ¬m.standing.CutShort ∧ ¬m.standing.UnderWay ∧ ¬m.standing.Stray

theorem sound_before (closed : Bool) : (before closed : World Payload S).Sound [] :=
  ⟨List.nodup_nil, fun _ hk ↦ absurd hk List.not_mem_nil, fun _ _ hm ↦ (nomatch hm),
    fun _ hk ↦ absurd hk (Nat.not_lt_zero _)⟩

/-- Whoever closes what he started, when he raises, leaves nothing behind unless something hinders him. -/
theorem allOrNothing_of_reaches {α : Type} {p : Program (Startup Payload S) Failure α} {closed : Bool}
    {w : World Payload S} {t : List (Event (Startup Payload S))} {failure : Failure}
    (hp : p.Always (Anything _) fun t x ↦ onEnd x (fun _ ↦ True) fun _ ↦ HeldOrUndone [] t)
    (h : Reaches p (before closed) w t (.raise failure)) : w.AllOrNothing ↔ w.Unhindered := by
  have hundone : HeldOrUndone [] t := always_iff_runs.mp hp t (.error failure) h.runs
  have hsound := h.sound (sound_before closed)
  have hagrees := h.agrees
  have hover : ∀ (k : ℕ) (m : Member Payload S), w.members[k]? = some m → m.standing.Failed ∨ m.standing.Closed := by
    intro k m hm
    obtain ⟨setup, hmem⟩ := hsound.asked k (List.getElem?_eq_some_iff.mp hm).1
    obtain ⟨failure, hfailed⟩ | ⟨i, hclosed⟩ := (hundone setup k hmem).resolve_left List.not_mem_nil
    · obtain ⟨m', hm', hstanding⟩ := hagrees.failed k failure hfailed
      obtain rfl := Option.some.inj (hm.symm.trans hm')
      exact .inl hstanding
    · obtain ⟨m', hm', hstanding⟩ := hagrees.closed k i hclosed
      obtain rfl := Option.some.inj (hm.symm.trans hm')
      exact .inr hstanding
  refine forall_congr' fun k ↦ forall_congr' fun m ↦ forall_congr' fun hm ↦ ?_
  rw [and_iff_left (hover k m hm)]
  exact (hsound.fits k m hm).gone_iff (hover k m hm)

/-! Steps of a run. -/

section steps

variable {α : Type} {p rest : Program (Startup Payload S) Failure α} {init w w' : World Payload S}
  {t : List (Event (Startup Payload S))}

theorem Reaches.start : Reaches p init init [] p := ⟨[], fun _ ↦ p, .init, rfl, rfl⟩

theorem Reaches.ask {q : Demand Payload S} {r : (Startup Payload S).Ans q}
    {next : (Startup Payload S).Ans q → Program (Startup Payload S) Failure α}
    (h : Reaches p init w t (.ask q next)) (hanswer : Answer w q r w') :
    Reaches p init w' (t ++ [⟨q, r⟩]) (next r) := by
  obtain ⟨h, ps, hreaches, rfl, hrest⟩ := h
  refine ⟨_, _, hreaches.step hrest hanswer, ?_, Function.update_self ..⟩
  rw [project_append, project_self]

theorem Reaches.drift (h : Reaches p init w t rest) (hdrift : Drift w w') : Reaches p init w' t rest := by
  obtain ⟨h, ps, hreaches, ht, hrest⟩ := h
  exact ⟨h, ps, hreaches.drift hdrift, ht, hrest⟩

theorem Reaches.member {k : ℕ} {m : Member Payload S} {untracked : Bool}
    {standing : Standing Payload S m.setup.concurrency.toNat} (h : Reaches p init w t rest)
    (hk : w.members[k]? = some m)
    (hmove : m.standing.Move m.setup.consumer m.setup.chain m.setup.declare untracked standing) :
    Reaches p init (w.moved k ⟨m.setup, standing⟩ untracked) t rest := h.drift (.moves hk hmove)

end steps

end World

end Consumer

end AcemqAmqp
