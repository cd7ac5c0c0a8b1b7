import AcemqAmqp.Consumer.Shutdown

/-!
# Closing settles everything once or leaves it to the broker

Whatever the workers, the handlers and the calls of `close` do, and in whatever
order: no delivery is settled twice, and what is not settled when the channel
goes is accounted for.
-/

namespace AcemqAmqp

namespace Consumer

open Interaction Program

variable {Payload : Type} {S : Interface} {n : ℕ} {c : Consumer} {chain : ConsumeNext Payload S}

/-! ## What is seen of a settlement -/

/-- The delivery that somebody tries to settle. -/
def Happening.settlement? : Happening Payload S → Option ℕ
  | .asked _ ⟨.inl (.ack tag), _⟩ => some tag
  | .asked _ ⟨.inl (.nack tag _), _⟩ => some tag
  | .asked _ _ => none
  | .gaveBack tag _ => some tag

/-- A delivery is settled, and nothing raised. -/
inductive Settles (tag : ℕ) : Happening Payload S → Prop
  | acked (at_ : ℕ) : Settles tag (.asked at_ ⟨.inl (.ack tag), .ok ()⟩)
  | nacked (at_ : ℕ) (requeue : Bool) : Settles tag (.asked at_ ⟨.inl (.nack tag requeue), .ok ()⟩)
  | gaveBack : Settles tag (.gaveBack tag (.ok ()))

/-- What was asked on behalf of a delivery. -/
def asked (tag : ℕ) (h : List (Happening Payload S)) : List (Event (Around Payload S)) :=
  h.filterMap fun
    | .asked tag' event => if tag' = tag then some event else none
    | .gaveBack _ _ => none

/-- Settling a delivery, among all that is asked around it. -/
abbrev deed (Payload : Type) (S : Interface) (tag : ℕ) : Deed (Around Payload S) :=
  (settling Payload tag).beside (Inside Payload S)

section seen

variable {h e : List (Happening Payload S)} {tag : ℕ} {event : Event (Around Payload S)}

theorem mem_asked : event ∈ asked tag h ↔ .asked tag event ∈ h := by
  rw [asked, List.mem_filterMap]
  constructor
  · rintro ⟨happening, hmem, hevent⟩
    cases happening with
    | asked tag' event' =>
        change (if tag' = tag then some event' else none) = some event at hevent
        split at hevent
        case isTrue htag =>
          rw [← htag, ← Option.some.inj hevent]
          exact hmem
        case isFalse => cases hevent
    | gaveBack => cases hevent
  · exact fun hmem ↦ ⟨_, hmem, if_pos rfl⟩

theorem asked_append : asked tag (h ++ e) = asked tag h ++ asked tag e := List.filterMap_append ..

theorem asked_eq_nil (he : ∀ happening ∈ h, happening.tag ≠ tag) : asked tag h = [] :=
  List.eq_nil_iff_forall_not_mem.mpr fun _ hmem ↦ he _ (mem_asked.mp hmem) rfl

theorem settlement_asked {k : ℕ} (hk : (Happening.asked tag event).settlement? = some k) :
    (deed Payload S tag).is event.1 ∧ ((deed Payload S tag).right event.1 → k = tag) := by
  obtain ⟨(_ | _ | _ | _ | _ | _ | _ | tag' | ⟨tag', requeue⟩) | q, r⟩ := event
  all_goals first
    | (cases hk; done)
    | (cases hk; exact ⟨trivial, id⟩)

end seen

/-! ## No delivery is settled twice -/

/-- Each delivery is in one pair of hands at most, and in those it is settled at most once; what
closing gave back was in nobody's. -/
structure Tidy (h : List (Happening Payload S)) (s : Running Payload S n) : Prop where
  handled : ∀ i d rest, s.workers i = .handling d rest →
    Once (deed Payload S d.tag) (fun _ ↦ True) (asked d.tag h) rest ∧ ∀ answer, .gaveBack d.tag answer ∉ h
  apart : ∀ i j d d' rest rest', s.workers i = .handling d rest → s.workers j = .handling d' rest' →
    d.tag = d'.tag → i = j
  own : ∀ tag event k, .asked tag event ∈ h → (Happening.asked tag event).settlement? = some k → k = tag
  once : (h.filterMap Happening.settlement?).Nodup
  gaveBack : ∀ tag answer event, .gaveBack tag answer ∈ h → .asked tag event ∉ h

section tidy

variable {s s' : Running Payload S n} {h e : List (Happening Payload S)}

/-- A delivery that comes next has not been seen. -/
theorem Ordered.unseen (hs : Ordered h s) {tag : ℕ} (htag : s.taken ≤ tag) :
    ∀ happening ∈ h, happening.tag ≠ tag := by
  intro happening hmem heq
  have hseen := hs.seen happening hmem
  omega

/-- What is settled has been seen. -/
theorem Tidy.tag_of_settlement (ht : Tidy h s) {happening : Happening Payload S} (hmem : happening ∈ h) {k : ℕ}
    (hk : happening.settlement? = some k) : happening.tag = k := by
  cases happening with
  | asked tag event => exact (ht.own tag event k hmem hk).symm
  | gaveBack tag answer => exact Option.some.inj hk

/-- Nothing is seen, and nobody takes a delivery in hand. -/
theorem Tidy.of_fewer (ht : Tidy h s)
    (hfewer : ∀ i d rest, s'.workers i = .handling d rest → s.workers i = .handling d rest) : Tidy h s' where
  handled i d rest hi := ht.handled i d rest (hfewer i d rest hi)
  apart i j d d' rest rest' hi hj := ht.apart i j d d' rest rest' (hfewer i d rest hi) (hfewer j d' rest' hj)
  own := ht.own
  once := ht.once
  gaveBack := ht.gaveBack

/-- A worker takes the delivery that waited longest. -/
theorem Tidy.take (ht : Tidy h s) (hs : Ordered h s) {i : Fin n} {d : Delivery} (htag : d.tag = s.taken)
    {fresh : String} {read : Instant} {s₁ : Running Payload S n} (hsame : s₁.workers = s.workers) :
    Tidy h (s₁.set i (.handling d (work c chain fresh read d))) := by
  have hunseen := hs.unseen htag.ge
  have hother : ∀ j d' rest', (s₁.set i (.handling d (work c chain fresh read d))).workers j = .handling d' rest' →
      j = i ∧ d' = d ∧ rest' = work c chain fresh read d ∨ s.workers j = .handling d' rest' ∧ d'.tag < s.taken := by
    intro j d' rest' hj
    rw [set_workers, hsame] at hj
    split at hj
    case isTrue hji =>
      obtain ⟨rfl, rfl⟩ := Worker.handling.inj hj
      exact .inl ⟨hji, rfl, rfl⟩
    case isFalse => exact .inr ⟨hj, hs.handled j d' rest' hj⟩
  refine ⟨fun j d' rest' hj ↦ ?_, fun j j' d₁ d₂ rest₁ rest₂ hj hj' heq ↦ ?_, ht.own, ht.once, ht.gaveBack⟩
  · obtain ⟨-, rfl, rfl⟩ | ⟨hold, -⟩ := hother j d' rest' hj
    · rw [asked_eq_nil hunseen]
      exact ⟨once_work c chain fresh read d', fun answer hmem ↦ hunseen _ hmem rfl⟩
    · exact ht.handled j d' rest' hold
  · obtain ⟨rfl, rfl, rfl⟩ | ⟨hold, hlt⟩ := hother j d₁ rest₁ hj <;>
      obtain ⟨rfl, rfl, rfl⟩ | ⟨hold', hlt'⟩ := hother j' d₂ rest₂ hj'
    · rfl
    · omega
    · omega
    · exact ht.apart j j' d₁ d₂ rest₁ rest₂ hold hold' heq

/-- Closing gives back the delivery that waited longest. -/
theorem Tidy.giveBack (ht : Tidy h s) (hs : Ordered h s) {tag : ℕ} (htag : tag = s.taken)
    {answer : Except Failure Unit} (hsame : s'.workers = s.workers) : Tidy (h ++ [.gaveBack tag answer]) s' := by
  have hunseen := hs.unseen htag.ge
  have hkept : ∀ k, asked k (h ++ [.gaveBack tag answer]) = asked k h := fun k ↦ by
    rw [asked_append]
    exact List.append_nil _
  refine ⟨fun i d rest hi ↦ ?_, fun i j d d' rest rest' hi hj ↦ ?_, fun k event j hmem ↦ ?_, ?_,
    fun k answer' event hmem ↦ ?_⟩
  · rw [hsame] at hi
    obtain ⟨honce, hnot⟩ := ht.handled i d rest hi
    have hlt := hs.handled i d rest hi
    rw [hkept]
    refine ⟨honce, fun answer' hmem ↦ ?_⟩
    obtain hold | hnew := List.mem_append.mp hmem
    · exact hnot answer' hold
    · obtain ⟨rfl, -⟩ := Happening.gaveBack.inj (List.mem_singleton.mp hnew)
      omega
  · exact ht.apart i j d d' rest rest' (hsame ▸ hi) (hsame ▸ hj)
  · refine ht.own k event j ?_
    obtain hold | hnew := List.mem_append.mp hmem
    · exact hold
    · cases List.mem_singleton.mp hnew
  · rw [List.filterMap_append]
    refine List.nodup_append.mpr ⟨ht.once, List.nodup_singleton tag, fun k hk k' hk' ↦ ?_⟩
    obtain ⟨happening, hmem, hsettles⟩ := List.mem_filterMap.mp hk
    obtain rfl := List.mem_singleton.mp hk'
    rintro rfl
    exact hunseen happening hmem (ht.tag_of_settlement hmem hsettles)
  · intro hasked
    have hasked' : .asked k event ∈ h := by
      obtain hold | hnew := List.mem_append.mp hasked
      · exact hold
      · cases List.mem_singleton.mp hnew
    obtain hold | hnew := List.mem_append.mp hmem
    · exact ht.gaveBack k answer' event hold hasked'
    · obtain ⟨rfl, -⟩ := Happening.gaveBack.inj (List.mem_singleton.mp hnew)
      exact hunseen _ hasked' rfl

/-- A worker asks the next question of the delivery it has in hand. -/
theorem Tidy.ask (ht : Tidy h s) {i : Fin n} {d : Delivery} {q : (Around Payload S).Act}
    {next : (Around Payload S).Ans q → Program (Around Payload S) Failure Unit} (r : (Around Payload S).Ans q)
    (hi : s.workers i = .handling d (.ask q next)) {s₁ : Running Payload S n} (hsame : s₁.workers = s.workers) :
    Tidy (h ++ [.asked d.tag ⟨q, r⟩]) (s₁.set i (.handling d (next r))) := by
  obtain ⟨honce, hnot⟩ := ht.handled i d _ hi
  obtain ⟨hq, hnext⟩ := once_ask.mp honce
  have hother : ∀ j d' rest', (s₁.set i (.handling d (next r))).workers j = .handling d' rest' →
      j = i ∧ d' = d ∧ rest' = next r ∨ j ≠ i ∧ s.workers j = .handling d' rest' := by
    intro j d' rest' hj
    rw [set_workers, hsame] at hj
    split at hj
    case isTrue hji =>
      obtain ⟨rfl, rfl⟩ := Worker.handling.inj hj
      exact .inl ⟨hji, rfl, rfl⟩
    case isFalse hji => exact .inr ⟨hji, hj⟩
  have hgave : ∀ {k : ℕ} {answer : Except Failure Unit}, .gaveBack k answer ∈ h ++ [.asked d.tag ⟨q, r⟩] →
      .gaveBack k answer ∈ h := by
    intro k answer hmem
    obtain hold | hnew := List.mem_append.mp hmem
    · exact hold
    · cases List.mem_singleton.mp hnew
  have hsettles : ∀ k, (Happening.asked d.tag ⟨q, r⟩).settlement? = some k →
      k = d.tag ∧ d.tag ∉ h.filterMap Happening.settlement? := by
    intro k hk
    obtain ⟨his, hright⟩ := settlement_asked hk
    refine ⟨hright (hq his).1, fun hmem ↦ ?_⟩
    obtain ⟨happening, hbefore, hsettled⟩ := List.mem_filterMap.mp hmem
    have htag := ht.tag_of_settlement hbefore hsettled
    cases happening with
    | asked tag event =>
        obtain rfl : tag = d.tag := htag
        exact (hq his).2 event (mem_asked.mpr hbefore) (settlement_asked hsettled).1
    | gaveBack tag answer =>
        obtain rfl : tag = d.tag := htag
        exact hnot answer hbefore
  refine ⟨fun j d' rest' hj ↦ ?_, fun j j' d₁ d₂ rest₁ rest₂ hj hj' heq ↦ ?_, fun k event settled hmem hk ↦ ?_, ?_,
    fun k answer event hmem hasked ↦ ?_⟩
  · obtain ⟨rfl, rfl, rfl⟩ | ⟨hji, hold⟩ := hother j d' rest' hj
    · rw [asked_append]
      refine ⟨?_, fun answer hmem ↦ hnot answer (hgave hmem)⟩
      have hnew : asked d'.tag [.asked d'.tag ⟨q, r⟩] = [⟨q, r⟩] := by simp [asked]
      rw [hnew]
      exact hnext r
    · obtain ⟨honce', hnot'⟩ := ht.handled j d' rest' hold
      have hne : d.tag ≠ d'.tag := fun heq ↦ hji (ht.apart i j d d' _ _ hi hold heq).symm
      have hnew : asked d'.tag [Happening.asked d.tag ⟨q, r⟩] = [] := by simp [asked, hne]
      rw [asked_append, hnew, List.append_nil]
      exact ⟨honce', fun answer hmem ↦ hnot' answer (hgave hmem)⟩
  · obtain ⟨rfl, rfl, rfl⟩ | ⟨-, hold⟩ := hother j d₁ rest₁ hj <;>
      obtain ⟨rfl, rfl, rfl⟩ | ⟨-, hold'⟩ := hother j' d₂ rest₂ hj'
    · rfl
    · exact ht.apart _ _ _ _ _ _ hi hold' heq
    · exact ht.apart _ _ _ _ _ _ hold hi heq
    · exact ht.apart _ _ _ _ _ _ hold hold' heq
  · obtain hold | hnew := List.mem_append.mp hmem
    · exact ht.own k event settled hold hk
    · obtain ⟨rfl, rfl⟩ := Happening.asked.inj (List.mem_singleton.mp hnew)
      exact (hsettles settled hk).1
  · rw [List.filterMap_append]
    cases hk : (Happening.asked d.tag ⟨q, r⟩).settlement? with
    | none =>
        have hnone : [Happening.asked d.tag ⟨q, r⟩].filterMap Happening.settlement? = [] := by simp [hk]
        rw [hnone, List.append_nil]
        exact ht.once
    | some k =>
        obtain ⟨rfl, hfresh⟩ := hsettles k hk
        have hsome : [Happening.asked d.tag ⟨q, r⟩].filterMap Happening.settlement? = [d.tag] := by simp [hk]
        rw [hsome]
        refine List.nodup_append.mpr ⟨ht.once, List.nodup_singleton _, fun k hmem k' hk' ↦ ?_⟩
        obtain rfl := List.mem_singleton.mp hk'
        rintro rfl
        exact hfresh hmem
  · have hmem' := hgave hmem
    obtain hold | hnew := List.mem_append.mp hasked
    · exact ht.gaveBack k answer event hmem' hold
    · obtain ⟨rfl, -⟩ := Happening.asked.inj (List.mem_singleton.mp hnew)
      exact hnot answer hmem'

theorem Tidy.move (ht : Tidy h s) (hs : Ordered h s) (hmove : Move c chain s e s') : Tidy (h ++ e) s' := by
  have hset : ∀ {s₁ : Running Payload S n} {i : Fin n} {w : Worker Payload S}, s₁.workers = s.workers →
      (∀ d rest, w ≠ .handling d rest) → Tidy (h ++ []) (s₁.set i w) := by
    intro s₁ i w hsame hw
    rw [List.append_nil]
    refine ht.of_fewer fun j d rest hj ↦ ?_
    rw [set_workers, hsame] at hj
    split at hj
    · exact absurd hj (hw d rest)
    · exact hj
  cases hmove with
  | deliver | close | stopped | skip | drained | joined | cutOff =>
      rw [List.append_nil]
      exact ht.of_fewer fun _ _ _ hi ↦ hi
  | @take i d later fresh read _ hwork =>
      rw [List.append_nil]
      exact ht.take hs (hs.next hwork).1 rfl
  | leave | settled | unsettled | dies => exact hset rfl fun _ _ ↦ nofun
  | ask r hi => exact ht.ask r hi (after_workers _)
  | giveBack answer _ hwork => exact ht.giveBack hs (hs.next hwork).1 rfl
  | release =>
      rw [List.append_nil]
      refine ht.of_fewer fun i d rest hi ↦ ?_
      change Running.cut (s.workers i) = _ at hi
      cases hworker : s.workers i with
      | waiting | handling | finished | died | cancelled =>
          rw [hworker] at hi
          cases hi

theorem Goes.tidy (hgoes : Goes c chain (.initial Payload S n) h s) : Tidy h s := by
  induction hgoes with
  | refl =>
      refine ⟨fun i d rest hi ↦ (by cases hi), fun i j d d' rest rest' hi ↦ (by cases hi), fun _ _ _ hmem ↦ ?_,
        List.nodup_nil, fun _ _ _ hmem ↦ ?_⟩
      all_goals exact absurd hmem List.not_mem_nil
  | step hgoes hmove ih => exact ih.move hgoes.ordered hmove

end tidy

/-! ## What is not settled is accounted for -/

/-- The `try` of `close` is over. -/
def Closing.Ended : Closing → Prop
  | releasing _ | released _ => True
  | no | stopping | draining | joining => False

/-- Where a delivery is, or why it is left to the broker. -/
inductive Whereabouts (h : List (Happening Payload S)) (work : List (Option Delivery))
    (workers : Fin n → Worker Payload S) (raised cut : List ℕ) (gaveUp : Bool) (tag : ℕ) : Prop
  | waits (d : Delivery) : some d ∈ work → d.tag = tag → Whereabouts h work workers raised cut gaveUp tag
  | inHand (i : Fin n) (d : Delivery) (rest : Program (Around Payload S) Failure Unit) :
      workers i = .handling d rest → d.tag = tag → Whereabouts h work workers raised cut gaveUp tag
  | settled (happening : Happening Payload S) : happening ∈ h → Settles tag happening →
      Whereabouts h work workers raised cut gaveUp tag
  | raised : tag ∈ raised → Whereabouts h work workers raised cut gaveUp tag
  | cut : tag ∈ cut → Whereabouts h work workers raised cut gaveUp tag
  | gaveUp : gaveUp = true → Whereabouts h work workers raised cut gaveUp tag

/-- How far closing has got, and what it leaves behind. -/
structure Books (h : List (Happening Payload S)) (s : Shutdown Payload S n) : Prop where
  accounted : ∀ tag < s.running.arrived,
    Whereabouts h s.running.work s.running.workers s.raised s.cut s.gaveUp tag
  before : ¬s.running.closing.Ended → s.cut = [] ∧ s.gaveUp = false
  silent : s.running.closing = .draining ∨ s.running.closing = .joining ∨
    s.running.closing.Ended ∧ s.gaveUp = false → s.silent = true
  emptied : s.running.closing = .joining ∨ s.running.closing.Ended ∧ s.gaveUp = false →
    s.running.work.reduceOption = []
  cutting : s.running.closing.Ended → ∀ i d rest, s.running.workers i = .handling d rest →
    d.tag ∈ s.cut ∨ s.gaveUp = true

section books

variable {s s' : Shutdown Payload S n} {h h' e : List (Happening Payload S)} {tag : ℕ}

theorem Whereabouts.imp {work work' : List (Option Delivery)} {workers workers' : Fin n → Worker Payload S}
    {raised raised' cut cut' : List ℕ} {gaveUp gaveUp' : Bool}
    (ha : Whereabouts h work workers raised cut gaveUp tag)
    (hwaits : ∀ d, some d ∈ work → d.tag = tag → Whereabouts h' work' workers' raised' cut' gaveUp' tag)
    (hinHand : ∀ i d rest, workers i = .handling d rest → d.tag = tag →
      Whereabouts h' work' workers' raised' cut' gaveUp' tag)
    (hseen : ∀ happening ∈ h, happening ∈ h') (hraised : ∀ k ∈ raised, k ∈ raised') (hcut : ∀ k ∈ cut, k ∈ cut')
    (hgaveUp : gaveUp = true → gaveUp' = true) : Whereabouts h' work' workers' raised' cut' gaveUp' tag := by
  cases ha with
  | waits d hmem htag => exact hwaits d hmem htag
  | inHand i d rest hi htag => exact hinHand i d rest hi htag
  | settled happening hmem hsettles => exact .settled happening (hseen happening hmem) hsettles
  | raised hmem => exact .raised (hraised tag hmem)
  | cut hmem => exact .cut (hcut tag hmem)
  | gaveUp hgave => exact .gaveUp (hgaveUp hgave)

theorem mem_inHand {running : Running Payload S n} {i : Fin n} {d : Delivery}
    {rest : Program (Around Payload S) Failure Unit} (hi : running.workers i = .handling d rest) :
    d.tag ∈ running.inHand := by
  refine List.mem_filterMap.mpr ⟨i, List.mem_finRange i, ?_⟩
  rw [hi]
  rfl

/-- A delivery that was handled to the end is settled. -/
theorem Tidy.settles (ht : Tidy h s.running) {i : Fin n} {d : Delivery}
    (hi : s.running.workers i = .handling d (.ret ())) : ∃ happening ∈ h, Settles d.tag happening := by
  obtain ⟨event, hmem, his, hdone⟩ := (once_ret.mp (ht.handled i d _ hi).1).1 trivial
  have hseen := mem_asked.mp hmem
  refine ⟨_, hseen, ?_⟩
  obtain ⟨(_ | _ | _ | _ | _ | _ | _ | tag' | ⟨tag', requeue⟩) | q, answer⟩ := event
  case inl.ack =>
    obtain rfl : answer = .ok () := hdone
    obtain rfl : tag' = d.tag := ht.own _ _ _ hseen rfl
    exact .acked _
  case inl.nack =>
    obtain rfl : answer = .ok () := hdone
    obtain rfl : tag' = d.tag := ht.own _ _ _ hseen rfl
    exact .nacked _ requeue
  all_goals exact his.elim

/-- The workers go on: they take deliveries that wait, and leave them settled, or raise. -/
theorem Books.hands (hb : Books h s) {taken : ℕ} {work : List (Option Delivery)}
    {workers : Fin n → Worker Payload S} {raised : List ℕ}
    (hwaits : ∀ d, some d ∈ s.running.work → some d ∈ work ∨ ∃ i rest, workers i = .handling d rest)
    (hinHand : ∀ i d rest, s.running.workers i = .handling d rest → (∃ rest', workers i = .handling d rest') ∨
      (∃ happening ∈ h, Settles d.tag happening) ∨ d.tag ∈ raised)
    (hraised : ∀ k ∈ s.raised, k ∈ raised)
    (hfrom : ∀ i d rest, workers i = .handling d rest →
      (∃ rest', s.running.workers i = .handling d rest') ∨ some d ∈ s.running.work)
    (hwork : s.running.work.reduceOption = [] → work.reduceOption = []) :
    Books (h ++ e) { s with
      running := { s.running with taken := taken, work := work, workers := workers }
      raised := raised } where
  accounted tag htag := by
    refine (hb.accounted tag htag).imp (fun d hmem hd ↦ ?_) (fun i d rest hi hd ↦ ?_)
      (fun happening ↦ List.mem_append_left e) hraised (fun k hk ↦ hk) id
    · obtain hstill | ⟨i, rest, hi⟩ := hwaits d hmem
      · exact .waits d hstill hd
      · exact .inHand i d rest hi hd
    · obtain ⟨rest', hi'⟩ | ⟨happening, hseen, hsettles⟩ | hmem := hinHand i d rest hi
      · exact .inHand i d rest' hi' hd
      · exact .settled happening (List.mem_append_left e hseen) (hd ▸ hsettles)
      · exact .raised (hd ▸ hmem)
  before := hb.before
  silent := hb.silent
  emptied hclosing := hwork (hb.emptied hclosing)
  cutting hended i d rest hi := by
    obtain ⟨rest', hi'⟩ | hmem := hfrom i d rest hi
    · exact hb.cutting hended i d rest' hi'
    · cases hgave : s.gaveUp with
      | true => exact .inr rfl
      | false =>
          have hnone := hb.emptied (.inr ⟨hended, hgave⟩)
          rw [← List.reduceOption_mem_iff, hnone] at hmem
          exact absurd hmem List.not_mem_nil

theorem begin_ended {closing : Closing} : closing.begin.Ended ↔ closing.Ended := by
  cases closing <;> rfl

theorem begin_eq {closing stage : Closing} (hstage : stage = .draining ∨ stage = .joining) :
    closing.begin = stage ↔ closing = stage := by
  obtain rfl | rfl := hstage <;> cases closing <;> simp [Closing.begin]

/-- Closing begins, unless it has begun. -/
theorem Books.begin (hb : Books h s) (halted : Bool) :
    Books h { s with running := { s.running with halted := halted, closing := s.running.closing.begin } } where
  accounted := hb.accounted
  before hnot := hb.before fun hended ↦ hnot (begin_ended.mpr hended)
  silent hclosing := by
    rw [begin_eq (.inl rfl), begin_eq (.inr rfl), begin_ended] at hclosing
    exact hb.silent hclosing
  emptied hclosing := by
    rw [begin_eq (.inr rfl), begin_ended] at hclosing
    exact hb.emptied hclosing
  cutting hended := hb.cutting (begin_ended.mp hended)

/-- The `try` of `close` ends. -/
theorem Books.ended (hb : Books h s) (hbefore : ¬s.running.closing.Ended) {running : Running Payload S n}
    (harrived : running.arrived = s.running.arrived) {clean : Bool} {verdict : Except Failure Bool} {gaveUp : Bool}
    (hgaveUp : gaveUp = true ∨ running = s.running ∧ s.running.closing = .joining) :
    Books (h ++ e) (s.ended running clean verdict gaveUp) := by
  obtain ⟨hcut, hgave⟩ := hb.before hbefore
  obtain rfl | ⟨rfl, hjoining⟩ := hgaveUp
  · refine ⟨fun tag _ ↦ .gaveUp rfl, fun hnot ↦ absurd trivial hnot, fun hclosing ↦ ?_, fun hclosing ↦ ?_,
      fun _ _ _ _ _ ↦ .inr rfl⟩
    all_goals
      simp only [Shutdown.ended, reduceCtorEq, false_or, Bool.true_eq_false, and_false] at hclosing
  · refine ⟨fun tag htag ↦ ?_, fun hnot ↦ absurd trivial hnot, fun _ ↦ hb.silent (.inr (.inl hjoining)),
      fun _ ↦ hb.emptied (.inl hjoining), fun _ i d rest hi ↦ .inl (mem_inHand hi)⟩
    refine (hb.accounted tag htag).imp (fun d hmem hd ↦ .waits d hmem hd) (fun i d rest hi hd ↦ .inHand i d rest hi hd)
      (fun happening ↦ List.mem_append_left e) (fun k hk ↦ hk) (fun k hk ↦ ?_) fun hgaveUp ↦ ?_
    · rw [hcut] at hk
      exact absurd hk List.not_mem_nil
    · rw [hgave] at hgaveUp
      cases hgaveUp

theorem set_handling (running : Running Payload S n) {i j : Fin n} {w : Worker Payload S} {d : Delivery}
    {rest : Program (Around Payload S) Failure Unit} (h : (running.set i w).workers j = .handling d rest) :
    j = i ∧ w = .handling d rest ∨ running.workers j = .handling d rest := by
  rw [set_workers] at h
  split at h
  case isTrue hji => exact .inl ⟨hji, h⟩
  case isFalse => exact .inr h

theorem handling_set (running : Running Payload S n) {i j : Fin n} (hji : j ≠ i) {w w' : Worker Payload S}
    (hj : running.workers j = w') : (running.set i w).workers j = w' := by
  rw [set_workers, if_neg hji, hj]

/-- A worker lets go of the delivery it had in hand, settled or raised. -/
theorem Books.letGo (hb : Books h s) {i : Fin n} {d : Delivery} {rest : Program (Around Payload S) Failure Unit}
    (hi : s.running.workers i = .handling d rest) {w : Worker Payload S} (hw : ∀ d rest, w ≠ .handling d rest)
    {raised : List ℕ} (hraised : ∀ k ∈ s.raised, k ∈ raised)
    (hdone : (∃ happening ∈ h, Settles d.tag happening) ∨ d.tag ∈ raised) :
    Books (h ++ []) { s with running := s.running.set i w, raised := raised } := by
  refine hb.hands (fun d' hmem ↦ .inl hmem) (fun j d' rest' hj ↦ ?_) hraised (fun j d' rest' hj ↦ ?_) id
  · by_cases hji : j = i
    · subst hji
      obtain ⟨rfl, -⟩ := Worker.handling.inj (hi.symm.trans hj)
      exact .inr hdone
    · exact .inl ⟨rest', handling_set s.running hji hj⟩
  · obtain ⟨-, hnew⟩ | hold := set_handling s.running hj
    · exact absurd hnew (hw d' rest')
    · exact .inl ⟨rest', hold⟩

/-- A worker goes on with the delivery it has in hand. -/
theorem Books.goOn (hb : Books h s) {i : Fin n} {d : Delivery} {rest rest' : Program (Around Payload S) Failure Unit}
    (hi : s.running.workers i = .handling d rest) :
    Books (h ++ e) { s with running := s.running.set i (.handling d rest') } := by
  refine hb.hands (fun d' hmem ↦ .inl hmem) (fun j d' rest'' hj ↦ .inl ?_) (fun k hk ↦ hk)
    (fun j d' rest'' hj ↦ .inl ?_) id
  · by_cases hji : j = i
    · subst hji
      obtain ⟨rfl, -⟩ := Worker.handling.inj (hi.symm.trans hj)
      exact ⟨rest', set_workers_self ..⟩
    · exact ⟨rest'', handling_set s.running hji hj⟩
  · obtain ⟨hji, hnew⟩ | hold := set_handling s.running hj
    · obtain ⟨rfl, -⟩ := Worker.handling.inj hnew
      exact ⟨rest, hji ▸ hi⟩
    · exact ⟨rest'', hold⟩

theorem reduceOption_of_none {work later : List (Option Delivery)} (hwork : work = none :: later) :
    work.reduceOption = later.reduceOption := by
  rw [hwork, List.reduceOption_cons_of_none]

theorem mem_of_none {work later : List (Option Delivery)} (hwork : work = none :: later) {d : Delivery}
    (hmem : some d ∈ work) : some d ∈ later := by
  rw [hwork, List.mem_cons] at hmem
  exact hmem.resolve_left nofun

theorem Books.move (hb : Books h s) (ht : Tidy h s.running) (hmove : Shutdown.Move c chain s e s') :
    Books (h ++ e) s' := by
  cases hmove with
  | calledOff | heard | abandoned =>
      rw [List.append_nil]
      exact ⟨hb.accounted, hb.before, hb.silent, hb.emptied, hb.cutting⟩
  | call =>
      rw [List.append_nil, Shutdown.called]
      have hbegun := hb.begin s.running.halted
      split
      · exact ⟨hbegun.accounted, hbegun.before, hbegun.silent, hbegun.emptied, hbegun.cutting⟩
      · exact ⟨hb.accounted, hb.before, hb.silent, hb.emptied, hb.cutting⟩
  | start =>
      rw [List.append_nil, Shutdown.started]
      have hbegun := hb.begin s.running.halted
      split
      · exact ⟨hbegun.accounted, hbegun.before, hbegun.silent, hbegun.emptied, hbegun.cutting⟩
      · exact ⟨hb.accounted, hb.before, hb.silent, hb.emptied, hb.cutting⟩
  | ask r hi => exact hb.goOn hi
  | @halt i d next hi =>
      have hgoes : Books (h ++ [.asked d.tag ⟨.inl .halt, ()⟩])
          { s with running := s.running.set i (.handling d (next ())) } := hb.goOn hi
      have hgone := hgoes.begin true
      rw [Shutdown.halt]
      split
      · exact ⟨hgone.accounted, hgone.before, hgone.silent, hgone.emptied, hgone.cutting⟩
      · exact ⟨hgone.accounted, hgone.before, hgone.silent, hgone.emptied, hgone.cutting⟩
  | settled hi =>
      refine hb.letGo hi ?_ (fun k hk ↦ hk) (.inl (ht.settles hi))
      exact fun _ _ ↦ nofun
  | unsettled hi _ =>
      refine hb.letGo hi ?_ (fun k ↦ List.mem_append_left _) (.inr (by simp))
      exact fun _ _ ↦ nofun
  | dies hi _ =>
      refine hb.letGo hi ?_ (fun k ↦ List.mem_append_left _) (.inr (by simp))
      exact fun _ _ ↦ nofun
  | @take i d later fresh read hwaiting hwork hread =>
      refine hb.hands (fun d' hmem ↦ ?_) (fun j d' rest hj ↦ .inl ⟨rest, ?_⟩) (fun k hk ↦ hk) (fun j d' rest hj ↦ ?_)
        fun hnone ↦ ?_
      · rw [hwork, List.mem_cons] at hmem
        obtain hhead | htail := hmem
        · obtain rfl := Option.some.inj hhead
          exact .inr ⟨i, _, Function.update_self ..⟩
        · exact .inl htail
      · refine handling_set s.running (fun hji ↦ ?_) hj
        rw [hji, hwaiting] at hj
        cases hj
      · obtain ⟨-, hnew⟩ | hold := set_handling s.running hj
        · obtain ⟨rfl, -⟩ := Worker.handling.inj hnew
          exact .inr (hwork ▸ List.mem_cons_self)
        · exact .inl ⟨rest, hold⟩
      · rw [hwork, List.reduceOption_cons_of_some] at hnone
        cases hnone
  | @leave i later hwaiting hwork =>
      refine hb.hands (fun d' hmem ↦ .inl (mem_of_none hwork hmem)) (fun j d' rest hj ↦ .inl ⟨rest, ?_⟩)
        (fun k hk ↦ hk) (fun j d' rest hj ↦ .inl ?_) fun hnone ↦ ?_
      · refine handling_set s.running (fun hji ↦ ?_) hj
        rw [hji, hwaiting] at hj
        cases hj
      · obtain ⟨-, hnew⟩ | hold := set_handling s.running hj
        · cases hnew
        · exact ⟨rest, hold⟩
      · rw [← hnone, reduceOption_of_none hwork]
  | @deliver d hsilent hopen htag =>
      rw [List.append_nil]
      refine ⟨fun tag hlt ↦ ?_, hb.before, hb.silent, fun hclosing ↦ ?_, hb.cutting⟩
      · obtain hold | rfl := Nat.lt_succ_iff_lt_or_eq.mp hlt
        · refine (hb.accounted tag hold).imp (fun d' hmem hd ↦ .waits d' (List.mem_append_left _ hmem) hd) .inHand
            (fun _ hmem ↦ hmem) (fun _ hk ↦ hk) (fun _ hk ↦ hk) id
        · exact .waits d (List.mem_append_right _ (List.mem_singleton_self _)) htag
      · rw [hb.silent (.inr hclosing)] at hsilent
        cases hsilent
  | stopped hcloses hclosing =>
      rw [List.append_nil]
      have hnone : ∀ {P : Prop}, (Closing.draining = .joining ∨ Closing.draining.Ended ∧ s.gaveUp = false) → P :=
        fun hclosing ↦ by simp [Closing.Ended] at hclosing
      exact ⟨hb.accounted, fun _ ↦ hb.before (by rw [hclosing]; exact id), fun _ ↦ rfl, hnone, False.elim⟩
  | @giveBack i d later hcloses hclosing hwork =>
      refine ⟨fun tag htag ↦ ?_, hb.before, hb.silent, fun hemptied ↦ ?_, hb.cutting⟩
      · refine (hb.accounted tag htag).imp (fun d' hmem hd ↦ ?_) .inHand (fun _ ↦ List.mem_append_left _)
          (fun _ hk ↦ hk) (fun _ hk ↦ hk) id
        rw [hwork, List.mem_cons] at hmem
        obtain hhead | htail := hmem
        · obtain rfl := Option.some.inj hhead
          exact .settled _ (List.mem_append_right _ (List.mem_singleton_self _)) (hd ▸ .gaveBack)
        · exact .waits d' htail hd
      · have hnone := hb.emptied hemptied
        rw [hwork, List.reduceOption_cons_of_some] at hnone
        cases hnone
  | giveBackFailed failure hcloses hclosing hwork =>
      refine hb.ended (by rw [hclosing]; exact id) ?_ (.inl rfl)
      rfl
  | skip hcloses hclosing hwork =>
      rw [List.append_nil]
      refine ⟨fun tag htag ↦ ?_, hb.before, hb.silent, fun hemptied ↦ ?_, hb.cutting⟩
      · exact (hb.accounted tag htag).imp (fun d' hmem hd ↦ .waits d' (mem_of_none hwork hmem) hd) .inHand
          (fun _ hmem ↦ hmem) (fun _ hk ↦ hk) (fun _ hk ↦ hk) id
      · exact reduceOption_of_none hwork ▸ hb.emptied hemptied
  | drained hcloses hclosing hwork =>
      rw [List.append_nil]
      refine ⟨fun tag htag ↦ ?_, fun _ ↦ hb.before (by rw [hclosing]; exact id), fun _ ↦ hb.silent (.inl hclosing),
        fun _ ↦ List.reduceOption_replicate_none, False.elim⟩
      refine (hb.accounted tag htag).imp (fun d' hmem hd ↦ ?_) .inHand (fun _ hmem ↦ hmem) (fun _ hk ↦ hk)
        (fun _ hk ↦ hk) id
      rw [hwork] at hmem
      exact absurd hmem List.not_mem_nil
  | joined hcloses hclosing hover =>
      exact hb.ended (by rw [hclosing]; exact id) rfl (.inr ⟨rfl, hclosing⟩)
  | deadline hcloses hclosing hidle =>
      exact hb.ended (by rw [hclosing]; exact id) rfl (.inr ⟨rfl, hclosing⟩)
  | interrupted failure hcloses hclosing =>
      obtain hclosing | hclosing | hclosing := hclosing
      · exact hb.ended (by rw [hclosing]; exact id) rfl (.inl (by rw [hclosing]; rfl))
      · exact hb.ended (by rw [hclosing]; exact id) rfl (.inl (by rw [hclosing]; rfl))
      · exact hb.ended (by rw [hclosing]; exact id) rfl (.inr ⟨rfl, hclosing⟩)
  | @release i clean verdict answer hcloses hclosing hverdict =>
      have hended : s.running.closing.Ended := by
        rw [hclosing]
        trivial
      have hcut : ∀ i d rest, Running.cut (s.running.workers i) ≠ .handling d rest := by
        intro i d rest
        cases s.running.workers i <;> nofun
      rw [List.append_nil]
      refine ⟨fun tag htag ↦ ?_, fun hnot ↦ absurd trivial hnot, fun hclosed ↦ ?_, fun hclosed ↦ ?_,
        fun _ i d rest hi ↦ absurd hi (hcut i d rest)⟩
      · refine (hb.accounted tag htag).imp .waits (fun i d rest hi hd ↦ ?_) (fun _ hmem ↦ hmem) (fun _ hk ↦ hk)
          (fun _ hk ↦ hk) id
        obtain hmem | hgave := hb.cutting hended i d rest hi
        · exact .cut (hd ▸ hmem)
        · exact .gaveUp hgave
      · simp only [reduceCtorEq, false_or] at hclosed
        exact hb.silent (.inr (.inr ⟨hended, hclosed.2⟩))
      · simp only [reduceCtorEq, false_or] at hclosed
        exact hb.emptied (.inr ⟨hended, hclosed.2⟩)

end books

/-! ## What closing says -/

/-- What has become of the call that closes: it returns what was found. -/
def Told (verdict : Option (Except Failure Bool)) (call : Call) : Prop :=
  call = .closing ∨ (∃ failure, call = .raised failure) ∨
    ∃ drained, call = .returned drained ∧ verdict = some (.ok drained)

/-- The call that closes is told the truth. -/
structure Judged (s : Shutdown Payload S n) : Prop where
  verdict : ∀ drained, s.verdict = some (.ok drained) → (drained = true ↔ s.cut = [])
  closer : ∀ i, s.closer = some i → ∃ call, s.calls[i]? = some call ∧ Told s.verdict call

section judged

variable {s s' : Shutdown Payload S n} {h e : List (Happening Payload S)}

theorem inHand_eq_nil {running : Running Payload S n} (hover : ∀ i, (running.workers i).over) :
    running.inHand = [] := by
  refine List.filterMap_eq_nil_iff.mpr fun i _ ↦ ?_
  have hi := hover i
  cases hworker : running.workers i with
  | waiting | handling =>
      rw [hworker] at hi
      exact hi.elim
  | finished | died | cancelled => rfl

theorem not_told_of_not_over {verdict : Option (Except Failure Bool)} {call : Call}
    (hcall : call = .scheduled ∨ call = .awaiting) : ¬Told verdict call := by
  rintro (rfl | ⟨failure, rfl⟩ | ⟨drained, rfl, -⟩) <;> simp at hcall

/-- Another call is made, and the call that closes is still there. -/
theorem Judged.append (hj : Judged s) (call : Call) : ∀ i, s.closer = some i →
    ∃ found, (s.calls ++ [call])[i]? = some found ∧ Told s.verdict found := by
  intro i hi
  obtain ⟨found, hfound, htold⟩ := hj.closer i hi
  exact ⟨found, List.getElem?_append_left (List.getElem?_eq_some_iff.mp hfound).1 ▸ hfound, htold⟩

/-- A call that does not close goes on. -/
theorem Judged.set (hj : Judged s) {j : ℕ} {was : Call} (hwas : s.calls[j]? = some was)
    (hnot : was = .scheduled ∨ was = .awaiting) (call : Call) : ∀ i, s.closer = some i →
    ∃ found, (s.calls.set j call)[i]? = some found ∧ Told s.verdict found := by
  intro i hi
  obtain ⟨found, hfound, htold⟩ := hj.closer i hi
  have hji : j ≠ i := by
    rintro rfl
    rw [hwas] at hfound
    exact not_told_of_not_over hnot (Option.some.inj hfound ▸ htold)
  exact ⟨found, (List.getElem?_set_ne hji).trans hfound, htold⟩

/-- The `try` of `close` ends. -/
theorem Judged.ended {i : ℕ} (hcloses : s.Closes i) {running : Running Payload S n} {clean : Bool}
    {verdict : Except Failure Bool} {gaveUp : Bool}
    (hverdict : ∀ drained, verdict = .ok drained → (drained = true ↔ s.running.inHand = [])) :
    Judged (s.ended running clean verdict gaveUp) := by
  refine ⟨fun drained hdrained ↦ hverdict drained (Option.some.inj hdrained), fun j hj ↦ ?_⟩
  obtain rfl : i = j := Option.some.inj (hcloses.1.symm.trans hj)
  exact ⟨.closing, hcloses.2, .inl rfl⟩

theorem Judged.move (hj : Judged s) (hmove : Shutdown.Move c chain s e s') : Judged s' := by
  cases hmove with
  | deliver | take | leave | ask | settled | unsettled | dies | stopped | giveBack | skip | drained =>
      exact ⟨hj.verdict, hj.closer⟩
  | halt =>
      rw [Shutdown.halt]
      split
      · exact ⟨hj.verdict, hj.append .scheduled⟩
      · exact ⟨hj.verdict, hj.closer⟩
  | call =>
      rw [Shutdown.called]
      split
      · refine ⟨hj.verdict, fun i hi ↦ ⟨.closing, ?_, .inl rfl⟩⟩
        obtain rfl := Option.some.inj hi
        exact List.getElem?_concat_length
      · exact ⟨hj.verdict, hj.append _⟩
  | @start j hscheduled =>
      rw [Shutdown.started]
      split
      · refine ⟨hj.verdict, fun i hi ↦ ⟨.closing, ?_, .inl rfl⟩⟩
        obtain rfl := Option.some.inj hi
        exact List.getElem?_set_self (List.getElem?_eq_some_iff.mp hscheduled).1
      · exact ⟨hj.verdict, hj.set hscheduled (.inl rfl) _⟩
  | calledOff failure hcall =>
      obtain hscheduled | hawaiting := hcall
      · exact ⟨hj.verdict, hj.set hscheduled (.inl rfl) _⟩
      · exact ⟨hj.verdict, hj.set hawaiting (.inr rfl) _⟩
  | heard hawaiting => exact ⟨hj.verdict, hj.set hawaiting (.inr rfl) _⟩
  | giveBackFailed failure hcloses => exact Judged.ended hcloses nofun
  | interrupted failure hcloses => exact Judged.ended hcloses nofun
  | joined hcloses hclosing hover =>
      refine Judged.ended hcloses fun drained hdrained ↦ ?_
      rw [← Except.ok.inj hdrained, inHand_eq_nil hover]
      exact iff_of_true rfl rfl
  | deadline hcloses =>
      refine Judged.ended hcloses fun drained hdrained ↦ ?_
      rw [← Except.ok.inj hdrained]
      exact List.isEmpty_iff
  | @abandoned i clean failure hcloses =>
      refine ⟨hj.verdict, fun j hi ↦ ⟨.raised failure, ?_, .inr (.inl ⟨failure, rfl⟩)⟩⟩
      obtain rfl : i = j := Option.some.inj (hcloses.1.symm.trans hi)
      exact List.getElem?_set_self (List.getElem?_eq_some_iff.mp hcloses.2).1
  | @release i clean verdict answer hcloses hclosing hverdict =>
      refine ⟨hj.verdict, fun j hi ↦ ⟨s.ending answer verdict, ?_, ?_⟩⟩
      · obtain rfl : i = j := Option.some.inj (hcloses.1.symm.trans hi)
        exact List.getElem?_set_self (List.getElem?_eq_some_iff.mp hcloses.2).1
      · change Told s.verdict _
        rw [hverdict]
        unfold Shutdown.ending
        split
        · exact .inr (.inl ⟨_, rfl⟩)
        · exact .inr (.inl ⟨_, rfl⟩)
        · exact .inr (.inl ⟨_, rfl⟩)
        · exact .inr (.inr ⟨_, rfl, rfl⟩)

end judged

/-! ## Every run -/

section goes

variable {s s' : Shutdown Payload S n} {h e : List (Happening Payload S)}

theorem books_initial : Books ([] : List (Happening Payload S)) (Shutdown.initial Payload S n) where
  accounted _ htag := absurd htag (Nat.not_lt_zero _)
  before _ := ⟨rfl, rfl⟩
  silent hclosing := by simp [Shutdown.initial, Running.initial, Closing.Ended] at hclosing
  emptied _ := rfl
  cutting hended := hended.elim

theorem Shutdown.Goes.books (hgoes : Shutdown.Goes c chain h s) : Books h s := by
  induction hgoes with
  | start => exact books_initial
  | step hgoes hmove ih => exact ih.move hgoes.runs.tidy hmove

theorem Shutdown.Goes.judged (hgoes : Shutdown.Goes c chain h s) : Judged s := by
  induction hgoes with
  | start => exact ⟨nofun, nofun⟩
  | step _ hmove ih => exact ih.move hmove

/-- Once the channel is gone nothing is asked any more. -/
theorem Shutdown.Move.quiet (hgoes : Shutdown.Goes c chain h s) (hmove : Shutdown.Move c chain s e s')
    {clean : Bool} (hreleased : s.running.closing = .released clean) :
    e = [] ∧ s'.running.closing = .released clean := by
  obtain hruns | ⟨hsame, rfl⟩ := hmove.runs
  · refine ⟨List.eq_nil_iff_forall_not_mem.mpr fun happening hmem ↦ ?_, hruns.released hreleased⟩
    cases happening with
    | asked tag event =>
        obtain ⟨i, d, next, hi, -⟩ := hruns.asked hmem
        have hover := hgoes.runs.closed.left (by rw [hreleased]; trivial) i
        rw [hi] at hover
        exact hover
    | gaveBack tag answer =>
        cases hmove with
        | ask | halt => cases List.mem_singleton.mp hmem
        | giveBack _ hclosing | giveBackFailed _ _ hclosing => cases hclosing.symm.trans hreleased
        | _ => exact absurd hmem List.not_mem_nil
  · exact ⟨rfl, hsame ▸ hreleased⟩

end goes

/-- Closing settles everything once, or leaves it to the broker. -/
theorem closing_settles_once (c : Consumer) (chain : ConsumeNext Payload S) (h : List (Happening Payload S))
    (s : Shutdown Payload S n) (hgoes : Shutdown.Goes c chain h s) :
    (h.filterMap Happening.settlement?).Nodup ∧
    (∀ clean, s.running.closing = .released clean → ∀ tag < s.running.arrived,
      (∃ happening ∈ h, Settles tag happening) ∨ tag ∈ s.raised ∨ tag ∈ s.cut ∨ s.gaveUp = true) ∧
    (∀ tag answer event, .gaveBack tag answer ∈ h → .asked tag event ∉ h) ∧
    (∀ clean, s.running.closing = .released clean → ∀ e s', Shutdown.Move c chain s e s' →
      e.filterMap Happening.settlement? = [] ∧ s'.running.closing = .released clean) ∧
    ∀ i drained, s.closer = some i → s.calls[i]? = some (.returned drained) → (drained = true ↔ s.cut = []) := by
  have htidy := hgoes.runs.tidy
  have hbooks := hgoes.books
  refine ⟨htidy.once, fun clean hreleased tag htag ↦ ?_, htidy.gaveBack, fun clean hreleased e s' hmove ↦ ?_,
    fun i drained hcloser hcall ↦ ?_⟩
  · have hended : s.running.closing.Ended := by
      rw [hreleased]
      trivial
    cases hbooks.accounted tag htag with
    | waits d hmem _ =>
        cases hgave : s.gaveUp with
        | true => exact .inr (.inr (.inr rfl))
        | false =>
            rw [← List.reduceOption_mem_iff, hbooks.emptied (.inr ⟨hended, hgave⟩)] at hmem
            exact absurd hmem List.not_mem_nil
    | inHand i d rest hi _ =>
        have hover := hgoes.runs.closed.left (by rw [hreleased]; trivial) i
        rw [hi] at hover
        exact hover.elim
    | settled happening hmem hsettles => exact .inl ⟨happening, hmem, hsettles⟩
    | raised hmem => exact .inr (.inl hmem)
    | cut hmem => exact .inr (.inr (.inl hmem))
    | gaveUp hgave => exact .inr (.inr (.inr hgave))
  · obtain ⟨rfl, hstays⟩ := hmove.quiet hgoes hreleased
    exact ⟨rfl, hstays⟩
  · have hjudged := hgoes.judged
    obtain ⟨call, hfound, htold⟩ := hjudged.closer i hcloser
    obtain rfl : .returned drained = call := Option.some.inj (hcall.symm.trans hfound)
    obtain hnot | ⟨failure, hnot⟩ | ⟨drained', hsame, hverdict⟩ := htold
    · cases hnot
    · cases hnot
    · obtain rfl := Call.returned.inj hsame
      exact hjudged.verdict drained hverdict

/-! ## A delivery nobody settles -/

/-- A consumer of `orders` with one worker, and its handler. -/
def oneConsumer : Consumer := ⟨⟨5000000, 1000⟩, "orders", fixedRetry 3 0, false⟩

def oneChain : ConsumeNext Unit (Handling Unit) := runHandler fun _ outcome ↦ outcome

def oneDelivery : Delivery := ⟨0, [104, 105], none, "orders", "m1", ∅, false, ""⟩

/-- What the codec raises, and what the transport raises. -/
def unreadableBody : Failure := ⟨.exception, "ValueError", "not JSON"⟩

def connectionLost : Failure := ⟨.exception, "ConnectionResetError", "the connection was reset"⟩

def oneCopy : Outbound :=
  hop oneDelivery ((Envelope.new "m1" "orders" 0).withError
    ("could not be decoded: " ++ describe (some unreadableBody)))

/-- The delivery cannot be decoded, and its copy does not leave: what the transport raises goes
through, and nobody settles the delivery. -/
theorem work_oneDelivery : ∃ next last,
    oneConsumer.work oneChain "m1" 0 oneDelivery = .ask (I := Around Unit (Handling Unit))
      (.inl (.decode oneDelivery.body none)) next ∧
    next (.error unreadableBody) = .ask (I := Around Unit (Handling Unit))
      (.inl (.publish "" "orders.parked" oneCopy)) last ∧
    last (.raised connectionLost) = .raise connectionLost := by
  have hread : arrive "m1" 0 oneDelivery = .ok (Envelope.new "m1" "orders" 0) := arrive_empty rfl
  exact ⟨_, _, work_decodes rfl hread, rfl, rfl⟩

/-- What is seen of it. -/
def oneHistory : List (Happening Unit (Handling Unit)) :=
  [.asked 0 ⟨.inl (.decode oneDelivery.body none), .error unreadableBody⟩,
    .asked 0 ⟨.inl (.publish "" "orders.parked" oneCopy), .raised connectionLost⟩]

/-- The consumer is closed afterwards, and nothing goes wrong. -/
theorem goes_oneHistory : ∃ s : Shutdown Unit (Handling Unit) 1, Shutdown.Goes oneConsumer oneChain oneHistory s ∧
    s.running.closing = .released true ∧ s.running.arrived = 1 ∧ s.cut = [] ∧ s.gaveUp = false ∧
    s.closer = some 0 ∧ s.calls = [.returned true] := by
  obtain ⟨next, last, hdecode, hpublish, hraise⟩ := work_oneDelivery
  have hstart : Shutdown.Goes oneConsumer oneChain [] (Shutdown.initial Unit (Handling Unit) 1) := .start
  have hdelivered := hstart.step (.deliver (d := oneDelivery) rfl (fun _ ↦ nofun) rfl)
  have htaken := hdelivered.step (.take (i := 0) "m1" rfl rfl isSome_fromMillis_epoch)
  have hasked := htaken.step (.ask (i := 0) (q := .inl (.decode oneDelivery.body none)) (.error unreadableBody)
    (congrArg (Worker.handling oneDelivery) hdecode) nofun)
  have hlost := hasked.step (.ask (i := 0) (q := .inl (.publish "" "orders.parked" oneCopy)) (.raised connectionLost)
    (congrArg (Worker.handling oneDelivery) hpublish) nofun)
  have hunsettled := hlost.step (.unsettled (i := 0) (congrArg (Worker.handling oneDelivery) hraise) rfl)
  have hcalled := hunsettled.step .call
  have hstopped := hcalled.step (.stopped (i := 0) ⟨rfl, rfl⟩ rfl)
  have hdrained := hstopped.step (.drained (i := 0) ⟨rfl, rfl⟩ rfl rfl)
  have hleft := hdrained.step (.leave (i := 0) rfl rfl)
  have hjoined := hleft.step (.joined (i := 0) ⟨rfl, rfl⟩ rfl fun j ↦ by rw [Subsingleton.elim j 0]; trivial)
  have hreleased := hjoined.step (.release (i := 0) (.ok ()) ⟨rfl, rfl⟩ rfl rfl)
  exact ⟨_, hreleased, rfl, rfl, rfl, rfl, rfl, rfl⟩

/-- It was delivered, nobody so much as tried to settle it, no handler was cut off, and closing
neither failed nor was cancelled.  A call that comes while another closes answers at once, and is wrong
when a handler is cut off later. -/
theorem closing_leaves_unsettled :
    (∃ s : Shutdown Unit (Handling Unit) 1, Shutdown.Goes oneConsumer oneChain oneHistory s ∧
      s.running.closing = .released true ∧ 0 < s.running.arrived ∧
      oneHistory.filterMap Happening.settlement? = [] ∧ s.cut = [] ∧ s.gaveUp = false ∧ s.calls = [.returned true]) ∧
    ∃ s : Shutdown Unit (Handling Unit) 1, Shutdown.Goes oneConsumer oneChain [] s ∧
      s.running.closing = .released false ∧ s.cut = [0] ∧ s.calls = [.returned false, .returned true] := by
  constructor
  · obtain ⟨s, hgoes, hreleased, harrived, hcut, hgave, -, hcalls⟩ := goes_oneHistory
    exact ⟨s, hgoes, hreleased, by rw [harrived]; exact Nat.one_pos, rfl, hcut, hgave, hcalls⟩
  · have hstart : Shutdown.Goes oneConsumer oneChain [] (Shutdown.initial Unit (Handling Unit) 1) := .start
    have hdelivered := hstart.step (.deliver (d := oneDelivery) rfl (fun _ ↦ nofun) rfl)
    have htaken := hdelivered.step (.take (i := 0) "m1" rfl rfl isSome_fromMillis_epoch)
    have hcalled := (htaken.step .call).step .call
    have hstopped := hcalled.step (.stopped (i := 0) ⟨rfl, rfl⟩ rfl)
    have hdrained := hstopped.step (.drained (i := 0) ⟨rfl, rfl⟩ rfl rfl)
    have hcut := hdrained.step (.deadline (i := 0) ⟨rfl, rfl⟩ rfl fun j ↦ by rw [Subsingleton.elim j 0]; exact nofun)
    have hreleased := hcut.step (.release (i := 0) (.ok ()) ⟨rfl, rfl⟩ rfl rfl)
    exact ⟨_, hreleased, rfl, rfl, rfl⟩

/-- Another that waits behind it. -/
def nextDelivery : Delivery := { oneDelivery with tag := 1 }

/-- The copy leaves, and the delivery is settled. -/
theorem work_parked : ∃ next last done,
    oneConsumer.work oneChain "m1" 0 oneDelivery = .ask (I := Around Unit (Handling Unit))
      (.inl (.decode oneDelivery.body none)) next ∧
    next (.error unreadableBody) = .ask (I := Around Unit (Handling Unit))
      (.inl (.publish "" "orders.parked" oneCopy)) last ∧
    last (.answered ⟨"m1", true, true, ""⟩) = .ask (I := Around Unit (Handling Unit)) (.inl (.ack 0)) done ∧
    done (.ok ()) = .ret () := by
  have hread : arrive "m1" 0 oneDelivery = .ok (Envelope.new "m1" "orders" 0) := arrive_empty rfl
  exact ⟨_, _, _, work_decodes rfl hread, rfl, rfl, rfl⟩

/-- The consumer is closed while the delivery is handled, and the next one is given back. -/
def givenBackHistory : List (Happening Unit (Handling Unit)) :=
  [.asked 0 ⟨.inl (.decode oneDelivery.body none), .error unreadableBody⟩, .gaveBack 1 (.ok ()),
    .asked 0 ⟨.inl (.publish "" "orders.parked" oneCopy), .answered ⟨"m1", true, true, ""⟩⟩,
    .asked 0 ⟨.inl (.ack 0), .ok ()⟩]

theorem goes_givenBackHistory : ∃ s : Shutdown Unit (Handling Unit) 1,
    Shutdown.Goes oneConsumer oneChain givenBackHistory s ∧ s.running.closing = .released true ∧
    s.running.arrived = 2 ∧ s.raised = [] ∧ s.cut = [] ∧ s.gaveUp = false := by
  obtain ⟨next, last, done, hdecode, hpublish, hack, hdone⟩ := work_parked
  have hstart : Shutdown.Goes oneConsumer oneChain [] (Shutdown.initial Unit (Handling Unit) 1) := .start
  have hdelivered := hstart.step (.deliver (d := oneDelivery) rfl (fun _ ↦ nofun) rfl)
  have hwaiting := hdelivered.step (.deliver (d := nextDelivery) rfl (fun _ ↦ nofun) rfl)
  have htaken := hwaiting.step (.take (i := 0) "m1" rfl rfl isSome_fromMillis_epoch)
  have hasked := htaken.step (.ask (i := 0) (q := .inl (.decode oneDelivery.body none)) (.error unreadableBody)
    (congrArg (Worker.handling oneDelivery) hdecode) nofun)
  have hcalled := hasked.step .call
  have hstopped := hcalled.step (.stopped (i := 0) ⟨rfl, rfl⟩ rfl)
  have hback := hstopped.step (.giveBack (i := 0) (d := nextDelivery) ⟨rfl, rfl⟩ rfl rfl)
  have hdrained := hback.step (.drained (i := 0) ⟨rfl, rfl⟩ rfl rfl)
  have hparked := hdrained.step (.ask (i := 0) (q := .inl (.publish "" "orders.parked" oneCopy))
    (.answered ⟨"m1", true, true, ""⟩) (congrArg (Worker.handling oneDelivery) hpublish) nofun)
  have hacked := hparked.step (.ask (i := 0) (q := .inl (.ack 0)) (.ok ())
    (congrArg (Worker.handling oneDelivery) hack) nofun)
  have hsettled := hacked.step (.settled (i := 0) (congrArg (Worker.handling oneDelivery) hdone))
  have hleft := hsettled.step (.leave (i := 0) rfl rfl)
  have hjoined := hleft.step (.joined (i := 0) ⟨rfl, rfl⟩ rfl fun j ↦ by rw [Subsingleton.elim j 0]; trivial)
  have hreleased := hjoined.step (.release (i := 0) (.ok ()) ⟨rfl, rfl⟩ rfl rfl)
  exact ⟨_, hreleased, rfl, rfl, rfl, rfl, rfl⟩

/-- Of the two, one is settled by its handling and one given back. -/
theorem closing_settles_once_givenBack : (givenBackHistory.filterMap Happening.settlement?).Nodup ∧
    ∀ tag < 2, ∃ happening ∈ givenBackHistory, Settles tag happening := by
  obtain ⟨s, hgoes, hreleased, harrived, hraised, hcut, hgave⟩ := goes_givenBackHistory
  have hsettles := closing_settles_once oneConsumer oneChain givenBackHistory s hgoes
  refine ⟨hsettles.1, fun tag htag ↦ ?_⟩
  have hfate := hsettles.2.1 true hreleased tag (harrived ▸ htag)
  simpa [hraised, hcut, hgave] using hfate

end Consumer

end AcemqAmqp
