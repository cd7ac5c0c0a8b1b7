import AcemqAmqp.Foundations.Tally
import AcemqAmqp.Wire.Value
import Mathlib.Data.List.MinMax

/-!
# Where a stream subscription has got to

A subscription keeps the offset it would be recovered at in the arguments it
was consumed with: the oldest entry delivered and not yet settled, or the one
after the newest settled.  Entries are settled in any order, those of an
earlier connection among them.
-/

namespace AcemqAmqp

namespace Streams

/-- `_STREAM_OFFSET`. -/
def streamOffset : String := "x-stream-offset"

/-- `_StreamPosition`. -/
structure StreamPosition where
  arguments : Dict String Value
  pending : Dict ℤ ℤ
  settled : ℤ

namespace StreamPosition

variable (position : StreamPosition)

/-- `min(pending) if pending else settled + 1`. -/
def offset : ℤ := position.pending.keys.min?.getD (position.settled + 1)

/-- `_move`. -/
def move : StreamPosition :=
  { position with arguments := position.arguments.set streamOffset (.int position.offset) }

/-- `delivered`. -/
def onDelivered (offset : ℤ) : StreamPosition :=
  { position with pending := position.pending.tallied offset }.move

/-- `settled`. -/
def onSettled (offset : ℤ) : StreamPosition :=
  { position with
    pending := position.pending.untallied offset
    settled := max position.settled offset }.move

end StreamPosition

/-- The offset a delivery has, of a header that is an integer and not negative. -/
def offsetOf (headers : Dict String Value) : Option ℤ :=
  match headers.get? streamOffset with
  | some (.int n) => if 0 ≤ n then some n else none
  | some (.bool b) => some (if b then 1 else 0)
  | _ => none

/-- The position `consume` keeps, of a subscription that asks for an offset. -/
def positionOf (arguments : Dict String Value) : Option StreamPosition :=
  if streamOffset ∈ arguments then some ⟨arguments, ∅, -1⟩ else none

/-- `_delivery`: recorded before the handler sees it. -/
def arrived (position : StreamPosition) (headers : Dict String Value) : StreamPosition :=
  match offsetOf headers with
  | some offset => position.onDelivered offset
  | none => position

/-! ## A subscription and its recoveries -/

/-- Where the broker is: at what it was asked for when the connection was made, until it has delivered
something on it, and from then on at the entry after the last. -/
inductive Cursor
  | asked (requested : Option Value)
  | next (offset : ℤ)

/-- The broker delivers this offset next: for a number exactly that, for a word what it says, and then
one after the other. -/
def Cursor.Gives : Cursor → ℤ → Prop
  | asked requested, offset => ∀ n, requested = some (.int n) → offset = n
  | next expected, offset => offset = expected

/-- A subscription, the broker and the handlers.  `unsettled` is what handlers
still have, of this connection and of earlier ones; and `delivered` and
`settled` are what has happened so far. -/
structure Subscription where
  position : StreamPosition
  cursor : Cursor
  unsettled : Multiset ℤ
  delivered : List ℤ
  settled : List ℤ

/-- One thing that happens.  The arguments are read when the connection is made again. -/
inductive Subscription.Move : Subscription → Subscription → Prop
  | delivered {s : Subscription} {offset : ℤ} {headers : Dict String Value} :
      offsetOf headers = some offset → s.cursor.Gives offset →
      Subscription.Move s
        { s with
          position := arrived s.position headers
          cursor := .next (offset + 1)
          unsettled := offset ::ₘ s.unsettled
          delivered := s.delivered ++ [offset] }
  | settled {s : Subscription} {offset : ℤ} : offset ∈ s.unsettled →
      Subscription.Move s
        { s with
          position := s.position.onSettled offset
          unsettled := s.unsettled.erase offset
          settled := s.settled ++ [offset] }
  | reconnected {s : Subscription} :
      Subscription.Move s { s with cursor := .asked (s.position.arguments.get? streamOffset) }

/-- Everything that can become of a subscription with these arguments. -/
def Reaches (arguments : Dict String Value) (s : Subscription) : Prop :=
  ∃ position, positionOf arguments = some position ∧
    Relation.ReflTransGen Subscription.Move ⟨position, .asked (arguments.get? streamOffset), 0, [], []⟩ s

/-! ## Nothing is skipped -/

variable {s s' : Subscription} {arguments : Dict String Value}

/-- What the counter, the newest settled entry and the written offset stand for. -/
structure Recorded (s : Subscription) : Prop where
  pending : s.position.pending.Tallies s.unsettled
  natural : ∀ offset ∈ s.unsettled, 0 ≤ offset
  fresh : s.settled = [] → s.position.settled = -1
  newest : ∀ offset ∈ s.settled, offset ≤ s.position.settled
  settled : s.settled ≠ [] → s.position.settled ∈ s.settled
  written : s.delivered ≠ [] →
    s.position.arguments.get? streamOffset = some (.int s.position.offset)

/-- Entries have been delivered from the first one on without a gap, and each is
settled or a handler's. -/
structure Gapless (s : Subscription) (first top : ℤ) : Prop where
  head : s.delivered.head? = some first
  delivered : ∀ offset, first ≤ offset → offset < top →
    offset ∈ s.settled ∨ offset ∈ s.unsettled
  unsettled : ∀ offset ∈ s.unsettled, first ≤ offset ∧ offset < top
  settled : ∀ offset ∈ s.settled, first ≤ offset ∧ offset < top
  nonempty : first < top
  cursor : ∀ offset, s.cursor.Gives offset → first ≤ offset ∧ offset ≤ top

theorem Recorded.offset_eq (h : Recorded s) :
    (s.unsettled = 0 ∧ s.position.offset = s.position.settled + 1) ∨
      (s.position.offset ∈ s.unsettled ∧ ∀ offset ∈ s.unsettled, s.position.offset ≤ offset) := by
  have hmem : ∀ offset, offset ∈ s.position.pending.keys ↔ offset ∈ s.unsettled :=
    fun _ ↦ h.pending.mem_iff
  unfold StreamPosition.offset
  cases hmin : s.position.pending.keys.min? with
  | none =>
      left
      rw [List.min?_eq_none_iff] at hmin
      refine ⟨Multiset.eq_zero_of_forall_notMem fun offset hoffset ↦ ?_, rfl⟩
      rw [← hmem, hmin] at hoffset
      exact List.not_mem_nil hoffset
  | some oldest =>
      right
      obtain ⟨hoffset, hle⟩ := List.min?_eq_some_iff.mp hmin
      exact ⟨(hmem oldest).mp hoffset, fun offset hpending ↦ hle offset ((hmem offset).mpr hpending)⟩

theorem Gapless.delivered_ne {first top : ℤ} (h : Gapless s first top) : s.delivered ≠ [] := by
  intro hnone
  have hhead := h.head
  rw [hnone] at hhead
  cases hhead

theorem Gapless.settled_ne {first top : ℤ} (h : Gapless s first top) (hnone : s.unsettled = 0) :
    s.settled ≠ [] := by
  intro hempty
  rcases h.delivered first le_rfl h.nonempty with hdone | hheld
  · rw [hempty] at hdone
    exact List.not_mem_nil hdone
  · rw [hnone] at hheld
    exact Multiset.notMem_zero first hheld

/-- The written offset is not before the first entry, and not after the last. -/
theorem Gapless.offset_range {first top : ℤ} (hrecorded : Recorded s) (h : Gapless s first top) :
    first ≤ s.position.offset ∧ s.position.offset ≤ top := by
  rcases hrecorded.offset_eq with ⟨hnone, heq⟩ | ⟨hmem, -⟩
  · obtain ⟨hlow, hhigh⟩ := h.settled _ (hrecorded.settled (h.settled_ne hnone))
    rw [heq]
    omega
  · obtain ⟨hlow, hhigh⟩ := h.unsettled _ hmem
    exact ⟨hlow, hhigh.le⟩

theorem arrived_eq {position : StreamPosition} {headers : Dict String Value} {offset : ℤ}
    (h : offsetOf headers = some offset) : arrived position headers = position.onDelivered offset := by
  rw [arrived, h]

theorem offsetOf_nonneg {headers : Dict String Value} {offset : ℤ}
    (h : offsetOf headers = some offset) : 0 ≤ offset := by
  unfold offsetOf at h
  split at h
  · split at h
    · obtain rfl := Option.some.inj h
      assumption
    · cases h
  · rename_i b _
    obtain rfl := Option.some.inj h
    cases b <;> decide
  · cases h

/-- What has been recorded is recorded after every move. -/
theorem Recorded.move (h : Recorded s) (hmove : Subscription.Move s s') : Recorded s' := by
  cases hmove with
  | @delivered offset headers hoffset hcursor =>
      rw [arrived_eq hoffset]
      constructor
      case pending => exact h.pending.tallied offset
      case natural =>
        intro other hother
        rcases Multiset.mem_cons.mp hother with rfl | hold
        · exact offsetOf_nonneg hoffset
        · exact h.natural other hold
      case fresh => exact h.fresh
      case newest => exact h.newest
      case settled => exact h.settled
      case written => exact fun _ ↦ Dict.get?_set_self
  | @settled offset hmem =>
      constructor
      case pending => exact h.pending.untallied hmem
      case natural => exact fun other hother ↦ h.natural other (Multiset.mem_of_mem_erase hother)
      case fresh => exact fun hempty ↦ absurd hempty (List.append_ne_nil_of_right_ne_nil _ (by simp))
      case newest =>
        intro other hother
        rcases List.mem_append.mp hother with hold | hnew
        · exact le_max_of_le_left (h.newest other hold)
        · obtain rfl := List.mem_singleton.mp hnew
          exact le_max_right _ _
      case settled =>
        intro _
        change max s.position.settled offset ∈ s.settled ++ [offset]
        by_cases hempty : s.settled = []
        · have hnatural := h.natural offset hmem
          rw [h.fresh hempty, max_eq_right (by omega)]
          exact List.mem_append_right _ (List.mem_singleton_self _)
        · rcases max_choice s.position.settled offset with hmax | hmax
          · rw [hmax]
            exact List.mem_append_left _ (h.settled hempty)
          · rw [hmax]
            exact List.mem_append_right _ (List.mem_singleton_self _)
      case written => exact fun _ ↦ Dict.get?_set_self
  | reconnected => exact ⟨h.pending, h.natural, h.fresh, h.newest, h.settled, h.written⟩

/-- The first entry that is delivered. -/
theorem gapless_first {offset : ℤ} {headers : Dict String Value} (hnone : s.delivered = [])
    (hunsettled : s.unsettled = 0) (hsettled : s.settled = []) :
    Gapless { s with
      position := arrived s.position headers
      cursor := .next (offset + 1)
      unsettled := offset ::ₘ s.unsettled
      delivered := s.delivered ++ [offset] } offset (offset + 1) where
  head := by rw [hnone]; rfl
  delivered other hlow hhigh := by
    right
    obtain rfl : other = offset := by omega
    exact Multiset.mem_cons_self other _
  unsettled other hother := by
    rw [hunsettled, Multiset.mem_cons, or_iff_left (Multiset.notMem_zero other)] at hother
    omega
  settled other hother := by
    rw [hsettled] at hother
    exact absurd hother List.not_mem_nil
  nonempty := by omega
  cursor other hother := by
    obtain rfl : other = offset + 1 := hother
    omega

/-- A move leaves no gap. -/
theorem Gapless.move {first top : ℤ} (hrecorded : Recorded s) (h : Gapless s first top)
    (hmove : Subscription.Move s s') : ∃ top', Gapless s' first top' := by
  cases hmove with
  | @delivered offset headers hoffset hcursor =>
      obtain ⟨hlow, hhigh⟩ := h.cursor offset hcursor
      refine ⟨max top (offset + 1), ?_⟩
      constructor
      case head => rw [List.head?_append, h.head, Option.some_or]
      case delivered =>
        intro other hfirst htop
        by_cases hother : other = offset
        · exact .inr (hother ▸ Multiset.mem_cons_self other _)
        · exact (h.delivered other hfirst (by omega)).imp_right Multiset.mem_cons_of_mem
      case unsettled =>
        intro other hother
        rcases Multiset.mem_cons.mp hother with rfl | hold
        · omega
        · have hrange := h.unsettled other hold
          omega
      case settled =>
        intro other hother
        have hrange := h.settled other hother
        omega
      case nonempty => exact lt_max_of_lt_left h.nonempty
      case cursor =>
        intro other hother
        obtain rfl : other = offset + 1 := hother
        omega
  | @settled offset hmem =>
      refine ⟨top, ?_⟩
      constructor
      case head => exact h.head
      case delivered =>
        intro other hfirst htop
        by_cases hother : other = offset
        · exact .inl (List.mem_append_right _ (List.mem_singleton.mpr hother))
        · rcases h.delivered other hfirst htop with hdone | hheld
          · exact .inl (List.mem_append_left _ hdone)
          · exact .inr ((Multiset.mem_erase_of_ne hother).mpr hheld)
      case unsettled => exact fun other hother ↦ h.unsettled other (Multiset.mem_of_mem_erase hother)
      case settled =>
        intro other hother
        rcases List.mem_append.mp hother with hold | hnew
        · exact h.settled other hold
        · obtain rfl := List.mem_singleton.mp hnew
          exact h.unsettled other hmem
      case nonempty => exact h.nonempty
      case cursor => exact h.cursor
  | reconnected =>
      refine ⟨top, h.head, h.delivered, h.unsettled, h.settled, h.nonempty, fun offset hgives ↦ ?_⟩
      -- What was written is what the broker was asked for.
      rw [hgives _ (hrecorded.written h.delivered_ne)]
      exact h.offset_range hrecorded

/-- Nothing has been delivered yet. -/
structure Undelivered (arguments : Dict String Value) (s : Subscription) : Prop where
  arguments : s.position.arguments = arguments
  delivered : s.delivered = []
  unsettled : s.unsettled = 0
  settled : s.settled = []

theorem reaches_invariant (h : Reaches arguments s) :
    Recorded s ∧ (Undelivered arguments s ∨ ∃ first top, Gapless s first top) := by
  obtain ⟨position, hposition, hmoves⟩ := h
  obtain ⟨-, hsome⟩ := Option.ite_none_right_eq_some.mp hposition
  obtain rfl := Option.some.inj hsome
  induction hmoves with
  | refl =>
      refine ⟨⟨Dict.tallies_empty, ?_, fun _ ↦ rfl, ?_, ?_, ?_⟩, .inl ⟨rfl, rfl, rfl, rfl⟩⟩
      · exact fun offset hmem ↦ absurd hmem (Multiset.notMem_zero offset)
      · exact fun offset hmem ↦ absurd hmem List.not_mem_nil
      · exact fun hne ↦ absurd rfl hne
      · exact fun hne ↦ absurd rfl hne
  | tail _ hmove ih =>
      obtain ⟨hrecorded, hundelivered | ⟨first, top, hgapless⟩⟩ := ih
      · refine ⟨hrecorded.move hmove, ?_⟩
        obtain ⟨harguments, hdelivered, hunsettled, hsettled⟩ := hundelivered
        cases hmove with
        | delivered => exact .inr ⟨_, _, gapless_first hdelivered hunsettled hsettled⟩
        | @settled offset hmem =>
            rw [hunsettled] at hmem
            exact absurd hmem (Multiset.notMem_zero offset)
        | reconnected => exact .inl ⟨harguments, hdelivered, hunsettled, hsettled⟩
      · obtain ⟨top', hgapless'⟩ := hgapless.move hrecorded hmove
        exact ⟨hrecorded.move hmove, .inr ⟨first, top', hgapless'⟩⟩

/-- A recovered subscription skips nothing.  Whatever is settled in whatever
order, and however often the connection is lost: every entry before the written
offset has been settled, no entry that a handler still has is before it, and
when no handler has one it is the offset after the newest settled. -/
theorem recovered_subscription_skips_nothing {arguments : Dict String Value} {s : Subscription}
    (h : Reaches arguments s) :
    (s.delivered = [] → s.position.arguments = arguments) ∧
    ∀ first ∈ s.delivered.head?,
      s.position.arguments.get? streamOffset = some (.int s.position.offset) ∧
      (∀ offset, first ≤ offset → offset < s.position.offset → offset ∈ s.settled) ∧
      (∀ offset ∈ s.unsettled, s.position.offset ≤ offset) ∧
      (s.unsettled = 0 → ∃ newest ∈ s.settled, (∀ offset ∈ s.settled, offset ≤ newest) ∧
        s.position.offset = newest + 1) := by
  obtain ⟨hrecorded, hundelivered | ⟨first', top, hgapless⟩⟩ := reaches_invariant h
  · refine ⟨fun _ ↦ hundelivered.arguments, fun first hfirst ↦ ?_⟩
    rw [hundelivered.delivered] at hfirst
    cases hfirst
  · refine ⟨fun hnone ↦ absurd hnone hgapless.delivered_ne, fun first hfirst ↦ ?_⟩
    obtain rfl := Option.some.inj (hgapless.head.symm.trans hfirst)
    have htop := (hgapless.offset_range hrecorded).2
    have hbefore : ∀ offset ∈ s.unsettled, s.position.offset ≤ offset := by
      intro offset hmem
      rcases hrecorded.offset_eq with ⟨hnone, -⟩ | ⟨-, holdest⟩
      · rw [hnone] at hmem
        exact absurd hmem (Multiset.notMem_zero offset)
      · exact holdest offset hmem
    refine ⟨hrecorded.written hgapless.delivered_ne, fun offset hlow hhigh ↦ ?_, hbefore, fun hnone ↦ ?_⟩
    · rcases hgapless.delivered offset hlow (by omega) with hdone | hheld
      · exact hdone
      · have hle := hbefore offset hheld
        omega
    · rcases hrecorded.offset_eq with ⟨-, heq⟩ | ⟨hmem, -⟩
      · exact ⟨_, hrecorded.settled (hgapless.settled_ne hnone), hrecorded.newest, heq⟩
      · rw [hnone] at hmem
        exact absurd hmem (Multiset.notMem_zero _)

/-- Two entries, the second of them settled; the connection is lost and made
again, and the first is settled too late, delivered again and settled again. -/
theorem recovered_subscription_skips_nothing_twice :
    ∃ s, Reaches (.ofList [(streamOffset, .text "first")]) s ∧ s.delivered = [0, 1, 0] ∧
      s.unsettled = 0 ∧ ∃ newest ∈ s.settled, (∀ offset ∈ s.settled, offset ≤ newest) ∧
        s.position.offset = newest + 1 := by
  have hheaders : ∀ n : ℤ, 0 ≤ n → offsetOf (.ofList [(streamOffset, .int n)]) = some n :=
    fun n hn ↦ if_pos hn
  have hreaches : Reaches (.ofList [(streamOffset, .text "first")]) _ := ⟨_, rfl,
    (((((Relation.ReflTransGen.single (.delivered (hheaders 0 (by decide)) nofun)).tail
      (.delivered (hheaders 1 (by decide)) rfl)).tail
      (.settled (show (1 : ℤ) ∈ _ by decide))).tail .reconnected).tail
      (.settled (show (0 : ℤ) ∈ _ by decide))).tail
      (.delivered (hheaders 0 (by decide)) (by rintro n ⟨⟩; rfl)) |>.tail
      (.settled (show (0 : ℤ) ∈ _ by decide))⟩
  exact ⟨_, hreaches, rfl, rfl,
    ((recovered_subscription_skips_nothing hreaches).2 0 rfl).2.2.2 rfl⟩

end Streams

end AcemqAmqp
