import LetChain.Span

/-! Joins of regions. A join is cut where its length does not fit, and later joins start from the
cut region. The order and the grouping of the joins make no difference all the same. -/

namespace LetChain.Span

def Covers (outer inner : Span) : Prop := outer.lo ≤ inner.lo ∧ inner.hi ≤ outer.hi

@[ext] theorem ext {a b : Span} (lo : a.lo = b.lo) (length : a.length = b.length) : a = b := by
  cases a
  cases b
  simp_all

theorem ofBounds_bounds (a : Span) : ofBounds a.lo a.hi = a := by
  have bounded := a.bounded
  refine Span.ext rfl ?_
  simp only [ofBounds, hi]
  omega

theorem hi_ofBounds {lo hi : Nat} (order : lo ≤ hi) :
    (ofBounds lo hi).hi = min hi (lo + maxLength) := by
  simp only [Span.hi, ofBounds]
  omega

theorem join_ofBounds {lo hi lo' hi' : Nat} (order : lo ≤ hi) (order' : lo' ≤ hi') :
    (ofBounds lo hi).join (ofBounds lo' hi') = ofBounds (min lo lo') (max hi hi') := by
  refine Span.ext rfl ?_
  rw [join, hi_ofBounds order, hi_ofBounds order']
  simp only [ofBounds]
  omega

theorem join_comm (a b : Span) : a.join b = b.join a := by
  rw [join, join, Nat.min_comm, Nat.max_comm]

theorem join_self (a : Span) : a.join a = a := by
  rw [join, Nat.min_self, Nat.max_self, ofBounds_bounds]

/-- The least start and the greatest end of some regions. -/
structure Extent (spans : List Span) (lo hi : Nat) : Prop where
  starts : ∃ span ∈ spans, span.lo = lo
  ends : ∃ span ∈ spans, span.hi = hi
  bounds : ∀ span ∈ spans, lo ≤ span.lo ∧ span.hi ≤ hi

namespace Extent

variable {spans more : List Span} {lo hi lo' hi' : Nat}

theorem lo_le_hi (extent : Extent spans lo hi) : lo ≤ hi := by
  obtain ⟨span, member, -⟩ := extent.starts
  obtain ⟨lower, upper⟩ := extent.bounds span member
  exact Nat.le_trans lower (Nat.le_trans (Nat.le_add_right _ _) upper)

theorem perm (extent : Extent spans lo hi) (perm : spans.Perm more) : Extent more lo hi := by
  obtain ⟨starts, ends, bounds⟩ := extent
  simp only [perm.mem_iff] at starts ends bounds
  exact ⟨starts, ends, bounds⟩

theorem append (extent : Extent spans lo hi) (extent' : Extent more lo' hi') :
    Extent (spans ++ more) (min lo lo') (max hi hi') := by
  refine ⟨?_, ?_, fun span member => ?_⟩
  · obtain least | least := Nat.le_total lo lo'
    · obtain ⟨span, member, isLo⟩ := extent.starts
      exact ⟨span, List.mem_append_left _ member, by omega⟩
    · obtain ⟨span, member, isLo⟩ := extent'.starts
      exact ⟨span, List.mem_append_right _ member, by omega⟩
  · obtain greatest | greatest := Nat.le_total hi' hi
    · obtain ⟨span, member, isHi⟩ := extent.ends
      exact ⟨span, List.mem_append_left _ member, by omega⟩
    · obtain ⟨span, member, isHi⟩ := extent'.ends
      exact ⟨span, List.mem_append_right _ member, by omega⟩
  · obtain member | member := List.mem_append.mp member
    · have := extent.bounds span member
      omega
    · have := extent'.bounds span member
      omega

theorem unique (extent : Extent spans lo hi) (extent' : Extent spans lo' hi') :
    lo = lo' ∧ hi = hi' := by
  obtain ⟨⟨first, isFirst, rfl⟩, ⟨last, isLast, rfl⟩, bounds⟩ := extent
  obtain ⟨⟨first', isFirst', rfl⟩, ⟨last', isLast', rfl⟩, bounds'⟩ := extent'
  have := bounds first' isFirst'
  have := bounds last' isLast'
  have := bounds' first isFirst
  have := bounds' last isLast
  omega

theorem hi_le (extent : Extent spans lo hi) {bound : Nat}
    (bounded : ∀ span ∈ spans, span.hi ≤ bound) : (ofBounds lo hi).hi ≤ bound := by
  obtain ⟨last, isLast, rfl⟩ := extent.ends
  rw [hi_ofBounds extent.lo_le_hi]
  exact Nat.le_trans (Nat.min_le_left _ _) (bounded last isLast)

theorem covers_iff (extent : Extent spans lo hi) :
    (∀ span ∈ spans, (ofBounds lo hi).Covers span) ↔ hi - lo ≤ maxLength := by
  have order := extent.lo_le_hi
  have cut := hi_ofBounds order
  constructor
  · intro covers
    obtain ⟨last, isLast, isHi⟩ := extent.ends
    have := (covers last isLast).2
    omega
  · intro fits span member
    obtain ⟨lower, upper⟩ := extent.bounds span member
    exact ⟨lower, by omega⟩

end Extent

/-- Some regions, joined two at a time in any way. -/
inductive Grouping where
  | one (span : Span)
  | both (left right : Grouping)

namespace Grouping

def leaves : Grouping → List Span
  | one span => [span]
  | both left right => left.leaves ++ right.leaves

def joined : Grouping → Span
  | one span => span
  | both left right => left.joined.join right.joined

theorem exists_extent (group : Grouping) :
    ∃ lo hi, Extent group.leaves lo hi ∧ group.joined = ofBounds lo hi := by
  induction group with
  | one span =>
    exact ⟨span.lo, span.hi, by constructor <;> simp [leaves], span.ofBounds_bounds.symm⟩
  | both left right left_ih right_ih =>
    obtain ⟨lo, hi, extent, joined⟩ := left_ih
    obtain ⟨lo', hi', extent', joined'⟩ := right_ih
    refine ⟨min lo lo', max hi hi', extent.append extent', ?_⟩
    rw [Grouping.joined, joined, joined', join_ofBounds extent.lo_le_hi extent'.lo_le_hi]

theorem joined_eq {group : Grouping} {spans : List Span} {lo hi : Nat}
    (perm : group.leaves.Perm spans) (extent : Extent spans lo hi) :
    group.joined = ofBounds lo hi := by
  obtain ⟨lo', hi', extent', joined⟩ := group.exists_extent
  obtain ⟨rfl, rfl⟩ := (extent'.perm perm).unique extent
  exact joined

theorem exists_foldl (group : Grouping) (rest : List Span) :
    ∃ whole : Grouping, whole.leaves = group.leaves ++ rest ∧
      whole.joined = rest.foldl join group.joined := by
  induction rest generalizing group with
  | nil => exact ⟨group, (List.append_nil _).symm, rfl⟩
  | cons next rest ih =>
    obtain ⟨whole, leaves, joined⟩ := ih (both group (one next))
    refine ⟨whole, ?_, joined⟩
    rw [leaves, Grouping.leaves, Grouping.leaves, List.append_assoc, List.singleton_append]

end Grouping

theorem join_assoc (a b c : Span) : (a.join b).join c = a.join (b.join c) := by
  obtain ⟨lo, hi, extent, joined⟩ := (Grouping.both (.both (.one a) (.one b)) (.one c)).exists_extent
  exact joined.trans (Grouping.joined_eq (.refl [a, b, c]) extent : Grouping.joined
    (.both (.one a) (.both (.one b) (.one c))) = _).symm

/-- Joining is commutative, associative and idempotent. In any order and any grouping it leaves the
region from the least start to the greatest end, cut where its length does not fit, and on the way
no end leaves the range of offsets. The region covers all that were joined exactly if nothing is
cut. -/
theorem join_any_order :
    (∀ a b : Span, a.join b = b.join a) ∧
    (∀ a b c : Span, (a.join b).join c = a.join (b.join c)) ∧
    (∀ a : Span, a.join a = a) ∧
    ∀ spans : List Span, spans ≠ [] → (∀ span ∈ spans, span.hi ≤ maxOffset) →
      ∃ lo hi, Extent spans lo hi ∧
        (∀ group : Grouping, group.leaves.Perm spans → group.joined = ofBounds lo hi) ∧
        (∀ first rest, (first :: rest).Perm spans → rest.foldl join first = ofBounds lo hi) ∧
        (∀ group : Grouping, group.leaves ⊆ spans → group.joined.hi ≤ maxOffset) ∧
        ((∀ span ∈ spans, (ofBounds lo hi).Covers span) ↔ hi - lo ≤ maxLength) := by
  refine ⟨join_comm, join_assoc, join_self, fun spans some fits => ?_⟩
  obtain ⟨first, rest, rfl⟩ := List.exists_cons_of_ne_nil some
  obtain ⟨whole, (leaves : _ = first :: rest), -⟩ := (Grouping.one first).exists_foldl rest
  obtain ⟨lo, hi, extent, -⟩ := whole.exists_extent
  rw [leaves] at extent
  refine ⟨lo, hi, extent, fun group perm => Grouping.joined_eq perm extent,
    fun first' rest' perm => ?_, fun group subset => ?_, extent.covers_iff⟩
  · obtain ⟨whole', (leaves' : _ = first' :: rest'), joined⟩ :=
      (Grouping.one first').exists_foldl rest'
    rw [← leaves'] at perm
    exact joined.symm.trans (Grouping.joined_eq perm extent)
  · obtain ⟨lo', hi', extent', joined⟩ := group.exists_extent
    rw [joined]
    exact extent'.hi_le fun span member => fits span (subset member)

def near : Span := ⟨0, 4294967295, Nat.le_refl _⟩

def far : Span := ⟨5000000000, 10, by decide⟩

/-- The second region lies past what a length can hold, and is cut off. -/
theorem join_any_order_distant :
    (∀ span ∈ [far, near, far], span.hi ≤ maxOffset) ∧
      (Grouping.both (.one near) (.both (.one far) (.one far))).joined = near ∧
      ¬∀ span ∈ [far, near, far], near.Covers span := by
  have fits : ∀ span ∈ [far, near, far], span.hi ≤ maxOffset := by decide
  obtain ⟨lo, hi, extent, joined, -, -, covers⟩ :=
    join_any_order.2.2.2 [far, near, far] (by simp) fits
  have whole : Extent [far, near, far] 0 5000000010 := ⟨by decide, by decide, by decide⟩
  obtain ⟨rfl, rfl⟩ := extent.unique whole
  have cut : ofBounds 0 5000000010 = near := by decide
  rw [cut] at joined covers
  exact ⟨fits, joined _ (.swap ..), fun all => absurd (covers.mp all) (by decide)⟩

end LetChain.Span
