import Mathlib.Order.Interval.Finset.Nat

/-! # The account of one sender's numbers

A node keeps the highest number it has seen as its mark and charges the numbers a
jump passes over until they arrive.  The numbers charged are those above the
first arrival and below the highest that have not arrived.  The exception is the
number 1 itself: when it comes late it is taken for a restart, the mark falls
back to 1, and numbers that have long arrived are charged again.
-/

namespace SuperCache

namespace LossCount

structure Extent (first highest : Nat) (seqs : List Nat) : Prop where
  head : seqs.head? = some first
  top : highest ∈ seqs
  below : ∀ seq ∈ seqs, seq ≤ highest

def afterOne (seqs : List Nat) : List Nat :=
  (seqs.dropWhile (· ≠ 1)).tail

/-- The number 1 does not come late, or nothing that comes after it reaches the
first arrival or leaves a number out. -/
def Unmisled (seqs : List Nat) : Prop :=
  1 ∉ seqs.tail ∨ ∀ seq ∈ afterOne seqs,
    (∀ first ∈ seqs.head?, seq < first) ∧ ∀ x < seq, 1 < x → x ∈ afterOne seqs

instance (seqs : List Nat) : Decidable (Unmisled seqs) :=
  inferInstanceAs (Decidable (_ ∨ _))

def neverArrived (first highest : Nat) (seqs : List Nat) : Finset Nat :=
  (Finset.Ioo first highest).filter (· ∉ seqs)

/-- What an arrival does to the mark of its origin and to the numbers charged to
it: those waited for and those reported. -/
inductive Effect (mark : Option Nat) (charged : List Nat) (seq : Nat) :
    Option Nat → List Nat → Prop
  | first (unmarked : mark = none) : Effect mark charged seq (some seq) charged
  | next (prev : Nat) (marked : mark = some prev) (following : seq = prev + 1) :
    Effect mark charged seq (some seq) charged
  | jump (prev : Nat) (charged' : List Nat) (marked : mark = some prev) (ahead : prev + 1 < seq)
    (members : ∀ x, x ∈ charged' ↔ x ∈ charged ∨ prev < x ∧ x < seq)
    (distinct : charged.Nodup → (∀ x ∈ charged, ¬ (prev < x ∧ x < seq)) → charged'.Nodup) :
    Effect mark charged seq (some seq) charged'
  | restart (prev : Nat) (marked : mark = some prev) (behind : seq ≤ prev) (one : seq = 1) :
    Effect mark charged seq (some seq) charged
  | late (prev : Nat) (charged' : List Nat) (marked : mark = some prev) (behind : seq ≤ prev)
    (other : seq ≠ 1) (members : ∀ x, x ∈ charged' ↔ x ∈ charged ∧ x ≠ seq)
    (distinct : charged.Nodup → charged'.Nodup) :
    Effect mark charged seq mark charged'

/-- How the numbers charged stand to the arrivals.  After a late 1 the mark counts
a second time from 1; once it passes the first arrival, that arrival is charged
for good. -/
inductive Phase (seqs : List Nat) (mark : Option Nat) (charged : List Nat) : Prop
  | silent (nothing : seqs = []) (unmarked : mark = none) (empty : charged = [])
  | plain (first highest : Nat) (extent : Extent first highest seqs)
    (marked : mark = some highest) (onTime : 1 ∉ seqs.tail) (distinct : charged.Nodup)
    (members : ∀ x, x ∈ charged ↔ first < x ∧ x < highest ∧ x ∉ seqs)
  | again (before after : List Nat) (first highest top : Nat) (split : seqs = before ++ 1 :: after)
    (started : before ≠ []) (extent : Extent first highest seqs) (marked : mark = some top)
    (reached : top ∈ 1 :: after) (below : ∀ x ∈ after, x ≤ top) (low : top < first)
    (distinct : charged.Nodup)
    (members : ∀ x, x ∈ charged
      ↔ first < x ∧ x < highest ∧ x ∉ seqs ∨ 1 < x ∧ x < top ∧ x ∉ after)
  | misled (before after : List Nat) (first highest prev high : Nat)
    (split : seqs = before ++ 1 :: after) (started : before ≠ [])
    (extent : Extent first highest seqs) (marked : mark = some prev) (seen : prev ∈ seqs)
    (came : high ∈ after) (passed : first < high) (charges : first ∈ charged)
    (members : ∀ x, first < x → x < highest → x ∉ seqs → x ∈ charged)

variable {first highest : Nat} {before after : List Nat}

theorem Extent.append {seqs : List Nat} (extent : Extent first highest seqs) (seq : Nat) :
    Extent first (max highest seq) (seqs ++ [seq]) where
  head := by
    have head := extent.head
    cases seqs with
    | nil => cases head
    | cons x rest => exact head
  top := by
    rcases Nat.le_total highest seq with higher | lower
    · rw [max_eq_right higher]
      exact List.mem_append_right _ (List.mem_singleton_self seq)
    · rw [max_eq_left lower]
      exact List.mem_append_left _ extent.top
  below x member := by
    rcases List.mem_append.mp member with earlier | last
    · exact Nat.le_trans (extent.below x earlier) (Nat.le_max_left ..)
    · rw [List.mem_singleton.mp last]
      exact Nat.le_max_right ..

theorem Extent.raise {seq : Nat} {seqs : List Nat} (extent : Extent first highest seqs)
    (higher : highest ≤ seq) : Extent first seq (seqs ++ [seq]) := by
  have appended := extent.append seq
  rwa [max_eq_right higher] at appended

theorem Extent.keep {seq : Nat} {seqs : List Nat} (extent : Extent first highest seqs)
    (lower : seq ≤ highest) : Extent first highest (seqs ++ [seq]) := by
  have appended := extent.append seq
  rwa [max_eq_left lower] at appended

theorem Extent.first_mem {seqs : List Nat} (extent : Extent first highest seqs) : first ∈ seqs :=
  List.mem_of_mem_head? extent.head

variable {seqs charged charged' : List Nat} {mark mark' : Option Nat} {seq : Nat}

theorem tail_append_singleton (nonempty : seqs ≠ []) (seq : Nat) :
    (seqs ++ [seq]).tail = seqs.tail ++ [seq] := by
  cases seqs with
  | nil => exact absurd rfl nonempty
  | cons x rest => rfl

theorem Extent.ne_nil (extent : Extent first highest seqs) : seqs ≠ [] :=
  List.ne_nil_of_mem extent.top

theorem Phase.step_plain (extent : Extent first highest seqs) (onTime : 1 ∉ seqs.tail)
    (distinct : charged.Nodup) (members : ∀ x, x ∈ charged ↔ first < x ∧ x < highest ∧ x ∉ seqs)
    (new : seq ∉ seqs) (positive : ∀ x ∈ seqs, 0 < x)
    (effect : Effect (some highest) charged seq mark' charged') :
    Phase (seqs ++ [seq]) mark' charged' := by
  have first_le := extent.below first extent.first_mem
  have first_pos := positive first extent.first_mem
  have first_ne : seq ≠ first := fun same => new (same ▸ extent.first_mem)
  have top := extent.top
  have below := extent.below
  have onTime' (other : seq ≠ 1) : 1 ∉ (seqs ++ [seq]).tail := by
    rw [tail_append_singleton extent.ne_nil]
    grind
  cases effect with
  | first unmarked => cases unmarked
  | next prev marked following =>
    cases marked
    refine .plain first seq (extent.raise (by omega)) rfl (onTime' (by omega)) distinct fun x => ?_
    grind
  | jump prev _ marked ahead members' distinct' =>
    cases marked
    refine .plain first seq (extent.raise (by omega)) rfl (onTime' (by omega))
      (distinct' distinct ?_) fun x => ?_
    · grind
    · grind
  | restart prev marked behind one =>
    cases marked
    subst one
    refine .again seqs [] first highest 1 rfl extent.ne_nil (extent.keep behind) rfl
      (List.mem_singleton_self 1) (fun x member => by cases member) (by omega) distinct fun x => ?_
    grind
  | late prev _ marked behind other members' distinct' =>
    cases marked
    refine .plain first highest (extent.keep behind) rfl (onTime' other) (distinct' distinct) fun x => ?_
    grind

/-- After a late 1: up to the first arrival the numbers are charged a second time,
and a jump past it charges the first arrival. -/
theorem Phase.step_again {top : Nat} (split : seqs = before ++ 1 :: after) (started : before ≠ [])
    (extent : Extent first highest seqs) (reached : top ∈ 1 :: after) (below : ∀ x ∈ after, x ≤ top)
    (low : top < first) (distinct : charged.Nodup) (members : ∀ x, x ∈ charged
      ↔ first < x ∧ x < highest ∧ x ∉ seqs ∨ 1 < x ∧ x < top ∧ x ∉ after) (new : seq ∉ seqs)
    (positive : ∀ x ∈ seqs, 0 < x) (effect : Effect (some top) charged seq mark' charged') :
    Phase (seqs ++ [seq]) mark' charged' := by
  have first_le := extent.below first extent.first_mem
  have split' : seqs ++ [seq] = before ++ 1 :: (after ++ [seq]) := by
    rw [split, List.append_assoc, List.cons_append]
  have top_pos := positive top (split ▸ List.mem_append_right _ reached)
  have new_after : seq ∉ 1 :: after := fun member => new (split ▸ List.mem_append_right _ member)
  have seq_ne_one : seq ≠ 1 := fun one => new_after (one ▸ List.mem_cons_self)
  have seq_ne_top : seq ≠ top := fun same => new_after (same ▸ reached)
  have seq_ne_first : seq ≠ first := fun same => new (same ▸ extent.first_mem)
  have highest_mem := extent.top
  cases effect with
  | first unmarked => cases unmarked
  | next prev marked following =>
    cases marked
    refine .again before (after ++ [seq]) first highest seq split' started
      (extent.keep (by omega)) rfl (by simp) (by grind) (by omega) distinct fun x => ?_
    grind
  | jump prev _ marked ahead members' distinct' =>
    cases marked
    rcases Nat.lt_or_ge seq first with lower | higher
    · refine .again before (after ++ [seq]) first highest seq split' started
        (extent.keep (by omega)) rfl (by simp) (by grind) lower (distinct' distinct ?_)
        fun x => ?_
      · grind
      · grind
    · -- the jump passes the first arrival, which cannot come again
      refine .misled before (after ++ [seq]) first (max highest seq) seq seq split' started
        (extent.append seq) rfl (by simp) (by simp) (by omega)
        ((members' first).mpr (.inr ⟨low, by omega⟩)) fun x above under never => ?_
      grind
  | restart prev marked behind one => exact absurd one seq_ne_one
  | late prev _ marked behind other members' distinct' =>
    cases marked
    refine .again before (after ++ [seq]) first highest top split' started
      (extent.keep (by omega)) rfl ?_ ?_ low (distinct' distinct) fun x => ?_
    · grind
    · grind
    · grind

theorem Phase.step_misled {prev high : Nat} (split : seqs = before ++ 1 :: after)
    (started : before ≠ []) (extent : Extent first highest seqs) (seen : prev ∈ seqs)
    (came : high ∈ after) (passed : first < high) (charges : first ∈ charged)
    (members : ∀ x, first < x → x < highest → x ∉ seqs → x ∈ charged) (new : seq ∉ seqs)
    (effect : Effect (some prev) charged seq mark' charged') :
    Phase (seqs ++ [seq]) mark' charged' := by
  have split' : seqs ++ [seq] = before ++ 1 :: (after ++ [seq]) := by
    rw [split, List.append_assoc, List.cons_append]
  have prev_le := extent.below prev seen
  have last : seq ∈ seqs ++ [seq] := List.mem_append_right _ (List.mem_singleton_self seq)
  -- no effect drops a number other than the one that arrives
  have kept : ∀ x ∈ charged, x ≠ seq → x ∈ charged' := by
    intro x member other
    cases effect with
    | first | next | restart => exact member
    | jump prev _ marked ahead members' => exact (members' x).mpr (.inl member)
    | late prev _ marked behind _ members' => exact (members' x).mpr ⟨member, other⟩
  have charged_first : first ∈ charged' :=
    kept first charges fun same => new (same ▸ extent.first_mem)
  have owed : ∀ x, first < x → x < max highest seq → x ∉ seqs ++ [seq] → x ∈ charged' := by
    intro x above under never
    have other : x ≠ highest := fun same => never (same ▸ List.mem_append_left _ extent.top)
    rcases Nat.lt_or_ge x highest with inside | outside
    · grind
    · cases effect <;> grind
  have came' : high ∈ after ++ [seq] := List.mem_append_left _ came
  have again (prev' : Nat) (marked : mark' = some prev') (seen' : prev' ∈ seqs ++ [seq]) :
      Phase (seqs ++ [seq]) mark' charged' :=
    .misled before (after ++ [seq]) first (max highest seq) prev' high split' started
      (extent.append seq) marked seen' came' passed charged_first owed
  cases effect with
  | first | next | jump | restart => exact again seq rfl last
  | late => exact again prev rfl (List.mem_append_left _ seen)

theorem Phase.step (phase : Phase seqs mark charged) (new : seq ∉ seqs)
    (positive : ∀ x ∈ seqs, 0 < x) (effect : Effect mark charged seq mark' charged') :
    Phase (seqs ++ [seq]) mark' charged' := by
  cases phase with
  | silent nothing unmarked empty =>
    subst nothing unmarked empty
    cases effect with
    | first =>
      refine .plain seq seq ⟨rfl, List.mem_singleton_self seq, fun x member => ?_⟩ rfl
        List.not_mem_nil List.nodup_nil fun x => ?_
      · exact (List.mem_singleton.mp member).le
      · refine iff_of_false List.not_mem_nil fun ⟨above, under, _⟩ => ?_
        omega
    | next prev marked => cases marked
    | jump prev _ marked => cases marked
    | restart prev marked => cases marked
    | late prev _ marked => cases marked
  | plain first highest extent marked onTime distinct members =>
    exact .step_plain extent onTime distinct members new positive (marked ▸ effect)
  | again before after first highest top split started extent marked reached below low distinct
      members =>
    exact .step_again split started extent reached below low distinct members new
      positive (marked ▸ effect)
  | misled before after first highest prev high split started extent marked seen came passed charges
      members =>
    exact .step_misled split started extent seen came passed charges members new (marked ▸ effect)

/-! ## The account at the end -/

theorem afterOne_append (after : List Nat) (absent : 1 ∉ before) :
    afterOne (before ++ 1 :: after) = after := by
  unfold afterOne
  rw [List.dropWhile_append_of_pos]
  · simp
  · intro x member
    simp only [decide_eq_true_eq]
    exact fun one => absent (one ▸ member)

theorem length_eq_card {owed : Finset Nat} (distinct : charged.Nodup)
    (members : ∀ x, x ∈ charged ↔ x ∈ owed) : charged.length = owed.card := by
  rw [← List.toFinset_card_of_nodup distinct]
  congr 1
  ext x
  rw [List.mem_toFinset, members]

theorem mem_neverArrived {x : Nat} :
    x ∈ neverArrived first highest seqs ↔ first < x ∧ x < highest ∧ x ∉ seqs := by
  simp only [neverArrived, Finset.mem_filter, Finset.mem_Ioo, and_assoc]

theorem again_exact_iff {top : Nat} (split : seqs = before ++ 1 :: after) (started : before ≠ [])
    (unseen : 1 ∉ before) (extent : Extent first highest seqs) (reached : top ∈ 1 :: after)
    (below : ∀ x ∈ after, x ≤ top) (low : top < first) (distinct : charged.Nodup)
    (members : ∀ x, x ∈ charged
      ↔ first < x ∧ x < highest ∧ x ∉ seqs ∨ 1 < x ∧ x < top ∧ x ∉ after) :
    charged.length = (neverArrived first highest seqs).card ↔ Unmisled seqs := by
  have apart : Disjoint (neverArrived first highest seqs) (neverArrived 1 top after) := by
    refine Finset.disjoint_left.mpr fun x high inside => ?_
    have := (mem_neverArrived.mp high).1
    have := (mem_neverArrived.mp inside).2.1
    omega
  have total : charged.length
      = (neverArrived first highest seqs).card + (neverArrived 1 top after).card := by
    rw [← Finset.card_union_of_disjoint apart]
    refine length_eq_card distinct fun x => ?_
    rw [members, Finset.mem_union, mem_neverArrived, mem_neverArrived]
  have late : 1 ∈ seqs.tail := by
    cases before with
    | nil => exact absurd rfl started
    | cons x rest =>
      rw [split]
      exact List.mem_append_right _ List.mem_cons_self
  rw [total, Nat.add_eq_left, Finset.card_eq_zero, Finset.eq_empty_iff_forall_notMem, Unmisled,
    split, afterOne_append after unseen, ← split, or_iff_right (not_not_intro late)]
  constructor
  · intro complete seq member
    refine ⟨fun first' head => ?_, fun x under above => ?_⟩
    · cases extent.head.symm.trans head
      exact Nat.lt_of_le_of_lt (below seq member) low
    · by_contra absent
      exact complete x (mem_neverArrived.mpr
        ⟨above, Nat.lt_of_lt_of_le under (below seq member), absent⟩)
  · intro unmisled x inside
    obtain ⟨above, under, absent⟩ := mem_neverArrived.mp inside
    rcases List.mem_cons.mp reached with one | member
    · omega
    · exact absent ((unmisled top member).2 x under above)

theorem Phase.exact_iff (phase : Phase seqs mark charged) (distinct : seqs.Nodup)
    (extent : Extent first highest seqs) :
    charged.length = (neverArrived first highest seqs).card ↔ Unmisled seqs := by
  have same {first' highest' : Nat} (other : Extent first' highest' seqs) :
      first' = first ∧ highest' = highest :=
    ⟨Option.some.inj (other.head.symm.trans extent.head),
      Nat.le_antisymm (extent.below _ other.top) (other.below _ extent.top)⟩
  have once {before after : List Nat} (split : seqs = before ++ 1 :: after) : 1 ∉ before := by
    rw [split] at distinct
    exact fun member => List.disjoint_of_nodup_append distinct member List.mem_cons_self
  cases phase with
  | silent nothing =>
    have head := extent.head
    rw [nothing] at head
    cases head
  | plain first' highest' extent' marked onTime distinct members =>
    obtain ⟨rfl, rfl⟩ := same extent'
    refine iff_of_true ?_ (.inl onTime)
    exact length_eq_card distinct fun x => (members x).trans mem_neverArrived.symm
  | again before after first' highest' top split started extent' marked reached below low distinct
      members =>
    obtain ⟨rfl, rfl⟩ := same extent'
    exact again_exact_iff split started (once split) extent reached below low distinct members
  | misled before after first' highest' prev high split started extent' marked seen came passed
      charges members =>
    obtain ⟨rfl, rfl⟩ := same extent'
    refine iff_of_false (Nat.ne_of_gt ?_) ?_
    · have included : insert first' (neverArrived first' highest' seqs) ⊆ charged.toFinset := by
        refine Finset.insert_subset (List.mem_toFinset.mpr charges) fun x member => ?_
        obtain ⟨above, under, never⟩ := mem_neverArrived.mp member
        exact List.mem_toFinset.mpr (members x above under never)
      have absent : first' ∉ neverArrived first' highest' seqs :=
        fun member => (mem_neverArrived.mp member).2.2 extent.first_mem
      calc (neverArrived first' highest' seqs).card
          < (insert first' (neverArrived first' highest' seqs)).card := by
            rw [Finset.card_insert_of_notMem absent]
            exact Nat.lt_succ_self _
        _ ≤ charged.toFinset.card := Finset.card_le_card included
        _ ≤ charged.length := List.toFinset_card_le charged
    · rintro (onTime | unmisled)
      · cases before with
        | nil => exact started rfl
        | cons x rest =>
          rw [split] at onTime
          exact onTime (List.mem_append_right _ List.mem_cons_self)
      · rw [split, afterOne_append after (once split), ← split] at unmisled
        have := (unmisled high came).1 first' extent.head
        omega

theorem Phase.mark_mem (phase : Phase seqs mark charged) {prev : Nat} (marked : mark = some prev) :
    prev ∈ seqs := by
  cases phase with
  | silent _ unmarked => cases unmarked.symm.trans marked
  | plain first highest extent marked' =>
    cases marked'.symm.trans marked
    exact extent.top
  | again before after first highest top split started extent marked' reached =>
    cases marked'.symm.trans marked
    rw [split]
    exact List.mem_append_right _ reached
  | misled before after first highest prev' high split started extent marked' seen =>
    cases marked'.symm.trans marked
    exact seen

theorem Phase.perm {charged' : List Nat} (phase : Phase seqs mark charged)
    (moved : charged'.Perm charged) : Phase seqs mark charged' := by
  cases phase with
  | silent nothing unmarked empty =>
    subst empty
    exact .silent nothing unmarked moved.eq_nil
  | plain first highest extent marked onTime distinct members =>
    exact .plain first highest extent marked onTime (moved.nodup_iff.mpr distinct)
      fun x => moved.mem_iff.trans (members x)
  | again before after first highest top split started extent marked reached below low distinct
      members =>
    exact .again before after first highest top split started extent marked reached below low
      (moved.nodup_iff.mpr distinct) fun x => moved.mem_iff.trans (members x)
  | misled before after first highest prev high split started extent marked seen came passed charges
      members =>
    exact .misled before after first highest prev high split started extent marked seen came passed
      (moved.mem_iff.mpr charges) fun x above under never =>
        moved.mem_iff.mpr (members x above under never)

end LossCount

end SuperCache
