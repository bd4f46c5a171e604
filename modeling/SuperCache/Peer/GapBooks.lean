import SuperCache.Peer.Gaps

/-! # The books of the gap tracker

Calls of the gap tracker in any order, with a record of what was noted, struck off and counted
as lost.  As long as the ranges noted for an origin follow one another, every number noted is
waited for, struck off or counted, and only once.
-/

namespace SuperCache

open Lib

inductive GapCall where
  | note (origin : Bytes) (prev got : Nat) (now : Time)
  | arrived (origin : Bytes) (seq : Nat)
  | expired (now : Time)

def GapCall.Follows : GapCall → GapCall → Prop
  | .note origin _ got _, .note origin' prev _ _ => origin = origin' → got ≤ nextSeq prev
  | _, _ => True

def GapCall.origin : GapCall → Option Bytes
  | .note origin _ _ _ => some origin
  | .arrived origin _ => some origin
  | .expired _ => none

structure GapBooks where
  gaps : GapTracker := []
  noted : List Missing := []
  struck : List Missing := []
  /-- What the sweeps reported, each with its time. -/
  counted : List (Skipped × Time) := []

def Skipped.key (number : Skipped) : Bytes × Nat := (number.origin, number.seq)

def Missing.key (entry : Missing) : Bytes × Nat := entry.toSkipped.key

namespace GapBooks

/-- The entries that a `note` makes unless it is refused. -/
def entries (origin : Bytes) (prev got : Nat) (now : Time) : List Missing :=
  (List.range' (nextSeq prev) (got - nextSeq prev)).map fun seq =>
    { origin := origin, seq := seq, jump := 0, deadline := unixMilli (now + gapGrace) }

def step (b : GapBooks) : GapCall → GapBooks
  | .note origin prev got now =>
    match b.gaps.note origin prev got now 0 with
    | (gaps, true) => { b with gaps }
    | (gaps, false) => { b with gaps, noted := b.noted ++ entries origin prev got now }
  | .arrived origin seq =>
    { b with
      gaps := b.gaps.arrived origin seq
      struck := b.struck ++ b.gaps.filter fun entry => entry.origin = origin ∧ entry.seq = seq }
  | .expired now =>
    { b with
      gaps := (b.gaps.expired now).2
      counted := b.counted ++ (b.gaps.expired now).1.map (·, now) }

def settled (b : GapBooks) : List Skipped :=
  (b.gaps ++ b.struck).map Missing.toSkipped ++ b.counted.map Prod.fst

/-- Each number counted was noted, with a deadline that had passed. -/
def Due (b : GapBooks) : Prop :=
  ∀ c ∈ b.counted, ∃ entry ∈ b.noted, entry.toSkipped = c.1 ∧ entry.deadline ≤ unixMilli c.2

structure Balanced (b : GapBooks) : Prop where
  all : (b.noted.map Missing.toSkipped).Perm b.settled
  listed : b.gaps ⊆ b.noted
  once : (b.noted.map Missing.key).Nodup
  due : b.Due

def Above (b : GapBooks) : GapCall → Prop
  | .note origin prev _ _ => ∀ entry ∈ b.noted, entry.origin = origin → entry.seq < nextSeq prev
  | _ => True

theorem step_note (b : GapBooks) (origin : Bytes) (prev got : Nat) (now : Time) :
    b.step (.note origin prev got now) = b
      ∨ b.step (.note origin prev got now) =
        { b with
          gaps := b.gaps.filter (fun old =>
            ¬ (old.origin = origin ∧ nextSeq prev ≤ old.seq ∧ old.seq < got)) ++ entries origin prev got now
          noted := b.noted ++ entries origin prev got now } := by
  by_cases ahead : nextSeq prev < got
  · by_cases small : got - nextSeq prev ≤ gapTrackLimit
    · right
      simp only [step, b.gaps.note_eq origin now 0 ahead small]
      rfl
    · left
      simp only [step, b.gaps.note_refused origin now 0 ahead (Nat.not_le.mp small)]
  · left
    have empty : got - nextSeq prev = 0 := by omega
    simp [step, GapTracker.note, Nat.not_lt.mp ahead, entries, empty]

theorem nodup_entries (origin : Bytes) (prev got : Nat) (now : Time) :
    ((entries origin prev got now).map Missing.key).Nodup := by
  rw [entries, List.map_map]
  exact List.Nodup.map (fun _ _ same => (Prod.mk.inj same).2) List.nodup_range'

variable {b : GapBooks} {prev : Nat} {call : GapCall}

theorem mem_entries {origin : Bytes} {got : Nat} {now : Time} {entry : Missing}
    (made : entry ∈ entries origin prev got now) :
    entry.origin = origin ∧ nextSeq prev ≤ entry.seq ∧ entry.seq < got := by
  obtain ⟨seq, inside, rfl⟩ := List.mem_map.mp made
  rw [List.mem_range'_1] at inside
  exact ⟨rfl, inside.1, by show seq < got; omega⟩

theorem Balanced.note (balanced : b.Balanced) {origin : Bytes} (got : Nat) (now : Time)
    (above : b.Above (.note origin prev got now)) :
    (b.step (.note origin prev got now)).Balanced := by
  obtain same | same := b.step_note origin prev got now
  · rwa [same]
  · -- nothing that is waited for is noted again
    have kept : b.gaps.filter (fun old =>
        ¬ (old.origin = origin ∧ nextSeq prev ≤ old.seq ∧ old.seq < got)) = b.gaps := by
      refine List.filter_eq_self.mpr fun old waiting => ?_
      have before := above old (balanced.listed waiting)
      simp only [decide_eq_true_eq]
      rintro ⟨own, low, -⟩
      exact absurd (before own) (Nat.not_lt.mpr low)
    rw [same, kept]
    refine ⟨?_, List.append_subset.mpr ⟨fun _ waiting => List.mem_append_left _ (balanced.listed waiting),
      List.subset_append_right _ _⟩, ?_, fun c counted => ?_⟩
    · rw [List.map_append]
      refine (balanced.all.append_right _).trans ?_
      refine List.perm_iff_count.mpr fun number => ?_
      simp only [settled, List.map_append, List.count_append]
      omega
    · rw [List.map_append]
      refine List.nodup_append.mpr ⟨balanced.once, nodup_entries origin prev got now, ?_⟩
      intro key listed key' made same
      obtain ⟨old, before, rfl⟩ := List.mem_map.mp listed
      obtain ⟨new, fresh, rfl⟩ := List.mem_map.mp made
      obtain ⟨own, low, -⟩ := mem_entries fresh
      have numbers : old.origin = new.origin ∧ old.seq = new.seq := Prod.mk.inj same
      have below := above old before (numbers.1.trans own)
      omega
    · obtain ⟨entry, before, due⟩ := balanced.due c counted
      exact ⟨entry, List.mem_append_left _ before, due⟩

theorem Balanced.step (balanced : b.Balanced) (above : b.Above call) : (b.step call).Balanced := by
  cases call with
  | note origin prev got now => exact balanced.note got now above
  | arrived origin seq =>
    refine ⟨balanced.all.trans ?_, fun entry kept => balanced.listed (List.mem_filter.mp kept).1,
      balanced.once, balanced.due⟩
    have parts := (List.filter_append_perm
      (fun entry : Missing => entry.origin = origin ∧ entry.seq = seq) b.gaps).map Missing.toSkipped
    refine List.perm_iff_count.mpr fun number => ?_
    have counts := parts.count_eq number
    simp only [settled, GapBooks.step, GapTracker.arrived, List.map_append, List.count_append,
      decide_not] at counts ⊢
    omega
  | expired now =>
    refine ⟨balanced.all.trans ?_, fun entry kept => balanced.listed (List.mem_filter.mp kept).1,
      balanced.once, fun c counted => ?_⟩
    · have parts := (List.filter_append_perm
        (fun entry : Missing => entry.deadline ≤ unixMilli now) b.gaps).map Missing.toSkipped
      refine List.perm_iff_count.mpr fun number => ?_
      have counts := parts.count_eq number
      have back : (fun number : Skipped => (number, now).1) = id := rfl
      simp only [settled, GapBooks.step, GapTracker.expired, List.map_append, List.map_map (g := Prod.fst),
        Function.comp_def, back, List.map_id, List.count_append, decide_not] at counts ⊢
      omega
    · obtain old | new := List.mem_append.mp counted
      · exact balanced.due c old
      · obtain ⟨number, reported, rfl⟩ := List.mem_map.mp new
        obtain ⟨entry, late, rfl⟩ := List.mem_map.mp reported
        obtain ⟨waiting, late⟩ := List.mem_filter.mp late
        exact ⟨entry, balanced.listed waiting, rfl, of_decide_eq_true late⟩

theorem Above.step {later : GapCall} (above : b.Above later) (follows : call.Follows later) :
    (b.step call).Above later := by
  cases later with
  | arrived _ _ => trivial
  | expired _ => trivial
  | note origin prev got now =>
    cases call with
    | arrived _ _ => exact above
    | expired _ => exact above
    | note origin' prev' got' now' =>
      obtain same | same := b.step_note origin' prev' got' now' <;> rw [same]
      · exact above
      · intro entry listed own
        obtain old | made := List.mem_append.mp listed
        · exact above entry old own
        · obtain ⟨theirs, -, below⟩ := mem_entries made
          exact below.trans_le (follows (theirs.symm.trans own))

theorem balanced_run {calls : List GapCall} (ordered : calls.Pairwise GapCall.Follows)
    (balanced : b.Balanced) (above : ∀ call ∈ calls, b.Above call) :
    (calls.foldl step b).Balanced := by
  induction calls generalizing b with
  | nil => exact balanced
  | cons call rest ih =>
    obtain ⟨first, ordered⟩ := List.pairwise_cons.mp ordered
    obtain ⟨now, later⟩ := List.forall_mem_cons.mp above
    exact ih ordered (balanced.step now) fun next listed => (later next listed).step (first next listed)

def of (b : GapBooks) (origin : Bytes) : GapBooks where
  gaps := b.gaps.filter (·.origin = origin)
  noted := b.noted.filter (·.origin = origin)
  struck := b.struck.filter (·.origin = origin)
  counted := b.counted.filter (·.1.origin = origin)

section Frame

variable {origin other : Bytes} (different : other ≠ origin) {entries : List Missing}
include different

theorem filter_other (theirs : ∀ entry ∈ entries, entry.origin = origin) :
    entries.filter (·.origin = other) = [] := by
  refine List.filter_eq_nil_iff.mpr fun entry listed own => different ?_
  rw [← theirs entry listed, of_decide_eq_true own]

theorem filter_kept (hits : Missing → Prop) [DecidablePred hits]
    (theirs : ∀ entry, hits entry → entry.origin = origin) :
    (entries.filter fun entry => ¬ hits entry).filter (·.origin = other)
      = entries.filter (·.origin = other) := by
  rw [List.filter_filter]
  refine List.filter_congr fun entry _ => ?_
  by_cases own : entry.origin = other
  · have spared : ¬ hits entry := fun hit => different (own.symm.trans (theirs entry hit))
    simp [own, spared]
  · simp [own]

theorem step_of_other (b : GapBooks) {call : GapCall} (concerns : call.origin = some origin) :
    (b.step call).of other = b.of other := by
  cases call with
  | expired _ => cases concerns
  | arrived _ seq =>
    cases concerns
    have struck : (b.gaps.filter fun entry => entry.origin = origin ∧ entry.seq = seq).filter
        (·.origin = other) = [] :=
      filter_other different fun entry hit => (of_decide_eq_true (List.mem_filter.mp hit).2).1
    simp only [of, step, GapTracker.arrived, List.filter_append, struck, List.append_nil,
      filter_kept different (fun entry => entry.origin = origin ∧ entry.seq = seq) fun _ hit => hit.1]
  | note _ prev got now =>
    cases concerns
    obtain same | same := b.step_note origin prev got now <;> rw [same]
    simp only [of, List.filter_append, filter_other different fun entry made => (mem_entries made).1,
      List.append_nil, filter_kept different
        (fun old => old.origin = origin ∧ nextSeq prev ≤ old.seq ∧ old.seq < got) fun _ hit => hit.1]

end Frame

end GapBooks

/-- Every number noted is waited for, struck off or reported by a sweep as lost, exactly one of
these and once; what a sweep reports was noted and is due; and a call for an origin changes no
other. -/
theorem gap_books_balance {calls : List GapCall} (ordered : calls.Pairwise GapCall.Follows) :
    let b := calls.foldl GapBooks.step {}
    (∀ key ∈ b.noted.map Missing.key, (b.gaps.map Missing.key).count key
        + (b.struck.map Missing.key).count key + (b.counted.map (Skipped.key ∘ Prod.fst)).count key = 1)
      ∧ b.Due
      ∧ ∀ call origin other, GapCall.origin call = some origin → other ≠ origin →
        (b.step call).of other = b.of other := by
  intro b
  have balanced : b.Balanced := by
    refine GapBooks.balanced_run ordered ⟨.nil, List.nil_subset _, .nil, List.forall_mem_nil _⟩ fun call _ => ?_
    cases call <;> simp [GapBooks.Above]
  refine ⟨fun key noted => ?_, balanced.due, fun call origin other concerns different =>
    GapBooks.step_of_other different b concerns⟩
  have once := List.count_eq_one_of_mem balanced.once noted
  have keys : (b.noted.map Missing.key).Perm (b.settled.map Skipped.key) := by
    have := balanced.all.map Skipped.key
    rwa [List.map_map] at this
  rw [keys.count_eq, GapBooks.settled, List.map_append, List.map_map, List.map_map, List.map_append,
    List.count_append, List.count_append] at once
  exact once

def oneLate : List GapCall :=
  [.note (ascii "n") 1 5 0, .arrived (ascii "n") 3, .expired 60000000000]

theorem late_number_struck :
    let b := oneLate.foldl GapBooks.step {}
    (ascii "n", 3) ∈ b.noted.map Missing.key ∧ (b.struck.map Missing.key).count (ascii "n", 3) = 1
      ∧ (b.gaps.map Missing.key).count (ascii "n", 3) + (b.struck.map Missing.key).count (ascii "n", 3)
        + (b.counted.map (Skipped.key ∘ Prod.fst)).count (ascii "n", 3) = 1 := by
  have ordered : oneLate.Pairwise GapCall.Follows := by simp [oneLate, GapCall.Follows]
  have noted : (ascii "n", 3) ∈ (oneLate.foldl GapBooks.step {}).noted.map Missing.key := by decide +kernel
  exact ⟨noted, by decide +kernel, (gap_books_balance ordered).1 _ noted⟩

end SuperCache
