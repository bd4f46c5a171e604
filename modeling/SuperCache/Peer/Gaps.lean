import SuperCache.Lib.Machine
import SuperCache.Peer.Apply

/-! # Lost events

`noteReplArrival` compares the number of an event with the highest seen from its
origin.  What a jump skips is kept by the gap tracker of `resync.go` until it
arrives late or its deadline passes; a sweep reports what is past its deadline.
Each number skipped carries the jump that skipped it, as a record only.
-/

namespace SuperCache

open Lib

/-- `gapGrace`, five seconds in nanoseconds. -/
def gapGrace : Int := 5000000000

def gapTrackLimit : Nat := 256

/-- The number after `prev`, a `uint64`. -/
def nextSeq (prev : Nat) : Nat := (prev + 1) % 2 ^ 64

structure Skipped where
  origin : Bytes
  seq : Nat
  jump : Nat
deriving DecidableEq

/-- An entry of the map `missing`. -/
structure Missing extends Skipped where
  deadline : Int
deriving DecidableEq

/-- `gapTracker`: the two-level map as one list, with one entry per origin and
number. -/
abbrev GapTracker := List Missing

namespace GapTracker

/-- The assignment `m[seq] = deadline`. -/
def assign (g : GapTracker) (entry : Missing) : GapTracker :=
  g.filter (fun old => ¬ (old.origin = entry.origin ∧ old.seq = entry.seq)) ++ [entry]

/-- `note`: the map, and whether the jump is too large to be anything but loss. -/
def note (g : GapTracker) (origin : Bytes) (prev got : Nat) (now : Time) (jump : Nat) :
    GapTracker × Bool :=
  if got ≤ nextSeq prev then (g, false)
  else if gapTrackLimit < got - nextSeq prev then (g, true)
  else
    let deadline := unixMilli (now + gapGrace)
    let seqs := List.range' (nextSeq prev) (got - nextSeq prev)
    (seqs.foldl (fun g seq =>
      g.assign { origin := origin, seq := seq, jump := jump, deadline := deadline }) g, false)

/-- `arrived` strikes a number off. -/
def arrived (g : GapTracker) (origin : Bytes) (seq : Nat) : GapTracker :=
  g.filter fun entry => ¬ (entry.origin = origin ∧ entry.seq = seq)

/-- `expired`: what never arrived, and the map without it. -/
def expired (g : GapTracker) (now : Time) : List Skipped × GapTracker :=
  ((g.filter fun entry => entry.deadline ≤ unixMilli now).map Missing.toSkipped,
    g.filter fun entry => ¬ entry.deadline ≤ unixMilli now)

theorem foldl_assign (entry : Nat → Missing) (origin : Bytes) (g : GapTracker) (seqs : List Nat)
    (distinct : seqs.Nodup) (keys : ∀ seq, (entry seq).origin = origin ∧ (entry seq).seq = seq) :
    seqs.foldl (fun g seq => g.assign (entry seq)) g
      = g.filter (fun old => ¬ (old.origin = origin ∧ old.seq ∈ seqs)) ++ seqs.map entry := by
  induction seqs generalizing g with
  | nil => simp
  | cons seq rest ih =>
    obtain ⟨absent, distinct⟩ := List.nodup_cons.mp distinct
    rw [List.foldl_cons, ih _ distinct]
    simp only [assign, keys, List.filter_append, List.filter_filter, List.map_cons,
      List.append_assoc, List.mem_cons]
    congr 1
    · refine List.filter_congr fun old _ => ?_
      simp only [← Bool.decide_and, decide_eq_decide]
      tauto
    · rw [List.filter_cons_of_pos]
      · rfl
      · simp [keys, absent]

theorem note_eq (g : GapTracker) (origin : Bytes) {prev got : Nat} (now : Time) (jump : Nat)
    (ahead : nextSeq prev < got) (small : got - nextSeq prev ≤ gapTrackLimit) :
    g.note origin prev got now jump
      = (g.filter (fun old => ¬ (old.origin = origin ∧ nextSeq prev ≤ old.seq ∧ old.seq < got))
          ++ (List.range' (nextSeq prev) (got - nextSeq prev)).map (fun seq =>
            { origin := origin, seq := seq, jump := jump, deadline := unixMilli (now + gapGrace) }),
        false) := by
  unfold note
  rw [if_neg (Nat.not_le.mpr ahead), if_neg (Nat.not_lt.mpr small)]
  have between (seq : Nat) :
      seq ∈ List.range' (nextSeq prev) (got - nextSeq prev) ↔ nextSeq prev ≤ seq ∧ seq < got := by
    rw [List.mem_range'_1]
    omega
  simp only [foldl_assign
    (fun seq => ⟨{ origin := origin, seq := seq, jump := jump }, unixMilli (now + gapGrace)⟩)
    origin g _ List.nodup_range' fun _ => ⟨rfl, rfl⟩, between]

theorem note_refused (g : GapTracker) (origin : Bytes) {prev got : Nat} (now : Time) (jump : Nat)
    (ahead : nextSeq prev < got) (large : gapTrackLimit < got - nextSeq prev) :
    g.note origin prev got now jump = (g, true) := by
  unfold note
  rw [if_neg (Nat.not_le.mpr ahead), if_pos large]

end GapTracker

structure Tracking where
  originSeq : Bytes → Option Nat
  gaps : GapTracker
  /-- The events reported as lost; `AddReplicationLost` counts them. -/
  lost : List Skipped
  /-- Every entry the tracker was ever given. -/
  noted : List Missing
  jumps : Nat

inductive TrackMove where
  | arrive (wr : WireRepl) (now : Time)
  | sweep (now : Time)

namespace Tracking

def setMark (m : Tracking) (origin : Bytes) (seq : Nat) : Tracking :=
  { m with originSeq := Function.update m.originSeq origin (some seq) }

/-- A jump from `prev` to `got`: the numbers between are noted, or lost at once
(`confirmLoss`). -/
def jump (m : Tracking) (origin : Bytes) (prev got : Nat) (now : Time) : Tracking :=
  let stamp := m.jumps + 1
  let skipped := List.range' (nextSeq prev) (got - nextSeq prev)
  match m.gaps.note origin prev got now stamp with
  | (gaps, true) =>
    { m with
      gaps := gaps
      lost := m.lost ++ skipped.map fun seq => { origin := origin, seq := seq, jump := stamp }
      jumps := stamp }
  | (gaps, false) =>
    { m with
      gaps := gaps
      noted := m.noted ++ skipped.map fun seq =>
        { origin := origin, seq := seq, jump := stamp, deadline := unixMilli (now + gapGrace) }
      jumps := stamp }

/-- `noteReplArrival`. -/
def noteReplArrival (nodeId : Bytes) (m : Tracking) (wr : WireRepl) (now : Time) : Tracking :=
  let origin := trimSpace wr.origin
  if origin = [] ∨ wr.seq = 0 ∨ origin = nodeId then m
  else
    match m.originSeq origin with
    | none => m.setMark origin wr.seq
    | some prev =>
      if wr.seq = nextSeq prev then m.setMark origin wr.seq
      else if nextSeq prev < wr.seq then (m.setMark origin wr.seq).jump origin prev wr.seq now
      else if wr.seq = 1 then m.setMark origin wr.seq
      else { m with gaps := m.gaps.arrived origin wr.seq }

/-- One round of `watchGaps`. -/
def sweep (m : Tracking) (now : Time) : Tracking :=
  { m with
    gaps := (m.gaps.expired now).2
    lost := m.lost ++ (m.gaps.expired now).1 }

def step (nodeId : Bytes) (m : Tracking) : TrackMove → Option Tracking
  | .arrive wr now => some (noteReplArrival nodeId m wr now)
  | .sweep now => some (m.sweep now)

def fresh : Tracking where
  originSeq _ := none
  gaps := []
  lost := []
  noted := []
  jumps := 0

/-! ## What was skipped and not seen again -/

variable {nodeId origin : Bytes} {m : Tracking} {wr : WireRepl} {now : Time} {prev : Nat}

def pending (m : Tracking) (p : Skipped → Bool) : List Skipped :=
  (m.gaps.map Missing.toSkipped).filter p

def reported (m : Tracking) (p : Skipped → Bool) : List Skipped :=
  m.lost.filter p

theorem sweep_perm (m : Tracking) (now : Time) (p : Skipped → Bool) :
    ((m.sweep now).pending p ++ (m.sweep now).reported p).Perm (m.pending p ++ m.reported p) := by
  simp only [pending, reported, ← List.filter_append]
  refine List.Perm.filter p ?_
  simp only [sweep, GapTracker.expired]
  refine List.perm_append_comm.trans ?_
  rw [List.append_assoc, ← List.map_append]
  refine List.perm_append_comm.trans (List.Perm.append_right _ (List.Perm.map _ ?_))
  simpa only [decide_not] using
    List.filter_append_perm (fun entry : Missing => entry.deadline ≤ unixMilli now) m.gaps

theorem sweep_reports (m : Tracking) (now : Time) (p : Skipped → Bool)
    (passed : ∀ entry ∈ m.gaps, p entry.toSkipped → entry.deadline ≤ unixMilli now) :
    ((m.sweep now).reported p).Perm (m.pending p ++ m.reported p) := by
  have empty : (m.sweep now).pending p = [] := by
    simp only [pending, sweep, GapTracker.expired, List.filter_eq_nil_iff, List.mem_map,
      List.mem_filter]
    rintro _ ⟨entry, ⟨member, late⟩, rfl⟩ held
    simp [passed entry member held] at late
  have moved := sweep_perm m now p
  rwa [empty, List.nil_append] at moved

structure From (nodeId origin : Bytes) (wr : WireRepl) : Prop where
  origin_eq : trimSpace wr.origin = origin
  named : origin ≠ []
  numbered : wr.seq ≠ 0
  foreign : origin ≠ nodeId

theorem From.considered (sent : From nodeId origin wr) :
    ¬ (origin = [] ∨ wr.seq = 0 ∨ origin = nodeId) := by
  rintro (blank | unnumbered | own)
  exacts [sent.named blank, sent.numbered unnumbered, sent.foreign own]

section Arrivals

variable (nodeId origin m now) (seq : Nat)

/-- What the arrival of a number of the origin does. -/
inductive Arrived : Tracking → Prop where
  | ignored (unasked : origin = [] ∨ seq = 0 ∨ origin = nodeId) : Arrived m
  | first (unseen : m.originSeq origin = none) : Arrived (m.setMark origin seq)
  | next (prev : Nat) (seen : m.originSeq origin = some prev) (follows : seq = nextSeq prev) :
    Arrived (m.setMark origin seq)
  | jump (prev : Nat) (seen : m.originSeq origin = some prev) (ahead : nextSeq prev < seq) :
    Arrived ((m.setMark origin seq).jump origin prev seq now)
  | restart (prev : Nat) (seen : m.originSeq origin = some prev) (behind : seq < nextSeq prev)
    (one : seq = 1) : Arrived (m.setMark origin seq)
  | late (prev : Nat) (seen : m.originSeq origin = some prev) (behind : seq < nextSeq prev)
    (other : seq ≠ 1) : Arrived { m with gaps := m.gaps.arrived origin seq }

end Arrivals

variable {after : Tracking}

theorem arrived (is : noteReplArrival nodeId m wr now = after) :
    Arrived nodeId (trimSpace wr.origin) m now wr.seq after := by
  subst is
  unfold noteReplArrival
  dsimp only
  split
  · next unasked => exact .ignored unasked
  split
  · next unseen => exact .first unseen
  · next prev seen =>
    split
    · next follows => exact .next prev seen follows
    split
    · next ahead => exact .jump prev seen ahead
    · have behind : wr.seq < nextSeq prev := by omega
      split
      · next one => exact .restart prev seen behind one
      · next other => exact .late prev seen behind other

theorem From.arrived (sent : From nodeId origin wr) (is : noteReplArrival nodeId m wr now = after) :
    Arrived nodeId origin m now wr.seq after :=
  sent.origin_eq ▸ Tracking.arrived is

/-! ## The effect of a jump and of a straggler -/

def passed (m : Tracking) (origin : Bytes) (prev got : Nat) : List Skipped :=
  (List.range' (nextSeq prev) (got - nextSeq prev)).map fun seq =>
    { origin := origin, seq := seq, jump := m.jumps + 1 }

def Between (origin : Bytes) (prev got : Nat) (s : Skipped) : Prop :=
  s.origin = origin ∧ nextSeq prev ≤ s.seq ∧ s.seq < got

instance (origin : Bytes) (prev got : Nat) (s : Skipped) : Decidable (Between origin prev got s) :=
  inferInstanceAs (Decidable (_ ∧ _))

@[simp] theorem jump_originSeq (got : Nat) :
    (m.jump origin prev got now).originSeq = m.originSeq := by
  unfold jump
  dsimp only
  split <;> rfl

theorem jump_jumps (got : Nat) : (m.jump origin prev got now).jumps = m.jumps + 1 := by
  unfold jump
  dsimp only
  split <;> rfl

theorem jump_small (m : Tracking) (origin : Bytes) (now : Time) {got : Nat}
    (ahead : nextSeq prev < got) (small : got - nextSeq prev ≤ gapTrackLimit) (p : Skipped → Bool) :
    (m.jump origin prev got now).pending p
        = (m.pending p).filter (fun s => ¬ Between origin prev got s)
          ++ (m.passed origin prev got).filter p
      ∧ (m.jump origin prev got now).reported p = m.reported p := by
  simp only [jump, m.gaps.note_eq origin now (m.jumps + 1) ahead small, pending, reported, passed,
    List.map_append, List.filter_append, List.map_map, List.filter_map, List.filter_filter,
    and_true]
  congr 2
  exact List.filter_congr fun entry _ => Bool.and_comm _ _

theorem jump_large (m : Tracking) (origin : Bytes) (now : Time) {got : Nat}
    (ahead : nextSeq prev < got) (large : gapTrackLimit < got - nextSeq prev) (p : Skipped → Bool) :
    (m.jump origin prev got now).pending p = m.pending p
      ∧ (m.jump origin prev got now).reported p
        = m.reported p ++ (m.passed origin prev got).filter p := by
  simp only [jump, m.gaps.note_refused origin now (m.jumps + 1) ahead large, pending, reported,
    passed, List.filter_append, and_true]

theorem arrived_pending (seq : Nat) (p : Skipped → Bool) :
    ({ m with gaps := m.gaps.arrived origin seq } : Tracking).pending p
      = (m.pending p).filter fun s => ¬ (s.origin = origin ∧ s.seq = seq) := by
  simp only [pending, GapTracker.arrived, List.filter_map, List.filter_filter]
  congr 1
  exact List.filter_congr fun entry _ => Bool.and_comm _ _

theorem arrival_elsewhere (nodeId : Bytes) (m : Tracking) (wr : WireRepl) (now : Time)
    (p : Skipped → Bool) (elsewhere : trimSpace wr.origin ≠ origin)
    (own : ∀ s, p s = true → s.origin = origin) :
    (noteReplArrival nodeId m wr now).originSeq origin = m.originSeq origin
      ∧ (noteReplArrival nodeId m wr now).pending p = m.pending p
      ∧ (noteReplArrival nodeId m wr now).reported p = m.reported p := by
  have marked : (m.setMark (trimSpace wr.origin) wr.seq).originSeq origin = m.originSeq origin :=
    Function.update_of_ne elsewhere.symm _ _
  have kept (hits : Skipped → Prop) [DecidablePred hits]
      (theirs : ∀ s, hits s → s.origin = trimSpace wr.origin) (owed : List Skipped) :
      (owed.filter p).filter (fun s => ¬ hits s) = owed.filter p := by
    refine List.filter_eq_self.mpr fun s member => ?_
    simp only [decide_eq_true_eq]
    intro hit
    exact elsewhere ((theirs s hit).symm.trans (own s (List.mem_filter.mp member).2))
  have others (prev got : Nat) : (m.passed (trimSpace wr.origin) prev got).filter p = [] := by
    refine List.filter_eq_nil_iff.mpr fun s member held => elsewhere ?_
    obtain ⟨seq, -, rfl⟩ := List.mem_map.mp member
    exact own _ held
  generalize is : noteReplArrival nodeId m wr now = after
  cases arrived is with
  | ignored => exact ⟨rfl, rfl, rfl⟩
  | first | next | restart => exact ⟨marked, rfl, rfl⟩
  | jump prev seen ahead =>
    refine ⟨by rw [jump_originSeq, marked], ?_⟩
    rcases Nat.lt_or_ge gapTrackLimit (wr.seq - nextSeq prev) with large | small
    · obtain ⟨waiting, given⟩ := jump_large (m.setMark (trimSpace wr.origin) wr.seq)
        (trimSpace wr.origin) now ahead large p
      refine ⟨waiting, given.trans ?_⟩
      exact (congrArg (m.reported p ++ ·) (others prev wr.seq)).trans (List.append_nil _)
    · obtain ⟨waiting, given⟩ := jump_small (m.setMark (trimSpace wr.origin) wr.seq)
        (trimSpace wr.origin) now ahead small p
      refine ⟨waiting.trans ?_, given⟩
      refine (congrArg (_ ++ ·) (others prev wr.seq)).trans ((List.append_nil _).trans ?_)
      exact kept _ (fun s hit => hit.1) _
  | late =>
    refine ⟨rfl, ?_, rfl⟩
    rw [arrived_pending]
    exact kept _ (fun s hit => hit.1) _

def Noted (m : Tracking) : Prop :=
  ∀ entry ∈ m.gaps, entry ∈ m.noted

theorem jump_noted (m : Tracking) (origin : Bytes) (prev : Nat) {got : Nat} (now : Time)
    (ahead : nextSeq prev < got) :
    (m.Noted → (m.jump origin prev got now).Noted)
      ∧ ∀ entry ∈ m.noted, entry ∈ (m.jump origin prev got now).noted := by
  unfold jump
  dsimp only
  rcases Nat.lt_or_ge gapTrackLimit (got - nextSeq prev) with large | small
  · rw [GapTracker.note_refused m.gaps origin now (m.jumps + 1) ahead large]
    exact ⟨id, fun _ => id⟩
  · rw [GapTracker.note_eq m.gaps origin now (m.jumps + 1) ahead small]
    refine ⟨fun noted entry member => ?_, fun entry member => List.mem_append_left _ member⟩
    rcases List.mem_append.mp member with old | new
    · exact List.mem_append_left _ (noted entry (List.mem_filter.mp old).1)
    · exact List.mem_append_right _ new

theorem arrival_noted (nodeId : Bytes) (m : Tracking) (wr : WireRepl) (now : Time) :
    (m.Noted → (noteReplArrival nodeId m wr now).Noted)
      ∧ ∀ entry ∈ m.noted, entry ∈ (noteReplArrival nodeId m wr now).noted := by
  generalize is : noteReplArrival nodeId m wr now = after
  cases arrived is with
  | ignored | first | next | restart => exact ⟨id, fun _ => id⟩
  | jump prev seen ahead => exact jump_noted (m.setMark _ _) _ _ now ahead
  | late =>
    exact ⟨fun noted entry member => noted entry (List.mem_filter.mp member).1, fun _ => id⟩

theorem sweep_noted (m : Tracking) (now : Time) (noted : m.Noted) : (m.sweep now).Noted :=
  fun entry member => noted entry (List.mem_filter.mp member).1

end Tracking

end SuperCache
