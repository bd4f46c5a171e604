import SuperCache.Peer.Gaps
import SuperCache.Peer.LossPhases

/-! # Counting the events of one incarnation

The mark and the charges of an origin follow the account of its numbers, whatever
other peers send in between and whenever the sweeps run.
-/

namespace SuperCache

open Lib LossCount

def TrackMove.seqFrom (origin : Bytes) : TrackMove → Option Nat
  | .arrive wr _ => if trimSpace wr.origin = origin then some wr.seq else none
  | .sweep _ => none

def seqsFrom (origin : Bytes) (moves : List TrackMove) : List Nat :=
  moves.filterMap (TrackMove.seqFrom origin)

theorem seqsFrom_append (origin : Bytes) (first second : List TrackMove) :
    seqsFrom origin (first ++ second) = seqsFrom origin first ++ seqsFrom origin second :=
  List.filterMap_append

theorem seqsFrom_own {origin : Bytes} {wr : WireRepl} (now : Time)
    (own : trimSpace wr.origin = origin) : seqsFrom origin [.arrive wr now] = [wr.seq] := by
  simp only [seqsFrom, List.filterMap_cons, List.filterMap_nil, TrackMove.seqFrom, own, if_true]

theorem seqsFrom_elsewhere {origin : Bytes} {wr : WireRepl} (now : Time)
    (elsewhere : trimSpace wr.origin ≠ origin) : seqsFrom origin [.arrive wr now] = [] := by
  simp only [seqsFrom, List.filterMap_cons, List.filterMap_nil, TrackMove.seqFrom,
    if_neg elsewhere]

theorem seqsFrom_sweep (origin : Bytes) (tick : Time) : seqsFrom origin [.sweep tick] = [] :=
  rfl

def TrackMove.NotBack : TrackMove → TrackMove → Prop
  | .sweep tick, .arrive _ now => unixMilli tick ≤ unixMilli now
  | _, _ => True

instance : DecidableRel TrackMove.NotBack
  | .sweep _, .arrive .. => inferInstanceAs (Decidable (_ ≤ _))
  | .sweep _, .sweep _ | .arrive .., _ => .isTrue trivial

/-- The arrivals of one incarnation: numbers from 1 on that the counter reaches
without wrapping, each at most once. -/
structure OneIncarnation (origin : Bytes) (moves : List TrackMove) : Prop where
  distinct : (seqsFrom origin moves).Nodup
  counted : ∀ seq ∈ seqsFrom origin moves, 0 < seq ∧ seq + 1 < 2 ^ 64
  clock : moves.Pairwise TrackMove.NotBack

theorem OneIncarnation.init {origin : Bytes} {moves : List TrackMove} {move : TrackMove}
    (incarnation : OneIncarnation origin (moves ++ [move])) : OneIncarnation origin moves where
  distinct := by
    have distinct := incarnation.distinct
    rw [seqsFrom_append] at distinct
    exact distinct.of_append_left
  counted seq member := by
    refine incarnation.counted seq ?_
    rw [seqsFrom_append]
    exact List.mem_append_left _ member
  clock := (List.pairwise_append.mp incarnation.clock).1

namespace Tracking

variable {nodeId origin : Bytes} {m : Tracking} {wr : WireRepl} {now : Time}

def ofOrigin (origin : Bytes) (s : Skipped) : Bool := s.origin = origin

def charged (m : Tracking) (origin : Bytes) : List Nat :=
  (m.pending (ofOrigin origin) ++ m.reported (ofOrigin origin)).map Skipped.seq

/-- A forward jump skips at most 256 numbers, and a straggler comes before every
deadline set for it. -/
def Timely (origin : Bytes) (m : Tracking) : TrackMove → Prop
  | .arrive wr now => trimSpace wr.origin = origin →
    (∀ prev ∈ m.originSeq origin, wr.seq ≤ prev + 1 + gapTrackLimit)
      ∧ ∀ entry ∈ m.noted, entry.origin = origin → entry.seq = wr.seq →
        unixMilli now < entry.deadline
  | .sweep _ => True

instance (origin : Bytes) (m : Tracking) (move : TrackMove) : Decidable (m.Timely origin move) :=
  match move with
  | .arrive .. => inferInstanceAs (Decidable (_ → _ ∧ _))
  | .sweep _ => .isTrue trivial

theorem charged_eq (m : Tracking) (origin : Bytes) :
    m.charged origin = (m.pending (ofOrigin origin)).map Skipped.seq
      ++ (m.reported (ofOrigin origin)).map Skipped.seq :=
  List.map_append

theorem origin_of_pending {s : Skipped} (member : s ∈ m.pending (ofOrigin origin)) :
    s.origin = origin :=
  of_decide_eq_true (List.mem_filter.mp member).2

theorem charged_jump (m : Tracking) (origin : Bytes) (now : Time) {prev got : Nat}
    (small : prev + 1 < 2 ^ 64) (ahead : prev + 1 < got) (limit : got ≤ prev + 1 + gapTrackLimit) :
    (∀ x, x ∈ (m.jump origin prev got now).charged origin
        ↔ x ∈ m.charged origin ∨ prev < x ∧ x < got)
      ∧ ((m.charged origin).Nodup → (∀ x ∈ m.charged origin, ¬ (prev < x ∧ x < got)) →
        ((m.jump origin prev got now).charged origin).Nodup) := by
  have next : nextSeq prev = prev + 1 := Nat.mod_eq_of_lt small
  obtain ⟨waiting, given⟩ := jump_small m origin now (next ▸ ahead)
    (by rw [next]; omega) (ofOrigin origin)
  have passedSeqs : ((m.passed origin prev got).filter (ofOrigin origin)).map Skipped.seq
      = List.range' (prev + 1) (got - (prev + 1)) := by
    rw [List.filter_eq_self.mpr]
    · rw [passed, next, List.map_map]
      exact List.map_id _
    · intro s member
      obtain ⟨seq, -, rfl⟩ := List.mem_map.mp member
      exact decide_eq_true rfl
  have inRange (x : Nat) : x ∈ List.range' (prev + 1) (got - (prev + 1)) ↔ prev < x ∧ x < got := by
    rw [List.mem_range'_1]
    omega
  have keptSeqs (x : Nat) :
      x ∈ ((m.pending (ofOrigin origin)).filter fun s => ¬ Between origin prev got s).map
        Skipped.seq ↔ x ∈ (m.pending (ofOrigin origin)).map Skipped.seq ∧ ¬ (prev < x ∧ x < got) := by
    simp only [List.mem_map, List.mem_filter, decide_eq_true_eq]
    constructor
    · rintro ⟨s, ⟨member, outside⟩, rfl⟩
      refine ⟨⟨s, member, rfl⟩, fun between => outside ⟨origin_of_pending member, ?_⟩⟩
      rw [next]
      omega
    · rintro ⟨⟨s, member, rfl⟩, outside⟩
      refine ⟨s, ⟨member, fun between => outside ?_⟩, rfl⟩
      obtain ⟨-, low, high⟩ := between
      rw [next] at low
      omega
  rw [charged_eq (m.jump ..), waiting, given, List.map_append, passedSeqs, charged_eq m]
  constructor
  · intro x
    simp only [List.mem_append, inRange, keptSeqs]
    tauto
  · intro distinct outside
    -- nothing waited for lies in the jump, so nothing is assigned twice
    have whole : (m.pending (ofOrigin origin)).filter (fun s => ¬ Between origin prev got s)
        = m.pending (ofOrigin origin) := by
      refine List.filter_eq_self.mpr fun s member => decide_eq_true fun between => ?_
      obtain ⟨-, low, high⟩ := between
      rw [next] at low
      exact outside s.seq (List.mem_append_left _ (List.mem_map_of_mem member)) (by omega)
    rw [whole, List.append_assoc, (List.perm_append_comm_assoc ..).nodup_iff]
    refine List.nodup_append.mpr ⟨List.nodup_range', distinct, ?_⟩
    rintro x inside _ member rfl
    exact outside x member ((inRange x).mp inside)

theorem charged_late {seq : Nat} (unreported : ∀ s ∈ m.reported (ofOrigin origin), s.seq ≠ seq) :
    (∀ x, x ∈ ({ m with gaps := m.gaps.arrived origin seq } : Tracking).charged origin
        ↔ x ∈ m.charged origin ∧ x ≠ seq)
      ∧ ((m.charged origin).Nodup →
        (({ m with gaps := m.gaps.arrived origin seq } : Tracking).charged origin).Nodup) := by
  rw [charged_eq { m with gaps := m.gaps.arrived origin seq }, arrived_pending, charged_eq m]
  constructor
  · intro x
    simp only [List.mem_append, List.mem_map, List.mem_filter, decide_eq_true_eq]
    constructor
    · rintro (⟨s, ⟨member, other⟩, rfl⟩ | ⟨s, member, rfl⟩)
      · exact ⟨.inl ⟨s, member, rfl⟩, fun same => other ⟨origin_of_pending member, same⟩⟩
      · exact ⟨.inr ⟨s, member, rfl⟩, unreported s member⟩
    · rintro ⟨⟨s, member, rfl⟩ | ⟨s, member, rfl⟩, other⟩
      · exact .inl ⟨s, ⟨member, fun same => other same.2⟩, rfl⟩
      · exact .inr ⟨s, member, rfl⟩
  · intro distinct
    exact distinct.sublist (List.Sublist.append_right (List.filter_sublist.map _) _)

theorem arrival_effect (sent : From nodeId origin wr) (now : Time)
    (small : ∀ prev ∈ m.originSeq origin, prev + 1 < 2 ^ 64)
    (limit : ∀ prev ∈ m.originSeq origin, wr.seq ≤ prev + 1 + gapTrackLimit)
    (unreported : ∀ s ∈ m.reported (ofOrigin origin), s.seq ≠ wr.seq) :
    Effect (m.originSeq origin) (m.charged origin) wr.seq
      ((noteReplArrival nodeId m wr now).originSeq origin)
      ((noteReplArrival nodeId m wr now).charged origin) := by
  have marked : (m.setMark origin wr.seq).originSeq origin = some wr.seq :=
    Function.update_self ..
  have next (prev : Nat) (seen : m.originSeq origin = some prev) : nextSeq prev = prev + 1 :=
    Nat.mod_eq_of_lt (small prev seen)
  generalize is : noteReplArrival nodeId m wr now = after
  cases sent.arrived is with
  | ignored unasked => exact absurd unasked sent.considered
  | first unseen =>
    rw [unseen, marked]
    exact .first rfl
  | next prev seen follows =>
    rw [seen, marked]
    exact .next prev rfl (follows.trans (next prev seen))
  | jump prev seen ahead =>
    rw [next prev seen] at ahead
    obtain ⟨members, distinct⟩ := charged_jump (m.setMark origin wr.seq) origin now
      (small prev seen) ahead (limit prev seen)
    rw [seen, jump_originSeq, marked]
    exact .jump prev _ rfl ahead members distinct
  | restart prev seen behind one =>
    rw [seen, marked]
    exact .restart prev rfl (Nat.le_of_lt_succ (behind.trans_eq (next prev seen))) one
  | late prev seen behind other =>
    obtain ⟨members, distinct⟩ := charged_late unreported
    rw [seen]
    exact .late prev _ rfl (Nat.le_of_lt_succ (behind.trans_eq (next prev seen))) other members distinct

theorem arrival_reported (sent : From nodeId origin wr) (now : Time)
    (small : ∀ prev ∈ m.originSeq origin, prev + 1 < 2 ^ 64)
    (limit : ∀ prev ∈ m.originSeq origin, wr.seq ≤ prev + 1 + gapTrackLimit)
    (p : Skipped → Bool) : (noteReplArrival nodeId m wr now).reported p = m.reported p := by
  generalize is : noteReplArrival nodeId m wr now = after
  cases sent.arrived is with
  | jump prev seen ahead =>
    have next : nextSeq prev = prev + 1 := Nat.mod_eq_of_lt (small prev seen)
    have within := limit prev seen
    exact (jump_small (m.setMark origin wr.seq) origin now ahead (by rw [next]; omega) p).2
  | _ => rfl

/-- The account of an origin after some moves.  What was reported is overdue: a
sweep found its deadline passed. -/
structure Account (origin : Bytes) (moves : List TrackMove) (m : Tracking) : Prop where
  phase : Phase (seqsFrom origin moves) (m.originSeq origin) (m.charged origin)
  noted : m.Noted
  overdue : ∀ s ∈ m.reported (ofOrigin origin), ∃ entry ∈ m.noted,
    entry.origin = origin ∧ entry.seq = s.seq
      ∧ ∃ tick, .sweep tick ∈ moves ∧ entry.deadline ≤ unixMilli tick

theorem account_fresh (origin : Bytes) : fresh.Account origin [] where
  phase := .silent rfl rfl rfl
  noted _ member := by cases member
  overdue _ member := by cases member

variable {moves : List TrackMove}

theorem Account.overdue_mono {next : Tracking} {move : TrackMove} (account : m.Account origin moves)
    (same : next.reported (ofOrigin origin) = m.reported (ofOrigin origin))
    (noted : ∀ entry ∈ m.noted, entry ∈ next.noted) :
    ∀ s ∈ next.reported (ofOrigin origin), ∃ entry ∈ next.noted,
      entry.origin = origin ∧ entry.seq = s.seq
        ∧ ∃ tick, .sweep tick ∈ moves ++ [move] ∧ entry.deadline ≤ unixMilli tick := by
  intro s member
  rw [same] at member
  obtain ⟨entry, inNoted, origin_eq, seq_eq, tick, swept, late⟩ := account.overdue s member
  exact ⟨entry, noted entry inNoted, origin_eq, seq_eq, tick, List.mem_append_left _ swept, late⟩

theorem Account.arrive_own (account : m.Account origin moves) (sent : From nodeId origin wr)
    (incarnation : OneIncarnation origin (moves ++ [.arrive wr now]))
    (timely : m.Timely origin (.arrive wr now)) :
    (noteReplArrival nodeId m wr now).Account origin (moves ++ [.arrive wr now]) := by
  have seqs : seqsFrom origin (moves ++ [.arrive wr now]) = seqsFrom origin moves ++ [wr.seq] := by
    rw [seqsFrom_append, seqsFrom_own now sent.origin_eq]
  obtain ⟨limit, beforeDeadline⟩ := timely sent.origin_eq
  have small : ∀ prev ∈ m.originSeq origin, prev + 1 < 2 ^ 64 := fun prev marked =>
    (incarnation.init.counted prev (account.phase.mark_mem marked)).2
  -- a number that was reported had its deadline before an earlier sweep
  have unreported : ∀ s ∈ m.reported (ofOrigin origin), s.seq ≠ wr.seq := by
    intro s member same
    obtain ⟨entry, inNoted, origin_eq, seq_eq, tick, swept, late⟩ := account.overdue s member
    have before := beforeDeadline entry inNoted origin_eq (seq_eq.trans same)
    have clock := (List.pairwise_append.mp incarnation.clock).2.2 _ swept _
      (List.mem_singleton_self _)
    exact absurd (Int.lt_of_lt_of_le before (Int.le_trans late clock)) (Int.lt_irrefl _)
  have new : wr.seq ∉ seqsFrom origin moves := by
    have distinct := incarnation.distinct
    rw [seqs] at distinct
    exact fun member => List.disjoint_of_nodup_append distinct member (List.mem_singleton_self _)
  exact {
    phase := seqs ▸ account.phase.step new
      (fun x member => (incarnation.init.counted x member).1)
      (arrival_effect sent now small limit unreported)
    noted := (arrival_noted nodeId m wr now).1 account.noted
    overdue := account.overdue_mono (arrival_reported sent now small limit _)
      (arrival_noted nodeId m wr now).2 }

theorem Account.arrive_elsewhere (account : m.Account origin moves)
    (elsewhere : trimSpace wr.origin ≠ origin) :
    (noteReplArrival nodeId m wr now).Account origin (moves ++ [.arrive wr now]) := by
  obtain ⟨mark, waiting, given⟩ := arrival_elsewhere nodeId m wr now (ofOrigin origin)
    elsewhere fun _ => of_decide_eq_true
  refine ⟨?_, (arrival_noted nodeId m wr now).1 account.noted,
    account.overdue_mono given (arrival_noted nodeId m wr now).2⟩
  rw [seqsFrom_append, seqsFrom_elsewhere now elsewhere, List.append_nil, mark, charged, waiting,
    given]
  exact account.phase

theorem Account.sweep (account : m.Account origin moves) (tick : Time) :
    (m.sweep tick).Account origin (moves ++ [.sweep tick]) where
  phase := by
    rw [seqsFrom_append, seqsFrom_sweep, List.append_nil]
    exact account.phase.perm ((sweep_perm m tick _).map Skipped.seq)
  noted := sweep_noted m tick account.noted
  overdue s member := by
    obtain ⟨reported, mine⟩ := List.mem_filter.mp member
    rcases List.mem_append.mp reported with old | new
    · obtain ⟨entry, inNoted, origin_eq, seq_eq, tick', swept, late⟩ :=
        account.overdue s (List.mem_filter.mpr ⟨old, mine⟩)
      exact ⟨entry, inNoted, origin_eq, seq_eq, tick', List.mem_append_left _ swept, late⟩
    · obtain ⟨entry, expired, rfl⟩ := List.mem_map.mp new
      obtain ⟨inGaps, late⟩ := List.mem_filter.mp expired
      exact ⟨entry, account.noted entry inGaps, of_decide_eq_true mine, rfl, tick,
        List.mem_append_right _ (List.mem_singleton_self _), of_decide_eq_true late⟩

/-- Over one incarnation of a sender, with other peers' events and sweeps in
between, the number of its events reported as lost at the end is the number of
those that never arrived exactly when no late 1 has misled the node. -/
theorem loss_count_exact_iff (nodeId origin : Bytes) (moves : List TrackMove) (tick : Time)
    (m : Tracking) (first highest : Nat) (named : origin ≠ []) (foreign : origin ≠ nodeId)
    (incarnation : OneIncarnation origin moves)
    (timely : Machine.Guarded (step nodeId) (Timely origin) fresh moves)
    (ran : Machine.run (step nodeId) fresh moves = some m)
    (past : ∀ entry ∈ m.noted, entry.origin = origin → entry.deadline ≤ unixMilli tick)
    (extent : Extent first highest (seqsFrom origin moves)) :
    ((m.sweep tick).reported (ofOrigin origin)).length
        = (neverArrived first highest (seqsFrom origin moves)).card
      ↔ Unmisled (seqsFrom origin moves) := by
  have account : m.Account origin moves := by
    refine Machine.guarded_history
      (fun moves m => OneIncarnation origin moves → m.Account origin moves)
      (fun _ => account_fresh origin) ?_ timely ran incarnation
    intro moves m move next account ok stepped incarnation
    cases move with
    | arrive wr now =>
      cases stepped
      by_cases own : trimSpace wr.origin = origin
      · refine (account incarnation.init).arrive_own ⟨own, named, ?_, foreign⟩ incarnation ok
        refine Nat.ne_of_gt (incarnation.counted wr.seq ?_).1
        refine List.mem_filterMap.mpr ⟨.arrive wr now, ?_, if_pos own⟩
        exact List.mem_append_right _ (List.mem_singleton_self _)
      · exact (account incarnation.init).arrive_elsewhere own
    | sweep tick =>
      cases stepped
      exact (account incarnation.init).sweep tick
  have reports := sweep_reports m tick (ofOrigin origin) fun entry member mine =>
    past entry (account.noted entry member) (of_decide_eq_true mine)
  rw [reports.length_eq, ← List.length_map Skipped.seq]
  exact account.phase.exact_iff incarnation.distinct extent

/-- An event of the peer `n1`. -/
def numbered (seq : Nat) (now : Time) : TrackMove :=
  .arrive { payload := { op := .del }, seq := seq, origin := ascii "n1" } now

def twoLost : List TrackMove :=
  [numbered 2 0, numbered 4 1000000000, .sweep 2000000000, numbered 3 3000000000,
    numbered 7 4000000000, .sweep 5000000000]

theorem twoLost_count : ∃ m, Machine.run (step (ascii "n0")) fresh twoLost = some m
    ∧ ((m.sweep 9000000000).reported (ofOrigin (ascii "n1"))).length
      = (neverArrived 2 7 (seqsFrom (ascii "n1") twoLost)).card := by
  refine ⟨_, Machine.ran (by decide +kernel), ?_⟩
  exact (loss_count_exact_iff (ascii "n0") (ascii "n1") twoLost 9000000000 _ 2 7 (by decide)
    (by decide) ⟨by decide, by decide, by decide⟩ (by decide +kernel) (Machine.ran _)
    (by decide +kernel) ⟨by decide, by decide, by decide⟩).mpr (by decide)

def lateOne : List TrackMove :=
  [numbered 2 0, numbered 1 1000000000, numbered 3 2000000000]

/-- The number 2 is reported as lost. -/
theorem lateOne_miscounts : OneIncarnation (ascii "n1") lateOne
    ∧ Machine.Guarded (step (ascii "n0")) (Timely (ascii "n1")) fresh lateOne
    ∧ neverArrived 2 3 (seqsFrom (ascii "n1") lateOne) = ∅
    ∧ ∃ m, Machine.run (step (ascii "n0")) fresh lateOne = some m
      ∧ (∀ entry ∈ m.noted, entry.deadline ≤ unixMilli 9000000000)
      ∧ ((m.sweep 9000000000).reported (ofOrigin (ascii "n1"))).map Skipped.seq = [2] :=
  ⟨⟨by decide, by decide, by decide⟩, by decide +kernel, by decide,
    Machine.exists_run (by decide +kernel)⟩

end Tracking

end SuperCache
