import SuperCache.Peer.LossCount

/-! # Losses after a restart

A sender that restarts begins again at 1.  The node learns of it only when the
event 1 arrives; if that one is lost, the mark of the earlier incarnation stays,
and what is skipped below it is not noticed.
-/

namespace SuperCache

open Lib

/-- How the arrivals of the current incarnation stand to the mark that the earlier
ones left, and how often the number `n` is charged. -/
inductive Followed (left : Option Nat) (n : Nat) (seqs : List Nat) (mark : Option Nat)
    (charges : Nat) : Prop
  | silent (nothing : seqs = []) (marked : mark = left) (uncharged : charges = 0)
  | hidden (old : Nat) (started : seqs ≠ []) (before : left = some old) (marked : mark = some old)
    (unnoticed : 1 ∉ seqs) (below : ∀ seq ∈ seqs, seq ≤ old) (uncharged : charges = 0)
  | following (base last : Nat) (marked : mark = some last) (top : last ∈ seqs)
    (highest : ∀ seq ∈ seqs, seq ≤ last) (reach : base ≤ last)
    (origin : (1 ∈ seqs ∨ left = none) ∧ base ∈ seqs ∧ (∀ seq ∈ seqs, base ≤ seq)
      ∨ 1 ∉ seqs ∧ left = some base)
    (charged : charges = if base < n ∧ n < last then 1 else 0)

inductive Followed.Effect (n : Nat) (mark : Option Nat) (charges seq : Nat) :
    Option Nat → Nat → Prop
  | first (unmarked : mark = none) : Effect n mark charges seq (some seq) charges
  | onward (prev : Nat) (marked : mark = some prev) (ahead : prev < seq) (charges' : Nat)
    (charged : (prev < n ∧ n < seq → charges = 0) →
      charges' = charges + if prev < n ∧ n < seq then 1 else 0) :
    Effect n mark charges seq (some seq) charges'
  | restart (prev : Nat) (marked : mark = some prev) (one : seq = 1) (behind : seq ≤ prev) :
    Effect n mark charges seq (some seq) charges
  | late (prev : Nat) (marked : mark = some prev) (other : seq ≠ 1) (behind : seq ≤ prev) :
    Effect n mark charges seq mark charges

theorem Followed.step {left mark mark' : Option Nat} {n seq charges charges' : Nat}
    {seqs : List Nat} (followed : Followed left n seqs mark charges)
    (positive : ∀ old ∈ left, 0 < old) (positive' : ∀ x ∈ seqs, 0 < x) (new : 0 < seq)
    (higher : ∀ x ∈ seqs, x < seq) (other : n ∉ seqs)
    (effect : Effect n mark charges seq mark' charges') :
    Followed left n (seqs ++ [seq]) mark' charges' := by
  have last_mem : seq ∈ seqs ++ [seq] := List.mem_append_right _ (List.mem_singleton_self seq)
  have highest : ∀ x ∈ seqs ++ [seq], x ≤ seq := by grind
  cases followed with
  | silent nothing marked uncharged =>
    subst nothing uncharged
    cases effect with
    | first unmarked => exact .following seq seq rfl last_mem highest le_rfl (by grind) (by grind)
    | onward prev marked' ahead charges' charged =>
      have := positive prev (marked.symm.trans marked')
      exact .following prev seq rfl last_mem highest (by omega) (by grind) (by grind)
    | restart prev marked' one behind =>
      subst one
      exact .following 1 1 rfl last_mem highest le_rfl (by grind) (by grind)
    | late prev marked' notOne behind =>
      exact .hidden prev (List.cons_ne_nil _ _) (marked.symm.trans marked') marked' (by grind)
        (by grind) rfl
  | hidden old started before marked unnoticed below uncharged =>
    subst uncharged
    obtain ⟨some_x, some_mem⟩ := List.exists_mem_of_ne_nil seqs started
    have := positive' some_x some_mem
    have := higher some_x some_mem
    have unnoticed' : 1 ∉ seqs ++ [seq] := by grind
    cases effect with
    | first unmarked => cases marked.symm.trans unmarked
    | onward prev marked' ahead charges' charged =>
      cases marked.symm.trans marked'
      exact .following old seq rfl last_mem highest (by omega) (.inr ⟨unnoticed', before⟩) (by grind)
    | restart prev marked' one behind => omega
    | late prev marked' notOne behind =>
      cases marked.symm.trans marked'
      exact .hidden old (by simp) before marked unnoticed' (by grind) rfl
  | following base last marked top highest' reach origin charged =>
    have beyond := higher last top
    have := positive' last top
    cases effect with
    | first unmarked => cases marked.symm.trans unmarked
    | onward prev marked' ahead charges' charged' =>
      cases marked.symm.trans marked'
      -- `n` is not the last arrival, so it was charged before or is charged now
      have not_last : n ≠ last := fun same => other (same ▸ top)
      exact .following base seq rfl last_mem highest (by omega) (by grind) (by grind)
    | restart prev marked' one behind | late prev marked' notOne behind =>
      cases marked.symm.trans marked'
      omega

namespace Tracking

/-- The number `n` of an origin, skipped by a jump after the first `jumps` ones. -/
def since (origin : Bytes) (n jumps : Nat) (s : Skipped) : Bool :=
  s.origin = origin ∧ s.seq = n ∧ jumps < s.jump

def tally (m : Tracking) (p : Skipped → Bool) : Nat :=
  (m.pending p).length + (m.reported p).length

variable {nodeId origin : Bytes} {m : Tracking} {wr : WireRepl} {now : Time} {n jumps prev got : Nat}

theorem sweep_tally (m : Tracking) (now : Time) (p : Skipped → Bool) :
    (m.sweep now).tally p = m.tally p := by
  have moved := (sweep_perm m now p).length_eq
  rwa [List.length_append, List.length_append] at moved

theorem passed_since (m : Tracking) (origin : Bytes) (later : jumps ≤ m.jumps) :
    ((m.passed origin prev got).filter (since origin n jumps)).length
      = if nextSeq prev ≤ n ∧ n < got then 1 else 0 := by
  have hits : (since origin n jumps ∘ fun seq =>
      ({ origin := origin, seq := seq, jump := m.jumps + 1 } : Skipped)) = (· == n) := by
    funext seq
    simp [since, Nat.lt_succ_of_le later, beq_eq_decide]
  rw [passed, List.filter_map, List.length_map, hits, ← List.countP_eq_length_filter]
  change List.count n _ = _
  split
  · next inside =>
    refine List.count_eq_one_of_mem List.nodup_range' (List.mem_range'_1.mpr ?_)
    omega
  · next outside =>
    refine List.count_eq_zero_of_not_mem fun member => outside ?_
    have := List.mem_range'_1.mp member
    omega

theorem jump_tally (m : Tracking) (origin : Bytes) (now : Time) (later : jumps ≤ m.jumps)
    (ahead : nextSeq prev < got) (outside : nextSeq prev ≤ n ∧ n < got →
      m.tally (since origin n jumps) = 0) :
    (m.jump origin prev got now).tally (since origin n jumps)
      = m.tally (since origin n jumps) + if nextSeq prev ≤ n ∧ n < got then 1 else 0 := by
  unfold tally at outside ⊢
  rcases Nat.lt_or_ge gapTrackLimit (got - nextSeq prev) with large | small
  · obtain ⟨waiting, given⟩ := jump_large m origin now ahead large (since origin n jumps)
    rw [waiting, given, List.length_append, passed_since m origin later, Nat.add_assoc]
  · obtain ⟨waiting, given⟩ := jump_small m origin now ahead small (since origin n jumps)
    rw [waiting, given, List.length_append, passed_since m origin later]
    by_cases inside : nextSeq prev ≤ n ∧ n < got
    · have := outside inside
      have empty : m.pending (since origin n jumps) = [] := List.eq_nil_of_length_eq_zero (by omega)
      rw [empty, List.filter_nil, List.length_nil]
      omega
    · have kept : (m.pending (since origin n jumps)).filter (fun s => ¬ Between origin prev got s)
          = m.pending (since origin n jumps) := by
        refine List.filter_eq_self.mpr fun s member => decide_eq_true fun between => inside ?_
        obtain ⟨-, same, -⟩ := of_decide_eq_true (List.mem_filter.mp member).2
        exact same ▸ between.2
      rw [kept, if_neg inside]
      omega

theorem late_tally (other : wr.seq ≠ n) :
    ({ m with gaps := m.gaps.arrived origin wr.seq } : Tracking).tally (since origin n jumps)
      = m.tally (since origin n jumps) := by
  unfold tally
  rw [arrived_pending, List.filter_eq_self.mpr]
  · rfl
  · intro s member
    obtain ⟨-, same, -⟩ := of_decide_eq_true (List.mem_filter.mp member).2
    exact decide_eq_true fun hit => other (hit.2.symm.trans same)

theorem jumps_mono (nodeId : Bytes) (m : Tracking) (wr : WireRepl) (now : Time) :
    m.jumps ≤ (noteReplArrival nodeId m wr now).jumps := by
  generalize is : noteReplArrival nodeId m wr now = after
  cases arrived is with
  | jump =>
    rw [jump_jumps]
    exact Nat.le_succ _
  | _ => exact le_rfl

theorem arrival_followed (sent : From nodeId origin wr) (now : Time) (later : jumps ≤ m.jumps)
    (small : ∀ prev ∈ m.originSeq origin, prev + 1 < 2 ^ 64) (other : wr.seq ≠ n) :
    Followed.Effect n (m.originSeq origin) (m.tally (since origin n jumps)) wr.seq
      ((noteReplArrival nodeId m wr now).originSeq origin)
      ((noteReplArrival nodeId m wr now).tally (since origin n jumps)) := by
  have marked : (m.setMark origin wr.seq).originSeq origin = some wr.seq :=
    Function.update_self ..
  have next (prev : Nat) (seen : m.originSeq origin = some prev) : nextSeq prev = prev + 1 :=
    Nat.mod_eq_of_lt (small prev seen)
  generalize is : noteReplArrival nodeId m wr now = after
  cases sent.arrived is with
  | ignored unasked => exact absurd unasked sent.considered
  | first unseen =>
    rw [unseen, marked]
    exact .first rfl
  | next prev seen follows =>
    rw [next prev seen] at follows
    rw [seen, marked]
    refine .onward prev rfl (by omega) _ fun _ => ?_
    rw [if_neg (by omega)]
    rfl
  | jump prev seen ahead =>
    have inside : nextSeq prev ≤ n ∧ n < wr.seq ↔ prev < n ∧ n < wr.seq := by
      rw [next prev seen, Nat.succ_le_iff]
    rw [seen, jump_originSeq, marked]
    refine .onward prev rfl (by rw [next prev seen] at ahead; omega) _ fun uncharged => ?_
    have charged := jump_tally (m.setMark origin wr.seq) origin now later ahead
      fun within => uncharged (inside.mp within)
    rw [charged]
    exact congrArg _ (if_congr inside rfl rfl)
  | restart prev seen behind one =>
    rw [next prev seen] at behind
    rw [seen, marked]
    exact .restart prev rfl one (by omega)
  | late prev seen behind one =>
    rw [next prev seen] at behind
    rw [late_tally other, seen]
    exact .late prev rfl one (by omega)

def Stamped (m : Tracking) : Prop :=
  (∀ entry ∈ m.gaps, entry.jump ≤ m.jumps) ∧ ∀ s ∈ m.lost, s.jump ≤ m.jumps

theorem jump_stamped (stamped : m.Stamped) (ahead : nextSeq prev < got) :
    (m.jump origin prev got now).Stamped := by
  unfold jump
  dsimp only
  rcases Nat.lt_or_ge gapTrackLimit (got - nextSeq prev) with large | small
  · rw [GapTracker.note_refused m.gaps origin now (m.jumps + 1) ahead large]
    refine ⟨fun entry member => Nat.le_succ_of_le (stamped.1 entry member), fun s member => ?_⟩
    rcases List.mem_append.mp member with old | new
    · exact Nat.le_succ_of_le (stamped.2 s old)
    · obtain ⟨seq, -, rfl⟩ := List.mem_map.mp new
      exact Nat.le_refl _
  · rw [GapTracker.note_eq m.gaps origin now (m.jumps + 1) ahead small]
    refine ⟨fun entry member => ?_, fun s member => Nat.le_succ_of_le (stamped.2 s member)⟩
    rcases List.mem_append.mp member with old | new
    · exact Nat.le_succ_of_le (stamped.1 entry (List.mem_filter.mp old).1)
    · obtain ⟨seq, -, rfl⟩ := List.mem_map.mp new
      exact Nat.le_refl _

theorem arrival_stamped (nodeId : Bytes) (wr : WireRepl) (now : Time) (stamped : m.Stamped) :
    (noteReplArrival nodeId m wr now).Stamped := by
  generalize is : noteReplArrival nodeId m wr now = after
  cases arrived is with
  | jump prev seen ahead => exact jump_stamped (m := m.setMark _ _) stamped ahead
  | late => exact ⟨fun entry member => stamped.1 entry (List.mem_filter.mp member).1, stamped.2⟩
  | _ => exact stamped

theorem sweep_stamped (tick : Time) (stamped : m.Stamped) : (m.sweep tick).Stamped := by
  refine ⟨fun entry member => stamped.1 entry (List.mem_filter.mp member).1, fun s member => ?_⟩
  rcases List.mem_append.mp member with old | new
  · exact stamped.2 s old
  · obtain ⟨entry, expired, rfl⟩ := List.mem_map.mp new
    exact stamped.1 entry (List.mem_filter.mp expired).1

theorem Stamped.tally_eq_zero (stamped : m.Stamped) : m.tally (since origin n m.jumps) = 0 := by
  have none_since (s : Skipped) (old : s.jump ≤ m.jumps) : ¬ since origin n m.jumps s = true := by
    intro hit
    exact absurd (of_decide_eq_true hit).2.2 (Nat.not_lt.mpr old)
  have waiting : m.pending (since origin n m.jumps) = [] := by
    refine List.filter_eq_nil_iff.mpr fun s member => ?_
    obtain ⟨entry, inGaps, rfl⟩ := List.mem_map.mp member
    exact none_since _ (stamped.1 entry inGaps)
  have given : m.reported (since origin n m.jumps) = [] :=
    List.filter_eq_nil_iff.mpr fun s member => none_since s (stamped.2 s member)
  rw [tally, waiting, given]
  rfl

theorem arrival_mark (nodeId : Bytes) (m : Tracking) (wr : WireRepl) (now : Time)
    (marked : (noteReplArrival nodeId m wr now).originSeq origin = some prev) :
    m.originSeq origin = some prev
      ∨ trimSpace wr.origin = origin ∧ wr.seq = prev ∧ 0 < wr.seq := by
  have set (seq : Nat) : (m.setMark (trimSpace wr.origin) seq).originSeq origin
      = if origin = trimSpace wr.origin then some seq else m.originSeq origin :=
    Function.update_apply ..
  unfold noteReplArrival at marked
  grind [jump_originSeq]

def Counted (origin : Bytes) (moves : List TrackMove) : Prop :=
  ∀ seq ∈ seqsFrom origin moves, 0 < seq ∧ seq + 1 < 2 ^ 64

instance (origin : Bytes) (moves : List TrackMove) : Decidable (Counted origin moves) :=
  inferInstanceAs (Decidable (∀ _ ∈ _, _))

structure Reached (origin : Bytes) (m : Tracking) : Prop where
  marks : ∀ prev ∈ m.originSeq origin, 0 < prev ∧ prev + 1 < 2 ^ 64
  noted : m.Noted
  stamped : m.Stamped

theorem reached_fresh (origin : Bytes) : fresh.Reached origin where
  marks _ marked := by cases marked
  noted _ member := by cases member
  stamped := ⟨fun _ => (absurd · List.not_mem_nil), fun _ => (absurd · List.not_mem_nil)⟩

variable {move : TrackMove} {next : Tracking} {moves : List TrackMove}

theorem Reached.step (reached : m.Reached origin) (counted : Counted origin [move])
    (stepped : step nodeId m move = some next) : next.Reached origin := by
  cases move with
  | arrive wr now =>
    cases stepped
    refine ⟨fun prev marked => ?_, (arrival_noted nodeId m wr now).1 reached.noted,
      arrival_stamped nodeId wr now reached.stamped⟩
    rcases arrival_mark nodeId m wr now marked with old | ⟨own, rfl, positive⟩
    · exact reached.marks prev old
    · exact counted wr.seq (List.mem_filterMap.mpr
        ⟨.arrive wr now, List.mem_singleton_self _, if_pos own⟩)
  | sweep tick =>
    cases stepped
    exact ⟨reached.marks, sweep_noted m tick reached.noted, sweep_stamped tick reached.stamped⟩

/-- The number `n` is followed through the current incarnation, which began in
the state `start`. -/
structure Following (origin : Bytes) (n : Nat) (start : Tracking) (moves : List TrackMove)
    (m : Tracking) : Prop where
  followed : Followed (start.originSeq origin) n (seqsFrom origin moves) (m.originSeq origin)
    (m.tally (since origin n start.jumps))
  reached : m.Reached origin
  later : start.jumps ≤ m.jumps

/-- The arrivals of the current incarnation, which come in sending order and do
not include `n`. -/
structure InSendingOrder (origin : Bytes) (n : Nat) (moves : List TrackMove) : Prop where
  increasing : (seqsFrom origin moves).Pairwise (· < ·)
  counted : Counted origin moves
  never : n ∉ seqsFrom origin moves

theorem InSendingOrder.init (order : InSendingOrder origin n (moves ++ [move])) :
    InSendingOrder origin n moves where
  increasing := by
    have increasing := order.increasing
    rw [seqsFrom_append] at increasing
    exact (List.pairwise_append.mp increasing).1
  counted seq member := by
    refine order.counted seq ?_
    rw [seqsFrom_append]
    exact List.mem_append_left _ member
  never member := by
    refine order.never ?_
    rw [seqsFrom_append]
    exact List.mem_append_left _ member

theorem Following.step {start : Tracking} (positive : ∀ old ∈ start.originSeq origin, 0 < old)
    (named : origin ≠ []) (foreign : origin ≠ nodeId) (following : start.Following origin n moves m)
    (order : InSendingOrder origin n (moves ++ [move])) (stepped : step nodeId m move = some next) :
    start.Following origin n (moves ++ [move]) next := by
  have counted : Counted origin [move] := by
    intro seq member
    refine order.counted seq ?_
    rw [seqsFrom_append]
    exact List.mem_append_right _ member
  have reached := following.reached.step counted stepped
  cases move with
  | arrive wr now =>
    cases stepped
    refine ⟨?_, reached, Nat.le_trans following.later (jumps_mono nodeId m wr now)⟩
    rw [seqsFrom_append]
    by_cases own : trimSpace wr.origin = origin
    · have one := seqsFrom_own now own
      have new := counted wr.seq (one ▸ List.mem_singleton_self _)
      have increasing := order.increasing
      have never := order.never
      rw [seqsFrom_append, one] at increasing never
      rw [one]
      refine following.followed.step positive (fun x member => (order.init.counted x member).1)
        new.1 (fun x member => ?_) order.init.never ?_
      · exact (List.pairwise_append.mp increasing).2.2 x member _ (List.mem_singleton_self _)
      · exact arrival_followed ⟨own, named, Nat.ne_of_gt new.1, foreign⟩ now following.later
          (fun prev marked => (following.reached.marks prev marked).2)
          fun same => never (List.mem_append_right _ (same ▸ List.mem_singleton_self _))
    · obtain ⟨mark, waiting, given⟩ := arrival_elsewhere nodeId m wr now (since origin n start.jumps)
        own fun _ hit => (of_decide_eq_true hit).1
      rw [seqsFrom_elsewhere now own, List.append_nil, mark, tally, waiting, given]
      exact following.followed
  | sweep tick =>
    cases stepped
    refine ⟨?_, reached, following.later⟩
    rw [seqsFrom_append, sweep_tally, seqsFrom_sweep, List.append_nil]
    exact following.followed

/-- After any number of earlier incarnations, an event of the current one that
never arrives between two that do is reported exactly once after its deadline
exactly when the event 1 arrives or the mark left behind is below it. -/
theorem restart_loss_counted_iff (nodeId origin : Bytes) (earlier current : List TrackMove)
    (start m : Tracking) (tick : Time) (before n after : Nat) (named : origin ≠ [])
    (foreign : origin ≠ nodeId) (counted : Counted origin earlier)
    (reached : Machine.run (step nodeId) fresh earlier = some start)
    (order : InSendingOrder origin n current)
    (ran : Machine.run (step nodeId) start current = some m)
    (past : ∀ entry ∈ m.noted, entry.origin = origin → entry.deadline ≤ unixMilli tick)
    (came : before ∈ seqsFrom origin current) (lower : before < n)
    (came' : after ∈ seqsFrom origin current) (higher : n < after) :
    ((m.sweep tick).reported (since origin n start.jumps)).length = 1
      ↔ 1 ∈ seqsFrom origin current ∨ ∀ mark ∈ start.originSeq origin, mark < n := by
  have sound : start.Reached origin := by
    refine Machine.run_history (fun moves m => Counted origin moves → m.Reached origin)
      (fun _ => reached_fresh origin) ?_ reached counted
    intro moves m move next sound stepped counted
    simp only [Counted, seqsFrom_append, List.mem_append] at counted
    exact (sound fun seq member => counted seq (.inl member)).step
      (fun seq member => counted seq (.inr member)) stepped
  have following : start.Following origin n current m := by
    refine Machine.run_history
      (fun moves m => InSendingOrder origin n moves → start.Following origin n moves m)
      (fun _ => ⟨.silent rfl rfl sound.stamped.tally_eq_zero, sound, Nat.le_refl _⟩) ?_ ran order
    intro moves m move next following stepped order
    exact (following order.init).step (fun old marked => (sound.marks old marked).1) named foreign
      order stepped
  have reports := (sweep_reports m tick (since origin n start.jumps) fun entry member hit =>
    past entry (following.reached.noted entry member) (of_decide_eq_true hit).1).length_eq
  rw [reports, List.length_append]
  change m.tally _ = 1 ↔ _
  cases following.followed with
  | silent nothing =>
    rw [nothing] at came
    cases came
  | hidden old started left marked unnoticed below uncharged =>
    have := below after came'
    refine iff_of_false (by omega) ?_
    rintro (one | under)
    · exact unnoticed one
    · have := under old left
      omega
  | following base last marked top highest reach origin charged =>
    have := highest after came'
    rw [charged]
    rcases origin with ⟨known, -, base_le⟩ | ⟨unnoticed, left⟩
    · have := base_le before came
      rw [if_pos (by omega)]
      refine iff_of_true rfl (known.imp_right fun none mark marked => ?_)
      cases none.symm.trans marked
    · rw [or_iff_right unnoticed, left]
      simp only [Option.mem_some_iff, forall_eq']
      split <;> omega

def fourEvents : List TrackMove :=
  [numbered 1 0, numbered 2 0, numbered 3 0, numbered 4 0]

theorem restart_seen_counted : ∃ start m,
    Machine.run (step (ascii "n0")) fresh fourEvents = some start
      ∧ Machine.run (step (ascii "n0")) start [numbered 1 1000000000, numbered 3 2000000000]
        = some m
      ∧ ((m.sweep 9000000000).reported (since (ascii "n1") 2 start.jumps)).length = 1 := by
  refine ⟨_, _, Machine.ran (by decide +kernel), Machine.ran (by decide +kernel), ?_⟩
  exact (restart_loss_counted_iff (ascii "n0") (ascii "n1") fourEvents
    [numbered 1 1000000000, numbered 3 2000000000] _ _ 9000000000 1 2 3 (by decide) (by decide)
    (by decide) (Machine.ran _) ⟨by decide, by decide, by decide⟩ (Machine.ran _) (by decide +kernel)
    (by decide) (by decide) (by decide) (by decide)).mpr (.inl (by decide))

/-- The sender restarts; its events 1 and 3 are lost, 2 and 4 arrive. -/
theorem restart_unseen_uncounted : Counted (ascii "n1") fourEvents
    ∧ InSendingOrder (ascii "n1") 3 [numbered 2 1000000000, numbered 4 2000000000]
    ∧ ∃ m, Machine.run (step (ascii "n0")) fresh
        (fourEvents ++ [numbered 2 1000000000, numbered 4 2000000000]) = some m
      ∧ m.noted = [] ∧ (m.sweep 9000000000).lost = [] :=
  ⟨by decide, ⟨by decide, by decide, by decide⟩, Machine.exists_run (by decide +kernel)⟩

end Tracking

end SuperCache
