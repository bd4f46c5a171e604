import Mathlib.Data.Prod.Lex
import SuperCache.Lib.BestPerKey
import SuperCache.Lib.Bytes

/-! # Links to other nodes

The links a node may replicate over, and the choice of one link per remote node.
-/

namespace SuperCache

open Lib

/-- `outPeer`: what the choice of a link reads.  `hasQueue` is `replCh != nil`. -/
structure OutPeer where
  addr : Bytes
  remoteID : Bytes
  inbound : Bool
  linkSeq : Nat
  replStop : Bool := false
  hasQueue : Bool := true
deriving DecidableEq

def preferLink (a b : OutPeer) : Bool :=
  if a.inbound ≠ b.inbound then !a.inbound else a.linkSeq < b.linkSeq

namespace OutPeer

def usable (l : OutPeer) : Bool :=
  !l.replStop && l.hasQueue

/-- The key of the map `best`: a node that never named itself goes by its address. -/
def key (l : OutPeer) : Bytes :=
  if l.remoteID = [] then ascii "addr:" ++ l.addr else l.remoteID

end OutPeer

def selectLinks (out : List OutPeer) : Ranking OutPeer Bytes :=
  out.foldl (fun best l => if !l.usable then best else best.add OutPeer.key preferLink l) {}

def computeReplicationTargets (out : List OutPeer) : List OutPeer :=
  (selectLinks out).list

/-! ## One link per peer -/

def sameClass (l l' : OutPeer) : Bool :=
  if l.remoteID = [] then l'.remoteID = [] ∧ l'.addr = l.addr else l'.remoteID = l.remoteID

/-- The usable links to the node `l` leads to. -/
def classOf (out : List OutPeer) (l : OutPeer) : List OutPeer :=
  out.filter fun l' => l'.usable && sameClass l l'

def Chosen (links : List OutPeer) (t : OutPeer) : Prop :=
  t ∈ links ∧
    if ∃ l ∈ links, l.inbound = false then
      t.inbound = false ∧ ∀ l ∈ links, l.inbound = false → t.linkSeq ≤ l.linkSeq
    else ∀ l ∈ links, t.linkSeq ≤ l.linkSeq

def OutPeer.rank (l : OutPeer) : Bool ×ₗ Nat :=
  toLex (l.inbound, l.linkSeq)

theorem preferLink_iff (a b : OutPeer) : preferLink a b = true ↔ a.rank < b.rank := by
  unfold preferLink OutPeer.rank
  rw [Prod.Lex.toLex_lt_toLex]
  cases a.inbound <;> cases b.inbound <;> simp

theorem rank_le_iff {a b : OutPeer} :
    a.rank ≤ b.rank ↔ (a.inbound = false ∧ b.inbound = true)
      ∨ (a.inbound = b.inbound ∧ a.linkSeq ≤ b.linkSeq) := by
  unfold OutPeer.rank
  rw [Prod.Lex.toLex_le_toLex]
  cases a.inbound <;> cases b.inbound <;> simp

theorem selectLinks_of (out : List OutPeer) :
    Ranking.Of OutPeer.key OutPeer.rank (out.filter OutPeer.usable) (selectLinks out) := by
  have skips : selectLinks out
      = (out.filter OutPeer.usable).foldl (Ranking.add OutPeer.key preferLink) {} := by
    unfold selectLinks
    rw [List.foldl_filter]
    congr 1
    funext best l
    cases l.usable <;> rfl
  rw [skips]
  exact Ranking.of_foldl preferLink_iff _

section Classes

variable {out : List OutPeer} {l l' t : OutPeer}

theorem key_eq_iff (plain : ¬ ascii "addr:" <+: l.remoteID) (plain' : ¬ ascii "addr:" <+: l'.remoteID) :
    l'.key = l.key ↔ sameClass l l' = true := by
  unfold OutPeer.key sameClass
  by_cases named : l.remoteID = []
  · by_cases named' : l'.remoteID = []
    · simp [named, named']
    · rw [if_neg named', if_pos named, if_pos named]
      simp only [named', false_and, decide_false, Bool.false_eq_true, iff_false]
      exact fun same => plain' ⟨l.addr, same.symm⟩
  · by_cases named' : l'.remoteID = []
    · rw [if_pos named', if_neg named, if_neg named, named']
      refine ⟨fun same => absurd ⟨l'.addr, same⟩ plain, fun same => ?_⟩
      exact absurd (of_decide_eq_true same).symm named
    · simp [named, named']

theorem chosen_of_least {links : List OutPeer} (member : t ∈ links)
    (least : ∀ l ∈ links, t.rank ≤ l.rank) : Chosen links t := by
  refine ⟨member, ?_⟩
  split
  · next dialled =>
    obtain ⟨l, listed, outbound⟩ := dialled
    have own : t.inbound = false := by
      rcases rank_le_iff.mp (least l listed) with ⟨own, -⟩ | ⟨same, -⟩
      · exact own
      · rw [same, outbound]
    refine ⟨own, fun other theirs outbound' => ?_⟩
    rcases rank_le_iff.mp (least other theirs) with ⟨-, accepted⟩ | ⟨-, lower⟩
    · rw [outbound'] at accepted
      cases accepted
    · exact lower
  · next none =>
    intro l listed
    rcases rank_le_iff.mp (least l listed) with ⟨own, -⟩ | ⟨-, lower⟩
    · exact absurd ⟨t, member, own⟩ none
    · exact lower

theorem Chosen.unique {links : List OutPeer} (distinct : (links.map OutPeer.linkSeq).Nodup)
    (first : Chosen links l) (second : Chosen links l') : l = l' := by
  obtain ⟨member, first⟩ := first
  obtain ⟨member', second⟩ := second
  refine List.inj_on_of_nodup_map distinct member member' ?_
  split at first
  · next dialled =>
    rw [if_pos dialled] at second
    exact le_antisymm (first.2 l' member' second.1) (second.2 l member first.1)
  · next none =>
    rw [if_neg none] at second
    exact le_antisymm (first l' member') (second l member)

theorem Chosen.congr {links links' : List OutPeer} (same : ∀ l, l ∈ links ↔ l ∈ links') :
    Chosen links t ↔ Chosen links' t := by
  simp only [Chosen, same]

variable (plain : ∀ l ∈ out, ¬ ascii "addr:" <+: l.remoteID)

include plain

theorem mem_classOf_iff (member : l ∈ out) :
    l' ∈ classOf out l ↔ l' ∈ out.filter OutPeer.usable ∧ l'.key = l.key := by
  unfold classOf
  simp only [List.mem_filter, Bool.and_eq_true, and_assoc]
  refine and_congr_right fun listed => and_congr_right fun _ => ?_
  exact (key_eq_iff (plain l member) (plain l' listed)).symm

theorem mem_targets_iff (distinct : (out.map OutPeer.linkSeq).Nodup) (member : t ∈ out)
    (usable : t.usable = true) :
    t ∈ computeReplicationTargets out ↔ Chosen (classOf out t) t := by
  have of := selectLinks_of out
  obtain ⟨m, listed, same, candidate, least⟩ :=
    of.exists_best (List.mem_filter.mpr ⟨member, usable⟩)
  have best : Chosen (classOf out t) m :=
    chosen_of_least ((mem_classOf_iff plain member).mpr ⟨candidate, same⟩) fun l theirs => by
      obtain ⟨usable, sameKey⟩ := (mem_classOf_iff plain member).mp theirs
      exact least l usable sameKey
  constructor
  · intro target
    have found := of.mem_list.mp target
    rw [← same, of.mem_list.mp listed] at found
    cases found
    exact best
  · intro chosen
    have sublist : ((classOf out t).map OutPeer.linkSeq).Nodup :=
      distinct.sublist (List.filter_sublist.map _)
    rw [best.unique sublist chosen] at listed
    exact listed

omit plain in
theorem targets_subset (target : t ∈ computeReplicationTargets out) :
    t ∈ out ∧ t.usable = true := by
  have of := selectLinks_of out
  exact List.mem_filter.mp (of.best _ t (of.mem_list.mp target)).1

omit plain in
theorem targets_nodup_key (out : List OutPeer) :
    ((computeReplicationTargets out).map OutPeer.key).Nodup := by
  unfold computeReplicationTargets
  rw [(selectLinks_of out).map_list]
  exact (selectLinks_of out).nodup

omit plain in
/-- A link that is dialed last is chosen unless another dialed link leads to the same node. -/
theorem last_mem_targets_iff (usable : l.usable = true) (dialed : l.inbound = false)
    (later : ∀ l' ∈ out, l'.linkSeq < l.linkSeq) :
    l ∈ computeReplicationTargets (out ++ [l])
      ↔ ∀ l' ∈ out, l'.usable = true → l'.key = l.key → l'.inbound = true := by
  have of := selectLinks_of (out ++ [l])
  obtain ⟨m, listed, same, candidate, least⟩ :=
    of.exists_best (List.mem_filter.mpr ⟨List.mem_concat_self, usable⟩)
  constructor
  · intro target l' member usable' sameKey
    have found := of.mem_list.mp target
    rw [← same, of.mem_list.mp listed] at found
    cases found
    rcases rank_le_iff.mp (least l' (List.mem_filter.mpr
      ⟨List.mem_append_left _ member, usable'⟩) sameKey) with ⟨-, accepted⟩ | ⟨-, lower⟩
    · exact accepted
    · exact absurd lower (Nat.not_le.mpr (later l' member))
  · intro accepted
    obtain ⟨member, usable'⟩ := List.mem_filter.mp candidate
    rcases List.mem_append.mp member with earlier | last
    · -- an accepted link does not rank below a dialed one
      have inbound := accepted m earlier usable' same
      rcases rank_le_iff.mp (least l (List.mem_filter.mpr ⟨List.mem_concat_self, usable⟩) rfl) with
        ⟨own, -⟩ | ⟨alike, -⟩
      · rw [inbound] at own
        cases own
      · rw [inbound, dialed] at alike
        cases alike
    · cases List.mem_singleton.mp last
      exact listed

end Classes

/-- Each node that a usable link leads to gets one link, the same whatever the
order of the list. -/
theorem one_link_per_peer (out : List OutPeer) (distinct : (out.map OutPeer.linkSeq).Nodup)
    (plain : ∀ l ∈ out, ¬ ascii "addr:" <+: l.remoteID) :
    (∀ l ∈ out, l.usable = true → ∃ t,
      (computeReplicationTargets out).filter (sameClass l) = [t] ∧ Chosen (classOf out l) t)
    ∧ (∀ t ∈ computeReplicationTargets out, t ∈ out ∧ t.usable = true)
    ∧ ∀ out', out'.Perm out →
      (computeReplicationTargets out').Perm (computeReplicationTargets out) := by
  refine ⟨fun l member usable => ?_, fun t => targets_subset, fun out' perm => ?_⟩
  · have of := selectLinks_of out
    obtain ⟨m, listed, same, candidate, least⟩ :=
      of.exists_best (List.mem_filter.mpr ⟨member, usable⟩)
    have inClass := (mem_classOf_iff plain member).mpr ⟨candidate, same⟩
    refine ⟨m, ?_, chosen_of_least inClass fun l' theirs => ?_⟩
    · -- `m` is the only target with the key of `l`
      have only (t : OutPeer) (target : t ∈ computeReplicationTargets out) :
          sameClass l t = (t == m) := by
        rw [Bool.eq_iff_iff, beq_iff_eq,
          ← key_eq_iff (plain l member) (plain t (targets_subset target).1), ← same]
        refine ⟨fun sameKey => ?_, fun equal => equal ▸ rfl⟩
        exact List.inj_on_of_nodup_map (targets_nodup_key out) target listed sameKey
      rw [List.filter_congr only, List.filter_beq,
        List.count_eq_one_of_mem (targets_nodup_key out).of_map listed]
      rfl
    · obtain ⟨theirs, sameKey⟩ := (mem_classOf_iff plain member).mp theirs
      exact least l' theirs sameKey
  · have plain' : ∀ l ∈ out', ¬ ascii "addr:" <+: l.remoteID :=
      fun l member => plain l (perm.mem_iff.mp member)
    have distinct' : (out'.map OutPeer.linkSeq).Nodup := (perm.map _).nodup_iff.mpr distinct
    refine (List.perm_ext_iff_of_nodup (targets_nodup_key out').of_map
      (targets_nodup_key out).of_map).mpr fun t => ?_
    have sameClassOf (l : OutPeer) : l ∈ classOf out' t ↔ l ∈ classOf out t :=
      (perm.filter _).mem_iff
    constructor
    · intro target
      obtain ⟨member, usable⟩ := targets_subset target
      have chosen := (mem_targets_iff plain' distinct' member usable).mp target
      exact (mem_targets_iff plain distinct (perm.mem_iff.mp member) usable).mpr
        ((Chosen.congr sameClassOf).mp chosen)
    · intro target
      obtain ⟨member, usable⟩ := targets_subset target
      have chosen := (mem_targets_iff plain distinct member usable).mp target
      exact (mem_targets_iff plain' distinct' (perm.mem_iff.mpr member) usable).mpr
        ((Chosen.congr sameClassOf).mpr chosen)

def threeLinks : List OutPeer :=
  [{ addr := ascii "h1", remoteID := ascii "n1", inbound := true, linkSeq := 1 },
    { addr := ascii "h1", remoteID := ascii "n1", inbound := false, linkSeq := 3 },
    { addr := ascii "h2", remoteID := [], inbound := true, linkSeq := 2 }]

theorem threeLinks_one_per_peer :
    (threeLinks.map OutPeer.linkSeq).Nodup ∧ ∀ l ∈ threeLinks, l.usable = true → ∃ t,
      (computeReplicationTargets threeLinks).filter (sameClass l) = [t]
        ∧ Chosen (classOf threeLinks l) t :=
  ⟨by decide, (one_link_per_peer threeLinks (by decide) (by decide +kernel)).1⟩

end SuperCache
