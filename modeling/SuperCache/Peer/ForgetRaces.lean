import SuperCache.Peer.Membership

/-! # Removals that overlap

The three automatic removals of `forget.go` run on different goroutines: the reaper, the
discovery loop and the connection a departure is announced on.  Each selects its candidates
from a copy of the list, under the lock of the records, and then calls `RemovePeer` for one
after the other.  A `Removal` is the list with the removals that are still to be made.

The selection keeps one peer of the list it copied.  It does not know of removals another
call has selected and not yet made, so two calls can leave nothing between them;
`last_peer_kept` says when they cannot.
-/

namespace SuperCache

open Lib

structure Removal where
  member : Membership
  pending : List (List Bytes)

inductive RemovalMove where
  /-- A call selects its candidates; `links` are the addresses of the live links. -/
  | select (call : ForgetCall) (links : List Bytes)
  /-- The call with this number removes its next candidate. -/
  | remove (i : Nat)

namespace Removal

variable (rules : AddrRules)

/-- `forgetCandidates`. -/
def select (want : PeerMeta → Bool → Bool) (links : List Bytes) (r : Removal) : Removal :=
  let found := Membership.forgetLoop rules want (links.map rules.normalizePeerAddr)
    r.member.peers r.member.peers.length r.member.peerMeta
  { member := { r.member with peerMeta := found.1 }, pending := r.pending ++ [found.2] }

def step (r : Removal) : RemovalMove → Option Removal
  | .select call links =>
    match r.member.wanted rules call with
    | none => some r
    | some want => some (r.select rules want links)
  | .remove i =>
    match r.pending[i]? with
    | some (addr :: rest) =>
      some { member := r.member.removePeer addr, pending := r.pending.set i rest }
    | _ => none

def Quiet (r : Removal) : Prop :=
  r.pending.flatten = []

instance (r : Removal) : Decidable r.Quiet :=
  inferInstanceAs (Decidable (_ = _))

def Alone (r : Removal) : RemovalMove → Prop
  | .select _ _ => r.Quiet
  | .remove _ => True

instance (r : Removal) : ∀ move, Decidable (r.Alone move)
  | .select _ _ => inferInstanceAs (Decidable r.Quiet)
  | .remove _ => .isTrue trivial

/-! ## The last peer -/

/-- More peers are listed than are to be removed, and each that is to be removed, or may be
selected, stands in the list once. -/
structure Keeps (r : Removal) : Prop where
  more : r.pending.flatten.length < r.member.peers.length
  once : ∀ addr ∈ r.pending.flatten, r.member.peers.count (trimSpace addr) ≤ 1
  single : ∀ p ∈ r.member.peers, r.member.Forgettable (rules.normalizePeerAddr p) →
    r.member.peers.count (trimSpace p) ≤ 1

variable {rules} {r next : Removal}

theorem Keeps.select (keeps : r.Keeps rules) (quiet : r.Quiet) (want : PeerMeta → Bool → Bool)
    (links : List Bytes) : (r.select rules want links).Keeps rules := by
  obtain ⟨within, few, -⟩ := Membership.forgetLoop_drops rules want
    (links.map rules.normalizePeerAddr) r.member.peers r.member.peers.length r.member.peerMeta
  obtain ⟨records, weak⟩ := Membership.forgetLoop_spec rules want
    (links.map rules.normalizePeerAddr) r.member.peers r.member.peers.length r.member.peerMeta
  have pending : (r.select rules want links).pending.flatten
      = (Membership.forgetLoop rules want (links.map rules.normalizePeerAddr) r.member.peers
          r.member.peers.length r.member.peerMeta).2 := by
    simp only [Removal.select, List.flatten_append, show r.pending.flatten = [] from quiet,
      List.flatten_singleton, List.nil_append]
  have more := keeps.more
  constructor
  · rw [pending]
    exact lt_of_le_of_lt few (by simp only [Removal.select]; omega)
  · rw [pending]
    exact fun addr drop => keeps.single addr (within.subset drop) (weak addr drop)
  · rintro p listed ⟨found, record, forgettable⟩
    exact keeps.single p listed ⟨found, records _ found record, forgettable⟩

variable {i : Nat} {addr : Bytes} {rest : List Bytes}

theorem flatten_set {pending : List (List Bytes)} (here : pending[i]? = some (addr :: rest)) :
    (pending.set i rest).flatten.length + 1 = pending.flatten.length
      ∧ (pending.set i rest).flatten.Sublist pending.flatten ∧ addr ∈ pending.flatten := by
  induction pending generalizing i with
  | nil => cases here
  | cons first others ih =>
    cases i with
    | zero =>
      obtain rfl : first = addr :: rest := Option.some.inj here
      refine ⟨?_, ?_, ?_⟩
      · simp only [List.set_cons_zero, List.flatten_cons, List.length_append, List.length_cons]
        omega
      · simp only [List.set_cons_zero, List.flatten_cons]
        exact (List.sublist_cons_self addr rest).append_right _
      · simp
    | succ i =>
      obtain ⟨length, within, member⟩ := ih here
      refine ⟨?_, ?_, ?_⟩
      · simp only [List.set_cons_succ, List.flatten_cons, List.length_append]
        omega
      · simp only [List.set_cons_succ, List.flatten_cons]
        exact within.append_left first
      · rw [List.flatten_cons]
        exact List.mem_append_right first member

theorem Keeps.remove (keeps : r.Keeps rules) (here : r.pending[i]? = some (addr :: rest)) :
    Keeps rules { member := r.member.removePeer addr, pending := r.pending.set i rest } := by
  obtain ⟨length, within, member⟩ := flatten_set here
  have more := keeps.more
  have once := keeps.once addr member
  -- At most one entry goes, and one removal is no longer to be made.
  have shrinks : r.member.peers.length ≤ (r.member.removePeer addr).peers.length + 1 := by
    have parts := List.length_eq_countP_add_countP (fun p => decide (p ≠ trimSpace addr))
      (l := r.member.peers)
    have gone : r.member.peers.countP (fun p => decide ¬(decide (p ≠ trimSpace addr)) = true)
        = r.member.peers.count (trimSpace addr) := by
      rw [List.count_eq_countP]
      refine List.countP_congr fun p _ => ?_
      simp
    rw [gone, List.countP_eq_length_filter] at parts
    simp only [Membership.removePeer]
    omega
  have fewer (p : Bytes) : (r.member.removePeer addr).peers.count p ≤ r.member.peers.count p :=
    List.filter_sublist.count_le p
  constructor
  · simp only
    omega
  · exact fun other left => (fewer _).trans (keeps.once other (within.subset left))
  · intro p listed forgettable
    exact (fewer _).trans (keeps.single p (List.mem_filter.mp listed).1 forgettable)

theorem Keeps.step (keeps : r.Keeps rules) {move : RemovalMove} (alone : r.Alone move)
    (stepped : r.step rules move = some next) : next.Keeps rules := by
  cases move with
  | select call links =>
    simp only [Removal.step] at stepped
    split at stepped
    · cases stepped
      exact keeps
    · next want _ =>
      cases stepped
      exact keeps.select alone want links
  | remove i =>
    simp only [Removal.step] at stepped
    split at stepped
    · next addr rest here =>
      cases stepped
      exact keeps.remove here
    · cases stepped

/-- The list never becomes empty, if no call selects while another has removals to make and
no address that may be forgotten stands in the list twice. -/
theorem last_peer_kept {m : Membership} {moves : List RemovalMove} {final : Removal}
    (listed : m.peers ≠ [])
    (single : ∀ p ∈ m.peers, m.Forgettable (rules.normalizePeerAddr p) →
      m.peers.count (trimSpace p) ≤ 1)
    (alone : Machine.Guarded (step rules) Alone ⟨m, []⟩ moves)
    (ran : Machine.run (step rules) ⟨m, []⟩ moves = some final) : final.member.peers ≠ [] := by
  have keeps (r : Removal) (move : RemovalMove) (next : Removal) (keeps : r.Keeps rules)
      (alone : r.Alone move) (stepped : r.step rules move = some next) : next.Keeps rules :=
    keeps.step alone stepped
  have begins : Keeps rules ⟨m, []⟩ :=
    ⟨List.length_pos_iff.mpr listed, List.forall_mem_nil _, single⟩
  have more := (Machine.run_invariant keeps begins alone ran).more
  intro empty
  rw [empty] at more
  exact Nat.not_lt_zero _ more

def twoLearned : Membership :=
  .addPeerFrom Membership.plainRules 2 (ascii "c:1") .learned
    (.addPeerFrom Membership.plainRules 1 (ascii "b:1") .learned
      (.start (ascii "n1") (ascii "a:1") []))

/-- Both announce that they leave, one after the other. -/
theorem second_leave_kept :
    ∃ final, Machine.run (step Membership.plainRules) ⟨twoLearned, []⟩
        [.select (.leave (ascii "n2") (ascii "b:1") []) [], .remove 0,
          .select (.leave (ascii "n3") (ascii "c:1") []) []] = some final
      ∧ final.member.peers ≠ [] := by
  refine ⟨_, Machine.ran (by decide +kernel), ?_⟩
  exact last_peer_kept (by decide +kernel) (by decide +kernel) (by decide +kernel) (Machine.ran _)

/-- Both announce that they leave at the same time, and nothing is left.  Nor is anything
left of a list that holds one learned address twice. -/
theorem no_peer_left :
    (∃ final, Machine.run (step Membership.plainRules) ⟨twoLearned, []⟩
        [.select (.leave (ascii "n2") (ascii "b:1") []) [],
          .select (.leave (ascii "n3") (ascii "c:1") []) [], .remove 0, .remove 1] = some final
      ∧ final.member.peers = [])
    ∧ ∃ m, Machine.run (Membership.step Membership.plainRules)
          (.start (ascii "n1") (ascii "a:1") [])
          [.add 1 (ascii "c:1") .learned, .reload [ascii "c:1", ascii "c:1"]] = some m
        ∧ ∃ final, Machine.run (step Membership.plainRules) ⟨m, []⟩
            [.select (.leave (ascii "n3") (ascii "c:1") []) [], .remove 0] = some final
          ∧ final.member.peers = [] :=
  ⟨Machine.exists_run (by decide +kernel), _, Machine.ran (by decide +kernel),
    Machine.exists_run (by decide +kernel)⟩

end Removal

end SuperCache
