import SuperCache.Peer.Handshake
import SuperCache.Server.Config

/-! # What a proof is bound to

The proof hashes the nonce, and after it a tag and the cluster identifier if there is one.  A
dialer decodes whatever hex text it is sent, so the nonce may have any length, and may end in
a tag of its own.
-/

namespace SuperCache

open Lib

def Binds (nonce nonce' : Bytes) : Prop :=
  ∀ id id' : Bytes, Config.validateClusterID id = .ok () → Config.validateClusterID id' = .ok () →
    proofInput nonce (trimSpace id) = proofInput nonce' (trimSpace id') →
    nonce = nonce' ∧ trimSpace id = trimSpace id'

def Printable (text : Bytes) : Prop :=
  text.length ≤ 128 ∧ ∀ byte ∈ text, 0x21 ≤ byte.val ∧ byte.val ≤ 0x7e

instance (text : Bytes) : Decidable (Printable text) :=
  inferInstanceAs (Decidable (_ ∧ _))

/-- The nonce goes on with the tag and what could be the beginning of an identifier, or with
the tag up to its last byte, which is also its first. -/
def Tagged (nonce longer : Bytes) : Prop :=
  (∃ id, Printable id ∧ longer = nonce ++ (clusterBindTag ++ id))
    ∨ longer = nonce ++ clusterBindTag.dropLast

theorem Printable.trimSpace {id : Bytes} (printable : Printable id) : trimSpace id = id :=
  trimSpace_printable printable.2

theorem validateClusterID_iff (id : Bytes) :
    Config.validateClusterID id = .ok () ↔ Printable (trimSpace id) := by
  unfold Config.validateClusterID Printable
  generalize Lib.trimSpace id = id
  by_cases empty : id = []
  · simp [empty]
  · by_cases long : 128 < id.length
    · simp [empty, long]
    · rw [if_neg empty, if_neg long, Config.check]
      split
      · next printable => simpa [Nat.not_lt.mp long] using printable
      · next other => simpa [Nat.not_lt.mp long] using other

theorem tag_overlap {shift id id' : Bytes} (short : shift.length < clusterBindTag.length)
    (same : clusterBindTag ++ id = shift ++ (clusterBindTag ++ id')) :
    shift = [] ∨ shift = clusterBindTag.dropLast := by
  have only : ∀ n < clusterBindTag.length,
      (clusterBindTag.take n ++ clusterBindTag).take clusterBindTag.length = clusterBindTag →
      clusterBindTag.take n = [] ∨ clusterBindTag.take n = clusterBindTag.dropLast := by
    decide
  have front : clusterBindTag.take shift.length = shift := by
    have cut := congrArg (List.take shift.length) same
    rwa [List.take_append_of_le_length short.le, List.take_left] at cut
  have cut := congrArg (List.take clusterBindTag.length) same
  rw [List.take_left, ← List.append_assoc, List.take_append_of_le_length (by simp)] at cut
  have found := only shift.length short
  rw [front] at found
  exact found cut.symm

theorem inputs_cases {nonce nonce' id id' : Bytes} (printable : Printable id)
    (order : nonce.length ≤ nonce'.length) (same : proofInput nonce id = proofInput nonce' id') :
    (nonce = nonce' ∧ id = id') ∨ Tagged nonce nonce' := by
  unfold proofInput at same
  by_cases none : id = [] <;> by_cases none' : id' = []
  · rw [if_pos none, if_pos none'] at same
    exact .inl ⟨same, none.trans none'.symm⟩
  · -- the shorter nonce would be longer by a tag
    rw [if_pos none, if_neg none', List.append_assoc] at same
    have lengths := congrArg List.length same
    simp only [List.length_append, show clusterBindTag.length = 20 from rfl] at lengths
    omega
  · rw [if_neg none, if_pos none', List.append_assoc] at same
    exact .inr (.inl ⟨id, printable, same.symm⟩)
  · rw [if_neg none, if_neg none', List.append_assoc, List.append_assoc] at same
    obtain ⟨shift, rfl⟩ : nonce <+: nonce' :=
      List.prefix_of_prefix_length_le ⟨_, same⟩ ⟨_, rfl⟩ order
    rw [List.append_assoc] at same
    have same := List.append_cancel_left same
    by_cases short : shift.length < clusterBindTag.length
    · obtain rfl | rfl := tag_overlap short same
      · exact .inl ⟨(List.append_nil _).symm, List.append_cancel_left same⟩
      · exact .inr (.inr rfl)
    · -- a whole tag, and the rest of the shift is in the identifier
      obtain ⟨rest, rfl⟩ : clusterBindTag <+: shift :=
        List.prefix_of_prefix_length_le ⟨_, same⟩ ⟨_, rfl⟩ (Nat.not_lt.mp short)
      rw [List.append_assoc] at same
      have inside := List.append_cancel_left same
      subst inside
      have length := printable.1
      rw [List.length_append] at length
      exact .inr (.inl ⟨rest, ⟨by omega, fun byte listed =>
        printable.2 byte (List.mem_append_left _ listed)⟩, rfl⟩)

theorem Tagged.collides {nonce longer : Bytes} (tagged : Tagged nonce longer) :
    ∃ id id', Printable id ∧ Printable id' ∧ proofInput nonce id = proofInput longer id' := by
  have whole : Printable (clusterBindTag ++ ascii "a") :=
    ⟨by decide, List.forall_mem_append.mpr ⟨forall_ascii (by decide), forall_ascii (by decide)⟩⟩
  have letter : Printable (ascii "a") :=
    ⟨by decide, fun byte listed => whole.2 byte (List.mem_append_right _ listed)⟩
  obtain ⟨id, printable, rfl⟩ | rfl := tagged
  · by_cases none : id = []
    · exact ⟨clusterBindTag ++ ascii "a", ascii "a", whole, letter, by simp [proofInput, none, ascii]⟩
    · exact ⟨id, [], printable, by decide +kernel, by simp [proofInput, none]⟩
  · have shared : clusterBindTag ++ clusterBindTag.tail = clusterBindTag.dropLast ++ clusterBindTag := by decide
    have rest : Printable (clusterBindTag ++ ascii "a").tail :=
      ⟨by decide, fun byte listed => whole.2 byte (List.mem_of_mem_tail listed)⟩
    refine ⟨clusterBindTag.tail ++ ascii "a", ascii "a", rest, letter, ?_⟩
    rw [proofInput, if_neg (by decide), proofInput, if_neg (by decide)]
    simp only [List.append_assoc]
    rw [← List.append_assoc clusterBindTag, shared, List.append_assoc]

theorem Tagged.longer {nonce longer : Bytes} (tagged : Tagged nonce longer) :
    nonce.length < longer.length := by
  obtain ⟨id, -, rfl⟩ | rfl := tagged <;> simp [clusterBindTag, ascii]

theorem Tagged.not_binds {nonce longer : Bytes} (tagged : Tagged nonce longer) : ¬ Binds nonce longer := by
  intro binds
  obtain ⟨id, id', printable, printable', same⟩ := tagged.collides
  obtain ⟨equal, -⟩ := binds id id' ((validateClusterID_iff id).mpr (by rwa [printable.trimSpace]))
    ((validateClusterID_iff id').mpr (by rwa [printable'.trimSpace]))
    (by rwa [printable.trimSpace, printable'.trimSpace])
  exact absurd tagged.longer (by simp [equal])

theorem Binds.symm {nonce nonce' : Bytes} (binds : Binds nonce nonce') : Binds nonce' nonce := by
  intro id id' valid valid' same
  obtain ⟨nonces, ids⟩ := binds id' id valid' valid same.symm
  exact ⟨nonces.symm, ids.symm⟩

/-- Two nonces bind the identifier exactly when neither is the other one with a tag behind it. -/
theorem binds_iff (nonce nonce' : Bytes) :
    Binds nonce nonce' ↔ ¬ Tagged nonce nonce' ∧ ¬ Tagged nonce' nonce := by
  constructor
  · intro binds
    exact ⟨fun tagged => tagged.not_binds binds, fun tagged => tagged.not_binds binds.symm⟩
  · rintro ⟨apart, apart'⟩ id id' valid valid' same
    rcases Nat.le_total nonce.length nonce'.length with order | order
    · exact (inputs_cases ((validateClusterID_iff id).mp valid) order same).resolve_right apart
    · obtain ⟨nonces, ids⟩ := (inputs_cases ((validateClusterID_iff id').mp valid') order
        same.symm).resolve_right apart'
      exact ⟨nonces.symm, ids.symm⟩

/-- A proof over an empty nonce for the cluster `b` is one for no cluster, over a nonce that is
accepted as well. -/
theorem proof_for_no_cluster :
    let longer := clusterBindTag ++ ascii "b"
    Hex.decode (Hex.encode longer) = some longer
      ∧ Config.validateClusterID (ascii "b") = .ok ()
      ∧ ∀ hmac secret, peerHMAC hmac secret [] (ascii "b") = peerHMAC hmac secret longer [] := by
  refine ⟨by decide +kernel, rfl, fun hmac secret => ?_⟩
  rfl

end SuperCache
