import SuperCache.Lib.Local
import SuperCache.Replication.Agreement

/-! # Where and when a payload acts

The replay of a payload is local to the keys it names, so payloads on different
keys commute.  A payload without a deadline means the same at every instant, on
a keyspace without deadlines.
-/

namespace SuperCache

open Lib

/-! ## Keys -/

namespace ReplicatePayload

def footprint (p : ReplicatePayload) : Set Key :=
  match p.keys with
  | none => Set.univ
  | some keys => { key | key ∈ keys }

def Apart (p q : ReplicatePayload) : Prop :=
  match p.keys, q.keys with
  | some keys, some keys' => ∀ key ∈ keys, key ∉ keys'
  | _, _ => False

instance (p q : ReplicatePayload) : Decidable (p.Apart q) := by
  unfold Apart
  split <;> infer_instance

theorem Apart.disjoint {p q : ReplicatePayload} (apart : p.Apart q) :
    Disjoint p.footprint q.footprint := by
  unfold Apart at apart
  unfold footprint
  cases first : p.keys with rw [first] at apart
  | none => exact apart.elim
  | some keys =>
    cases second : q.keys with rw [second] at apart
    | none => exact apart.elim
    | some keys' => exact Set.disjoint_left.mpr apart

end ReplicatePayload

section Local

variable {now : Time}

theorem onKey_local {ρ : Type} (now : Time) (key : Key) (op : KeyOp ρ) :
    LocalTo { other | other ∈ [key] } (onKey now key op) := by
  have single : { other | other ∈ [key] } = ({ key } : Set Key) := by simp
  rw [single]
  exact LocalTo.update key (op.effect now)

theorem remove_local (keys : List Key) : LocalTo { key | key ∈ keys } (Keyspace.remove keys) where
  frame _ _ outside := if_neg outside
  reads _ _ _ _ here := (if_pos here).trans (if_pos here).symm

theorem move_local (src dst : Key) : LocalTo { key | key ∈ [src, dst] } (Keyspace.move src dst) where
  frame view key outside := by
    have apart : key ≠ src ∧ key ≠ dst := by simpa using outside
    unfold Keyspace.move
    split
    · rfl
    · cases view src with
      | none => rfl
      | some e => simp only [Function.update_of_ne apart.2, Function.update_of_ne apart.1]
  reads view view' same key here := by
    unfold Keyspace.move
    rw [same src (by simp)]
    split
    · exact same key here
    · cases view' src with
      | none => exact same key here
      | some e =>
        simp only [Function.update_apply]
        rw [same key here]

theorem ReplicatePayload.footprint_of_keys {p : ReplicatePayload} {keys : List Key}
    (named : p.keys = some keys) : p.footprint = { key | key ∈ keys } := by
  unfold footprint
  rw [named]

theorem replay_local (now : Time) (p : ReplicatePayload) : LocalTo p.footprint (replay now p) := by
  have named {keys : List Key} (same : p.keys = some keys) {f : Keyspace → Keyspace}
      (here : LocalTo { key | key ∈ keys } f) : LocalTo p.footprint f := by
    rw [ReplicatePayload.footprint_of_keys same]
    exact here
  have cases := replay_cases p
  change LocalTo p.footprint ((fun now => replay now p) now)
  generalize (fun now => replay now p) = f at cases
  cases cases with
  | nothing => exact .id _
  | own op keys _ _ => exact named keys (onKey_local now p.key (op now))
  | remove keys => exact named keys (remove_local _)
  | move keys => exact named keys (move_local _ _)
  | flush keys =>
    have all : p.footprint = Set.univ := by simp only [ReplicatePayload.footprint, keys]
    rw [all]
    exact .univ _

theorem replay_commute {p q : ReplicatePayload} (now : Time) (apart : p.Apart q) :
    Function.Commute (replay now p) (replay now q) :=
  (replay_local now p).commute (replay_local now q) apart.disjoint

end Local

/-! ## Deadlines -/

theorem Undated.alive {entry : Option Entry} (undated : Undated entry) (now : Time) :
    alive now entry = entry := by
  cases entry with
  | none => rfl
  | some e =>
    obtain ⟨value, deadline⟩ := e
    obtain rfl : deadline = 0 := undated _ rfl
    exact alive_of_no_deadline value

theorem Undated.ext {entry entry' : Option Entry} (undated : Undated entry)
    (undated' : Undated entry') (same : entry.map Entry.value = entry'.map Entry.value) :
    entry = entry' := by
  cases entry with
  | none =>
    cases entry' with
    | none => rfl
    | some e' => cases same
  | some e =>
    cases entry' with
    | none => cases same
    | some e' =>
      obtain ⟨value, deadline⟩ := e
      obtain ⟨value', deadline'⟩ := e'
      obtain rfl : deadline = 0 := undated _ rfl
      obtain rfl : deadline' = 0 := undated' _ rfl
      cases same
      rfl

namespace KeyOp

theorem Timeless.after {ρ : Type} {op : KeyOp ρ} (timeless : op.Timeless) {cur : Option Entry}
    (undated : Undated cur) : Undated (op.after (.ofLive cur)) := by
  cases cur with
  | none => exact timeless.missing
  | some e =>
    obtain ⟨value, deadline⟩ := e
    obtain rfl : deadline = 0 := undated _ rfl
    exact timeless.live value

theorem Timeless.effect {ρ : Type} {op : KeyOp ρ} (timeless : op.Timeless) {cur : Option Entry}
    (undated : Undated cur) (now : Time) : op.effect now cur = op.after (.ofLive cur) :=
  (timeless.after undated).alive now

end KeyOp

instance (p : ReplicatePayload) : Decidable p.Timeless := by
  unfold ReplicatePayload.Timeless
  split <;> infer_instance

def Keyspace.Undated (view : Keyspace) : Prop :=
  ∀ key, SuperCache.Undated (view key)

section Timeless

variable {now : Time} {view : Keyspace}

/-- On an undated keyspace the payload leaves `f view`, undated, at any instant. -/
def Settled (now : Time) (view : Keyspace) (f : Time → Keyspace → Keyspace) : Prop :=
  f now view = f 0 view ∧ Keyspace.Undated (f 0 view)

theorem settled_onKey {ρ : Type} {op : KeyOp ρ} (undated : view.Undated) (timeless : op.Timeless)
    (key : Key) : Settled now view (fun now view => onKey now key op view) := by
  constructor
  · simp only [onKey, timeless.effect (undated key)]
  · intro other
    by_cases here : other = key
    · subst here
      simp only [onKey, Function.update_self, timeless.effect (undated other)]
      exact timeless.after (undated other)
    · simp only [onKey, Function.update_of_ne here]
      exact undated other

theorem Keyspace.Undated.move (undated : view.Undated) (src dst : Key) :
    (Keyspace.move src dst view).Undated := by
  unfold Keyspace.move
  split
  · exact undated
  · cases found : view src with
    | none => exact undated
    | some e =>
      intro key
      simp only [Function.update_apply]
      split
      · rw [← found]
        exact undated src
      · split
        · exact undated_none
        · exact undated key

theorem replay_timeless {p : ReplicatePayload} (now : Time) (timeless : p.Timeless)
    (undated : view.Undated) : Settled now view (fun now view => replay now p view) := by
  have cases := replay_cases p
  generalize (fun now => replay now p) = f at cases ⊢
  cases cases with
  | nothing => exact ⟨rfl, undated⟩
  | own op _ _ always =>
    obtain ⟨same, noDeadline⟩ := always timeless
    simp only [same]
    exact settled_onKey undated noDeadline p.key
  | remove named =>
    refine ⟨rfl, fun key => ?_⟩
    simp only [Keyspace.remove]
    split
    · exact undated_none
    · exact undated key
  | move named => exact ⟨rfl, undated.move p.key p.dest⟩
  | flush named => exact ⟨rfl, fun _ => undated_none⟩

theorem replayAll_timeless {payloads : List ReplicatePayload} (now : Time)
    (timeless : ∀ p ∈ payloads, p.Timeless) (undated : view.Undated) :
    Settled now view (fun now view => replayAll now payloads view) := by
  induction payloads generalizing view with
  | nil => exact ⟨rfl, undated⟩
  | cons p rest ih =>
    obtain ⟨here, later⟩ := List.forall_mem_cons.mp timeless
    obtain ⟨same, undated⟩ := replay_timeless now here undated
    obtain ⟨sameLater, undated⟩ := ih later undated
    refine ⟨?_, undated⟩
    simp only [replayAll_cons] at same ⊢
    rw [same]
    exact sameLater

end Timeless

end SuperCache
