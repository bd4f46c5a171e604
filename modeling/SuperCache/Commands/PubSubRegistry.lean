import SuperCache.Commands.PubSub
import SuperCache.Lib.Machine

/-! # Who is subscribed to what

A subscription is kept twice: in the session's own maps, which decide what the session may
run, and in the lists of the manager, which decide what is pushed to it.  `Mirrored` says
that the two agree.  It holds after every run of subscriptions, cancellations and
disconnects over any number of sessions, and what `Publish` pushes follows from it.
-/

namespace SuperCache

open Lib

/-! ## The lists of the manager -/

namespace SubscriptionManager

variable {subs : GoMap (List Nat)} {name other : Bytes} {session i : Nat}

def WellListed (subs : GoMap (List Nat)) : Prop :=
  ∀ name list, subs.lookup name = some list → list ≠ [] ∧ list.Nodup

theorem WellListed.nodup (well : WellListed subs) (name : Bytes) : (sessionsOf subs name).Nodup := by
  unfold sessionsOf
  cases found : subs.lookup name with
  | none => exact .nil
  | some list => exact (well name list found).2

theorem sessionsOf_insert (list : List Nat) :
    sessionsOf (subs.insert name list) other = if other = name then list else sessionsOf subs other := by
  unfold sessionsOf
  rw [lookup_insert_eq_ite]
  split <;> rfl

theorem sessionsOf_erase :
    sessionsOf (subs.erase name) other = if other = name then [] else sessionsOf subs other := by
  unfold sessionsOf
  rw [lookup_erase_eq_ite]
  split <;> rfl

theorem WellListed.insert (well : WellListed subs) {list : List Nat} (some : list ≠ [])
    (nodup : list.Nodup) : WellListed (subs.insert name list) := by
  intro other found lookup
  rw [lookup_insert_eq_ite] at lookup
  split at lookup
  · cases lookup
    exact ⟨some, nodup⟩
  · exact well other found lookup

theorem mem_add :
    i ∈ sessionsOf (add subs name session) other
      ↔ i ∈ sessionsOf subs other ∨ other = name ∧ i = session := by
  unfold add
  split
  · next listed =>
    refine ⟨.inl, ?_⟩
    rintro (there | ⟨rfl, rfl⟩)
    · exact there
    · exact listed
  · rw [sessionsOf_insert]
    split
    · next same => simp only [same, List.mem_append, List.mem_singleton, true_and]
    · next apart => simp only [apart, false_and, or_false]

theorem mem_remove :
    i ∈ sessionsOf (remove subs name session) other
      ↔ i ∈ sessionsOf subs other ∧ ¬ (other = name ∧ i = session) := by
  have left : i ∈ (sessionsOf subs name).filter (· ≠ session)
      ↔ i ∈ sessionsOf subs name ∧ i ≠ session := by simp
  unfold remove
  by_cases same : other = name
  · subst same
    simp only [true_and, ← left]
    split
    · next gone => rw [sessionsOf_erase, if_pos rfl, gone]
    · rw [sessionsOf_insert, if_pos rfl]
  · simp only [same, false_and, not_false_eq_true, and_true]
    split
    · rw [sessionsOf_erase, if_neg same]
    · rw [sessionsOf_insert, if_neg same]

theorem WellListed.add (well : WellListed subs) (name : Bytes) (session : Nat) :
    WellListed (add subs name session) := by
  unfold SubscriptionManager.add
  split
  · exact well
  · next absent =>
    refine well.insert (by simp) (List.nodup_append.mpr ⟨well.nodup name, by simp, ?_⟩)
    rintro a listed b last rfl
    exact absent (List.mem_singleton.mp last ▸ listed)

theorem WellListed.remove (well : WellListed subs) (name : Bytes) (session : Nat) :
    WellListed (remove subs name session) := by
  unfold SubscriptionManager.remove
  simp only
  split
  · intro other list lookup
    rw [lookup_erase_eq_ite] at lookup
    split at lookup
    · cases lookup
    · exact well other list lookup
  · next some => exact well.insert some ((well.nodup name).filter _)

theorem mem_removeEach (names : List Bytes) :
    i ∈ sessionsOf (names.foldl (SubscriptionManager.remove · · session) subs) other
      ↔ i ∈ sessionsOf subs other ∧ ¬ (other ∈ names ∧ i = session) := by
  induction names generalizing subs with
  | nil => simp
  | cons name rest ih =>
    rw [List.foldl_cons, ih, mem_remove, List.mem_cons]
    constructor
    · rintro ⟨⟨there, notHere⟩, notLater⟩
      refine ⟨there, ?_⟩
      rintro ⟨rfl | later, rfl⟩
      · exact notHere ⟨rfl, rfl⟩
      · exact notLater ⟨later, rfl⟩
    · rintro ⟨there, notAny⟩
      exact ⟨⟨there, fun ⟨same, own⟩ => notAny ⟨.inl same, own⟩⟩,
        fun ⟨later, own⟩ => notAny ⟨.inr later, own⟩⟩

theorem WellListed.removeEach (well : WellListed subs) (names : List Bytes) :
    WellListed (names.foldl (SubscriptionManager.remove · · session) subs) := by
  induction names generalizing subs with
  | nil => exact well
  | cons name rest ih => exact ih (well.remove name session)

theorem mem_keys_of_mem (listed : i ∈ sessionsOf subs name) : name ∈ subs.keys := by
  unfold sessionsOf at listed
  cases found : subs.lookup name with
  | none => rw [found] at listed; cases listed
  | some list => exact Finmap.mem_keys.mpr (Finmap.mem_of_lookup_eq_some found)

theorem mem_removeSessionFromAll (m : SubscriptionManager) (kind : SubKind) :
    i ∈ sessionsOf ((m.removeSessionFromAll session).listed kind) other
      ↔ i ∈ sessionsOf (m.listed kind) other ∧ i ≠ session := by
  have all (subs : GoMap (List Nat)) :
      i ∈ sessionsOf ((sortedElems subs.keys).foldl (SubscriptionManager.remove · · session) subs) other
        ↔ i ∈ sessionsOf subs other ∧ i ≠ session := by
    rw [mem_removeEach]
    refine and_congr_right fun listed => ?_
    have visited : other ∈ sortedElems subs.keys := mem_sortedElems.mpr (mem_keys_of_mem listed)
    simp only [visited, true_and, ne_eq]
  cases kind <;> exact all _

end SubscriptionManager

/-! ## The two representations -/

section Mirror

variable {m : SubscriptionManager} {sessions : Nat → Option SessionState}

structure Mirrored (m : SubscriptionManager) (sessions : Nat → Option SessionState) : Prop where
  well : ∀ kind, SubscriptionManager.WellListed (m.listed kind)
  listed : ∀ kind name i, i ∈ SubscriptionManager.sessionsOf (m.listed kind) name
    ↔ ∃ state, sessions i = some state ∧ name ∈ state.subs kind

structure Matched (own : Bytes → Finset Bytes → Finset Bytes)
    (managed : GoMap (List Nat) → Bytes → Nat → GoMap (List Nat)) :
    Prop where
  well : ∀ {subs}, SubscriptionManager.WellListed subs → ∀ name session,
    SubscriptionManager.WellListed (managed subs name session)
  others : ∀ subs name session other i, i ≠ session →
    (i ∈ SubscriptionManager.sessionsOf (managed subs name session) other
      ↔ i ∈ SubscriptionManager.sessionsOf subs other)
  mine : ∀ {subs names session},
    (∀ other, session ∈ SubscriptionManager.sessionsOf subs other ↔ other ∈ names) → ∀ name other,
      (session ∈ SubscriptionManager.sessionsOf (managed subs name session) other
        ↔ other ∈ own name names)

theorem matched_add : Matched insert SubscriptionManager.add where
  well well name session := well.add name session
  others subs name session other i apart := by
    simp only [SubscriptionManager.mem_add, apart, and_false, or_false]
  mine same name other := by
    simp only [SubscriptionManager.mem_add, same, and_true, Finset.mem_insert, or_comm]

theorem matched_remove :
    Matched (fun name names => names.erase name) SubscriptionManager.remove where
  well well name session := well.remove name session
  others subs name session other i apart := by
    simp only [SubscriptionManager.mem_remove, apart, and_false, not_false_eq_true, and_true]
  mine same name other := by
    rw [SubscriptionManager.mem_remove, same, Finset.mem_erase, and_comm]
    simp only [and_true, ne_eq]

theorem SessionState.subs_setSubs (session : SessionState) (names : Finset Bytes)
    (kind kind' : SubKind) :
    (session.setSubs names kind).subs kind' = if kind' = kind then names else session.subs kind' := by
  cases kind <;> cases kind' <;> rfl

theorem SessionState.id_setSubs (session : SessionState) (names : Finset Bytes) (kind : SubKind) :
    (session.setSubs names kind).id = session.id := by
  cases kind <;> rfl

theorem SubscriptionManager.listed_modify (m : SubscriptionManager)
    (f : GoMap (List Nat) → GoMap (List Nat)) (kind kind' : SubKind) :
    (m.modify f kind).listed kind' = if kind' = kind then f (m.listed kind) else m.listed kind' := by
  cases kind <;> cases kind' <;> rfl

theorem Mirrored.change {own : Bytes → Finset Bytes → Finset Bytes}
    {managed : GoMap (List Nat) → Bytes → Nat → GoMap (List Nat)}
    (matched : Matched own managed) (mirrored : Mirrored m sessions) {session : SessionState}
    (connected : sessions session.id = some session) (kind : SubKind) (name : Bytes) :
    Mirrored (m.modify (managed · name session.id) kind)
      (Function.update sessions session.id
        (some (session.setSubs (own name (session.subs kind)) kind))) := by
  have mine (kind' : SubKind) (other : Bytes) :
      session.id ∈ SubscriptionManager.sessionsOf (m.listed kind') other
        ↔ other ∈ session.subs kind' := by
    rw [mirrored.listed, connected]
    simp only [Option.some.injEq, exists_eq_left']
  refine ⟨fun kind' => ?_, fun kind' other i => ?_⟩
  · rw [SubscriptionManager.listed_modify]
    split
    · exact matched.well (mirrored.well kind) name session.id
    · exact mirrored.well kind'
  · rw [SubscriptionManager.listed_modify]
    by_cases same : i = session.id
    · subst same
      simp only [Function.update_self, Option.some.injEq, exists_eq_left', SessionState.subs_setSubs]
      split
      · exact matched.mine (mine kind) name other
      · exact mine kind' other
    · simp only [Function.update_of_ne same, ← mirrored.listed]
      split
      · next same' => rw [matched.others _ _ _ _ _ same, same']
      · rfl

theorem Mirrored.eachSubscription {own : Bytes → Finset Bytes → Finset Bytes}
    {managed : GoMap (List Nat) → Bytes → Nat → GoMap (List Nat)}
    (matched : Matched own managed) (kind : SubKind) (ack : String) (names : List Bytes)
    {server : ServerState} {session : SessionState} (mirrored : Mirrored server.pubsub sessions)
    (connected : sessions session.id = some session) :
    let done := eachSubscription kind ack own managed names server session
    done.session.id = session.id
      ∧ Mirrored done.server.pubsub (Function.update sessions session.id (some done.session)) := by
  induction names generalizing server session sessions with
  | nil =>
    refine ⟨rfl, ?_⟩
    have same : Function.update sessions session.id (some session) = sessions :=
      Function.update_eq_self_iff.mpr connected.symm
    rw [SuperCache.eachSubscription, same]
    exact mirrored
  | cons name rest ih =>
    have moved := mirrored.change matched connected kind name
    have sameId := session.id_setSubs (own name (session.subs kind)) kind
    simp only [SuperCache.eachSubscription]
    rw [← sameId] at moved ⊢
    generalize session.setSubs (own name (session.subs kind)) kind = session' at moved sameId ⊢
    have moved' : Mirrored
        { server with pubsub := server.pubsub.modify (managed · name session'.id) kind }.pubsub
        (Function.update sessions session'.id (some session')) := moved
    have later := ih moved' (Function.update_self ..)
    simpa only [Function.update_idem] using later

end Mirror

/-! ## Publishing -/

theorem firstPushes {α β : Type} [DecidableEq α] (pushes : List (α × β)) :
    let made := pushes.foldl
      (fun made push => if push.1 ∈ made.map Prod.fst then made else made ++ [push]) []
    (made.map Prod.fst).Nodup
      ∧ (∀ a, a ∈ made.map Prod.fst ↔ a ∈ pushes.map Prod.fst)
      ∧ ∀ push ∈ made, pushes.find? (fun other => other.1 = push.1) = some push := by
  induction pushes using List.reverseRecOn with
  | nil => simp
  | append_singleton before push ih =>
    obtain ⟨nodup, same, first⟩ := ih
    simp only [List.foldl_append, List.foldl_cons, List.foldl_nil]
    generalize before.foldl _ _ = made at nodup same first ⊢
    have older (other : α × β) (listed : other ∈ made) :
        (before ++ [push]).find? (fun another => another.1 = other.1) = some other := by
      rw [List.find?_append, first other listed, Option.some_or]
    split
    · next seen =>
      refine ⟨nodup, fun a => ?_, older⟩
      rw [List.map_append, List.mem_append, ← same, List.map_singleton, List.mem_singleton]
      exact ⟨.inl, fun either => either.elim id fun own => own ▸ seen⟩
    · next unseen =>
      rw [List.map_append, List.map_singleton]
      refine ⟨?_, fun a => ?_, fun other listed => ?_⟩
      · refine List.nodup_append.mpr ⟨nodup, List.nodup_singleton _, ?_⟩
        rintro a listed b last rfl
        exact unseen (List.mem_singleton.mp last ▸ listed)
      · simp only [List.mem_append, same, List.map_append, List.map_singleton]
      · obtain listed | last := List.mem_append.mp listed
        · exact older other listed
        · obtain rfl := List.mem_singleton.mp last
          have none : before.find? (fun another => another.1 = other.1) = .none := by
            rw [List.find?_eq_none]
            intro another there equal
            refine unseen ((same other.1).mpr ?_)
            rw [← of_decide_eq_true equal]
            exact List.mem_map_of_mem there
          rw [List.find?_append, none, Option.none_or]
          simp

structure MapRange where
  visit : Finset Bytes → List Bytes
  nodup : ∀ names, (visit names).Nodup
  visits : ∀ names name, name ∈ visit names ↔ name ∈ names

def sortedRange : MapRange where
  visit := sortedElems
  nodup := nodup_sortedElems
  visits _ _ := mem_sortedElems

section Publish

variable {m : SubscriptionManager} {sessions : Nat → Option SessionState}
  {isMatch : Bytes → Bytes → Option Bool} {channel : Bytes}

/-- A session that `Publish` has to reach: one with the channel or a pattern that matches
it. -/
def Receives (isMatch : Bytes → Bytes → Option Bool) (channel : Bytes) (state : SessionState) :
    Prop :=
  channel ∈ state.subChannels ∨ ∃ pat ∈ state.psubPatterns, isMatch pat channel = some true

/-- What is pushed to a session: the message if it has the channel, and otherwise the
message with one of its patterns that match. -/
def PushedFor (isMatch : Bytes → Bytes → Option Bool) (channel message : Bytes)
    (state : SessionState) (value : RespValue) : Prop :=
  if channel ∈ state.subChannels then
    value = .array [.bulk (ascii "message"), .bulk channel, .bulk message]
  else ∃ pat ∈ state.psubPatterns, isMatch pat channel = some true
    ∧ value = .array [.bulk (ascii "pmessage"), .bulk pat, .bulk channel, .bulk message]

theorem Mirrored.publishMatching (mirrored : Mirrored m sessions) (range : MapRange)
    (message : Bytes) :
    let pushed := publishMatching range.visit isMatch m channel message
    (pushed.map Prod.fst).Nodup
      ∧ (∀ i, i ∈ pushed.map Prod.fst ↔ ∃ state, sessions i = some state ∧ Receives isMatch channel state)
      ∧ ∀ push ∈ pushed, ∃ state, sessions push.1 = some state
        ∧ PushedFor isMatch channel message state push.2 := by
  unfold SuperCache.publishMatching
  simp only
  generalize directly : (SubscriptionManager.sessionsOf m.chans channel).map _ = direct
  generalize patterns : List.flatMap _ ((range.visit m.psubs.keys).filter _) = byPattern
  obtain ⟨nodup, same, first⟩ := firstPushes (direct ++ byPattern)
  have inDirect (i : Nat) : i ∈ direct.map Prod.fst
      ↔ ∃ state, sessions i = some state ∧ channel ∈ state.subChannels := by
    rw [← directly, List.map_map]
    have listed := mirrored.listed .channel channel i
    simpa [SubscriptionManager.listed, SessionState.subs] using listed
  have fromPattern (push : Nat × RespValue) : push ∈ byPattern ↔ ∃ pat, isMatch pat channel = some true
      ∧ (∃ state, sessions push.1 = some state ∧ pat ∈ state.psubPatterns)
      ∧ push.2 = .array [.bulk (ascii "pmessage"), .bulk pat, .bulk channel, .bulk message] := by
    rw [← patterns]
    simp only [List.mem_flatMap, List.mem_filter, range.visits, decide_eq_true_eq, List.mem_map]
    constructor
    · rintro ⟨pat, ⟨-, matched⟩, i, listed, rfl⟩
      exact ⟨pat, matched, (mirrored.listed .pattern pat i).mp listed, rfl⟩
    · rintro ⟨pat, matched, subscribed, value⟩
      have listed := (mirrored.listed .pattern pat push.1).mpr subscribed
      exact ⟨pat, ⟨SubscriptionManager.mem_keys_of_mem listed, matched⟩, push.1, listed,
        Prod.ext rfl value.symm⟩
  refine ⟨nodup, fun i => ?_, fun push made => ?_⟩
  · rw [same, List.map_append, List.mem_append, inDirect]
    constructor
    · rintro (⟨state, connected, has⟩ | byPat)
      · exact ⟨state, connected, .inl has⟩
      · obtain ⟨push, listed, rfl⟩ := List.mem_map.mp byPat
        obtain ⟨pat, matched, ⟨state, connected, has⟩, -⟩ := (fromPattern push).mp listed
        exact ⟨state, connected, .inr ⟨pat, has, matched⟩⟩
    · rintro ⟨state, connected, has | ⟨pat, has, matched⟩⟩
      · exact .inl ⟨state, connected, has⟩
      · exact .inr (List.mem_map.mpr ⟨(i, _), (fromPattern (i, _)).mpr
          ⟨pat, matched, ⟨state, connected, has⟩, rfl⟩, rfl⟩)
  · have found := first push made
    rw [List.find?_append] at found
    -- The push is one to a session of the channel, if there is one to this session.
    cases direct? : direct.find? fun other => other.1 = push.1 with
    | some other =>
      rw [direct?, Option.some_or, Option.some.injEq] at found
      subst found
      have listed := List.mem_of_find?_eq_some direct?
      obtain ⟨state, connected, has⟩ := (inDirect other.1).mp (List.mem_map_of_mem listed)
      refine ⟨state, connected, ?_⟩
      rw [← directly] at listed
      obtain ⟨i, -, rfl⟩ := List.mem_map.mp listed
      rw [PushedFor, if_pos has]
    | none =>
      rw [direct?, Option.none_or] at found
      obtain ⟨pat, matched, ⟨state, connected, has⟩, value⟩ :=
        (fromPattern push).mp (List.mem_of_find?_eq_some found)
      refine ⟨state, connected, ?_⟩
      have noChannel : channel ∉ state.subChannels := by
        intro there
        obtain ⟨other, listed, equal⟩ :=
          List.mem_map.mp ((inDirect push.1).mpr ⟨state, connected, there⟩)
        exact absurd (List.find?_eq_none.mp direct? other listed) (by simpa using equal)
      rw [PushedFor, if_neg noChannel]
      exact ⟨pat, has, matched, value⟩

end Publish

/-! ## Runs -/

inductive PubSubCall where
  | subscribe
  | psubscribe
  | unsubscribe
  | punsubscribe
  | publish

def PubSubCall.command (isMatch : Bytes → Bytes → Option Bool) (range : MapRange) :
    PubSubCall → OtherCommand
  | .subscribe => cmdSubscribe
  | .psubscribe => cmdPSubscribe
  | .unsubscribe => cmdUnsubscribe range.visit
  | .punsubscribe => cmdPUnsubscribe range.visit
  | .publish => cmdPublishMatching range.visit isMatch

structure PubSubWorld where
  server : ServerState
  sessions : Nat → Option SessionState
  sessionSeq : Nat

inductive PubSubMove where
  | connect
  | run (i : Nat) (call : PubSubCall) (range : MapRange) (args : List Bytes)
  | disconnect (i : Nat)

namespace PubSubWorld

variable (isMatch : Bytes → Bytes → Option Bool) {w next : PubSubWorld}

def start (s : Store) : PubSubWorld where
  server := .ofStore s
  sessions := fun _ => none
  sessionSeq := 0

def step (w : PubSubWorld) : PubSubMove → Option PubSubWorld
  | .connect =>
    let id := w.sessionSeq + 1
    some { w with
      sessions := Function.update w.sessions id (some (newSession id).state), sessionSeq := id }
  | .run i call range args =>
    (w.sessions i).map fun session =>
      let done := (call.command isMatch range).run w.server session args
      { w with server := done.server, sessions := Function.update w.sessions i (some done.session) }
  | .disconnect i =>
    if (w.sessions i).isSome then
      some { w with
        server := { w.server with pubsub := w.server.pubsub.removeSessionFromAll i }
        sessions := Function.update w.sessions i none }
    else none

structure Sound (w : PubSubWorld) : Prop where
  mirrored : Mirrored w.server.pubsub w.sessions
  ids : ∀ i state, w.sessions i = some state → state.id = i ∧ i ≤ w.sessionSeq

theorem Sound.call {isMatch : Bytes → Bytes → Option Bool} (sound : w.Sound) {i : Nat}
    {session : SessionState} (connected : w.sessions i = some session) (call : PubSubCall)
    (range : MapRange) (args : List Bytes) :
    let done := (call.command isMatch range).run w.server session args
    done.session.id = i
      ∧ Mirrored done.server.pubsub (Function.update w.sessions i (some done.session)) := by
  obtain ⟨rfl, -⟩ := sound.ids i session connected
  have unchanged : Function.update w.sessions session.id (some session) = w.sessions :=
    Function.update_eq_self_iff.mpr connected.symm
  have subscribes (kind : SubKind) (ack : String) :
      let done := subscribing kind ack w.server session args
      done.session.id = session.id
        ∧ Mirrored done.server.pubsub
          (Function.update w.sessions session.id (some done.session)) := by
    unfold subscribing
    split
    · exact sound.mirrored.eachSubscription matched_add kind ack _ connected
    · exact ⟨rfl, unchanged.symm ▸ sound.mirrored⟩
  cases call with
  | subscribe => exact subscribes .channel "subscribe"
  | psubscribe => exact subscribes .pattern "psubscribe"
  | unsubscribe =>
    exact sound.mirrored.eachSubscription matched_remove .channel "unsubscribe" _ connected
  | punsubscribe =>
    exact sound.mirrored.eachSubscription matched_remove .pattern "punsubscribe" _ connected
  | publish =>
    simp only [PubSubCall.command, cmdPublishMatching]
    split
    · exact ⟨rfl, unchanged.symm ▸ sound.mirrored⟩
    · exact ⟨rfl, unchanged.symm ▸ sound.mirrored⟩

theorem Sound.fresh (sound : w.Sound) : w.sessions (w.sessionSeq + 1) = none := by
  cases found : w.sessions (w.sessionSeq + 1) with
  | none => rfl
  | some state => exact absurd (sound.ids _ state found).2 (Nat.not_succ_le_self _)

theorem sound_step {isMatch : Bytes → Bytes → Option Bool} {move : PubSubMove} (sound : w.Sound)
    (stepped : w.step isMatch move = some next) : next.Sound := by
  cases move with
  | connect =>
    cases stepped
    refine ⟨⟨sound.mirrored.well, fun kind name i => ?_⟩, fun i state connected => ?_⟩
    · rw [sound.mirrored.listed]
      by_cases same : i = w.sessionSeq + 1
      · subst same
        -- The new session has nothing, and its id was nobody's.
        simp only [sound.fresh, Function.update_self]
        cases kind <;> simp [newSession, SessionState.subs]
      · simp only [Function.update_of_ne same]
    · by_cases same : i = w.sessionSeq + 1
      · subst same
        simp only [Function.update_self, Option.some.injEq] at connected
        subst connected
        exact ⟨rfl, le_refl _⟩
      · simp only [Function.update_of_ne same] at connected
        obtain ⟨own, below⟩ := sound.ids i state connected
        exact ⟨own, Nat.le_succ_of_le below⟩
  | run i call range args =>
    simp only [step, Option.map_eq_some_iff] at stepped
    obtain ⟨session, connected, rfl⟩ := stepped
    obtain ⟨sameId, mirrored⟩ := sound.call connected call range args
    refine ⟨mirrored, fun j state found => ?_⟩
    by_cases same : j = i
    · subst same
      simp only [Function.update_self, Option.some.injEq] at found
      subst found
      exact ⟨sameId, (sound.ids j session connected).2⟩
    · simp only [Function.update_of_ne same] at found
      exact sound.ids j state found
  | disconnect i =>
    simp only [step, Option.ite_none_right_eq_some, Option.some.injEq] at stepped
    obtain ⟨-, rfl⟩ := stepped
    refine ⟨⟨fun kind => ?_, fun kind name j => ?_⟩, fun j state found => ?_⟩
    · cases kind with
      | channel => exact (sound.mirrored.well .channel).removeEach _
      | pattern => exact (sound.mirrored.well .pattern).removeEach _
    · rw [SubscriptionManager.mem_removeSessionFromAll, sound.mirrored.listed]
      by_cases same : j = i
      · simp [same]
      · simp only [same, ne_eq, not_false_eq_true, and_true, Function.update_of_ne]
    · by_cases same : j = i
      · simp [same] at found
      · simp only [Function.update_of_ne same] at found
        exact sound.ids j state found

theorem sound_start (s : Store) : (start s).Sound where
  mirrored :=
    { well := fun kind name list found => by cases kind <;> cases found
      listed := fun kind name i => by
        cases kind <;> simp [start, ServerState.ofStore, SubscriptionManager.empty,
          SubscriptionManager.listed, SubscriptionManager.sessionsOf] }
  ids := fun i state found => by cases found

def threeSubscribers : List PubSubMove :=
  [.connect, .connect, .connect,
    .run 1 .subscribe sortedRange [ascii "SUBSCRIBE", ascii "news", ascii "sport"],
    .run 3 .subscribe sortedRange [ascii "SUBSCRIBE", ascii "news"],
    .run 1 .psubscribe sortedRange [ascii "PSUBSCRIBE", ascii "n*"],
    .run 2 .psubscribe sortedRange [ascii "PSUBSCRIBE", ascii "n*", ascii "ne[", ascii "n*"],
    .run 1 .unsubscribe sortedRange [ascii "UNSUBSCRIBE", ascii "sport"],
    .disconnect 3]

end PubSubWorld

end SuperCache
