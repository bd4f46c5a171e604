import SuperCache.Commands.PubSub
import SuperCache.Lib.Machine
import SuperCache.Store.Runs

/-! # Transactions of one session

The commands of one session with changes by other clients in between.  Beside the
session stands its history as a client sees it, drawn from the replies: the version of
each key at its first `WATCH`, and the commands answered with `QUEUED`.
-/

namespace SuperCache

open Lib

/-! ## What a client sees -/

def txOf (v : RespValue) : Option TxCommand :=
  match valueToArgs v with
  | some (name :: _) => txCommandOf (toLower name)
  | _ => none

def operandsOf (v : RespValue) : List Bytes :=
  ((valueToArgs v).getD []).tail

def isOk : List RespValue → Bool
  | [.simple text] => text = ascii "OK"
  | _ => false

def isQueued : List RespValue → Bool
  | [.simple text] => text = ascii "QUEUED"
  | _ => false

def isError : List RespValue → Bool
  | [.error _] => true
  | _ => false

/-- The reply of an `EXEC` that aborts. -/
def isNull : List RespValue → Bool
  | [.nullArray] => true
  | _ => false

structure TxHistory where
  firstWatch : GoMap Nat
  queued : List RespValue

/-- A key keeps the version of its first `WATCH`. -/
def firstVersions (s : Store) (seen : GoMap Nat) (keys : List Key) : GoMap Nat :=
  keys.foldl (fun seen key => if key ∈ seen then seen else seen.insert key (s.watchVersion key)) seen

namespace TxHistory

def empty : TxHistory where
  firstWatch := ∅
  queued := []

/-- The history after a command that was answered `written`.  A command takes effect when
it is answered with `OK`, and `EXEC` when it is not answered with an error. -/
def after (h : TxHistory) (s : Store) (inMulti : Bool) (v : RespValue) (written : List RespValue) :
    TxHistory :=
  if inMulti ∧ isQueued written then { h with queued := h.queued ++ [v] }
  else match txOf v with
    | some .watch =>
      if isOk written then { h with firstWatch := firstVersions s h.firstWatch (operandsOf v) } else h
    | some .unwatch => if isOk written then { h with firstWatch := ∅ } else h
    | some .multi => if isOk written then { h with queued := [] } else h
    | some .discard => if isOk written then empty else h
    | some .exec => if isError written then h else empty
    | none => h

end TxHistory

/-! ## The machine -/

structure TxSession where
  server : ServerState
  session : ClientSession
  closed : Bool
  history : TxHistory

/-- A command of the session, under the password configured at that time, or anything
other clients do to the server. -/
inductive TxMove where
  | command (authPassword : Bytes) (v : RespValue)
  | others (server : ServerState)

/-- Wherever the server and the session are `fit` the command returns no error, writes a
reply that can be read back, and leaves them fit. -/
def Answers (authPassword : Bytes) (registry : Registry)
    (fit : ServerState → ClientSession → Prop) (v : RespValue) : Prop :=
  ∀ server session, fit server session →
    let out := dispatchPlain authPassword registry server session v
    out.closed = false ∧ (RespValue.parse (RespValue.encodeAll out.written)).isSome
      ∧ fit out.server out.session

namespace TxSession

def start (server : ServerState) (id : Nat) : TxSession where
  server := server
  session := newSession id
  closed := false
  history := .empty

variable (registry : Registry)

def step (m : TxSession) : TxMove → Option TxSession
  | .command authPassword v =>
    if m.closed then none
    else
      let out := dispatch authPassword registry m.server m.session v
      some
        { server := out.server
          session := out.session
          closed := out.closed
          history := m.history.after m.server.store m.session.inMulti v out.written }
  | .others server => some { m with server := server }

/-- No `DISCARD` takes effect while a key is watched, and no watched key is watched again
after its version has changed. -/
def Regular (m : TxSession) : TxMove → Prop
  | .command authPassword v =>
    (txOf v = some .discard → isOk (dispatch authPassword registry m.server m.session v).written →
        m.session.watchedKeys.keys = ∅)
      ∧ (txOf v = some .watch → isOk (dispatch authPassword registry m.server m.session v).written →
        ∀ key ∈ operandsOf v, key ∈ m.session.watchedKeys →
          m.session.watchedKeys.lookup key = some (m.server.store.watchVersion key))
  | .others _ => True

instance (m : TxSession) : ∀ move, Decidable (m.Regular registry move)
  | .command _ _ => inferInstanceAs (Decidable (_ ∧ _))
  | .others _ => .isTrue trivial

end TxSession

/-! ## What a command does to the transaction -/

def Registry.Plain (registry : Registry) : Prop :=
  ∀ name, (registry name).isSome → ∀ byte ∈ name, byte.val < 128

/-- What a dispatch that leaves the connection open does to the transaction of the
session, case by case. -/
inductive TxEffect (authPassword : Bytes) (registry : Registry) (server : ServerState)
    (session : ClientSession) (v : RespValue) (out : Dispatched) : Prop
  | none (inMulti : out.session.inMulti = session.inMulti)
      (multiQueue : out.session.multiQueue = session.multiQueue)
      (watchedKeys : out.session.watchedKeys = session.watchedKeys)
      (history : ∀ h : TxHistory, h.after server.store session.inMulti v out.written = h)
  | queued (inside : session.inMulti = true) (notWatch : txOf v ≠ some .watch)
      (is : out = replyOnly server { session with multiQueue := session.multiQueue ++ [v] } queuedReply)
  | watch (cmd : txOf v = some .watch)
      (is : out = replyOnly server
        { session with
          watchedKeys := noteVersions server.store session.watchedKeys (operandsOf v) } okReply)
  | unwatch (cmd : txOf v = some .unwatch)
      (is : out = replyOnly server { session with watchedKeys := ∅ } okReply)
  | multi (cmd : txOf v = some .multi)
      (is : out = replyOnly server { session with inMulti := true, multiQueue := [] } okReply)
  | discard (cmd : txOf v = some .discard)
      (is : out = replyOnly server { session with inMulti := false, multiQueue := [] } okReply)
  | exec (cmd : txOf v = some .exec) (inside : session.inMulti = true)
      (is : ∃ name, out = execCommand authPassword registry server session [name])

variable {name : Bytes}

theorem txCommandOf_eq_some {cmd : TxCommand} :
    txCommandOf name = some cmd → name = ascii cmd.name := by
  intro found
  have same := List.find?_some found
  exact (of_decide_eq_true same).symm

theorem txCommandOf_name (cmd : TxCommand) : txCommandOf (ascii cmd.name) = some cmd := by
  cases cmd <;> decide +kernel

theorem txOf_of_args {v : RespValue} {operands : List Bytes}
    (args : valueToArgs v = some (name :: operands)) : txOf v = txCommandOf (toLower name) := by
  simp only [txOf, args]

section Effect

variable {authPassword : Bytes} {registry : Registry} {server : ServerState}
  {session : ClientSession} {v : RespValue}

theorem txEffect_error (text : Bytes) :
    TxEffect authPassword registry server session v (replyOnly server session (.error text)) := by
  refine .none rfl rfl rfl fun h => ?_
  simp only [TxHistory.after, replyOnly, isQueued, isOk, isError, Bool.false_eq_true, and_false,
    if_false, if_true]
  split <;> rfl

theorem txEffect_other {out : Dispatched} (outside : session.inMulti = false)
    (other : txOf v = none) (same : ∃ state, out.session = { session with state := state }) :
    TxEffect authPassword registry server session v out := by
  obtain ⟨state, kept⟩ := same
  refine .none (by rw [kept]) (by rw [kept]) (by rw [kept]) fun h => ?_
  simp only [TxHistory.after, outside, other, Bool.false_eq_true, false_and, if_false]

variable (authPassword server session) in
theorem cmdAuth_session (args : List Bytes) :
    ∃ state, (cmdAuth server session authPassword args).session = { session with state := state } := by
  unfold cmdAuth
  split
  · exact ⟨session.state, rfl⟩
  · split
    · split
      · exact ⟨session.state, rfl⟩
      · exact ⟨_, rfl⟩
    · exact ⟨session.state, rfl⟩

theorem txEffect_cmd {cmd : TxCommand} {name : Bytes} {operands : List Bytes}
    (args : valueToArgs v = some (name :: operands)) (is : txOf v = some cmd) :
    cmd ≠ .exec →
    TxEffect authPassword registry server session v
      (cmd.run server session (name :: operands)) := by
  have keys : operandsOf v = operands := by simp only [operandsOf, args, Option.getD, List.tail_cons]
  intro notExec
  cases cmd with
  | exec => exact absurd rfl notExec
  | multi =>
    rcases operands with - | ⟨operand, operands⟩
    · cases inside : session.inMulti with
      | true =>
        simp only [TxCommand.run, cmdMulti, inside, if_true]
        exact txEffect_error _
      | false =>
        exact .multi is (by simp only [TxCommand.run, cmdMulti, inside, Bool.false_eq_true, if_false])
    · exact txEffect_error _
  | discard =>
    rcases operands with - | ⟨operand, operands⟩
    · cases inside : session.inMulti with
      | true => exact .discard is (by simp only [TxCommand.run, cmdDiscard, inside, if_true])
      | false =>
        simp only [TxCommand.run, cmdDiscard, inside, Bool.false_eq_true, if_false]
        exact txEffect_error _
    · exact txEffect_error _
  | watch =>
    rcases operands with - | ⟨operand, operands⟩
    · exact txEffect_error _
    · exact .watch is (by rw [keys]; rfl)
  | unwatch =>
    rcases operands with - | ⟨operand, operands⟩
    · exact .unwatch is rfl
    · exact txEffect_error _

theorem registryDispatch_effect
    (inside : session.inMulti = true → ∀ name operands, valueToArgs v = some (name :: operands) →
      (txOf v).isSome ∨ toLower name ≠ ascii "auth" ∧ registry (toLower name) = none) :
    TxEffect authPassword registry server session v
      (registryDispatch authPassword registry server session v) := by
  unfold registryDispatch
  split
  · next args =>
    refine .none rfl rfl rfl fun h => ?_
    simp [TxHistory.after, txOf, args, failedWith, isQueued]
  · next args =>
    refine .none rfl rfl rfl fun h => ?_
    simp [TxHistory.after, txOf, args, failedWith, isQueued]
  · next name operands args =>
    have cmdIs := txOf_of_args args
    split
    · next isExec =>
      have cmd : txOf v = some .exec := by rw [cmdIs, isExec]; exact txCommandOf_name .exec
      split
      · exact txEffect_error _
      · rcases operands with - | ⟨operand, operands⟩
        · cases multi : session.inMulti with
          | true => exact .exec cmd multi ⟨name, rfl⟩
          | false =>
            simp only [execCommand, multi, if_true]
            exact txEffect_error _
        · exact txEffect_error _
    · next notExec =>
      simp only [dispatchPlain, args]
      split
      · next auth =>
        have other : txOf v = none := by rw [cmdIs, auth]; decide +kernel
        refine txEffect_other ?_ other (cmdAuth_session _ _ _ _)
        -- inside `MULTI` the registry is not asked for `AUTH`
        cases multi : session.inMulti with
        | false => rfl
        | true =>
          rcases inside multi name operands args with some | ⟨notAuth, -⟩
          · simp [other] at some
          · exact absurd auth notAuth
      · split
        · next cmd found =>
          split
          · exact txEffect_error _
          · refine txEffect_cmd args (cmdIs.trans found) fun exec => notExec ?_
            rw [txCommandOf_eq_some found, exec]
            rfl
        · next found =>
          have other : txOf v = none := cmdIs.trans found
          split
          · exact txEffect_error _
          · next command registered =>
            have outside : session.inMulti = false := by
              cases multi : session.inMulti with
              | false => rfl
              | true =>
                rcases inside multi name operands args with some | ⟨-, unknown⟩
                · simp [other] at some
                · simp [registered] at unknown
            split
            · exact txEffect_error _
            · exact txEffect_other outside other ⟨_, rfl⟩

end Effect

/-- What the registry looks up for a name whose upper case is one of the commands served
inside `MULTI`: that command, or a name that nothing has. -/
theorem multiCommands_lookup {registry : Registry} (plain : registry.Plain)
    (served : toUpper name ∈ multiCommands) :
    (txCommandOf (toLower name)).isSome
      ∨ toLower name ≠ ascii "auth" ∧ registry (toLower name) = none := by
  have letters : ∀ word ∈ multiCommands, ∀ byte ∈ word, 65 ≤ byte.val ∧ byte.val ≤ 90 := by
    simp only [multiCommands, List.forall_mem_cons]
    exact ⟨forall_ascii (by decide), forall_ascii (by decide), forall_ascii (by decide),
      forall_ascii (by decide), by simp⟩
  have known : ∀ word ∈ multiCommands, (txCommandOf (word.map (· + 32))).isSome := by
    decide +kernel
  rcases toLower_of_toUpper (letters _ served) with same | ⟨-, high, listed, big⟩
  · exact .inl (same ▸ known _ served)
  · refine .inr ⟨fun auth => ?_, ?_⟩
    · have ascii : ∀ byte ∈ ascii "auth", byte.val < 128 := forall_ascii (by decide)
      exact absurd (ascii high (auth ▸ listed)) (Nat.not_lt.mpr big)
    · by_contra found
      exact absurd (plain _ (Option.isSome_iff_ne_none.mpr found) high listed) (Nat.not_lt.mpr big)

theorem toUpper_of_txCommandOf {cmd : TxCommand} (upper : String) (word : (∀ byte ∈ ascii cmd.name,
        97 ≤ byte.val ∧ byte.val ≤ 122 ∧ byte.val ≠ 105 ∧ byte.val ≠ 107)
      ∧ (ascii cmd.name).map (· - 32) = ascii upper) (found : txCommandOf (toLower name) = some cmd) :
    toUpper name = ascii upper := by
  have is := txCommandOf_eq_some found
  rw [toUpper_of_toLower (is ▸ word.1), is, word.2]

theorem dispatch_effect {authPassword : Bytes} {registry : Registry} (plain : registry.Plain)
    (server : ServerState) (session : ClientSession) (v : RespValue)
    (stays : (dispatch authPassword registry server session v).closed = false) :
    TxEffect authPassword registry server session v
      (dispatch authPassword registry server session v) := by
  revert stays
  unfold dispatch
  split
  · exact fun stays => absurd stays (by simp [failedWith])
  · exact fun stays => absurd stays (by simp [failedWith])
  · next name operands args =>
    have cmdIs := txOf_of_args args
    dsimp only
    split
    · exact fun stays => absurd stays (by simp)
    · split
      · exact fun _ => txEffect_error _
      · split
        · next inside =>
          split
          · exact fun _ => txEffect_error _
          · next notWatch =>
            split
            · next served =>
              intro _
              refine registryDispatch_effect fun _ other operands' same => ?_
              cases args.symm.trans same
              exact cmdIs ▸ multiCommands_lookup plain served
            · split
              · exact fun _ => txEffect_error _
              · refine fun _ => .queued inside (fun watch => notWatch ?_) rfl
                exact toUpper_of_txCommandOf "WATCH" (by decide +kernel) (cmdIs.symm.trans watch)
        · next outside =>
          split
          · exact fun _ => txEffect_error _
          · exact fun _ => registryDispatch_effect fun inside => absurd inside outside

/-! ## The queue -/

section Queue

variable (authPassword : Bytes) (registry : Registry)

theorem dispatchPlain_queued (server : ServerState) {session : ClientSession} {v : RespValue}
    (notWatch : txOf v ≠ some .watch) (unwatched : session.watchedKeys = ∅)
    (unqueued : session.multiQueue = []) :
    (dispatchPlain authPassword registry server session v).session.watchedKeys = ∅
      ∧ (dispatchPlain authPassword registry server session v).session.multiQueue = [] := by
  unfold dispatchPlain
  split
  · exact ⟨unwatched, unqueued⟩
  · exact ⟨unwatched, unqueued⟩
  · next name operands args =>
    dsimp only
    split
    · obtain ⟨state, kept⟩ := cmdAuth_session authPassword server session (name :: operands)
      exact ⟨by rw [kept]; exact unwatched, by rw [kept]; exact unqueued⟩
    · split
      · next cmd found =>
        split
        · exact ⟨unwatched, unqueued⟩
        · cases cmd with
          | multi =>
            simp only [TxCommand.run, cmdMulti]
            split
            · split <;> exact ⟨unwatched, by first | exact unqueued | rfl⟩
            · exact ⟨unwatched, unqueued⟩
          | discard =>
            simp only [TxCommand.run, cmdDiscard]
            split
            · split <;> exact ⟨unwatched, by first | exact unqueued | rfl⟩
            · exact ⟨unwatched, unqueued⟩
          | watch => exact absurd ((txOf_of_args args).trans found) notWatch
          | unwatch =>
            simp only [TxCommand.run, cmdUnwatch]
            split
            · exact ⟨rfl, unqueued⟩
            · exact ⟨unwatched, unqueued⟩
          | exec => exact ⟨unwatched, unqueued⟩
      · split
        · exact ⟨unwatched, unqueued⟩
        · split
          · exact ⟨unwatched, unqueued⟩
          · exact ⟨unwatched, unqueued⟩

theorem runQueue_session : ∀ (queue : List RespValue) (server : ServerState)
    (session : ClientSession), (∀ v ∈ queue, txOf v ≠ some .watch) → session.watchedKeys = ∅ →
      session.multiQueue = [] →
      (runQueue authPassword registry queue server session).session.watchedKeys = ∅
        ∧ (runQueue authPassword registry queue server session).session.multiQueue = []
  | [], _, _, _, unwatched, unqueued => ⟨unwatched, unqueued⟩
  | v :: rest, server, session, noWatch, unwatched, unqueued => by
    have first := dispatchPlain_queued authPassword registry server
      (noWatch v List.mem_cons_self) unwatched unqueued
    have later := runQueue_session rest
      (dispatchPlain authPassword registry server session v).server
      (dispatchPlain authPassword registry server session v).session
      (fun next listed => noWatch next (List.mem_cons_of_mem v listed)) first.1 first.2
    unfold runQueue
    dsimp only
    split
    · exact first
    · split
      · exact first
      · exact later

theorem runQueue_ran_initial (queue : List RespValue) (server : ServerState) (session : ClientSession) :
    (runQueue authPassword registry queue server session).ran <+: queue := by
  fun_induction runQueue authPassword registry queue server session with
  | case1 => exact List.prefix_rfl
  | case2 => exact List.prefix_append _ _
  | case3 => exact List.prefix_append _ _
  | case4 _ _ _ _ _ _ _ _ _ _ ih => exact List.cons_prefix_cons.mpr ⟨rfl, ih⟩

theorem runQueue_ran {fit : ServerState → ClientSession → Prop} (queue : List RespValue)
    (server : ServerState) (session : ClientSession) (fits : fit server session)
    (answered : ∀ v ∈ queue.dropLast, Answers authPassword registry fit v) :
    (runQueue authPassword registry queue server session).ran = queue := by
  induction queue generalizing server session with
  | nil => rfl
  | cons v rest ih =>
    rw [runQueue]
    dsimp only
    cases rest with
    | nil =>
      -- the last command has run, whatever it answered
      split
      · rfl
      · split <;> rfl
    | cons next rest =>
      rw [List.dropLast_cons_cons, List.forall_mem_cons] at answered
      obtain ⟨stays, readable, onward⟩ := answered.1 server session fits
      obtain ⟨⟨reply, left⟩, parsed⟩ := Option.isSome_iff_exists.mp readable
      simp only [stays, Bool.false_eq_true, if_false, parsed, ih _ _ onward answered.2]

end Queue

theorem noteVersions_eq (s : Store) : ∀ (keys : List Key) (watched : GoMap Nat),
    (∀ key ∈ keys, key ∈ watched → watched.lookup key = some (s.watchVersion key)) →
      noteVersions s watched keys = firstVersions s watched keys
  | [], _, _ => rfl
  | key :: rest, watched, current => by
    have noted : ∀ other ∈ rest, other ∈ watched.insert key (s.watchVersion key) →
        (watched.insert key (s.watchVersion key)).lookup other = some (s.watchVersion other) := by
      intro other listed member
      by_cases same : other = key
      · rw [same, Finmap.lookup_insert]
      · rw [Finmap.lookup_insert_of_ne _ same]
        refine current other (List.mem_cons_of_mem key listed) ?_
        exact (Finmap.mem_insert.mp member).resolve_left same
    have onward := noteVersions_eq s rest _ noted
    simp only [noteVersions, firstVersions, List.foldl_cons] at onward ⊢
    split
    · next member =>
      -- the version noted is the one it has, so noting it changes nothing
      have kept : watched.insert key (s.watchVersion key) = watched := by
        refine Finmap.ext_lookup fun other => ?_
        by_cases same : other = key
        · rw [same, Finmap.lookup_insert, current key List.mem_cons_self member]
        · rw [Finmap.lookup_insert_of_ne _ same]
      rwa [kept] at onward ⊢
    · exact onward

/-! ## Runs -/

namespace TxSession

structure Agrees (m : TxSession) : Prop where
  watched : m.history.firstWatch = m.session.watchedKeys
  queued : m.history.queued = m.session.multiQueue
  noWatch : ∀ v ∈ m.session.multiQueue, txOf v ≠ some .watch

theorem agrees_start (server : ServerState) (id : Nat) : (start server id).Agrees where
  watched := rfl
  queued := rfl
  noWatch := fun _ listed => absurd listed List.not_mem_nil

variable {registry : Registry}

theorem isOk_okReply : isOk [okReply] = true := by decide +kernel

theorem isQueued_okReply : isQueued [okReply] = false := by decide +kernel

variable {v : RespValue} {authPassword : Bytes} {server : ServerState} {m : TxSession}

theorem after_ok (h : TxHistory) (s : Store) (inMulti : Bool) {cmd : TxCommand}
    (is : txOf v = some cmd) :
    h.after s inMulti v [okReply]
      = match cmd with
        | .watch => { h with firstWatch := firstVersions s h.firstWatch (operandsOf v) }
        | .unwatch => { h with firstWatch := ∅ }
        | .multi => { h with queued := [] }
        | .discard | .exec => .empty := by
  simp only [TxHistory.after, is, isQueued_okReply, isOk_okReply, Bool.false_eq_true, and_false,
    if_false, if_true]
  cases cmd <;> rfl

theorem execCommand_session {session : ClientSession} (inside : session.inMulti = true)
    (noWatch : ∀ v ∈ session.multiQueue, txOf v ≠ some .watch) (name : Bytes) :
    (execCommand authPassword registry server session [name]).session.watchedKeys = ∅
      ∧ (execCommand authPassword registry server session [name]).session.multiQueue = []
      ∧ isQueued (execCommand authPassword registry server session [name]).written = false
      ∧ isError (execCommand authPassword registry server session [name]).written = false := by
  simp only [execCommand, inside, Bool.true_eq_false, if_false]
  split
  · exact ⟨rfl, rfl, rfl, rfl⟩
  · obtain ⟨unwatched, unqueued⟩ :=
      runQueue_session authPassword registry session.multiQueue server session.ended noWatch rfl rfl
    refine ⟨unwatched, unqueued, ?_, ?_⟩ <;> split <;> rfl

theorem Agrees.command (plain : registry.Plain) (agrees : m.Agrees)
    (regular : m.Regular registry (.command authPassword v))
    (stays : (dispatch authPassword registry m.server m.session v).closed = false) :
    Agrees
      { server := (dispatch authPassword registry m.server m.session v).server
        session := (dispatch authPassword registry m.server m.session v).session
        closed := (dispatch authPassword registry m.server m.session v).closed
        history := m.history.after m.server.store m.session.inMulti v
          (dispatch authPassword registry m.server m.session v).written } := by
  have effect := dispatch_effect plain m.server m.session v stays
  obtain ⟨discards, watches⟩ := regular
  generalize dispatch authPassword registry m.server m.session v = out at *
  cases effect with
  | none _ multiQueue watchedKeys history =>
    constructor
    · rw [history, watchedKeys]
      exact agrees.watched
    · rw [history, multiQueue]
      exact agrees.queued
    · rw [multiQueue]
      exact agrees.noWatch
  | queued inside notWatch is =>
    subst is
    have after : m.history.after m.server.store m.session.inMulti v [queuedReply]
        = { m.history with queued := m.history.queued ++ [v] } := by
      simp [TxHistory.after, inside, isQueued, queuedReply]
    constructor
    · simp only [replyOnly, after]
      exact agrees.watched
    · simp only [replyOnly, after, agrees.queued]
    · simp only [replyOnly, List.forall_mem_append, List.forall_mem_singleton]
      exact ⟨agrees.noWatch, notWatch⟩
  | watch cmd is =>
    subst is
    have current := watches cmd isOk_okReply
    constructor
    · simp only [replyOnly, after_ok _ _ _ cmd, agrees.watched]
      exact (noteVersions_eq _ _ _ current).symm
    · simp only [replyOnly, after_ok _ _ _ cmd]
      exact agrees.queued
    · exact agrees.noWatch
  | unwatch cmd is =>
    subst is
    constructor
    · simp only [replyOnly, after_ok _ _ _ cmd]
    · simp only [replyOnly, after_ok _ _ _ cmd]
      exact agrees.queued
    · exact agrees.noWatch
  | multi cmd is =>
    subst is
    constructor
    · simp only [replyOnly, after_ok _ _ _ cmd]
      exact agrees.watched
    · simp only [replyOnly, after_ok _ _ _ cmd]
    · exact fun _ listed => absurd listed List.not_mem_nil
  | discard cmd is =>
    subst is
    -- the code leaves the watched keys as they are, and there are none
    have unwatched : m.session.watchedKeys = ∅ := by
      refine Finmap.ext_lookup fun key => ?_
      rw [Finmap.lookup_empty, Finmap.lookup_eq_none, ← Finmap.mem_keys, discards cmd isOk_okReply]
      exact Finset.notMem_empty key
    constructor
    · simp only [replyOnly, after_ok _ _ _ cmd, unwatched, TxHistory.empty]
    · simp only [replyOnly, after_ok _ _ _ cmd, TxHistory.empty]
    · exact fun _ listed => absurd listed List.not_mem_nil
  | exec cmd inside is =>
    obtain ⟨name, rfl⟩ := is
    obtain ⟨unwatched, unqueued, notQueued, notError⟩ :=
      execCommand_session inside agrees.noWatch name
    have after : ∀ written, isQueued written = false → isError written = false →
        m.history.after m.server.store m.session.inMulti v written = .empty := by
      intro written notQueued notError
      simp only [TxHistory.after, cmd, notQueued, notError, Bool.false_eq_true, and_false, if_false]
    constructor
    · rw [after _ notQueued notError, unwatched]
      rfl
    · rw [after _ notQueued notError, unqueued]
      rfl
    · rw [unqueued]
      exact fun _ listed => absurd listed List.not_mem_nil

theorem agrees_step (plain : registry.Plain) {next : TxSession} {move : TxMove}
    (agrees : m.closed = false → m.Agrees) (regular : m.Regular registry move)
    (stepped : m.step registry move = some next) : next.closed = false → next.Agrees := by
  cases move with
  | others server =>
    cases stepped
    exact fun stays => ⟨(agrees stays).watched, (agrees stays).queued, (agrees stays).noWatch⟩
  | command authPassword v =>
    simp only [step, Option.ite_none_left_eq_some, Option.some.injEq] at stepped
    obtain ⟨isOpen, rfl⟩ := stepped
    exact (agrees (Bool.eq_false_iff.mpr isOpen)).command plain regular

theorem agrees_run (plain : registry.Plain) {id : Nat} {moves : List TxMove}
    (regular : Machine.Guarded (step registry) (Regular registry) (start server id) moves)
    (ran : Machine.run (step registry) (start server id) moves = some m) (isOpen : m.closed = false) :
    m.Agrees := by
  have keeps (m : TxSession) (move : TxMove) (next : TxSession)
      (agrees : m.closed = false → m.Agrees) (regular : m.Regular registry move)
      (stepped : m.step registry move = some next) : next.closed = false → next.Agrees :=
    agrees_step plain agrees regular stepped
  exact Machine.run_invariant keeps (fun _ => agrees_start server id) regular ran isOpen

/-! ## `EXEC` -/

theorem toLower_exec {name : Bytes} (exec : toUpper name = ascii "EXEC") :
    toLower name = ascii "exec" :=
  toLower_of_letters "EXEC" "exec" ⟨forall_ascii (by decide), by decide +kernel⟩ exec

theorem dispatch_exec {session : ClientSession} {name : Bytes} (args : valueToArgs v = some [name])
    (exec : toUpper name = ascii "EXEC") (inside : session.inMulti = true)
    (passed : needAuth authPassword session = false) :
    dispatch authPassword registry server session v
      = execCommand authPassword registry server session [name] := by
  have lower := toLower_exec exec
  have notQuit : ascii "EXEC" ≠ ascii "QUIT" := by decide +kernel
  have notWatch : ascii "EXEC" ≠ ascii "WATCH" := by decide +kernel
  have served : ascii "EXEC" ∈ multiCommands := by decide +kernel
  have arity : checkArity TxCommand.exec.arity [name] = true := by
    simp [checkArity, TxCommand.arity]
  simp only [dispatch, args, exec, notQuit, notWatch, served, passed, inside, if_false, if_true,
    Bool.false_eq_true, false_and, registryDispatch, lower, arity, Bool.true_eq_false]

theorem aborted_iff (session : ClientSession) (s : Store) :
    session.aborted s = true
      ↔ ∃ key version, session.watchedKeys.lookup key = some version ∧ s.watchVersion key ≠ version := by
  simp only [ClientSession.aborted, decide_eq_true_eq, Finmap.mem_keys]
  constructor
  · rintro ⟨key, member, differs⟩
    obtain ⟨version, noted⟩ := Finmap.mem_iff.mp member
    refine ⟨key, version, noted, fun same => differs ?_⟩
    rw [noted, same]
  · rintro ⟨key, version, noted, differs⟩
    refine ⟨key, Finmap.mem_iff.mpr ⟨version, noted⟩, fun same => differs ?_⟩
    rw [noted] at same
    exact (Option.some.inj same).symm

/-- After every run of regular steps an `EXEC` inside `MULTI` aborts exactly when a key
watched since the last `EXEC`, `DISCARD` or `UNWATCH` that took effect has another version
than at its first `WATCH` since then.  When it does not abort it dispatches the commands
queued since `MULTI` in order from the first on, and all of them when each but the last
answers wherever the server and the session are fit, as they are before `EXEC`. -/
theorem exec_follows_history (plain : registry.Plain) {server : ServerState} {id : Nat}
    {moves : List TxMove} {m : TxSession}
    (regular : Machine.Guarded (step registry) (Regular registry) (start server id) moves)
    (ran : Machine.run (step registry) (start server id) moves = some m)
    (isOpen : m.closed = false) {authPassword : Bytes} {v : RespValue} (name : Bytes)
    (args : valueToArgs v = some [name]) (exec : toUpper name = ascii "EXEC")
    (inside : m.session.inMulti = true) (passed : needAuth authPassword m.session = false) :
    (isNull (dispatch authPassword registry m.server m.session v).written = true
        ↔ ∃ key version, m.history.firstWatch.lookup key = some version
          ∧ m.server.store.watchVersion key ≠ version)
      ∧ (isNull (dispatch authPassword registry m.server m.session v).written = false →
        (dispatch authPassword registry m.server m.session v).ran <+: m.history.queued
          ∧ ∀ fit : ServerState → ClientSession → Prop, fit m.server m.session.ended →
            (∀ queued ∈ m.history.queued.dropLast, Answers authPassword registry fit queued) →
              (dispatch authPassword registry m.server m.session v).ran = m.history.queued) := by
  have agrees := agrees_run plain regular ran isOpen
  rw [dispatch_exec args exec inside passed, agrees.watched, agrees.queued, ← aborted_iff]
  cases stale : m.session.aborted m.server.store with
  | true => simp [execCommand, inside, stale, replyOnly, isNull]
  | false =>
    simp only [execCommand, inside, stale, Bool.true_eq_false, Bool.false_eq_true, if_false]
    refine ⟨?_, fun _ => ⟨runQueue_ran_initial .., fun fit fits answered => ?_⟩⟩
    · -- an array, or nothing at all, is not the null reply
      split <;> simp [isNull]
    · exact runQueue_ran authPassword registry _ _ _ fits answered

/-! ## Runs on an empty server -/

def bulks (args : List String) : RespValue :=
  .array (args.map fun arg => .bulk (ascii arg))

def sends (commands : List (List String)) : List TxMove :=
  commands.map fun args => .command [] (bulks args)

/-- Another client has set the key `k`. -/
def otherSets : TxMove :=
  .others (.ofStore ((StoreOp.single (ascii "k") (.set (ascii "v") 0) : StoreOp integerFloats).exec
    (newStore .noeviction 0 sortedOracle) 0).1)

def sortedPubSub : Registry :=
  pubSubCommands fun names => names.sort (· ≤ ·)

theorem sortedPubSub_plain : sortedPubSub.Plain := by
  intro name known
  simp only [sortedPubSub, pubSubCommands] at known
  split_ifs at known with is is is is is
  on_goal 6 => cases known
  all_goals exact is ▸ forall_ascii (p := (·.val < 128)) (by decide)

def onEmpty : TxSession :=
  start (.ofStore (newStore .noeviction 0 sortedOracle)) 1

def publishTwice : List TxMove :=
  sends [["WATCH", "k"], ["WATCH", "k"], ["multi"], ["PUBLISH", "news", "one"],
    ["PUBLISH", "news", "two"]]

/-- Nobody is subscribed. -/
def Unheard (server : ServerState) (_ : ClientSession) : Prop :=
  server.pubsub.chans.keys = ∅ ∧ server.pubsub.psubs.keys = ∅

theorem publish_answers {channel message : Bytes}
    (args : valueToArgs v = some [ascii "PUBLISH", channel, message]) :
    Answers [] sortedPubSub Unheard v := by
  rintro server session ⟨channels, patterns⟩
  have lower : toLower (ascii "PUBLISH") = ascii "publish" := by decide +kernel
  have found : txCommandOf (ascii "publish") = none := by decide +kernel
  have other : ∀ name ∈ ["auth", "subscribe", "psubscribe", "unsubscribe", "punsubscribe"],
      ascii "publish" ≠ ascii name := by decide +kernel
  simp only [List.forall_mem_cons] at other
  have nobody : server.pubsub.chans.lookup channel = none := by
    rw [Finmap.lookup_eq_none, ← Finmap.mem_keys, channels]
    exact Finset.notMem_empty channel
  have read : (RespValue.parse (RespValue.encodeAll [.int 0])).isSome = true := by decide +kernel
  simp [dispatchPlain, args, lower, found, other, sortedPubSub, pubSubCommands, cmdPublish,
    cmdPublishMatching, publishMatching, SubscriptionManager.sessionsOf, nobody, patterns, checkArity,
    read, Unheard, channels]

theorem publishTwice_follows_history :
    ∃ m, Machine.run (step sortedPubSub) onEmpty publishTwice = some m
      ∧ m.history.queued.length = 2
      ∧ (dispatch [] sortedPubSub m.server m.session (bulks ["exec"])).ran = m.history.queued := by
  let published (message : String) := some [ascii "PUBLISH", ascii "news", ascii message]
  obtain ⟨m, ran, isOpen, inside, passed, notNull, unheard, args, two⟩ :
      ∃ m, Machine.run (step sortedPubSub) onEmpty publishTwice = some m ∧ m.closed = false
        ∧ m.session.inMulti = true ∧ needAuth [] m.session = false
        ∧ isNull (dispatch [] sortedPubSub m.server m.session (bulks ["exec"])).written = false
        ∧ (m.server.pubsub.chans.keys = ∅ ∧ m.server.pubsub.psubs.keys = ∅)
        ∧ m.history.queued.map valueToArgs = [published "one", published "two"]
        ∧ m.history.queued.length = 2 :=
    Machine.exists_run (by decide +kernel)
  have regular : Machine.Guarded (step sortedPubSub) (Regular sortedPubSub) onEmpty publishTwice := by
    decide +kernel
  refine ⟨m, ran, two, ?_⟩
  refine ((exec_follows_history sortedPubSub_plain regular ran isOpen (ascii "exec") rfl
    (by decide +kernel) inside passed).2 notNull).2 Unheard unheard fun v listed => ?_
  have published := List.mem_map_of_mem (f := valueToArgs) (List.mem_of_mem_dropLast listed)
  rw [args] at published
  rcases List.mem_pair.mp published with is | is
  · exact publish_answers is
  · exact publish_answers is

/-- `DISCARD` leaves the keys watched, so the next transaction aborts for a key that was
not watched for it; a second `WATCH` forgets the first, so a change between the two goes
unnoticed; and `UNSUBSCRIBE` with nothing to unsubscribe from writes no reply, so what is
queued after it does not run. -/
theorem history_departs :
    (∃ m, Machine.run (step sortedPubSub) onEmpty
          (sends [["WATCH", "k"], ["MULTI"], ["DISCARD"]] ++ [otherSets] ++ sends [["MULTI"]]) = some m
        ∧ m.history.firstWatch.keys = ∅
        ∧ isNull (dispatch [] sortedPubSub m.server m.session (bulks ["EXEC"])).written = true)
      ∧ (∃ m, Machine.run (step sortedPubSub) onEmpty
          (sends [["WATCH", "k"]] ++ [otherSets] ++ sends [["WATCH", "k"], ["MULTI"]]) = some m
        ∧ m.history.firstWatch.lookup (ascii "k") = some 0
        ∧ m.server.store.watchVersion (ascii "k") = 1
        ∧ isNull (dispatch [] sortedPubSub m.server m.session (bulks ["EXEC"])).written = false)
      ∧ (∃ m, Machine.run (step sortedPubSub) onEmpty
          (sends [["MULTI"], ["UNSUBSCRIBE"], ["PUBLISH", "news", "hi"]]) = some m
        ∧ isNull (dispatch [] sortedPubSub m.server m.session (bulks ["EXEC"])).written = false
        ∧ m.history.queued.length = 2
        ∧ (dispatch [] sortedPubSub m.server m.session (bulks ["EXEC"])).ran.length = 1) :=
  ⟨Machine.exists_run (by decide +kernel), Machine.exists_run (by decide +kernel),
    Machine.exists_run (by decide +kernel)⟩

end TxSession

end SuperCache
