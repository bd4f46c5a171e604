import SuperCache.Commands.Server
import SuperCache.Replication.Divergence

/-! # A replica of one node

A command runs on one store, and the payloads it sent are applied to an equal
one.  `dispatch_agree` is the step from agreeing keyspaces to agreeing keyspaces,
`runQueue_agree` the run over the queue of a transaction.
-/

namespace SuperCache

open Lib

def SameValues (now : Time) (s r : Store) : Prop :=
  ∀ key, (s.live now key).map Entry.value = (r.live now key).map Entry.value

def SameDeadlines (now : Time) (s r : Store) : Prop :=
  ∀ key e e', s.live now key = some e → r.live now key = some e' →
    Close e.expiresAt e'.expiresAt

def Command.Safe (safe : Deviation → Prop) (now : Time) (s : Store) (cmd : Command)
    (args : List Bytes) : Prop :=
  ∀ d, cmd.deviation now (s.live now) args = some d → safe d

instance (safe : Deviation → Prop) [DecidablePred safe] (now : Time) (s : Store) (cmd : Command)
    (args : List Bytes) : Decidable (cmd.Safe safe now s args) :=
  inferInstanceAs (Decidable (∀ d ∈ cmd.deviation now (s.live now) args, safe d))

/-- The room that a command asks for: for what it deviates to, or for the payloads it sends. -/
def Command.asks (fl : FloatOps) (now : Time) (s : Store) (cmd : Command) (args : List Bytes) : Int :=
  match cmd.deviation now (s.live now) args with
  | some d => d.cost now (s.live now)
  | none => loads now (cmd.dispatch fl now s args).sent (s.live now)

/-- The command is not refused, and there is room for it. -/
def Command.Served (fl : FloatOps) (now : Time) (s : Store) (cmd : Command) (args : List Bytes) : Prop :=
  (s.maxMem = 0 ∨ (cmd.dispatch fl now s args).reply.accepts = true)
    ∧ s.HasRoom (cmd.asks fl now s args)

section Replica

variable {fl : FloatOps} {now : Time} {s r : Store} {cmd : Command} {args : List Bytes}

theorem entryRel_true {entry entry' : Option Entry} :
    EntryRel (fun _ _ => True) entry entry' ↔ entry.map Entry.value = entry'.map Entry.value := by
  cases entry <;> cases entry' <;> simp [EntryRel]

variable {near : Time → Time → Prop} {safe : Deviation → Prop}

theorem entryRel_of {entry entry' : Option Entry}
    (values : entry.map Entry.value = entry'.map Entry.value)
    (nearby : ∀ e e', entry = some e → entry' = some e' → near e.expiresAt e'.expiresAt) :
    EntryRel near entry entry' := by
  have related := entryRel_true.mpr values
  cases entry <;> cases entry'
  · trivial
  · exact related
  · exact related
  · exact ⟨related.1, nearby _ _ rfl rfl⟩

theorem Deviation.Fits.of_agree {view view' : Keyspace} {d : Deviation} (fits : d.Fits view)
    (agree : Agree near view view') : d.Fits view' := by
  have sameValue (key : Key) := (agree key).value
  cases d with
  | silent key mine =>
    have both := congrArg Option.isSome (sameValue key)
    rw [Option.isSome_map, Option.isSome_map] at both
    show mine.isSome ≠ _
    rw [← both]
    exact fits
  | getex key val persists exp => exact (sameValue key).symm.trans fits
  | string key val exp => trivial
  | keeps key val deadline => trivial

theorem Command.served_of_unlimited (fl : FloatOps) (now : Time) (unlimited : s.maxMem = 0)
    (cmd : Command) (args : List Bytes) : cmd.Served fl now s args :=
  ⟨.inl unlimited, .inr (.inl unlimited)⟩

theorem dispatch_live (served : cmd.Served fl now s args) :
    match cmd.deviation now (s.live now) args with
    | none => (cmd.dispatch fl now s args).store.live now
        = replayAll now (cmd.dispatch fl now s args).sent (s.live now)
    | some d => (cmd.dispatch fl now s args).store.live now
          = Function.update (s.live now) d.key (d.mine now)
        ∧ (cmd.dispatch fl now s args).sent = d.sent now := by
  obtain ⟨accepted, room⟩ := served
  have foreseen : Foreseen now s _ _ := dispatch_foreseen fl cmd args
  unfold Command.asks at room
  cases deviates : cmd.deviation now (s.live now) args with rw [deviates] at foreseen room
  | none => exact foreseen.live accepted room
  | some d => exact ⟨foreseen.live room, foreseen.sent room⟩

theorem dispatch_maxMem (fl : FloatOps) (now : Time) (s : Store) (cmd : Command)
    (args : List Bytes) : (cmd.dispatch fl now s args).store.maxMem = s.maxMem := by
  have foreseen : Foreseen now s _ _ := dispatch_foreseen fl cmd args
  cases deviates : cmd.deviation now (s.live now) args with rw [deviates] at foreseen
  | none => exact foreseen.maxMem
  | some d => exact foreseen.maxMem

theorem dispatch_agree {view : Keyspace} (same : ∀ instant, near instant instant)
    (served : cmd.Served fl now s args) (agree : Agree near (s.live now) view)
    (live : AllLive now view)
    (safe : cmd.Safe (fun d => EntryRel near (d.mine now) (d.theirs now view)) now s args) :
    Agree near ((cmd.dispatch fl now s args).store.live now)
        (replayAll now (cmd.dispatch fl now s args).sent view)
      ∧ AllLive now (replayAll now (cmd.dispatch fl now s args).sent view) := by
  obtain ⟨replayed, stays⟩ := replayAll_agree (cmd.dispatch fl now s args).sent agree same
    (s.allLive now) live
  refine ⟨?_, stays⟩
  have after := dispatch_live served
  cases deviates : cmd.deviation now (s.live now) args with rw [deviates] at after
  | none =>
    rw [after]
    exact replayed
  | some d =>
    have fits := (Command.deviation_fits deviates).of_agree agree
    rw [after.1, after.2, Deviation.replay_sent fits live]
    intro key
    by_cases here : key = d.key
    · rw [here, Function.update_self, Function.update_self]
      exact safe d deviates
    · rw [Function.update_of_ne here, Function.update_of_ne here]
      exact agree key

theorem sameValues_iff : SameValues now s r ↔ Agree (fun _ _ => True) (s.live now) (r.live now) :=
  forall_congr' fun _ => entryRel_true.symm

theorem agree_of_equal (same : ∀ instant, near instant instant)
    (equal : ∀ key, r.stored key = s.stored key) : Agree near (s.live now) (r.live now) := by
  rw [Store.live_congr now equal]
  exact fun key => .refl same _

/-- What one command and its payloads leave on two equal stores with room for them: the same,
but for the key of a deviation. -/
theorem replica_live (served : cmd.Served fl now s args)
    (room : r.HasRoom (loads now (cmd.dispatch fl now s args).sent (r.live now)))
    (equal : ∀ key, r.stored key = s.stored key) :
    match cmd.deviation now (s.live now) args with
    | none => (cmd.dispatch fl now s args).store.live now
        = (applyAll now (cmd.dispatch fl now s args).sent r).live now
    | some d =>
      d.Fits (s.live now)
        ∧ (cmd.dispatch fl now s args).store.live now
          = Function.update (s.live now) d.key (d.mine now)
        ∧ (applyAll now (cmd.dispatch fl now s args).sent r).live now
          = Function.update (s.live now) d.key (d.theirs now (s.live now)) := by
  have live := dispatch_live served
  rw [(applyAll_follows r now _).live room, Store.live_congr now equal]
  cases deviates : cmd.deviation now (s.live now) args with rw [deviates] at live
  | none => exact live
  | some d =>
    have fits := Command.deviation_fits deviates
    refine ⟨fits, live.1, ?_⟩
    rw [live.2, Deviation.replay_sent fits (s.allLive now)]

/-- A relation between the two stores that holds of equal entries holds for a
command if it holds of the two sides of the deviation. -/
theorem replica_iff (holds : Option Entry → Option Entry → Prop)
    (same : ∀ entry, holds entry entry) (served : cmd.Served fl now s args)
    (room : r.HasRoom (loads now (cmd.dispatch fl now s args).sent (r.live now)))
    (equal : ∀ key, r.stored key = s.stored key) :
    (∀ key, holds ((cmd.dispatch fl now s args).store.live now key)
        ((applyAll now (cmd.dispatch fl now s args).sent r).live now key))
      ↔ cmd.Safe (fun d => holds (d.mine now) (d.theirs now (s.live now))) now s args := by
  have live : match cmd.deviation now (s.live now) args with | none => _ | some d => _ :=
    replica_live served room equal
  unfold Command.Safe
  cases deviates : cmd.deviation now (s.live now) args with rw [deviates] at live
  | none =>
    rw [live]
    exact iff_of_true (fun key => same _) (fun d impossible => by cases impossible)
  | some d =>
    rw [live.2.1, live.2.2]
    constructor
    · rintro all _ ⟨⟩
      have here := all d.key
      rwa [Function.update_self, Function.update_self] at here
    · intro safe key
      by_cases here : key = d.key
      · rw [here, Function.update_self, Function.update_self]
        exact safe d rfl
      · rw [Function.update_of_ne here, Function.update_of_ne here]
        exact same _

theorem Command.safe_congr {safe' : Deviation → Prop}
    (same : ∀ d, d.Fits (s.live now) → (safe d ↔ safe' d)) :
    cmd.Safe safe now s args ↔ cmd.Safe safe' now s args :=
  forall_congr' fun d => forall_congr' fun deviates => same d (Command.deviation_fits deviates)

theorem Command.safe_of_deviation {d : Deviation} (deviates : cmd.deviation now (s.live now) args = some d)
    (holds : safe d) : cmd.Safe safe now s args := by
  intro other same
  cases deviates.symm.trans same
  exact holds

end Replica

/-! ## The queue of a transaction -/

def commandOf (name : Bytes) : Option Command :=
  allCommands.find? fun cmd => cmd.info.lowerName = name

/-- What is registered for `cmd` replicates what its handler does, and leaves the live entries,
the limit and the room that the handler leaves. -/
structure OtherCommand.Runs (fl : FloatOps) (cmd : Command) (other : OtherCommand) : Prop where
  arity : other.arity = cmd.info.arity
  now : ∀ server session args, (other.run server session args).server.now = server.now
  sent : ∀ server session args, (other.run server session args).server.sent
    = server.sent ++ (cmd.handler fl server.now server.store args).sent
  store : ∀ server session args,
    Follows server.now (cmd.handler fl server.now server.store args).store
      (other.run server session args).server.store 0
      ((cmd.handler fl server.now server.store args).store.live server.now)

def Registry.Serves (fl : FloatOps) (registry : Registry) : Prop :=
  ∀ name other, registry name = some other → ∃ cmd, commandOf name = some cmd ∧ other.Runs fl cmd

/-- The command that a queued value calls, and its arguments. -/
def calledBy (v : RespValue) : Option (Command × List Bytes) :=
  match valueToArgs v with
  | some (name :: operands) => (commandOf (toLower name)).map (·, name :: operands)
  | _ => none

section Queue

variable (authPassword : Bytes) (registry : Registry)

/-- Each command that the loop of `EXEC` reaches is good where it runs. -/
def QueueMeets (good : Store → Command → List Bytes → Prop) :
    List RespValue → ServerState → ClientSession → Prop
  | [], _, _ => True
  | v :: rest, server, session =>
    let out := dispatchPlain authPassword registry server session v
    (∀ cmd args, calledBy v = some (cmd, args) → good server.store cmd args)
      ∧ (out.closed = false → (RespValue.parse (RespValue.encodeAll out.written)).isSome →
        QueueMeets good rest out.server out.session)

variable {authPassword registry} {fl : FloatOps} {near : Time → Time → Prop} {view : Keyspace}
  {server : ServerState} {session : ClientSession} {good : Store → Command → List Bytes → Prop}

theorem QueueMeets.mono {good' : Store → Command → List Bytes → Prop}
    (weaker : ∀ s cmd args, good s cmd args → good' s cmd args) {queue : List RespValue}
    (meets : QueueMeets authPassword registry good queue server session) :
    QueueMeets authPassword registry good' queue server session := by
  induction queue generalizing server session with
  | nil => trivial
  | cons v rest ih =>
    exact ⟨fun cmd args called => weaker _ cmd args (meets.1 cmd args called),
      fun stays readable => ih (meets.2 stays readable)⟩

theorem TxCommand.run_server (server : ServerState) (session : ClientSession) (args : List Bytes)
    (cmd : TxCommand) : (cmd.run server session args).server = server := by
  cases cmd <;> simp only [run, cmdMulti, cmdDiscard, cmdWatch, cmdUnwatch, failedWith] <;>
    (repeat' split) <;> rfl

theorem cmdAuth_server (server : ServerState) (session : ClientSession) (args : List Bytes) :
    (cmdAuth server session authPassword args).server = server := by
  unfold cmdAuth
  (repeat' split) <;> rfl

/-- A dispatch leaves the server alone, or does to it what the command called does. -/
theorem dispatchPlain_effect (serves : registry.Serves fl) (v : RespValue) :
    (dispatchPlain authPassword registry server session v).server = server
      ∨ ∃ cmd args, calledBy v = some (cmd, args)
        ∧ (dispatchPlain authPassword registry server session v).server.now = server.now
        ∧ (dispatchPlain authPassword registry server session v).server.sent
          = server.sent ++ (cmd.dispatch fl server.now server.store args).sent
        ∧ Follows server.now (cmd.dispatch fl server.now server.store args).store
          (dispatchPlain authPassword registry server session v).server.store 0
          ((cmd.dispatch fl server.now server.store args).store.live server.now) := by
  unfold dispatchPlain calledBy
  rcases valueToArgs v with _ | _ | ⟨name, operands⟩
  · exact .inl rfl
  · exact .inl rfl
  · dsimp only
    split
    · exact .inl (cmdAuth_server server session _)
    · split
      · split
        · exact .inl rfl
        · exact .inl (TxCommand.run_server server session _ _)
      · split
        · exact .inl rfl
        · next other found =>
          obtain ⟨cmd, called, runs⟩ := serves _ other found
          split
          · exact .inl rfl
          · next whole =>
            refine .inr ⟨cmd, name :: operands, by rw [called]; rfl, ?_⟩
            unfold Command.dispatch
            rw [← runs.arity, if_neg whole]
            exact ⟨runs.now .., runs.sent .., runs.store ..⟩

theorem runQueue_agree {now : Time} {limit : Nat} {safe : Deviation → Prop}
    (same : ∀ instant, near instant instant) (serves : registry.Serves fl)
    (related : ∀ d view, d.Fits view → safe d → EntryRel near (d.mine now) (d.theirs now view))
    (queue : List RespValue) (atNow : server.now = now) (limited : server.store.maxMem = limit)
    (agree : Agree near (server.store.live now) view) (live : AllLive now view)
    (meets : QueueMeets authPassword registry (fun s cmd args => s.maxMem = limit →
      cmd.Served fl now s args ∧ cmd.Safe safe now s args) queue server session) :
    ∃ sent, (runQueue authPassword registry queue server session).server.sent = server.sent ++ sent
      ∧ Agree near ((runQueue authPassword registry queue server session).server.store.live now)
        (replayAll now sent view) := by
  induction queue generalizing server session view with
  | nil => exact ⟨[], (List.append_nil _).symm, agree⟩
  | cons v rest ih =>
    obtain ⟨here, later⟩ := meets
    -- what one command of the queue does, then the rest on what it leaves
    obtain ⟨sent, sends, atNow', limited', agree', live'⟩ : ∃ sent,
        (dispatchPlain authPassword registry server session v).server.sent = server.sent ++ sent
          ∧ (dispatchPlain authPassword registry server session v).server.now = now
          ∧ (dispatchPlain authPassword registry server session v).server.store.maxMem = limit
          ∧ Agree near ((dispatchPlain authPassword registry server session v).server.store.live now)
            (replayAll now sent view)
          ∧ AllLive now (replayAll now sent view) := by
      obtain idle | ⟨cmd, args, called, keptNow, sends, follows⟩ := dispatchPlain_effect serves v
      · rw [idle]
        exact ⟨[], (List.append_nil _).symm, atNow, limited, agree, live⟩
      · obtain ⟨served, safeHere⟩ := here cmd args called limited
        obtain ⟨agree', live'⟩ := dispatch_agree same served agree live fun d deviates =>
          related d _ ((Command.deviation_fits deviates).of_agree agree) (safeHere d deviates)
        rw [atNow] at sends follows
        refine ⟨_, sends, keptNow.trans atNow, ?_, ?_, live'⟩
        · rw [follows.maxMem, dispatch_maxMem, limited]
        · rw [follows.live (.inl le_rfl)]
          exact agree'
    rw [runQueue]
    dsimp only
    split
    · exact ⟨sent, sends, agree'⟩
    · next stays =>
      split
      · exact ⟨sent, sends, agree'⟩
      · next reply left parsed =>
        obtain ⟨rest', sends', agrees⟩ := ih atNow' limited' agree' live'
          (later (Bool.eq_false_iff.mpr stays) (by rw [parsed]; rfl))
        refine ⟨sent ++ rest', ?_, ?_⟩
        · rw [sends', sends, List.append_assoc]
        · rw [replayAll_append]
          exact agrees

/-- `EXEC` asks something of its queue only if it runs it. -/
def ExecMeets (authPassword : Bytes) (registry : Registry)
    (good : Store → Command → List Bytes → Prop) (server : ServerState) (session : ClientSession)
    (args : List Bytes) : Prop :=
  args.length = 1 → session.inMulti = true → session.aborted server.store = false →
    QueueMeets authPassword registry good session.multiQueue server session.ended

theorem execCommand_agree {safe : Deviation → Prop} (same : ∀ instant, near instant instant)
    (serves : registry.Serves fl)
    (related : ∀ d view, d.Fits view → safe d →
      EntryRel near (d.mine server.now) (d.theirs server.now view))
    {r : Store} (equal : ∀ key, r.stored key = server.store.stored key) (args : List Bytes)
    (meets : ExecMeets authPassword registry (fun s cmd args => s.maxMem = server.store.maxMem →
      cmd.Served fl server.now s args ∧ cmd.Safe safe server.now s args) server session args) :
    ∃ sent, (execCommand authPassword registry server session args).server.sent = server.sent ++ sent
      ∧ (r.HasRoom (loads server.now sent (r.live server.now)) →
        Agree near ((execCommand authPassword registry server session args).server.store.live server.now)
          ((applyAll server.now sent r).live server.now)) := by
  have before : Agree near (server.store.live server.now) (r.live server.now) :=
    agree_of_equal same equal
  have idle : ∃ sent, server.sent = server.sent ++ sent
      ∧ (r.HasRoom (loads server.now sent (r.live server.now)) →
        Agree near (server.store.live server.now) ((applyAll server.now sent r).live server.now)) :=
    ⟨[], (List.append_nil _).symm, fun _ => before⟩
  unfold execCommand
  split
  · split
    · exact idle
    · next inside =>
      split
      · exact idle
      · next fresh =>
        obtain ⟨sent, sends, agrees⟩ := runQueue_agree same serves related session.multiQueue rfl rfl
          before (r.allLive _) (meets rfl (by simpa using inside) (by simpa using fresh))
        refine ⟨sent, sends, fun room => ?_⟩
        rw [(applyAll_follows r server.now sent).live room]
        exact agrees
  · exact idle

end Queue

/-! ## Commands with their handlers -/

/-- What the handlers write; those of the session commands are not among these. -/
def Reply.written : Reply → List RespValue
  | .simple text => [.simple (ascii text)]
  | .error err => [err.value]
  | .int n => [.int n]
  | .nil => [.nullBulk]
  | .bulk bytes => [.bulk bytes]
  | .array elems => [.array (elems.map fun elem => elem.elim .nullBulk .bulk)]
  | .session | .failure _ => []

def Command.registered (fl : FloatOps) (cmd : Command) : OtherCommand where
  arity := cmd.info.arity
  run server session args :=
    let outcome := cmd.handler fl server.now server.store args
    { server := { server with store := outcome.store, sent := server.sent ++ outcome.sent }
      session := session
      written := outcome.reply.written
      failed := outcome.reply.written.isEmpty }

/-- The commands on keys. -/
def storeCommands (fl : FloatOps) : Registry := fun name =>
  match commandOf name with
  | none | some (.session _) => none
  | some cmd => some (cmd.registered fl)

theorem Command.registered_runs (fl : FloatOps) (cmd : Command) : (cmd.registered fl).Runs fl cmd :=
  ⟨rfl, fun _ _ _ => rfl, fun _ _ _ => rfl, fun _ _ _ => .refl _ _ le_rfl⟩

theorem storeCommands_serves (fl : FloatOps) : (storeCommands fl).Serves fl := by
  intro name other found
  unfold storeCommands at found
  split at found
  · cases found
  · cases found
  · next cmd _ called =>
    cases found
    exact ⟨cmd, called, cmd.registered_runs fl⟩

/-! ## Values -/

/-- A command and its payloads leave equal stores with the same values exactly if
the command does not deviate or does so safely; a transaction does if that holds
of each of its commands that run. -/
theorem replica_values (fl : FloatOps) (now : Time) (s r : Store) (unlimited : s.maxMem = 0)
    (unlimited' : r.maxMem = 0) (equal : ∀ key, r.stored key = s.stored key) :
    (∀ cmd args, SameValues now (Command.dispatch fl now s cmd args).store
          (applyAll now (Command.dispatch fl now s cmd args).sent r)
        ↔ cmd.Safe (Deviation.ValueSafe now) now s args)
      ∧ ∀ authPassword registry server session args, Registry.Serves fl registry →
        server.now = now → server.store = s →
        ExecMeets authPassword registry (fun s cmd args => cmd.Safe (Deviation.ValueSafe now) now s args)
          server session args →
        ∃ sent, (execCommand authPassword registry server session args).server.sent
            = server.sent ++ sent
          ∧ SameValues now (execCommand authPassword registry server session args).server.store
            (applyAll now sent r) := by
  constructor
  · intro cmd args
    refine (replica_iff (fun e e' => e.map Entry.value = e'.map Entry.value) (fun _ => rfl)
      (Command.served_of_unlimited fl now unlimited cmd args) (.inr (.inl unlimited')) equal).trans ?_
    exact Command.safe_congr fun d fits => Deviation.value_iff fits
  · rintro authPassword registry server session args serves rfl rfl meets
    have related (d : Deviation) (view : Keyspace) (fits : d.Fits view) (safe : d.ValueSafe server.now) :
        EntryRel (fun _ _ => True) (d.mine server.now) (d.theirs server.now view) :=
      entryRel_true.mpr ((Deviation.value_iff fits).mpr safe)
    obtain ⟨sent, sends, agrees⟩ := execCommand_agree (fun _ => trivial) serves related equal args
      fun one inside fresh => (meets one inside fresh).mono fun s cmd args safe sameLimit =>
        ⟨Command.served_of_unlimited fl server.now (sameLimit.trans unlimited) cmd args, safe⟩
    exact ⟨sent, sends, sameValues_iff.mpr (agrees (.inr (.inl unlimited')))⟩

def freshStore : Store := newStore .noeviction 0 sortedOracle

/-- `SET` with an option, on an empty store. -/
def setFresh (now : Time) (option operand : String) : Outcome :=
  Command.dispatch integerFloats now freshStore .set
    [ascii "SET", ascii "k", ascii "v", ascii option, ascii operand]

def setPX : List Bytes := [ascii "SET", ascii "k", ascii "v", ascii "PX", ascii "1500"]

theorem setFresh_px_values :
    SameValues 7 (setFresh 7 "PX" "1500").store
      (applyAll 7 (setFresh 7 "PX" "1500").sent freshStore) := by
  refine ((replica_values integerFloats 7 freshStore freshStore rfl rfl fun _ => rfl).1 _ _).mpr ?_
  have deviates : Command.set.deviation 7 (freshStore.live 7) setPX
      = some (.string (ascii "k") (ascii "v") 1500000007) := by
    decide +kernel
  exact Command.safe_of_deviation deviates (.inr (by decide))

/-- A deadline in the past travels as no deadline: the key is gone here and stays
on the replica. -/
theorem setFresh_exat_values :
    ¬ SameValues (timeUnix 1700000000) (setFresh (timeUnix 1700000000) "EXAT" "1").store
      (applyAll (timeUnix 1700000000) (setFresh (timeUnix 1700000000) "EXAT" "1").sent
        freshStore) := by
  intro same
  exact absurd (same (ascii "k")) (by decide +kernel)

/-! ## Deadlines -/

def roomyStore : Store := newStore .allkeysLru 1000 sortedOracle

def roomyServer : ServerState := { ServerState.ofStore roomyStore with now := 7 }

def queuedPX : ClientSession :=
  { newSession 1 with inMulti := true, multiQueue := [.array (setPX.map .bulk)] }

def counterStore : Store :=
  (freshStore.run 1 (ascii "hits") (KeyOp.set (ascii "hits") (ascii "5") 9)).1

def incrCounter : Outcome :=
  Command.dispatch integerFloats 2 counterStore .incr [ascii "INCR", ascii "hits"]

theorem sent_onOk {ρ : Type} {call : Store × Except StoreErr ρ} {onError : StoreErr → Reply}
    {next : Store → ρ → Outcome} (quiet : ∀ s result, (next s result).sent = []) :
    (Outcome.onOk call onError next).sent = [] := by
  obtain ⟨t, failure | result⟩ := call
  · rfl
  · exact quiet t result

theorem Command.sent_of_read {cmd : Command} (reads : cmd.info.isWrite = false) (fl : FloatOps)
    (now : Time) (s : Store) (args : List Bytes) : (cmd.dispatch fl now s args).sent = [] := by
  unfold dispatch
  split
  · rfl
  · cases cmd <;> try cases reads
    all_goals rcases args with _ | ⟨_, _ | ⟨_, _ | ⟨_, _ | ⟨_, _ | _⟩⟩⟩⟩
    -- a reply, or a call of the store and then a reply, perhaps after one more call
    all_goals first
      | rfl
      | exact sent_onOk fun _ _ => rfl
      | exact sent_onOk fun _ result => by
          cases result <;> first | rfl | exact sent_onOk fun _ _ => rfl
      | simp only [handler, cmdGetRange, cmdLIndex, cmdLRange]
        split <;> first | rfl | exact sent_onOk fun _ _ => rfl

theorem Command.deviation_of_read {cmd : Command} (reads : cmd.info.isWrite = false) {now : Time}
    {view : Keyspace} {args : List Bytes} {d : Deviation}
    (deviates : cmd.deviation now view args = some d) :
    d.mine now = none ∧ (view d.key).any (atDeadline now) = true := by
  obtain ⟨key, purged⟩ : ∃ key, purgeDeviation view key (atDeadline now) = some d := by
    unfold deviation handlerDeviation at deviates
    split at deviates
    · cases deviates
    · split at deviates <;> first | exact ⟨_, deviates⟩ | cases reads | cases deviates
  obtain ⟨doomed, same⟩ := Option.ite_none_right_eq_some.mp purged
  cases same
  exact ⟨rfl, doomed⟩

/-- A command on keys without `FlagWrite` replicates nothing and leaves every live key as it is,
but for one at its very deadline. -/
theorem reads_keep_keyspace (fl : FloatOps) (now : Time) {s : Store} (unlimited : s.maxMem = 0)
    {cmd : Command} (reads : cmd.info.isWrite = false) (args : List Bytes) :
    (cmd.dispatch fl now s args).sent = []
      ∧ ∀ key, (cmd.dispatch fl now s args).store.live now key = s.live now key
        ∨ (cmd.dispatch fl now s args).store.live now key = none
          ∧ (s.live now key).any (atDeadline now) = true := by
  have silent := cmd.sent_of_read reads fl now s args
  have live := dispatch_live (cmd.served_of_unlimited fl now unlimited args)
  refine ⟨silent, fun key => ?_⟩
  cases deviates : cmd.deviation now (s.live now) args with rw [deviates] at live
  | none => exact .inl (by rw [live, silent]; rfl)
  | some d =>
    obtain ⟨gone, doomed⟩ := Command.deviation_of_read reads deviates
    rw [live.1, gone]
    by_cases here : key = d.key
    · exact .inr ⟨here ▸ Function.update_self .., here ▸ doomed⟩
    · exact .inl (Function.update_of_ne here ..)

def twoKeys : Store :=
  (counterStore.run 1 (ascii "k") (KeyOp.set (ascii "k") (ascii "v") 0)).1

/-- `TTL` at the deadline of its key purges it; the other key stays. -/
theorem ttl_keeps_keyspace :
    let out := Command.ttl.dispatch integerFloats 9 twoKeys [ascii "TTL", ascii "hits"]
    out.sent = [] ∧ out.store.live 9 (ascii "k") = twoKeys.live 9 (ascii "k")
      ∧ (twoKeys.live 9 (ascii "k")).isSome ∧ (twoKeys.live 9 (ascii "hits")).isSome
      ∧ out.store.live 9 (ascii "hits") = none := by
  have unlimited : twoKeys.maxMem = 0 := by decide +kernel
  have reads : Command.ttl.info.isWrite = false := rfl
  obtain ⟨silent, kept⟩ :=
    reads_keep_keyspace integerFloats 9 unlimited reads [ascii "TTL", ascii "hits"]
  refine ⟨silent, (kept _).resolve_right fun gone => ?_, by decide +kernel, by decide +kernel,
    by decide +kernel⟩
  exact absurd gone.2 (by decide +kernel)

end SuperCache
