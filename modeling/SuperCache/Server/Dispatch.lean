import SuperCache.Client.Subscription
import SuperCache.Commands.Registry
import SuperCache.Resp.Parser

/-! # The commands of one connection

`dispatch` of `conn.go` and `Dispatch` of the registry, with the handlers of `AUTH`
and of the transaction commands.  The other commands are whatever the registry holds
for their names.
-/

namespace SuperCache

open Lib

/-! ## What handlers work on -/

/-- The parts of a server that a handler can see or change: the store, what has been
passed to `Replicate`, the subscriptions, the messages pushed to the sessions
subscribed, and the clock. -/
structure ServerState where
  store : Store
  sent : List ReplicatePayload
  pubsub : SubscriptionManager
  pushed : List (Nat × RespValue)
  now : Time

def ServerState.ofStore (s : Store) : ServerState where
  store := s
  sent := []
  pubsub := .empty
  pushed := []
  now := 0

structure SessionState where
  id : Nat
  authenticated : Bool
  name : Bytes
  db : Int
  subChannels : Finset Bytes
  psubPatterns : Finset Bytes

structure ClientSession where
  state : SessionState
  inMulti : Bool
  multiQueue : List RespValue
  watchedKeys : GoMap Nat

def newSession (id : Nat) : ClientSession where
  state :=
    { id := id, authenticated := false, name := [], db := 0, subChannels := ∅, psubPatterns := ∅ }
  inMulti := false
  multiQueue := []
  watchedKeys := ∅

def ClientSession.inSubscribeMode (session : ClientSession) : Bool :=
  session.state.subChannels ≠ ∅ ∨ session.state.psubPatterns ≠ ∅

/-- What a handler has done: `failed` is an error it returned. -/
structure Handled where
  server : ServerState
  session : SessionState
  written : List RespValue
  failed : Bool

/-- A command besides `AUTH` and the transaction commands.  Its handler does not touch
the transaction of the session. -/
structure OtherCommand where
  arity : Int
  run : ServerState → SessionState → List Bytes → Handled

abbrev Registry := Bytes → Option OtherCommand

/-- What a dispatch has done; after an error or `QUIT` the connection is closed.  `ran`
lists the queued commands that an `EXEC` has dispatched. -/
structure Dispatched where
  server : ServerState
  session : ClientSession
  written : List RespValue
  closed : Bool
  ran : List RespValue := []

/-! ## Arguments -/

def argOf : RespValue → Option Bytes
  | .simple text | .error text | .bulk text => some text
  | .nullBulk => some []
  | .int n => some (formatInt n)
  | .array _ | .nullArray => none

def valueToArgs : RespValue → Option (List Bytes)
  | .array elems => elems.mapM argOf
  | _ => none

/-! ## Replies -/

def okReply : RespValue := .simple (ascii "OK")

def errorReply (text : String) : RespValue := .error (ascii text)

def argErr (cmd : String) : RespValue :=
  errorReply ("ERR wrong number of arguments for '" ++ cmd.toLower ++ "' command")

/-- The reply of `CheckArity`, which names the command as it was spelled. -/
def arityReply (name : Bytes) : RespValue :=
  .error (ascii "ERR wrong number of arguments for '" ++ toLower (toUpper name) ++ ascii "' command")

def unknownReply (name : Bytes) : RespValue :=
  .error (ascii "ERR unknown command `" ++ toLower name
    ++ ascii "`, with args beginning with: ")

/-! ## Names -/

theorem toLower_of_letters (upper lower : String)
    (word : (∀ byte ∈ ascii upper, 65 ≤ byte.val ∧ byte.val ≤ 90) ∧ 73 ∉ ascii upper
      ∧ 83 ∉ ascii upper ∧ (ascii upper).map (· + 32) = ascii lower)
    {name : Bytes} (spelled : toUpper name = ascii upper) : toLower name = ascii lower := by
  obtain ⟨letters, noI, noS, same⟩ := word
  rcases toLower_of_toUpper (spelled ▸ letters) with lowered | ⟨letter, -⟩
  · rw [lowered, spelled, same]
  · rw [spelled] at letter
    exact absurd letter (by simp [noI, noS])

section Handlers

variable (server : ServerState) (session : ClientSession)

def replyOnly (reply : RespValue) : Dispatched :=
  { server := server, session := session, written := [reply], closed := false }

def failedWith : Dispatched :=
  { server := server, session := session, written := [], closed := true }

/-! ## `AUTH` and the transaction commands -/

def cmdAuth (authPassword : Bytes) (args : List Bytes) : Dispatched :=
  if authPassword = [] then
    replyOnly server session (errorReply
      "ERR Client sent AUTH, but no password is set. Did you mean ACL SETUSER with >password?")
  else match args with
    | [_, password] =>
      if password ≠ authPassword then
        replyOnly server session
          (errorReply "WRONGPASS invalid username-password pair or user is disabled")
      else
        { server := server
          session := { session with state := { session.state with authenticated := true } }
          written := [okReply]
          closed := false }
    | _ => replyOnly server session (argErr "AUTH")

def cmdMulti (args : List Bytes) : Dispatched :=
  match args with
  | [_] =>
    if session.inMulti then replyOnly server session (errorReply "ERR MULTI calls can not be nested")
    else replyOnly server { session with inMulti := true, multiQueue := [] } okReply
  | _ => replyOnly server session (argErr "MULTI")

def cmdDiscard (args : List Bytes) : Dispatched :=
  match args with
  | [_] =>
    if session.inMulti then
      replyOnly server { session with inMulti := false, multiQueue := [] } okReply
    else replyOnly server session (errorReply "ERR DISCARD without MULTI")
  | _ => replyOnly server session (argErr "DISCARD")

def noteVersions (s : Store) (watched : GoMap Nat) (keys : List Key) : GoMap Nat :=
  keys.foldl (fun watched key => watched.insert key (s.watchVersion key)) watched

def cmdWatch (args : List Bytes) : Dispatched :=
  match args with
  | _ :: key :: keys =>
    replyOnly server
      { session with watchedKeys := noteVersions server.store session.watchedKeys (key :: keys) }
      okReply
  | _ => replyOnly server session (argErr "WATCH")

def cmdUnwatch (args : List Bytes) : Dispatched :=
  match args with
  | [_] => replyOnly server { session with watchedKeys := ∅ } okReply
  | _ => replyOnly server session (argErr "UNWATCH")

end Handlers

inductive TxCommand where
  | multi
  | exec
  | discard
  | watch
  | unwatch
deriving DecidableEq

def TxCommand.name : TxCommand → String
  | .multi => "multi"
  | .exec => "exec"
  | .discard => "discard"
  | .watch => "watch"
  | .unwatch => "unwatch"

def TxCommand.arity : TxCommand → Int
  | .multi | .exec | .discard | .unwatch => 1
  | .watch => -2

def txCommands : List TxCommand := [.multi, .exec, .discard, .watch, .unwatch]

def txCommandOf (name : Bytes) : Option TxCommand :=
  txCommands.find? fun cmd => ascii cmd.name = name

/-- The handlers of the transaction commands other than `EXEC`, which is dispatched by
`registryDispatch`. -/
def TxCommand.run (server : ServerState) (session : ClientSession) (args : List Bytes) :
    TxCommand → Dispatched
  | .multi => cmdMulti server session args
  | .discard => cmdDiscard server session args
  | .watch => cmdWatch server session args
  | .unwatch => cmdUnwatch server session args
  | .exec => failedWith server session

section Dispatch

variable (authPassword : Bytes) (registry : Registry)

/-- `Dispatch` of a command other than `EXEC`, which is never queued. -/
def dispatchPlain (server : ServerState) (session : ClientSession) (v : RespValue) : Dispatched :=
  match valueToArgs v with
  | none | some [] => failedWith server session
  | some (name :: operands) =>
    let args := name :: operands
    if toLower name = ascii "auth" then cmdAuth server session authPassword args
    else match txCommandOf (toLower name) with
      | some cmd =>
        if checkArity cmd.arity args = false then replyOnly server session (arityReply name)
        else cmd.run server session args
      | none =>
        match registry (toLower name) with
        | none => replyOnly server session (unknownReply name)
        | some other =>
          if other.arity ≠ 0 ∧ checkArity other.arity args = false then
            replyOnly server session (arityReply name)
          else
            let done := other.run server session.state args
            { server := done.server
              session := { session with state := done.session }
              written := done.written
              closed := done.failed }

/-- A run of the queue: what was dispatched, the replies read back, and whether an
error ended it. -/
structure QueueRun where
  server : ServerState
  session : ClientSession
  ran : List RespValue
  elems : List RespValue
  failed : Bool

/-- The loop of `EXEC`: each command writes to a buffer of its own, from which one reply
is read back; a command that returns an error, or writes nothing that can be read, ends
it. -/
def runQueue : List RespValue → ServerState → ClientSession → QueueRun
  | [], server, session => { server, session, ran := [], elems := [], failed := false }
  | v :: rest, server, session =>
    let out := dispatchPlain authPassword registry server session v
    if out.closed then
      { server := out.server, session := out.session, ran := [v], elems := [], failed := true }
    else match RespValue.parse (RespValue.encodeAll out.written) with
      | none =>
        { server := out.server, session := out.session, ran := [v], elems := [], failed := true }
      | some (reply, _) =>
        let later := runQueue rest out.server out.session
        { later with ran := v :: later.ran, elems := reply :: later.elems }

def ClientSession.aborted (session : ClientSession) (s : Store) : Bool :=
  decide (∃ key ∈ session.watchedKeys.keys,
    session.watchedKeys.lookup key ≠ some (s.watchVersion key))

/-- The session as `EXEC` inside `MULTI` leaves it for its queue. -/
def ClientSession.ended (session : ClientSession) : ClientSession :=
  { session with inMulti := false, multiQueue := [], watchedKeys := ∅ }

/-- The queue that `EXEC` inside `MULTI` runs when it does not abort. -/
def execRun (server : ServerState) (session : ClientSession) : QueueRun :=
  runQueue authPassword registry session.multiQueue server session.ended

def execCommand (server : ServerState) (session : ClientSession) (args : List Bytes) : Dispatched :=
  match args with
  | [_] =>
    if session.inMulti = false then replyOnly server session (errorReply "ERR EXEC without MULTI")
    else if session.aborted server.store then replyOnly server session.ended .nullArray
    else
      let run := execRun authPassword registry server session
      { server := run.server
        session := run.session
        written := if run.failed then [] else [.array run.elems]
        closed := run.failed
        ran := run.ran }
  | _ => replyOnly server session (argErr "EXEC")

/-- `Dispatch` of the registry. -/
def registryDispatch (server : ServerState) (session : ClientSession) (v : RespValue) : Dispatched :=
  match valueToArgs v with
  | none | some [] => failedWith server session
  | some (name :: operands) =>
    if toLower name = ascii "exec" then
      if checkArity TxCommand.exec.arity (name :: operands) = false then
        replyOnly server session (arityReply name)
      else execCommand authPassword registry server session (name :: operands)
    else dispatchPlain authPassword registry server session v

/-! ## The server -/

def needAuth (session : ClientSession) : Bool :=
  trimSpace authPassword ≠ [] ∧ session.state.authenticated = false

def subscribeAllowed : List Bytes :=
  [ascii "SUBSCRIBE", ascii "PSUBSCRIBE", ascii "UNSUBSCRIBE", ascii "PUNSUBSCRIBE", ascii "PING",
    ascii "QUIT"]

def maxMultiQueueLen : Nat := 10000

def queuedReply : RespValue := .simple (ascii "QUEUED")

/-- The commands that are not queued inside `MULTI`. -/
def multiCommands : List Bytes :=
  [ascii "UNWATCH", ascii "MULTI", ascii "EXEC", ascii "DISCARD"]

def dispatch (server : ServerState) (session : ClientSession) (v : RespValue) : Dispatched :=
  match valueToArgs v with
  | none | some [] => failedWith server session
  | some (name :: _) =>
    let cmd := toUpper name
    if cmd = ascii "QUIT" then { replyOnly server session okReply with closed := true }
    else if needAuth authPassword session ∧ cmd ≠ ascii "AUTH" then
      replyOnly server session (errorReply "NOAUTH Authentication required")
    else if session.inMulti then
      if cmd = ascii "WATCH" then
        replyOnly server session (errorReply "ERR WATCH inside MULTI is not allowed")
      else if cmd ∈ multiCommands then registryDispatch authPassword registry server session v
      else if maxMultiQueueLen ≤ session.multiQueue.length then
        replyOnly server session (errorReply "ERR MULTI queue length exceeded")
      else replyOnly server { session with multiQueue := session.multiQueue ++ [v] } queuedReply
    else if session.inSubscribeMode ∧ cmd ∉ subscribeAllowed then
      replyOnly server session (errorReply
        "ERR only (P)SUBSCRIBE / (P)UNSUBSCRIBE / PING / QUIT are allowed in this context")
    else registryDispatch authPassword registry server session v

/-- One value read from a connection, and whether the server is ready to serve it and
shutting down after it. -/
structure ConnInput where
  value : RespValue
  ready : Bool
  shuttingDown : Bool

/-- The loop of `serveConn` over the values the client sends. -/
def serveConn : List ConnInput → ServerState → ClientSession → Dispatched
  | [], server, session => { server, session, written := [], closed := false }
  | input :: rest, server, session =>
    if input.ready = false then
      let later := serveConn rest server session
      { later with
        written := errorReply "LOADING Super-Cache is loading the dataset in memory" :: later.written }
    else
      let out := dispatch authPassword registry server session input.value
      if out.closed then out
      else if input.shuttingDown then
        { out with written := out.written ++ [errorReply "LOADING server is shutting down"], closed := true }
      else
        let later := serveConn rest out.server out.session
        { later with written := out.written ++ later.written }

end Dispatch

end SuperCache
