import SuperCache.Lib.Glob
import SuperCache.Server.Dispatch

/-! # The pub/sub commands

The handlers of `pubsub.go`.  Where Go ranges over a map, `range` gives the order.
-/

namespace SuperCache

open Lib

def SessionState.subs (session : SessionState) : SubKind → Finset Bytes
  | .channel => session.subChannels
  | .pattern => session.psubPatterns

def SessionState.setSubs (session : SessionState) (names : Finset Bytes) : SubKind → SessionState
  | .channel => { session with subChannels := names }
  | .pattern => { session with psubPatterns := names }

def subscriptionCount (session : SessionState) : Nat :=
  session.subChannels.card + session.psubPatterns.card

def subscribeAck (kind : String) (name : Bytes) (n : Nat) : RespValue :=
  .array [.bulk (ascii kind), .bulk name, .int n]

/-- The loop of `SUBSCRIBE` and its kin: each name changes the session's own map and the
manager's list, and is acknowledged with the number of subscriptions it leaves. -/
def eachSubscription (kind : SubKind) (ack : String) (own : Bytes → Finset Bytes → Finset Bytes)
    (managed : GoMap (List Nat) → Bytes → Nat → GoMap (List Nat)) :
    List Bytes → ServerState → SessionState → Handled
  | [], server, session => { server, session, written := [], failed := false }
  | name :: rest, server, session =>
    let session := session.setSubs (own name (session.subs kind)) kind
    let server :=
      { server with pubsub := server.pubsub.modify (managed · name session.id) kind }
    let later := eachSubscription kind ack own managed rest server session
    { later with written := subscribeAck ack name (subscriptionCount session) :: later.written }

def subscribing (kind : SubKind) (ack : String) (server : ServerState) (session : SessionState)
    (args : List Bytes) : Handled :=
  match args with
  | _ :: name :: names =>
    eachSubscription kind ack insert SubscriptionManager.add (name :: names) server session
  | _ => { server, session, written := [argErr ack.toUpper], failed := false }

def unsubscribing (range : Finset Bytes → List Bytes) (kind : SubKind) (ack : String)
    (server : ServerState) (session : SessionState) (args : List Bytes) : Handled :=
  let names := match args with
    | _ :: name :: names => name :: names
    | _ => range (session.subs kind)
  eachSubscription kind ack (fun name own => own.erase name) SubscriptionManager.remove names server
    session

def cmdSubscribe : OtherCommand where
  arity := -2
  run := subscribing .channel "subscribe"

def cmdPSubscribe : OtherCommand where
  arity := -2
  run := subscribing .pattern "psubscribe"

section Ranges

variable (range : Finset Bytes → List Bytes)

def cmdUnsubscribe : OtherCommand where
  arity := 0
  run := unsubscribing range .channel "unsubscribe"

def cmdPUnsubscribe : OtherCommand where
  arity := 0
  run := unsubscribing range .pattern "punsubscribe"

/-- What `Publish` pushes, with any function for `path.Match` (`none` is a pattern that is
no pattern): to a session of the channel the message, to one of a pattern that matches
the channel the message with the pattern, and to each session once. -/
def publishMatching (isMatch : Bytes → Bytes → Option Bool) (m : SubscriptionManager)
    (channel message : Bytes) : List (Nat × RespValue) :=
  let direct := (SubscriptionManager.sessionsOf m.chans channel).map fun session =>
    (session, RespValue.array [.bulk (ascii "message"), .bulk channel, .bulk message])
  let matching := (range m.psubs.keys).filter fun pat => isMatch pat channel = some true
  let byPattern := matching.flatMap fun pat =>
    (SubscriptionManager.sessionsOf m.psubs pat).map fun session =>
      (session, RespValue.array
        [.bulk (ascii "pmessage"), .bulk pat, .bulk channel, .bulk message])
  (direct ++ byPattern).foldl
    (fun pushed push => if push.1 ∈ pushed.map Prod.fst then pushed else pushed ++ [push]) []

def publish : SubscriptionManager → Bytes → Bytes → List (Nat × RespValue) :=
  publishMatching range pathMatch

def cmdPublishMatching (isMatch : Bytes → Bytes → Option Bool) : OtherCommand where
  arity := 3
  run := fun server session args =>
    match args with
    | [_, channel, message] =>
      let pushed := publishMatching range isMatch server.pubsub channel message
      { server := { server with pushed := server.pushed ++ pushed }
        session := session
        written := [.int pushed.length]
        failed := false }
    | _ => { server, session, written := [argErr "PUBLISH"], failed := false }

def cmdPublish : OtherCommand :=
  cmdPublishMatching range pathMatch

def pubSubCommands : Registry := fun name =>
  if name = ascii "subscribe" then some cmdSubscribe
  else if name = ascii "psubscribe" then some cmdPSubscribe
  else if name = ascii "unsubscribe" then some (cmdUnsubscribe range)
  else if name = ascii "punsubscribe" then some (cmdPUnsubscribe range)
  else if name = ascii "publish" then some (cmdPublish range)
  else none

end Ranges

end SuperCache
