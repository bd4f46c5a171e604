import SuperCache.Server.Dispatch

/-! # The gate in front of the commands

While a password is configured and a session has not given it, what the session is
answered depends on what it sends alone: no handler that looks at the server is
reached, and the server stays as it was.
-/

namespace SuperCache

open Lib

/-- A value is `AUTH` with the password, under any spelling of the name. -/
def GivesPassword (authPassword : Bytes) (v : RespValue) : Prop :=
  ∃ name, valueToArgs v = some [name, authPassword] ∧ toUpper name = ascii "AUTH"

instance (authPassword : Bytes) (v : RespValue) : Decidable (GivesPassword authPassword v) :=
  match args : valueToArgs v with
  | some [name, password] =>
    decidable_of_iff (password = authPassword ∧ toUpper name = ascii "AUTH") (by
      simp only [GivesPassword, args, Option.some.injEq, List.cons.injEq, and_true]
      exact ⟨fun ⟨same, auth⟩ => ⟨name, ⟨rfl, same⟩, auth⟩,
        fun ⟨_, ⟨spelled, same⟩, auth⟩ => ⟨same, spelled ▸ auth⟩⟩)
  | none | some [] | some [_] | some (_ :: _ :: _ :: _) =>
    .isFalse (by rintro ⟨name, given, -⟩; simp [args] at given)

/-- A dispatch that leaves the server and the session alone and gives the same answer on
every server. -/
def Sealed (session : ClientSession) (serve : ServerState → Dispatched) : Prop :=
  ∃ written closed, ∀ server, serve server = { server, session, written, closed }

section Gate

variable {authPassword : Bytes} (registry : Registry) {session : ClientSession}

theorem sealed_replyOnly (reply : RespValue) :
    Sealed session fun server => replyOnly server session reply :=
  ⟨[reply], false, fun _ => rfl⟩

theorem sealed_failedWith : Sealed session fun server => failedWith server session :=
  ⟨[], true, fun _ => rfl⟩

theorem sealed_cmdAuth {args : List Bytes} (wrong : ∀ name, args ≠ [name, authPassword]) :
    Sealed session fun server => cmdAuth server session authPassword args := by
  unfold cmdAuth
  split
  · exact sealed_replyOnly _
  · split
    · next name password =>
      have other : password ≠ authPassword := fun same => wrong name (by rw [same])
      simp only [ne_eq, other, not_false_eq_true, if_true]
      exact sealed_replyOnly _
    · exact sealed_replyOnly _

theorem registryDispatch_auth {v : RespValue} {name : Bytes} {operands : List Bytes}
    (args : valueToArgs v = some (name :: operands)) (auth : toUpper name = ascii "AUTH")
    (server : ServerState) :
    registryDispatch authPassword registry server session v
      = cmdAuth server session authPassword (name :: operands) := by
  have lower := toLower_of_letters "AUTH" "auth" (by decide +kernel) auth
  have notExec : ascii "auth" ≠ ascii "exec" := by decide
  simp only [registryDispatch, dispatchPlain, args, lower, notExec, if_false, if_true]

theorem sealed_dispatch (closed : needAuth authPassword session) (plain : session.inMulti = false)
    (quiet : session.inSubscribeMode = false) {v : RespValue}
    (never : ¬ GivesPassword authPassword v) :
    Sealed session fun server => dispatch authPassword registry server session v := by
  unfold dispatch
  split
  · exact sealed_failedWith
  · exact sealed_failedWith
  · next name operands args =>
    by_cases quit : toUpper name = ascii "QUIT"
    · simp only [quit, if_true]
      exact ⟨[okReply], true, fun _ => rfl⟩
    by_cases auth : toUpper name = ascii "AUTH"
    · -- The one command the gate lets through, and its argument is not the password.
      have wrong : ∀ other, name :: operands ≠ [other, authPassword] := by
        intro other same
        obtain ⟨rfl, rfl⟩ := List.cons_eq_cons.mp same
        exact never ⟨name, args, auth⟩
      have served (server : ServerState) :
          registryDispatch authPassword registry server session v
            = cmdAuth server session authPassword (name :: operands) :=
        registryDispatch_auth registry args auth server
      simp only [auth, if_false, ne_eq, not_true_eq_false, and_false, plain, quiet,
        Bool.false_eq_true, false_and, served]
      exact sealed_cmdAuth wrong
    · simp only [quit, auth, if_false, ne_eq, not_false_eq_true, closed, and_self, if_true]
      exact sealed_replyOnly _

/-- The loop over the connection, by induction on what the client sends: the session the
next value meets is still the one the gate is closed for. -/
theorem sealed_serveConn (closed : needAuth authPassword session)
    (plain : session.inMulti = false) (quiet : session.inSubscribeMode = false) :
    ∀ inputs : List ConnInput, (∀ input ∈ inputs, ¬ GivesPassword authPassword input.value) →
      Sealed session fun server => serveConn authPassword registry inputs server session
  | [], _ => ⟨[], false, fun _ => rfl⟩
  | input :: rest, never => by
    obtain ⟨later, laterClosed, restIs⟩ := sealed_serveConn closed plain quiet rest
      fun input member => never input (List.mem_cons_of_mem _ member)
    obtain ⟨written, ends, headIs⟩ :=
      sealed_dispatch registry closed plain quiet (never input List.mem_cons_self)
    simp only at restIs headIs
    cases ready : input.ready with
    | false =>
      exact ⟨errorReply "LOADING Super-Cache is loading the dataset in memory" :: later, laterClosed,
        fun server => by simp only [serveConn, ready, if_true, restIs]⟩
    | true =>
      cases ends with
      | true => exact ⟨written, true, fun server => by simp [serveConn, ready, headIs]⟩
      | false =>
        cases down : input.shuttingDown with
        | true =>
          exact ⟨written ++ [errorReply "LOADING server is shutting down"], true,
            fun server => by simp [serveConn, ready, headIs, down]⟩
        | false =>
          exact ⟨written ++ later, laterClosed,
            fun server => by simp [serveConn, ready, headIs, down, restIs]⟩

end Gate

/-- With a password that is not blank, a connection that never sends it is answered the
same on every two servers, whatever their stores; and its server keeps its store, what
it has replicated and its subscriptions, with the session subscribed to nothing. -/
theorem auth_gate_noninterference (authPassword : Bytes) (blank : trimSpace authPassword ≠ [])
    (registry : Registry) (id : Nat) (inputs : List ConnInput)
    (never : ∀ input ∈ inputs, ¬ GivesPassword authPassword input.value)
    (one other : ServerState) :
    (serveConn authPassword registry inputs one (newSession id)).written
        = (serveConn authPassword registry inputs other (newSession id)).written
      ∧ (serveConn authPassword registry inputs one (newSession id)).server = one
      ∧ (serveConn authPassword registry inputs one (newSession id)).session = newSession id := by
  have closed : needAuth authPassword (newSession id) := by
    simp [needAuth, newSession, blank]
  obtain ⟨written, ends, same⟩ := sealed_serveConn registry closed rfl
    (by simp [ClientSession.inSubscribeMode, newSession]) inputs never
  simp only at same
  rw [same one, same other]
  exact ⟨rfl, rfl, rfl⟩

def clearing : Registry := fun _ => some
  { arity := 0
    run := fun server session _ =>
      { server := { server with store := newStore .noeviction 0 sortedOracle }
        session := session
        written := [okReply]
        failed := false } }

def limitedServer (limit : Nat) : ServerState :=
  .ofStore (newStore .noeviction limit sortedOracle)

/-- `FLUSHALL`, `AUTH` with another password, and `MULTI`. -/
def lockedOut : List ConnInput :=
  [[ascii "FLUSHALL"], [ascii "aUtH", ascii "guess"], [ascii "MULTI"]].map fun args =>
    { value := .array (args.map .bulk), ready := true, shuttingDown := false }

theorem lockedOut_noninterference :
    (serveConn (ascii "secret") clearing lockedOut (limitedServer 0) (newSession 1)).written
        = (serveConn (ascii "secret") clearing lockedOut (limitedServer 300) (newSession 1)).written
      ∧ (serveConn (ascii "secret") clearing lockedOut (limitedServer 0) (newSession 1)).server
        = limitedServer 0
      ∧ (serveConn (ascii "secret") clearing lockedOut (limitedServer 0) (newSession 1)).session
        = newSession 1 :=
  auth_gate_noninterference (ascii "secret") (by decide +kernel) clearing 1 lockedOut
    (by decide +kernel) (limitedServer 0) (limitedServer 300)

end SuperCache
