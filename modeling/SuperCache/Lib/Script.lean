import Mathlib.Tactic.Common

/-! # One end of a conversation

A script sends messages, receives messages and ends with a result, each step
depending on how the ones before went.  `play` is a script on a connection of which
it is given what arrives and which writes fail; two scripts that read just what the
other sends are in a `Conversation`.
-/

namespace SuperCache.Lib

/-- A write reports whether it succeeded; a read that fails gets `none`. -/
inductive Script (μ ρ : Type) where
  | done (result : ρ)
  | send (message : μ) (next : Bool → Script μ ρ)
  | recv (next : Option μ → Script μ ρ)

/-- What a connection does to one of its ends: what the reads get, one after another
and nothing after the last, and for each write whether it fails. -/
structure Connection (μ : Type) where
  inbox : List (Option μ)
  fails : Nat → Bool

structure Played (μ ρ : Type) where
  sent : List μ
  result : ρ
  left : Connection μ

def Played.after {μ ρ : Type} (before : List μ) (later : Played μ ρ) : Played μ ρ :=
  { later with sent := before ++ later.sent }

@[simp] theorem Played.after_result {μ ρ : Type} (before : List μ) (later : Played μ ρ) :
    (later.after before).result = later.result :=
  rfl

@[simp] theorem Played.after_left {μ ρ : Type} (before : List μ) (later : Played μ ρ) :
    (later.after before).left = later.left :=
  rfl

namespace Connection

variable {μ : Type}

def lossless (messages : List μ) : Connection μ where
  inbox := messages.map some
  fails := fun _ => false

def afterRead (c : Connection μ) : Connection μ :=
  { c with inbox := c.inbox.tail }

def afterWrite (c : Connection μ) : Connection μ :=
  { c with fails := fun n => c.fails (n + 1) }

end Connection

namespace Script

variable {μ ρ σ : Type}

def bind : Script μ ρ → (ρ → Script μ σ) → Script μ σ
  | done result, after => after result
  | send message next, after => send message fun ok => (next ok).bind after
  | recv next, after => recv fun got => (next got).bind after

def play : Script μ ρ → Connection μ → Played μ ρ
  | done result, c => ⟨[], result, c⟩
  | send message next, c => ((next (!c.fails 0)).play c.afterWrite).after [message]
  | recv next, c => (next (c.inbox.head?.join)).play c.afterRead

@[simp] theorem play_done (result : ρ) (c : Connection μ) : (done result).play c = ⟨[], result, c⟩ :=
  rfl

theorem play_send (message : μ) (next : Bool → Script μ ρ) (inbox : List (Option μ))
    (fails : Nat → Bool) :
    (send message next).play ⟨inbox, fails⟩
      = ((next (!fails 0)).play ⟨inbox, fun n => fails (n + 1)⟩).after [message] :=
  rfl

theorem play_recv_nil (next : Option μ → Script μ ρ) (fails : Nat → Bool) :
    (recv next).play ⟨[], fails⟩ = (next none).play ⟨[], fails⟩ :=
  rfl

theorem play_recv_cons (next : Option μ → Script μ ρ) (got : Option μ) (inbox : List (Option μ))
    (fails : Nat → Bool) :
    (recv next).play ⟨got :: inbox, fails⟩ = (next got).play ⟨inbox, fails⟩ :=
  rfl

@[simp] theorem play_send_lossless (message : μ) (next : Bool → Script μ ρ) (messages : List μ) :
    (send message next).play (.lossless messages)
      = ((next true).play (.lossless messages)).after [message] :=
  rfl

@[simp] theorem play_recv_lossless_cons (next : Option μ → Script μ ρ) (message : μ)
    (messages : List μ) :
    (recv next).play (.lossless (message :: messages))
      = (next (some message)).play (.lossless messages) :=
  rfl

theorem play_bind (first : Script μ ρ) (after : ρ → Script μ σ) (c : Connection μ) :
    (first.bind after).play c
      = ((after (first.play c).result).play (first.play c).left).after (first.play c).sent := by
  induction first generalizing c with
  | done result => rfl
  | send message next ih =>
    simp only [bind, play, ih, Played.after, List.append_assoc]
  | recv next ih => simp only [bind, play, ih]

/-! ## One message at a time -/

/-- A script up to its next read, its writes succeeding or failing: what it sends, and
what is left of it. -/
def settle (ok : Bool) : Script μ ρ → List μ × Script μ ρ
  | done result => ([], done result)
  | send message next => (message :: ((next ok).settle ok).1, ((next ok).settle ok).2)
  | recv next => ([], recv next)

def deliver (ok : Bool) (got : Option μ) : Script μ ρ → List μ × Script μ ρ
  | recv next => (next got).settle ok
  | script => ([], script)

/-! ## Two ends -/

structure Conversation {ρ' : Type} (one : Script μ ρ) (other : Script μ ρ') where
  toOther : List μ
  toOne : List μ
  sent : (one.play (.lossless toOne)).sent = toOther
  answered : (other.play (.lossless toOther)).sent = toOne

namespace Conversation

variable {ρ' : Type} {one : Script μ ρ} {other : Script μ ρ'}

def resultOne (c : Conversation one other) : ρ :=
  (one.play (.lossless c.toOne)).result

def resultOther (c : Conversation one other) : ρ' :=
  (other.play (.lossless c.toOther)).result

end Conversation

end Script

end SuperCache.Lib
