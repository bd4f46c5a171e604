import Mathlib.Data.List.Basic
import Mathlib.Tactic.Common

/-! # Streams of pieces

What is sent through a buffered writer reaches the stream in a few writes; the
pieces of a stream are whole as long as no writes of one piece come between those
of another.
-/

namespace SuperCache.Lib

variable {α : Type*}

/-! ## A buffered writer -/

namespace BufWriter

/-- `bufio.Writer.Write`: the writes it makes, and what the buffer holds then.  A part
that does not fit fills the buffer up, unless the buffer is empty; what then is still
larger than the buffer is written as it is. -/
def write (size : Nat) (buf part : List α) : List (List α) × List α :=
  if buf.length + part.length ≤ size then ([], buf ++ part)
  else match buf with
    | [] => ([part], [])
    | _ :: _ =>
      let fits := size - buf.length
      if part.length - fits ≤ size then ([buf ++ part.take fits], part.drop fits)
      else ([buf ++ part.take fits, part.drop fits], [])

/-- The writes of several parts and of the `Flush` after them. -/
def writes (size : Nat) (buf : List α) : List (List α) → List (List α)
  | [] =>
    match buf with
    | [] => []
    | _ :: _ => [buf]
  | part :: parts => (write size buf part).1 ++ writes size (write size buf part).2 parts

theorem write_flatten (size : Nat) (buf part : List α) :
    (write size buf part).1.flatten ++ (write size buf part).2 = buf ++ part := by
  unfold write
  split
  · rfl
  · cases buf with
    | nil => simp
    | cons first rest =>
      dsimp only
      split <;> simp

theorem writes_flatten (size : Nat) (buf : List α) (parts : List (List α)) :
    (writes size buf parts).flatten = buf ++ parts.flatten := by
  induction parts generalizing buf with
  | nil => cases buf <;> simp [writes]
  | cons part parts ih =>
    rw [writes, List.flatten_append, ih, ← List.append_assoc, write_flatten,
      List.flatten_cons, List.append_assoc]

end BufWriter

/-! ## Whole pieces -/

variable {piece : List α → Prop} {xs ys : List α}

def Whole (piece : List α → Prop) (xs : List α) : Prop :=
  ∃ pieces : List (List α), (∀ p ∈ pieces, piece p) ∧ xs = pieces.flatten

def WholeThenPart (piece : List α → Prop) (xs : List α) : Prop :=
  ∃ whole part p, Whole piece whole ∧ piece p ∧ part <+: p ∧ xs = whole ++ part

theorem Whole.nil : Whole piece ([] : List α) :=
  ⟨[], nofun, rfl⟩

theorem Whole.append (whole : Whole piece xs) (one : piece ys) : Whole piece (xs ++ ys) := by
  obtain ⟨pieces, all, rfl⟩ := whole
  refine ⟨pieces ++ [ys], fun p listed => ?_, by simp⟩
  rcases List.mem_append.mp listed with earlier | last
  · exact all p earlier
  · exact List.mem_singleton.mp last ▸ one

theorem Whole.thenPart {p part : List α} (whole : Whole piece xs) (one : piece p)
    (begun : part <+: p) : WholeThenPart piece (xs ++ part) :=
  ⟨xs, part, p, whole, one, begun, rfl⟩

theorem WholeThenPart.cases (stream : WholeThenPart piece xs) :
    (∃ p, piece p ∧ xs <+: p)
      ∨ ∃ p rest, piece p ∧ xs = p ++ rest ∧ WholeThenPart piece rest := by
  obtain ⟨whole, part, p, ⟨pieces, all, rfl⟩, one, begun, rfl⟩ := stream
  cases pieces with
  | nil => exact .inl ⟨p, one, begun⟩
  | cons first rest =>
    refine .inr ⟨first, rest.flatten ++ part, all first List.mem_cons_self, ?_, ?_⟩
    · rw [List.flatten_cons, List.append_assoc]
    · exact Whole.thenPart ⟨rest, fun q listed => all q (List.mem_cons_of_mem first listed), rfl⟩
        one begun

end SuperCache.Lib
