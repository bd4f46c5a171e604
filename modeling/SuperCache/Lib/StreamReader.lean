import Mathlib.Data.List.Basic
import Mathlib.Data.Option.Basic

/-! # Readers of a stream

A reader takes a value from the front of its input and leaves the rest.  It is stable when it
never looks beyond what it takes: what it leaves is an end of the input, and with more input
it takes the same value and leaves that much more.
-/

namespace SuperCache.Lib

variable {α β γ : Type}

abbrev StreamReader (β α : Type) := List β → Option (α × List β)

structure Stable (read : StreamReader β α) : Prop where
  suffix : ∀ {input a rest}, read input = some (a, rest) → rest <:+ input
  more : ∀ {input a rest}, read input = some (a, rest) →
    ∀ extra, read (input ++ extra) = some (a, rest ++ extra)

def Advances (read : StreamReader β α) : Prop :=
  ∀ {input a rest}, read input = some (a, rest) → rest.length < input.length

def andRead (read : StreamReader β α) (next : α → StreamReader β γ) : StreamReader β γ :=
  fun input => (read input).bind fun found => next found.1 found.2

namespace Stable

theorem fail : Stable (fun _ => none : StreamReader β α) where
  suffix found := by cases found
  more found := by cases found

theorem done (a : α) : Stable (fun input => some (a, input) : StreamReader β α) where
  suffix found := by
    cases found
    exact List.suffix_refl _
  more found _ := by
    cases found
    rfl

theorem andRead {read : StreamReader β α} {next : α → StreamReader β γ} (first : Stable read)
    (later : ∀ a, Stable (next a)) : Stable (andRead read next) where
  suffix found := by
    obtain ⟨⟨a, middle⟩, taken, rest⟩ := Option.bind_eq_some_iff.mp found
    exact ((later a).suffix rest).trans (first.suffix taken)
  more found extra := by
    obtain ⟨⟨a, middle⟩, taken, rest⟩ := Option.bind_eq_some_iff.mp found
    rw [Lib.andRead, first.more taken extra]
    exact (later a).more rest extra

theorem ite {read other : StreamReader β α} {p : Prop} [Decidable p] (yes : Stable read)
    (no : Stable other) : Stable (if p then read else other) := by
  split
  · exact yes
  · exact no

theorem map {read : StreamReader β α} (stable : Stable read) (f : α → γ) :
    Stable (fun input => (read input).map fun found => (f found.1, found.2)) where
  suffix found := by
    obtain ⟨⟨a, rest⟩, taken, same⟩ := Option.map_eq_some_iff.mp found
    cases same
    exact stable.suffix taken
  more found extra := by
    obtain ⟨⟨a, rest⟩, taken, same⟩ := Option.map_eq_some_iff.mp found
    cases same
    simp only [stable.more taken extra, Option.map_some]

end Stable

def takeCount (n : Nat) : StreamReader β (List β) :=
  fun input => if input.length < n then none else some (input.take n, input.drop n)

theorem stable_takeCount (n : Nat) : Stable (takeCount n : StreamReader β (List β)) where
  suffix found := by
    simp only [takeCount] at found
    split at found
    · cases found
    · cases found
      exact List.drop_suffix n _
  more found extra := by
    simp only [takeCount] at found ⊢
    split at found
    · cases found
    · next enough =>
      cases found
      rw [if_neg (by rw [List.length_append]; omega), List.take_append_of_le_length (by omega),
        List.drop_append_of_le_length (by omega)]

def expect [DecidableEq β] (front : List β) : StreamReader β Unit :=
  fun input => if front <+: input then some ((), input.drop front.length) else none

theorem stable_expect [DecidableEq β] (front : List β) : Stable (expect front) where
  suffix found := by
    simp only [expect] at found
    split at found
    · cases found
      exact List.drop_suffix _ _
    · cases found
  more found extra := by
    simp only [expect] at found ⊢
    split at found
    · next starts =>
      cases found
      rw [if_pos (starts.trans (List.prefix_append _ extra)),
        List.drop_append_of_le_length starts.length_le]
    · cases found

end SuperCache.Lib
