/-!
# Random numbers

A generator of 32-bit words with one word of state. Every draw adds a fixed
odd number to the state and mixes the sum. A bounded draw rejects the words
above the last whole multiple of the bound, so that every result is equally
likely; `Random.below` gives up after `2 ^ 32` draws, by which time the state
has been through all of its values.
-/

namespace Cutscene

/-- The state of the generator. -/
structure Random where
  state : UInt32
  deriving DecidableEq, Repr, Inhabited

namespace Random

/-- What every draw adds to the state. -/
def increment : UInt32 := 0x6d2b79f5

/-- The word drawn at a state. -/
def mix (s : UInt32) : UInt32 :=
  let a := (s ^^^ (s >>> 15)) * (s ||| 1)
  let b := a ^^^ (a + (a ^^^ (a >>> 7)) * (a ||| 61))
  b ^^^ (b >>> 14)

/-- Draws a word. -/
def next (r : Random) : UInt32 × Random :=
  let s := r.state + increment
  (mix s, ⟨s⟩)

/-- Draws a number from zero up to one, exclusive. -/
def unit (r : Random) : Float × Random :=
  let (word, r) := r.next
  (word.toFloat / 4294967296.0, r)

/-- The last whole multiple of a bound among the words. -/
def threshold (bound : Nat) : Nat := UInt32.size / bound * bound

/-- The result a word stands for, unless it is rejected. -/
def accept? (bound : Nat) (word : UInt32) : Option Nat :=
  if word.toNat < threshold bound then some (word.toNat % bound) else none

/-- Draws words from a source until one is accepted, at most `fuel` times. -/
def draw? {σ : Type} (next : σ → UInt32 × σ) (bound : Nat) : Nat → σ → Option (Nat × σ)
  | 0, _ => none
  | fuel + 1, s =>
    match accept? bound (next s).1 with
    | some n => some (n, (next s).2)
    | none => draw? next bound fuel (next s).2

/-- Draws a number below a bound from a source; zero, without a draw, below
zero. -/
def belowFrom? {σ : Type} (next : σ → UInt32 × σ) (bound fuel : Nat) (s : σ) : Option (Nat × σ) :=
  if bound = 0 then some (0, s) else draw? next bound fuel s

/-- Draws a number below a bound. -/
def below (bound : Nat) (r : Random) : Nat × Random :=
  (belowFrom? next bound UInt32.size r).getD (0, r)

end Random

end Cutscene
