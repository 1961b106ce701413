import FormulaSheet.Host

/-!
# Random numbers

Random numbers come from a linear congruential sequence as long as there is a
seed: each draw replaces the seed `s` by `9301 s + 49297` modulo 233280.
Without a seed they come from the host.  A source counts its draws, so that
"nothing was drawn" can be said of any run.
-/

namespace FormulaSheet

/-- A source of random numbers: its seed, if it has one, and the number of
draws so far. -/
structure RandomSource where
  seed : Option Nat
  drawn : Nat
deriving DecidableEq

namespace RandomSource

/-- The modulus of the seeded sequence. -/
def modulus : Nat := 233280

/-- The seed after a draw. -/
def nextSeed (seed : Nat) : Nat := (seed % modulus * 9301 + 49297) % modulus

/-- A source that has not been drawn from. -/
def ofSeed (seed : Option Nat) : RandomSource := ⟨seed, 0⟩

/-- The source with another seed. -/
def reseed (r : RandomSource) (seed : Option Nat) : RandomSource := { r with seed := seed }

/-- Draws a number. -/
def next (host : Host) (r : RandomSource) : Float × RandomSource :=
  match r.seed with
  | some s =>
    (Number.ofNat (nextSeed s) / Number.ofNat modulus, ⟨some (nextSeed s), r.drawn + 1⟩)
  | none => (host.draw r.drawn, ⟨none, r.drawn + 1⟩)

theorem drawn_next (host : Host) (r : RandomSource) :
    (r.next host).2.drawn = r.drawn + 1 := by
  unfold next
  split <;> rfl

end RandomSource

end FormulaSheet
