import TagScript.Random.Source
import TagScript.Random.Words

/-!
# The Generator of a Session

An additive generator with two lags: each word is the sum, modulo `2 ^ 64`, of the words 607 and 273
places before it. The last 607 words are kept on a ring. A seed enters through a small
multiplicative generator whose numbers are mixed into the starting words; this is put off until the
first draw.
-/

namespace TagScript.Random

/-- The number of words on the ring. -/
def ringSize : Nat := 607

/-- The distance from the newest word to the other summand of the next one. -/
def shortLag : Nat := 273

/-- The modulus of the generator that a seed starts. -/
def seedModulus : Nat := 0x7FFFFFFF

/-- The next number of the generator that a seed starts. -/
def seedStep (x : Nat) : Nat :=
  48271 * x % seedModulus

/-- The first number of the generator that a seed starts; none of its numbers is zero. -/
def seedStart (seed : Int64) : Nat :=
  match (seed.toInt % seedModulus).toNat with
  | 0 => 89482311
  | x => x

/-- Three numbers of the seed's generator as one word. -/
def seedWord (x y z : Nat) : UInt64 :=
  (UInt64.ofNat x <<< 40) ^^^ (UInt64.ofNat y <<< 20) ^^^ UInt64.ofNat z

/-- The starting words with the numbers that follow `x` in the seed's generator mixed in. -/
def seedRing (x : Nat) : List UInt64 → List UInt64
  | [] => []
  | w :: rest =>
    let x := seedStep x
    let y := seedStep x
    let z := seedStep y
    (w ^^^ seedWord x y z) :: seedRing z rest

/-- The state of the generator. -/
inductive Generator where
  /-- Nothing has been drawn since it was seeded. -/
  | fresh (seed : Int64)
  /-- The ring of words, and the place of the newest word but `shortLag`. -/
  | running (ring : Array UInt64) (place : Nat)
  deriving DecidableEq

namespace Generator

/-- The generator with a given seed. -/
def ofSeed (seed : Int64) : Generator :=
  .fresh seed

/-- The ring of a seed: the first twenty numbers of its generator are skipped. -/
def ringOf (seed : Int64) : Array UInt64 :=
  (seedRing (Nat.repeat seedStep 20 (seedStart seed)) startingWords.toList).toArray

/-- Draws a word on the ring. The next word takes the place of the oldest one. -/
def nextOn (ring : Array UInt64) (place : Nat) : UInt64 × Generator :=
  let place := (place + (ringSize - 1)) % ringSize
  let oldest := (place + (ringSize - shortLag)) % ringSize
  let word := ring.getD oldest 0 + ring.getD place 0
  (word, .running (ring.setIfInBounds oldest word) place)

/-- Draws a word. -/
def next : Generator → UInt64 × Generator
  | .fresh seed => nextOn (ringOf seed) 0
  | .running ring place => nextOn ring place

/-- Draws a number of 63 bits. -/
def word (g : Generator) : Int64 × Generator :=
  let (w, g) := g.next
  ((w &&& 0x7FFFFFFFFFFFFFFF).toInt64, g)

/-- Draws a number of 63 bits up to a bound, as far as the given number of further attempts
allows. -/
def wordUpTo (bound : Int64) : Nat → Generator → Int64 × Generator
  | 0, g => g.word
  | attempts + 1, g =>
    let (w, g) := g.word
    if w ≤ bound then (w, g) else wordUpTo bound attempts g

/-- Draws a number below a positive bound. Words beyond the last multiple of the bound are drawn
again, so that all numbers are equally likely; more than a thousand draws in a row are not worth
waiting for. -/
def below (n : Int64) (g : Generator) : Option (Int64 × Generator) :=
  if 0 < n then
    let bound := Int64.ofNat (0x7FFFFFFFFFFFFFFF - 0x8000000000000000 % n.toInt.toNat)
    let (w, g) := wordUpTo bound 1000 g
    some (w % n, g)
  else none

/-- Draws a double below one: a number of 63 bits divided by `2 ^ 63`. A quotient that rounds to one
is drawn again, as far as the given number of attempts allows. -/
def unitWithin : Nat → Generator → Float × Generator
  | 0, g => (0, g)
  | attempts + 1, g =>
    let (w, g) := g.word
    let x := w.toFloat / 9223372036854775808.0
    if x < 1 then (x, g) else unitWithin attempts g

/-- Draws a double below one. -/
def unit (g : Generator) : Float × Generator :=
  unitWithin 1000 g

/-- The generator as a source. -/
def source : Source Generator :=
  ⟨word, below, unit⟩

end Generator

end TagScript.Random
