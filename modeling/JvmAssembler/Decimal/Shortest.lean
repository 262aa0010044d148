/-!
# Shortest decimals

A binary number is read back from any decimal that rounds to it, and the shortest such decimal is the
one worth printing. A magnitude `m * 2 ^ e` and the ends of the interval that rounds to it are
terminating decimals, so all three are whole numbers of one small power of ten, and the search is
exact arithmetic on them: it tries the powers of ten from coarse to fine and stops at the first that
has a multiple inside the interval.
-/

namespace JvmAssembler

/-- The number `digits * 10 ^ exponent`. -/
structure Decimal where
  digits : Nat
  exponent : Int

namespace Decimal

/-- A whole number `mid` and the interval around it whose members stand for it; `closed` says whether
the two ends belong to the interval. -/
structure Interval where
  low : Nat
  mid : Nat
  high : Nat
  closed : Bool

namespace Interval

def contains (r : Interval) (n : Nat) : Bool :=
  if r.closed then r.low ≤ n && n ≤ r.high else r.low < n && n < r.high

/-- The multiple of `unit` inside the interval that is nearest to the middle, counted in units; of two
equally near ones it is the larger. -/
def nearest? (r : Interval) (unit : Nat) : Option Nat :=
  let below := r.mid / unit
  let above := below + 1
  if r.contains (below * unit) then
    if r.contains (above * unit) && above * unit - r.mid ≤ r.mid - below * unit then some above
    else some below
  else if r.contains (above * unit) then some above
  else none

/-- The shortest decimal among the multiples of `10 ^ k` and of the powers below it. -/
def shortestFrom (r : Interval) : (k : Nat) → Decimal
  | 0 => ⟨r.mid, 0⟩
  | k + 1 =>
    match r.nearest? (Nat.pow 10 (k + 1)) with
    | some digits => ⟨digits, k + 1⟩
    | none => r.shortestFrom k

/-- The shortest decimal inside the interval. The search starts at a power of ten above the middle:
a thousand bits make at most 302 digits. -/
def shortest (r : Interval) : Decimal :=
  r.shortestFrom ((r.mid.log2 + 1) * 302 / 1000 + 1)

end Interval

/-- A whole factor and a power of ten whose product is `2 ^ e`. -/
def powerOfTwo : (e : Int) → Nat × Int
  | .ofNat k => (Nat.pow 2 k, 0)
  | .negSucc k => (Nat.pow 5 (k + 1), .negSucc k)

/-- The shortest decimal that rounds to `m * 2 ^ e`, a number of a format in which the next larger
magnitude is `2 ^ e` away and the next smaller one as far, or half as far if `narrowBelow`. The ends
of the interval round to the even significand. -/
def shortest (m : Nat) (e : Int) (narrowBelow : Bool) : Decimal :=
  let (factor, tens) := powerOfTwo (e - 2)
  let r : Interval := {
    low := (4 * m - if narrowBelow then 1 else 2) * factor
    mid := 4 * m * factor
    high := (4 * m + 2) * factor
    closed := m % 2 = 0 }
  let d := r.shortest
  ⟨d.digits, d.exponent + tens⟩

end Decimal

end JvmAssembler
