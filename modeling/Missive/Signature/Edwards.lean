import Missive.Bytes.Basic

/-!
# The curve edwards25519

The points of the twisted Edwards curve -x² + y² = 1 + d x² y² over the integers modulo
2²⁵⁵ - 19, in extended coordinates, with a group law that has no exceptions. A point is stored as
its y coordinate with the parity of x in the top bit. Reading a point is lenient: y need not be
reduced, and the parity bit is ignored for x = 0.
-/

namespace Missive.Edwards

/-- The weight of the top bit of a stored point. -/
def parityWeight : Nat := 1 <<< 255

/-- The prime of the field. -/
def prime : Nat := parityWeight - 19

/-- The prime order of the base point. -/
def order : Nat := (1 <<< 252) + 27742317777372353535851937790883648493

/-- A power modulo the prime. -/
def power (base exponent : Nat) : Nat :=
  if exponent = 0 then 1
  else
    let half := power (base * base % prime) (exponent / 2)
    if exponent % 2 = 1 then base * half % prime else half

/-- The multiplicative inverse modulo the prime. -/
def inverse (value : Nat) : Nat :=
  power value (prime - 2)

/-- The negative modulo the prime. -/
def negate (value : Nat) : Nat :=
  (prime - value % prime) % prime

/-- The constant of the curve, -121665/121666. -/
def d : Nat :=
  37095705934669439343138083508754565189542113879843219016388785533085940283555

/-- A square root of -1. -/
def rootOfMinusOne : Nat :=
  19681161376707505956807079304988542015446066515923890162744021073123829784752

/-- A point with x = X/Z, y = Y/Z and xy = T/Z. -/
structure Point where
  x : Nat
  y : Nat
  z : Nat
  t : Nat
  deriving DecidableEq, Repr

namespace Point

/-- The neutral element. -/
def zero : Point := ⟨0, 1, 1, 0⟩

/-- The point with the given affine coordinates. -/
def ofAffine (x y : Nat) : Point := ⟨x, y, 1, x * y % prime⟩

/-- The base point. -/
def base : Point :=
  ofAffine 15112221349535400772501151409588531511454012693041857206046113283949847762202
    46316835694926478169428394003475163141307993866256225615783033603165251855960

/-- The sum of two points. -/
def add (left right : Point) : Point :=
  let a := (left.y + negate left.x) * (right.y + negate right.x) % prime
  let b := (left.y + left.x) * (right.y + right.x) % prime
  let c := left.t * right.t % prime * (2 * d) % prime
  let e := 2 * left.z * right.z % prime
  let h := (b + negate a) % prime
  let f := (e + negate c) % prime
  let g := (e + c) % prime
  let k := (b + a) % prime
  ⟨h * f % prime, g * k % prime, f * g % prime, h * k % prime⟩

/-- The inverse of a point. -/
def negative (point : Point) : Point :=
  ⟨negate point.x, point.y, point.z, negate point.t⟩

/-- A multiple of a point. -/
def multiple (count : Nat) (point : Point) : Point :=
  if count = 0 then zero
  else
    let half := multiple (count / 2) (point.add point)
    if count % 2 = 1 then half.add point else half

/-- The stored form of a point. -/
def toBytes (point : Point) : Bytes :=
  let scale := inverse point.z
  let x := point.x * scale % prime
  let y := point.y * scale % prime
  Bytes.littleEndian 32 (y + x % 2 * parityWeight)

/-- A square root of `numerator / denominator` with an even representative, if there is one. -/
def squareRoot? (numerator denominator : Nat) : Option Nat :=
  let cube := denominator * denominator % prime * denominator % prime
  let seventh := cube * cube % prime * denominator % prime
  let candidate :=
    numerator * cube % prime * power (numerator * seventh % prime) ((prime - 5) / 8) % prime
  let check := denominator * (candidate * candidate % prime) % prime
  let root? :=
    if check = numerator % prime then some candidate
    else if check = negate numerator then some (candidate * rootOfMinusOne % prime)
    else none
  root?.map fun root => if root % 2 = 1 then negate root else root

/-- The point with a stored form, if its y coordinate belongs to a point. -/
def ofBytes? (bytes : Bytes) : Option Point :=
  let code := Bytes.ofLittleEndian bytes
  let y := code % parityWeight % prime
  let square := y * y % prime
  let numerator := (square + negate 1) % prime
  let denominator := (d * square + 1) % prime
  (squareRoot? numerator denominator).map fun root =>
    ofAffine (if code / parityWeight % 2 = 1 then negate root else root) y

end Point

end Missive.Edwards
