/-!
# Shortest decimals

The text of a floating-point number is the shortest decimal that still names it: of all decimals that
round to the number those with the fewest digits, and of these the nearest. A finite positive number is
`m * 2 ^ q`, the decimals that round to it fill the interval from half a step below to half a step above
it, and the ends of the interval belong to it if `m` is even. On the grid of decimals with a given
number of digits only the two neighbours of the number need to be tried; if both are as near, the larger
is taken.
-/

set_option autoImplicit false

namespace PackageLock

/-- A positive decimal: `digits * 10 ^ exponent`. -/
structure Decimal where
  digits : Nat
  exponent : Int
  deriving DecidableEq, Repr

/-- A positive binary number `significand * 2 ^ exponent`. `narrow` says that the step below it is half
the step above it, as at a power of two. -/
structure Binary where
  significand : Nat
  exponent : Int
  narrow : Bool
  deriving DecidableEq, Repr

/-- The weight of the lowest bit of the exponent in a 64-bit floating-point number, which is 2^52. -/
def exponentBit : Nat := 0x10000000000000

/-- The weight of the sign in a 64-bit floating-point number, which is 2^63. -/
def signBit : Nat := 0x8000000000000000

/-- The exponent field of an infinite number, or of one that is none. -/
def infiniteExponent : Nat := 0x7FF

/-- The positive number with the given bits of a 64-bit floating-point number, the sign left out. -/
def Binary.ofBits (bits : Nat) : Binary :=
  let fraction : Nat := bits % exponentBit
  let biased : Nat := bits / exponentBit % (infiniteExponent + 1)
  if biased = 0 then ⟨fraction, -1074, false⟩
  else ⟨exponentBit + fraction, (biased : Int) - 1075, fraction = 0 && 1 < biased⟩

/-- Numerator and denominator of `n * base ^ e`. -/
def asRatio (n : Nat) (base : Nat) (e : Int) : Nat × Nat :=
  if 0 ≤ e then (n * base.pow e.toNat, 1) else (n, base.pow (-e).toNat)

/-- Compares `a / b` with `c / d`. -/
def compareRatio (x y : Nat × Nat) : Ordering :=
  compare (x.1 * y.2) (y.1 * x.2)

/-- Whether the decimal rounds to the number. All bounds are taken times four, so that half a step and
a quarter of one are whole. -/
def Binary.isNamedBy (b : Binary) (d : Decimal) : Bool :=
  let (n, k) := asRatio d.digits 10 d.exponent
  let value := (4 * n, k)
  let low := asRatio (4 * b.significand - (if b.narrow then 1 else 2)) 2 b.exponent
  let high := asRatio (4 * b.significand + 2) 2 b.exponent
  if b.significand % 2 = 0 then (compareRatio low value).isLE && (compareRatio value high).isLE
  else (compareRatio low value).isLT && (compareRatio value high).isLT

/-- The smaller of two neighbours on a grid if it is the nearer one, else the larger. -/
def Binary.nearer (b : Binary) (lower upper : Decimal) : Decimal :=
  let (n, k) := asRatio (lower.digits + upper.digits) 10 lower.exponent
  let (m, l) := asRatio (2 * b.significand) 2 b.exponent
  if (compareRatio (n, k) (m, l)).isLE then upper else lower

/-- The decimal on the grid of step `10 ^ exponent` that names the number, if there is one. -/
def Binary.onGrid? (b : Binary) (exponent : Int) : Option Decimal :=
  let (n, k) := asRatio b.significand 2 b.exponent
  let (u, v) := asRatio 1 10 exponent
  let below : Decimal := ⟨n * v / (k * u), exponent⟩
  let above : Decimal := ⟨below.digits + 1, exponent⟩
  match 0 < below.digits && b.isNamedBy below, b.isNamedBy above with
  | true, true => some (b.nearer below above)
  | true, false => some below
  | false, true => some above
  | false, false => none

/-- The exponent of the leading decimal digit of the number, between bounds that hold for all 64-bit
floating-point numbers. -/
def Binary.magnitude (b : Binary) : Int :=
  let (n, k) := asRatio b.significand 2 b.exponent
  if k ≤ n then ((toString (n / k)).length : Int) - 1
  else -((toString ((k + n - 1) / n - 1)).length : Int)

/-- The same decimal without a zero at its end. -/
def Decimal.reduced (d : Decimal) : Decimal :=
  if d.digits % 10 = 0 then ⟨d.digits / 10, d.exponent + 1⟩ else d

/-- The shortest decimal that names the number. The last grid always holds one, and one from a finer
grid than the first never ends in a zero. -/
def Binary.shortest (b : Binary) : Decimal :=
  let first := b.magnitude
  match (List.range 18).findSome? fun (i : Nat) => b.onGrid? (first - i) with
  | some d => d.reduced
  | none => ⟨b.significand, b.exponent⟩

/-- A decimal in positional notation, with at least one digit on either side of the point. -/
def Decimal.positional (d : Decimal) : String :=
  let digits := (toString d.digits).toList
  if 0 ≤ d.exponent then
    String.ofList (digits ++ List.replicate d.exponent.toNat '0') ++ ".0"
  else
    let places := (-d.exponent).toNat
    let padded := List.replicate (places + 1 - digits.length) '0' ++ digits
    String.ofList (padded.take (padded.length - places)) ++ "." ++
      String.ofList (padded.drop (padded.length - places))

/-- A floating-point number as messages show it: never with an exponent, and always with a point
unless it is not finite. -/
def Decimal.textOfFloat (x : Float) : String :=
  let bits := x.toBits.toNat
  let sign := if bits < signBit then "" else "-"
  let magnitude := bits % signBit
  if infiniteExponent * exponentBit < magnitude then "NaN"
  else if magnitude = infiniteExponent * exponentBit then sign ++ "inf"
  else if magnitude = 0 then sign ++ "0.0"
  else sign ++ (Binary.ofBits magnitude).shortest.positional

end PackageLock
