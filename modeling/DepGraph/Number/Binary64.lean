/-!
# Binary floating point, exactly

A finite binary number of double precision is a sign and `significand · 2 ^ exponent` with a significand
below `2 ^ 53`. Every operation rounds the exact result to the nearest such number, halves to the even
significand.

* `Binary64.ofRatio`: the number nearest to a ratio.
* `Binary64.shortest`: the fewest decimal digits that are nearer to the number than to any other.
-/

namespace DepGraph

/-- The number `±significand · 2 ^ exponent`. -/
structure Binary64 where
  negative : Bool
  significand : Nat
  exponent : Int
  deriving DecidableEq, Repr

namespace Binary64

/-- The quotient rounded to the nearest number, halves to the even one. -/
def roundDiv (n d : Nat) : Nat :=
  let q := n / d
  let r := n % d
  if 2 * r > d ∨ (2 * r = d ∧ q % 2 = 1) then q + 1 else q

/-- `2 ^ e` as a ratio. -/
def powerOfTwo (e : Int) : Nat × Nat :=
  (1 <<< e.toNat, 1 <<< (-e).toNat)

/-- The exponent at which the ratio has a significand of 53 bits, or the least exponent. -/
def scale (n d : Nat) : Int :=
  let guess : Int := (n.log2 : Int) - (d.log2 : Int) - 52
  let (up, down) := powerOfTwo guess
  let e := if n * down < d * up * (1 <<< 52) then guess - 1 else guess
  max e (-1074)

/-- The number nearest to `n / d`, unless it is too large. -/
def ofRatio (negative : Bool) (n d : Nat) : Option Binary64 :=
  if n = 0 then some ⟨negative, 0, 0⟩
  else
    let e := scale n d
    let (up, down) := powerOfTwo e
    let q := roundDiv (n * down) (d * up)
    let (q, e) := if q = 1 <<< 53 then (1 <<< 52, e + 1) else (q, e)
    if e > 971 then none else some ⟨negative, q, e⟩

/-- The value without its sign, as a ratio. -/
def ratio (x : Binary64) : Nat × Nat :=
  let (up, down) := powerOfTwo x.exponent
  (x.significand * up, down)

/-- The product with `n`, itself rounded first. -/
def mulNat (x : Binary64) (n : Nat) : Option Binary64 := do
  let y ← ofRatio false n 1
  ofRatio x.negative (x.ratio.1 * y.ratio.1) (x.ratio.2 * y.ratio.2)

/-- The quotient by `n`, itself rounded first. -/
def divNat (x : Binary64) (n : Nat) : Option Binary64 := do
  let y ← ofRatio false n 1
  ofRatio x.negative (x.ratio.1 * y.ratio.2) (x.ratio.2 * y.ratio.1)

/-- The decimal exponent of `n / d`, which lies in `[10 ^ p, 10 ^ (p + 1))`: found by search, `fuel`
steps at most in either direction. -/
def decimalExponent (n d : Nat) : (fuel : Nat) → Int
  | 0 => 0
  | fuel + 1 =>
    if n < d then decimalExponent (n * 10) d fuel - 1
    else if n ≥ 10 * d then decimalExponent n (d * 10) fuel + 1
    else 0

/-- `10 ^ k` as a ratio. -/
def powerOfTen (k : Int) : Nat × Nat :=
  (Nat.pow 10 k.toNat, Nat.pow 10 (-k).toNat)

/-- The digits of the point nearest to the number among those `c · 10 ^ k` that lie in the interval of
reals that round to it, if there is one; of two equally near points it is the even one. -/
def nearestOnGrid (x : Binary64) (k : Int) : Option Nat :=
  let (up, down) := powerOfTwo (x.exponent - 2)
  let (tenUp, tenDown) := powerOfTen k
  let m := x.significand
  -- in units of a quarter of the last place
  let middle := 4 * m
  let low := if m = 1 <<< 52 ∧ x.exponent > -1074 then middle - 1 else middle - 2
  let high := middle + 2
  let mark := fun (v : Nat) => v * up * tenDown
  let point := fun (c : Nat) => c * tenUp * down
  let inside := fun (c : Nat) =>
    if m % 2 = 0 then mark low ≤ point c ∧ point c ≤ mark high
    else mark low < point c ∧ point c < mark high
  let c := (middle * up * tenDown) / (tenUp * down)
  let below := mark middle - point c
  let above := point (c + 1) - mark middle
  if inside c then
    if inside (c + 1) ∧ (above < below ∨ (above = below ∧ c % 2 = 1)) then some (c + 1)
    else some c
  else if inside (c + 1) then some (c + 1)
  else none

/-- Tries grids from coarse to fine, `fuel` of them. -/
def searchGrid (x : Binary64) (k : Int) : (fuel : Nat) → Nat × Int
  | 0 => (0, 0)
  | fuel + 1 =>
    match x.nearestOnGrid k with
    | some c => (c, k)
    | none => x.searchGrid (k - 1) fuel

/-- The shortest decimal digits `c` and exponent `k` such that `c · 10 ^ k` rounds to the number. -/
def shortest (x : Binary64) : Nat × Int :=
  if x.significand = 0 then (0, 0)
  else
    let (n, d) := x.ratio
    x.searchGrid (decimalExponent n d 400) 18

/-- How a decimal is written: positionally when its exponent lies between two bounds. -/
structure TextFormat where
  least : Int
  greatest : Int

/-- The digits with a point after the first `whole` of them, and zeros where there are none. -/
def positional (digits : List Char) (whole : Int) : List Char :=
  if whole ≤ 0 then '0' :: '.' :: List.replicate (-whole).toNat '0' ++ digits
  else
    let n := whole.toNat
    if digits.length ≤ n then digits ++ List.replicate (n - digits.length) '0' ++ ['.', '0']
    else digits.take n ++ '.' :: digits.drop n

/-- Drops trailing zeros of a digit string. -/
def dropZeros (digits : List Char) : List Char :=
  (digits.reverse.dropWhile (· = '0')).reverse

/-- The decimal text of a number, with at least one digit after the point or an exponent. -/
def text (format : TextFormat) (x : Binary64) : String :=
  let sign := if x.negative then ['-'] else []
  if x.significand = 0 then String.ofList (sign ++ ['0', '.', '0'])
  else
    let (c, k) := x.shortest
    let all := Nat.toDigits 10 c
    let exponent := k + all.length - 1
    let digits := dropZeros all
    if format.least ≤ exponent ∧ exponent ≤ format.greatest then
      String.ofList (sign ++ positional digits (exponent + 1))
    else
      let mantissa := digits.take 1 ++ (if digits.length = 1 then [] else '.' :: digits.drop 1)
      let mark := if exponent < 0 then ['e', '-'] else ['e', '+']
      String.ofList (sign ++ mantissa ++ mark ++ Nat.toDigits 10 exponent.natAbs)

end Binary64

end DepGraph
