/-!
# Double-precision numbers

A finite double is a sign and a magnitude `mantissa * 2 ^ exponent`. Rounding goes to the nearest
double and, half way between two, to the one with the even mantissa. The written form has the fewest
digits that read back as the same double.
-/

namespace Provisioning.Json

/-- A finite double. The mantissa is below `2 ^ 53`, the exponent is at least `-1074`, and the
mantissa is at least `2 ^ 52` unless the exponent is `-1074`. -/
structure Binary64 where
  negative : Bool
  mantissa : Nat
  exponent : Int
  deriving DecidableEq, Repr

namespace Binary64

def minExponent : Int := -1074

def maxExponent : Int := 971

def mantissaBound : Nat := Nat.pow 2 53

def leastNormal : Nat := Nat.pow 2 52

def zero : Binary64 := ⟨false, 0, minExponent⟩

def neg (x : Binary64) : Binary64 := { x with negative := !x.negative }

def ratio (m : Nat) (e : Int) : Nat × Nat :=
  if e < 0 then (m, Nat.pow 2 e.natAbs) else (m * Nat.pow 2 e.toNat, 1)

def roundQuotient (num den : Nat) : Nat :=
  let q := num / den
  let r := num % den
  if 2 * r < den then q
  else if den < 2 * r then q + 1
  else q + q % 2

/-- The whole part of `num / (den * 2 ^ e)`, before rounding, and the quotient rounded. -/
def atExponent (num den : Nat) (e : Int) : Nat × Nat :=
  let n := if e < 0 then num * Nat.pow 2 e.natAbs else num
  let d := if e < 0 then den else den * Nat.pow 2 e.toNat
  (n / d, roundQuotient n d)

def ofRatio (num den : Nat) : Option Binary64 :=
  if num = 0 then some zero
  else
    let guess : Int := max ((num.log2 : Int) - den.log2 - 53) minExponent
    let e := if (atExponent num den guess).1 < mantissaBound then guess else guess + 1
    let m := (atExponent num den e).2
    let x : Binary64 := if m = mantissaBound then ⟨false, leastNormal, e + 1⟩ else ⟨false, m, e⟩
    if x.exponent ≤ maxExponent then some x else none

def magnitude (x : Binary64) : Nat × Nat := ratio x.mantissa x.exponent

def ofNat (n : Nat) : Option Binary64 := ofRatio n 1

def mul (x y : Binary64) : Option Binary64 :=
  ofRatio (x.magnitude.1 * y.magnitude.1) (x.magnitude.2 * y.magnitude.2)

def div (x y : Binary64) : Option Binary64 :=
  ofRatio (x.magnitude.1 * y.magnitude.2) (x.magnitude.2 * y.magnitude.1)

def pow10 (k : Nat) : Option Binary64 := ofNat (Nat.pow 10 k)

/-- Whether the magnitude `num / den` reads back as `x`: it lies between the half-way points to the
neighbours of `x`, which belong to `x` when its mantissa is even. -/
def readsBack (x : Binary64) (num den : Nat) : Bool :=
  let e := x.exponent - 2
  let atPower := x.mantissa == leastNormal && decide (minExponent < x.exponent)
  let low := ratio (4 * x.mantissa - (if atPower then 1 else 2)) e
  let high := ratio (4 * x.mantissa + 2) e
  if x.mantissa % 2 = 0 then
    decide (low.1 * den ≤ num * low.2) && decide (num * high.2 ≤ high.1 * den)
  else
    decide (low.1 * den < num * low.2) && decide (num * high.2 < high.1 * den)

def decimalRatio (digits : Nat) (power : Int) : Nat × Nat :=
  if power < 0 then (digits, Nat.pow 10 power.natAbs) else (digits * Nat.pow 10 power.toNat, 1)

/-- The multiples of `10 ^ power` on either side of `num / den`, the nearer one first and the even
one first when both are as near. -/
def neighbours (num den : Nat) (power : Int) : List Nat :=
  let n := if power < 0 then num * Nat.pow 10 power.natAbs else num
  let d := if power < 0 then den else den * Nat.pow 10 power.toNat
  let q := n / d
  if roundQuotient n d = q then [q, q + 1] else [q + 1, q]

def shortestFrom (x : Binary64) : Nat → Int → Nat × Int
  | 0, power => (0, power)
  | steps + 1, power =>
    let candidates := neighbours x.magnitude.1 x.magnitude.2 power
    match candidates.find? fun d =>
        d ≠ 0 && x.readsBack (decimalRatio d power).1 (decimalRatio d power).2 with
    | some d => (d, power)
    | none => shortestFrom x steps (power - 1)

def dropZeros : Nat → Nat → Int → Nat × Int
  | 0, digits, power => (digits, power)
  | steps + 1, digits, power =>
    if digits ≠ 0 ∧ digits % 10 = 0 then dropZeros steps (digits / 10) (power + 1)
    else (digits, power)

/-- The decimal of fewest digits that reads back, as digits and a power of ten. Three decimal places
per ten binary ones bound the search. -/
def shortest (x : Binary64) : Nat × Int :=
  let top : Int := (x.mantissa.log2 + x.exponent) * 3 / 10 + 3
  let found := shortestFrom x 40 top
  dropZeros 40 found.1 found.2

/-- Plain notation holds below `10 ^ 16` and from `10 ^ -5` on, always with a decimal point;
everything else has one digit before the point and an exponent with its sign. -/
def render (x : Binary64) : String :=
  let sign := if x.negative then "-" else ""
  if x.mantissa = 0 then sign ++ "0.0"
  else
    let (digits, power) := x.shortest
    let ds := digits.repr.toList
    let point : Int := ds.length + power
    let body : List Char :=
      if 0 ≤ power ∧ point ≤ 16 then
        ds ++ List.replicate power.toNat '0' ++ ['.', '0']
      else if 0 < point ∧ point ≤ 16 then
        ds.take point.toNat ++ '.' :: ds.drop point.toNat
      else if -5 < point ∧ point ≤ 0 then
        '0' :: '.' :: (List.replicate point.natAbs '0' ++ ds)
      else
        let exponent := point - 1
        let mark := 'e' :: (if exponent < 0 then '-' else '+') :: exponent.natAbs.repr.toList
        match ds with
        | [d] => d :: mark
        | d :: rest => d :: '.' :: rest ++ mark
        | [] => mark
    sign ++ String.ofList body

end Binary64

end Provisioning.Json
