import Provisioning.Json.Binary64

/-!
# Numbers

The written form of a number and its value. Whole numbers from `-2 ^ 63` to `2 ^ 64 - 1` are exact;
every other number is a double. The value of a double is computed from a significand below `2 ^ 64`
and a power of ten; digits that do not fit into the significand are dropped.
-/

namespace Provisioning.Json

inductive Number
  | whole (n : Int)
  | double (x : Binary64)
  deriving DecidableEq, Repr

def minInt64 : Int := -9223372036854775808

def maxInt64 : Int := 9223372036854775807

structure Numeral where
  negative : Bool
  whole : List Nat
  fraction : List Nat
  exponent : Option (Bool × List Nat)
  deriving DecidableEq, Repr

def takeDigits : List Char → List Nat × List Char
  | [] => ([], [])
  | c :: rest =>
    if c.isDigit then
      let (digits, more) := takeDigits rest
      ((c.toNat - '0'.toNat) :: digits, more)
    else ([], c :: rest)

namespace Numeral

def takeFraction : List Char → Option (List Nat × List Char)
  | '.' :: rest =>
    match takeDigits rest with
    | ([], _) => none
    | found => some found
  | rest => some ([], rest)

def exponentDigits (negative : Bool) (s : List Char) : Option (Option (Bool × List Nat) × List Char) :=
  match takeDigits s with
  | ([], _) => none
  | (digits, rest) => some (some (negative, digits), rest)

def takeExponent : List Char → Option (Option (Bool × List Nat) × List Char)
  | c :: rest =>
    if c = 'e' ∨ c = 'E' then
      match rest with
      | '-' :: more => exponentDigits true more
      | '+' :: more => exponentDigits false more
      | more => exponentDigits false more
    else some (none, c :: rest)
  | [] => some (none, [])

/-- Reads a whole text as a number. A zero leads only when it is the only digit before the point. -/
def ofChars? (s : List Char) : Option Numeral := do
  let (negative, s) := match s with
    | '-' :: rest => (true, rest)
    | rest => (false, rest)
  let (whole, s) := takeDigits s
  guard (whole ≠ [] ∧ (whole.head? = some 0 → whole.length = 1))
  let (fraction, s) ← takeFraction s
  let (exponent, s) ← takeExponent s
  guard s.isEmpty
  return { negative, whole, fraction, exponent }

def maxSignificand : Nat := 18446744073709551615

def maxExponent : Nat := 2147483647

def absorb : Nat → List Nat → Nat × List Nat
  | significand, [] => (significand, [])
  | significand, d :: rest =>
    if significand * 10 + d ≤ maxSignificand then absorb (significand * 10 + d) rest
    else (significand, d :: rest)

/-- Divides by ten to the power `k`, at most 308 tens at a time. -/
def shrink (x : Binary64) (k : Nat) : Option Binary64 :=
  if k ≤ 308 then do x.div (← Binary64.pow10 k)
  else if x.mantissa = 0 then some x
  else do shrink (← x.div (← Binary64.pow10 308)) (k - 308)
termination_by k

def scale (significand : Nat) (power : Int) : Option Binary64 := do
  let x ← Binary64.ofNat significand
  if power < 0 then shrink x power.natAbs
  else if power ≤ 308 then x.mul (← Binary64.pow10 power.toNat)
  else if x.mantissa = 0 then some x
  else none

def magnitude? (significand : Nat) (power : Int) : Option (Bool × List Nat) → Option Binary64
  | none => scale significand power
  | some (down, digits) =>
    let e := digits.foldl (fun n d => n * 10 + d) 0
    if e ≤ maxExponent then scale significand (if down then power - e else power + e)
    else if significand ≠ 0 ∧ !down then none
    else some Binary64.zero

/-- The value of a number, `none` when it is beyond the doubles. A negative zero is a double. -/
def value? (n : Numeral) : Option Number :=
  let signed (x : Binary64) : Number := .double (if n.negative then x.neg else x)
  let (significand, left) := absorb 0 n.whole
  if left.isEmpty ∧ n.fraction.isEmpty ∧ n.exponent = none then
    if !n.negative then some (.whole significand)
    else if significand ≠ 0 ∧ minInt64 ≤ -significand then some (.whole (-significand))
    else (Binary64.ofNat significand).map signed
  else
    let (full, dropped) := absorb significand n.fraction
    let power : Int := left.length - (n.fraction.length - dropped.length : Nat)
    (magnitude? full power n.exponent).map signed

end Numeral

def Number.render : Number → String
  | .whole n => if n < 0 then "-" ++ n.natAbs.repr else n.toNat.repr
  | .double x => x.render

end Provisioning.Json
