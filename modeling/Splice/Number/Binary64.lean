import Splice.Text.Basic

/-!
Floating-point numbers of 64 bits, held exactly: a finite number is `mantissa * 2 ^ exponent` with a
mantissa below `2 ^ 53` and an exponent from -1074 on, and the mantissa is at least `2 ^ 52` unless
the exponent is the least one.
-/

set_option autoImplicit false

namespace Splice

inductive Binary64 where
  | nan
  | infinite (negative : Bool)
  | finite (negative : Bool) (mantissa : Nat) (exponent : Int)
  deriving DecidableEq, Repr

namespace Binary64

def roundDiv (n d : Nat) : Nat :=
  let q := n / d
  let r := n % d
  if 2 * r < d then q else if d < 2 * r then q + 1 else q + q % 2

def scale (n d : Nat) (e : Int) : Nat × Nat :=
  if e < 0 then (n * Nat.pow 2 (-e).toNat, d) else (n, d * Nat.pow 2 e.toNat)

def exponentFor (n d : Nat) : Int :=
  let guess : Int := (Nat.log2 n : Int) - Nat.log2 d - 52
  let (a, b) := scale n d guess
  let e := if a / b < Nat.pow 2 52 then guess - 1 else guess
  if e < -1074 then -1074 else e

/-- The number nearest to the fraction `n / d`. -/
def ofFraction (negative : Bool) (n d : Nat) : Binary64 :=
  if n = 0 then .finite negative 0 (-1074)
  else
    let e := exponentFor n d
    let (a, b) := scale n d e
    let m := roundDiv a b
    let (m, e) := if m = Nat.pow 2 53 then (Nat.pow 2 52, e + 1) else (m, e)
    if e > 971 then .infinite negative else .finite negative m e

/-- The number nearest to `digits * 10 ^ power`. Powers far outside the range are decided by their
sign alone. -/
def ofDecimal (negative : Bool) (digits : Nat) (power : Int) : Binary64 :=
  let size : Int := (Text.ofNat digits).length + power
  if digits = 0 ∨ size < -330 then .finite negative 0 (-1074)
  else if size > 320 then .infinite negative
  else if power < 0 then ofFraction negative digits (Nat.pow 10 (-power).toNat)
  else ofFraction negative (digits * Nat.pow 10 power.toNat) 1

end Binary64
end Splice
