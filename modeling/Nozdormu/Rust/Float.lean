import Mathlib.Algebra.Ring.Nat
import Mathlib.Data.List.Basic
import Mathlib.Tactic.Common

/-!
# Operations of `f64`

What the Rust operations on `f64` return that Lean's `Float` does not have, or has only
as compiled code: `max`, `ceil` followed by a cast, and the fixed-point formats `{:.3}`
and `{:.6}`. They are defined from the parts of the number, so they can be evaluated.
-/

namespace Nozdormu.Rust

open Float.Model (UnpackedFloat)

/-- `f64::max`: a NaN loses against a number. -/
def f64Max (a b : Float) : Float :=
  if a.isNaN then b else if b.isNaN then a else if a < b then b else a

/-- `x.ceil() as u32`: NaN and negative numbers give 0, large numbers saturate. -/
def ceilU32 (x : Float) : Nat :=
  let whole := x.toUInt64
  min (2 ^ 32 - 1) (if whole.toFloat < x then whole.toNat + 1 else whole.toNat)

theorem ceilU32_lt (x : Float) : ceilU32 x < 2 ^ 32 := by
  unfold ceilU32
  simp only
  omega

/-- `x.ceil() as u64`. -/
def ceilU64 (x : Float) : Nat :=
  let whole := x.toUInt64
  min (2 ^ 64 - 1) (if whole.toFloat < x then whole.toNat + 1 else whole.toNat)

/-- The integer nearest to `m * 2 ^ e * 10 ^ digits`, ties to even. -/
def scaledRound (digits m : Nat) (e : Int) : Nat :=
  let num := m * 2 ^ e.toNat * 10 ^ digits
  let den := 2 ^ (-e).toNat
  let q := num / den
  let r := num % den
  if den < 2 * r ∨ (2 * r = den ∧ q % 2 = 1) then q + 1 else q

/-- `n / 10 ^ digits` written with that many decimals. -/
def fixedPoint (digits n : Nat) : String :=
  let frac := toString (n % 10 ^ digits)
  toString (n / 10 ^ digits) ++ "." ++ String.ofList
    (List.replicate (digits - frac.length) '0') ++ frac

/-- `format!("{:.digits}", x)` for a positive number of digits. -/
def formatFixed (digits : Nat) (x : Float) : String :=
  let signed (s : UnpackedFloat.Sign) (text : String) : String :=
    match s with
    | .negative => "-" ++ text
    | .positive => text
  match x.toModel.unpack with
  | .notANumber => "NaN"
  | .infinity s => signed s "inf"
  | .zero s => signed s (fixedPoint digits 0)
  | .finite s m e _ => signed s (fixedPoint digits (scaledRound digits m e))

example : formatFixed 6 2.0005 = "2.000500" ∧ formatFixed 3 0.0625 = "0.062" := by decide +kernel

end Nozdormu.Rust
