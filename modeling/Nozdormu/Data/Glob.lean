import Mathlib.Data.List.Infix

/-!
# Glob patterns

Patterns as Redis matches them against keys, byte by byte: `*` stands for any bytes, `?` for one
byte, `[a-z]` and `[^a-z]` for one byte of a class, and a backslash takes the next byte as it is.
-/

namespace Nozdormu.Data

namespace Glob

/-- `*`, `?`, `[`, `\`, `^` and `]`. -/
def star : UInt8 := 42
def mark : UInt8 := 63
def opening : UInt8 := 91
def backslash : UInt8 := 92
def caret : UInt8 := 94
def closing : UInt8 := 93

inductive Item where
  | many
  | one
  | byte (b : UInt8)
  | oneOf (negated : Bool) (ranges : List (UInt8 × UInt8))
deriving DecidableEq, Repr

/-- The ranges of a class, and what follows its closing bracket. -/
def readClass : (fuel : Nat) → (pattern : List UInt8) → List (UInt8 × UInt8) × List UInt8
  | 0, pattern => ([], pattern)
  | _, [] => ([], [])
  | fuel + 1, b :: pattern =>
    if b = closing then ([], pattern)
    else
      let (range, rest) := match b, pattern with
        | 92, c :: rest => ((c, c), rest)
        | b, 45 :: c :: rest => ((min b c, max b c), rest)
        | b, rest => ((b, b), rest)
      let more := readClass fuel rest
      (range :: more.1, more.2)

/-- The items of a pattern that is not longer than the fuel. -/
def items : (fuel : Nat) → (pattern : List UInt8) → List Item
  | 0, _ => []
  | _, [] => []
  | fuel + 1, b :: pattern =>
    if b = star then .many :: items fuel pattern
    else if b = mark then .one :: items fuel pattern
    else if b = opening then
      let negated := pattern.head? = some caret
      let read := readClass fuel (if negated then pattern.tail else pattern)
      .oneOf negated read.1 :: items fuel read.2
    else if b = backslash then .byte (pattern.headD b) :: items fuel pattern.tail
    else .byte b :: items fuel pattern

def Item.accepts (b : UInt8) : Item → Bool
  | many => true
  | one => true
  | byte c => b = c
  | oneOf negated ranges => (ranges.any fun r => r.1 ≤ b && b ≤ r.2) != negated

def test : List Item → List UInt8 → Bool
  | [], s => s.isEmpty
  | .many :: rest, s => s.tails.any (test rest)
  | item :: rest, s =>
    match s with
    | [] => false
    | b :: s => item.accepts b && test rest s

end Glob

def glob (pattern s : List UInt8) : Bool := Glob.test (Glob.items pattern.length pattern) s

end Nozdormu.Data
