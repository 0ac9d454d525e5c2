import Nozdormu.Bmff.Bytes

/-!
# Length-prefixed boxes

A box is a 32-bit size, a four-character code and a body; a container's body is
a sequence of boxes. `makeBox` writes one, `readBoxes` is a plain reader of a
whole sequence that knows nothing of how it was written, and
`readBoxes_boxes` is the round trip. The size field is the low 32 bits of the
true size, so the round trip asks that every box stays below 4 GiB.
-/

namespace Nozdormu.Bmff

open List

structure FourCC where
  a : UInt8
  b : UInt8
  c : UInt8
  d : UInt8
deriving DecidableEq, Repr

namespace FourCC

def bytes (cc : FourCC) : Bytes := [cc.a, cc.b, cc.c, cc.d]

/-- `b"moov"` is `ofChars 'm' 'o' 'o' 'v'`. -/
def ofChars (a b c d : Char) : FourCC := ⟨a.toUInt8, b.toUInt8, c.toUInt8, d.toUInt8⟩

@[simp] theorem bytes_length (cc : FourCC) : cc.bytes.length = 4 := rfl

end FourCC

def ccFtyp : FourCC := .ofChars 'f' 't' 'y' 'p'
def ccIsom : FourCC := .ofChars 'i' 's' 'o' 'm'
def ccIso6 : FourCC := .ofChars 'i' 's' 'o' '6'
def ccMp41 : FourCC := .ofChars 'm' 'p' '4' '1'
def ccMoov : FourCC := .ofChars 'm' 'o' 'o' 'v'
def ccMvhd : FourCC := .ofChars 'm' 'v' 'h' 'd'
def ccMvex : FourCC := .ofChars 'm' 'v' 'e' 'x'
def ccTrex : FourCC := .ofChars 't' 'r' 'e' 'x'
def ccTrak : FourCC := .ofChars 't' 'r' 'a' 'k'
def ccTkhd : FourCC := .ofChars 't' 'k' 'h' 'd'
def ccMdia : FourCC := .ofChars 'm' 'd' 'i' 'a'
def ccMdhd : FourCC := .ofChars 'm' 'd' 'h' 'd'
def ccHdlr : FourCC := .ofChars 'h' 'd' 'l' 'r'
def ccMinf : FourCC := .ofChars 'm' 'i' 'n' 'f'
def ccVmhd : FourCC := .ofChars 'v' 'm' 'h' 'd'
def ccSmhd : FourCC := .ofChars 's' 'm' 'h' 'd'
def ccDinf : FourCC := .ofChars 'd' 'i' 'n' 'f'
def ccDref : FourCC := .ofChars 'd' 'r' 'e' 'f'
def ccUrl : FourCC := .ofChars 'u' 'r' 'l' ' '
def ccMoof : FourCC := .ofChars 'm' 'o' 'o' 'f'
def ccMfhd : FourCC := .ofChars 'm' 'f' 'h' 'd'
def ccTraf : FourCC := .ofChars 't' 'r' 'a' 'f'
def ccTfhd : FourCC := .ofChars 't' 'f' 'h' 'd'
def ccTfdt : FourCC := .ofChars 't' 'f' 'd' 't'
def ccTrun : FourCC := .ofChars 't' 'r' 'u' 'n'
def ccMdat : FourCC := .ofChars 'm' 'd' 'a' 't'
def ccStbl : FourCC := .ofChars 's' 't' 'b' 'l'
def ccStsd : FourCC := .ofChars 's' 't' 's' 'd'
def ccStts : FourCC := .ofChars 's' 't' 't' 's'
def ccStsc : FourCC := .ofChars 's' 't' 's' 'c'
def ccStsz : FourCC := .ofChars 's' 't' 's' 'z'
def ccCo64 : FourCC := .ofChars 'c' 'o' '6' '4'
def ccStco : FourCC := .ofChars 's' 't' 'c' 'o'
def ccStss : FourCC := .ofChars 's' 't' 's' 's'
def ccCtts : FourCC := .ofChars 'c' 't' 't' 's'
def ccVide : FourCC := .ofChars 'v' 'i' 'd' 'e'
def ccSoun : FourCC := .ofChars 's' 'o' 'u' 'n'
def ccHint : FourCC := .ofChars 'h' 'i' 'n' 't'
def ccMp4a : FourCC := .ofChars 'm' 'p' '4' 'a'
def ccEsds : FourCC := .ofChars 'e' 's' 'd' 's'

/-- `size(4) + fourcc(4) + content`, the size truncated to 32 bits. -/
def makeBox (cc : FourCC) (content : Bytes) : Bytes :=
  be 4 (content.length + 8) ++ (cc.bytes ++ content)

@[simp] theorem makeBox_length (cc : FourCC) (content : Bytes) :
    (makeBox cc content).length = content.length + 8 := by
  simp only [makeBox, length_append, be_length, FourCC.bytes_length]
  omega

def boxes (l : List (FourCC × Bytes)) : Bytes := l.flatMap fun b => makeBox b.1 b.2

@[simp] theorem boxes_nil : boxes [] = [] := rfl

@[simp] theorem boxes_cons (b : FourCC × Bytes) (l : List (FourCC × Bytes)) :
    boxes (b :: l) = makeBox b.1 b.2 ++ boxes l := rfl

theorem boxes_append (l r : List (FourCC × Bytes)) : boxes (l ++ r) = boxes l ++ boxes r := by
  simp [boxes]

theorem makeBox_length_le_of_mem {b : FourCC × Bytes} {l : List (FourCC × Bytes)} (h : b ∈ l) :
    (makeBox b.1 b.2).length ≤ (boxes l).length := by
  obtain ⟨s, t, rfl⟩ := append_of_mem h
  rw [boxes_append, boxes_cons]
  simp only [length_append]
  omega

theorem holds_makeBox {data content : Bytes} {off : Nat} {cc : FourCC} :
    Holds data off (makeBox cc content) ↔
      Holds data off (be 4 (content.length + 8)) ∧ Holds data (off + 4) cc.bytes ∧
        Holds data (off + 8) content := by
  simp [makeBox, holds_append, Nat.add_assoc]

/-! ## Reading a sequence of boxes -/

/-- Split a byte string into boxes; `none` if a size is below 8 or runs past
the end. -/
def readBoxesAux : (fuel : Nat) → Bytes → Option (List (FourCC × Bytes))
  | _, [] => some []
  | fuel + 1, s₀ :: s₁ :: s₂ :: s₃ :: a :: b :: c :: d :: rest =>
    let size := beVal [s₀, s₁, s₂, s₃]
    if 8 ≤ size ∧ size - 8 ≤ rest.length then
      (readBoxesAux fuel (rest.drop (size - 8))).map ((⟨a, b, c, d⟩, rest.take (size - 8)) :: ·)
    else none
  | _, _ => none

def readBoxes (bs : Bytes) : Option (List (FourCC × Bytes)) := readBoxesAux bs.length bs

def childBody (cc : FourCC) (l : List (FourCC × Bytes)) : Option Bytes :=
  (l.find? fun b => b.1 = cc).map (·.2)

theorem readBoxesAux_makeBox {fuel : Nat} {cc : FourCC} {content tail : Bytes}
    (h : content.length + 8 < 2 ^ 32) :
    readBoxesAux (fuel + 1) (makeBox cc content ++ tail)
      = (readBoxesAux fuel tail).map ((cc, content) :: ·) := by
  obtain ⟨s₀, s₁, s₂, s₃, hs⟩ : ∃ s₀ s₁ s₂ s₃, be 4 (content.length + 8) = [s₀, s₁, s₂, s₃] :=
    ⟨_, _, _, _, rfl⟩
  have hsize : beVal [s₀, s₁, s₂, s₃] = content.length + 8 := by
    rw [← hs]
    exact beVal_be_of_lt h
  rw [makeBox, hs]
  show (if 8 ≤ beVal [s₀, s₁, s₂, s₃] ∧
        beVal [s₀, s₁, s₂, s₃] - 8 ≤ (content ++ tail).length then
      (readBoxesAux fuel ((content ++ tail).drop (beVal [s₀, s₁, s₂, s₃] - 8))).map
        ((cc, (content ++ tail).take (beVal [s₀, s₁, s₂, s₃] - 8)) :: ·)
    else none) = _
  rw [hsize, if_pos (by simp), Nat.add_sub_cancel, drop_left, take_left]

theorem head_of_readBoxes {s₀ s₁ s₂ s₃ a b c d : UInt8} {rest : Bytes} {x : FourCC × Bytes}
    (h : (readBoxes (s₀ :: s₁ :: s₂ :: s₃ :: a :: b :: c :: d :: rest)).bind List.head? = some x) :
    x.1 = ⟨a, b, c, d⟩ := by
  simp only [readBoxes, length_cons, readBoxesAux] at h
  split at h
  · rw [Option.bind_map, Option.bind_eq_some_iff] at h
    obtain ⟨l, -, hl⟩ := h
    cases hl
    rfl
  · cases h

/-- **Round trip.** A written sequence of boxes reads back, if each fits its
32-bit size field. -/
theorem readBoxes_boxes {l : List (FourCC × Bytes)}
    (h : ∀ b ∈ l, b.2.length + 8 < 2 ^ 32) : readBoxes (boxes l) = some l := by
  have haux : ∀ l fuel, l.length ≤ fuel →
      (∀ b ∈ l, b.2.length + 8 < 2 ^ 32) → readBoxesAux fuel (boxes l) = some l := by
    intro l
    induction l with
    | nil => intro fuel _ _; cases fuel <;> rfl
    | cons b l ih =>
      intro fuel hf hb
      cases fuel with
      | zero => simp at hf
      | succ fuel =>
        rw [boxes_cons, readBoxesAux_makeBox (hb b (mem_cons_self ..)),
          ih fuel (by simpa using hf) fun x hx => hb x (mem_cons_of_mem _ hx)]
        rfl
  refine haux l _ ?_ h
  clear h haux
  induction l with
  | nil => simp
  | cons b l ih =>
    simp only [length_cons, boxes_cons, length_append, makeBox_length]
    omega

end Nozdormu.Bmff
