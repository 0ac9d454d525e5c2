import Nozdormu.Packaging.Mp4Parse

/-!
# Searching well-formed containers

On a container that really is a sequence of boxes, the parser's offset arithmetic is
an ordinary lookup: `AtomIter.next` steps from box to box (`next_makeBox`), and
`find_atom` finds the first box of a type, its body in the right place
(`child_of_childBody`), or none (`child_of_childBody_none`). Nothing overflows while
the buffer is below 4 GiB, in either profile.
-/

namespace Nozdormu.Packaging

open Rust Bmff List

/-- The buffer has `body` where the atom's data is. -/
structure AtomAt (data : Bytes) (a : Atom) (body : Bytes) : Prop where
  holds : Holds data a.dataStart body
  dataEnd : a.dataEnd = a.dataStart + body.length

theorem AtomAt.slice {ε : Type} {data body : Bytes} {a : Atom} (h : AtomAt data a body) :
    (slice data a.dataStart a.dataEnd : Exec ε Bytes) = .ok body :=
  h.holds.slice h.dataEnd

section Fields

variable {p : Profile} {d : Bytes} {off : Nat}

theorem readBe_eq (p : Profile) {n : Nat} (hd : d.length < 2 ^ 63) (h : off + n ≤ d.length) :
    readBe p n d off = .ok (beVal ((d.drop off).take n)) := by
  rw [readBe, add_ok p (by omega), ok_bind, if_neg (by omega)]
  rfl

theorem readU32_holds {v : UInt32} (hd : d.length < 2 ^ 63) (h : Holds d off (be 4 v.toNat)) :
    readU32 p d off = .ok v := by
  have hle := h.le
  rw [be_length] at hle
  have hv : v.toNat % 256 ^ 4 = v.toNat := Nat.mod_eq_of_lt v.toNat_lt
  rw [readU32, readBe_eq p hd hle, ok_bind, h.beVal, hv, UInt32.ofNat_toNat]
  rfl

theorem readFourcc_eq (p : Profile) (hd : d.length < 2 ^ 63) (h : off + 4 ≤ d.length) :
    ∃ cc, readFourcc p d off = .ok cc ∧ (d.drop off).take 4 = cc.bytes := by
  have hlen : ((d.drop off).take 4).length = 4 := by
    rw [length_take, length_drop]
    omega
  rw [readFourcc, add_ok p (by omega), ok_bind, if_neg (by omega)]
  generalize (d.drop off).take 4 = bs at hlen
  rcases bs with _ | ⟨w, _ | ⟨x, _ | ⟨y, _ | ⟨z, _ | ⟨_, _⟩⟩⟩⟩⟩
  case cons.cons.cons.cons.nil => exact ⟨⟨w, x, y, z⟩, rfl, rfl⟩
  all_goals simp at hlen

theorem readFourcc_holds {cc : FourCC} (hd : d.length < 2 ^ 63) (h : Holds d off cc.bytes) :
    readFourcc p d off = .ok cc := by
  have hle := h.le
  have htake := h.take
  rw [FourCC.bytes_length] at hle htake
  rw [readFourcc, add_ok p (by omega), ok_bind, if_neg (by omega), htake]
  rfl

end Fields

/-! ## Stepping from box to box -/

variable {p : Profile} {data : Bytes}

theorem next_makeBox {off stop : Nat} {cc : FourCC} {body : Bytes} (hd : data.length < 2 ^ 32)
    (h : Holds data off (makeBox cc body)) (hstop : off + (8 + body.length) ≤ stop)
    (hlen : stop ≤ data.length) :
    (⟨data, off, stop⟩ : AtomIter).next p = .ok (some (⟨cc, 8, off + 8, off + (8 + body.length)⟩,
          ⟨data, off + (8 + body.length), stop⟩)) := by
  obtain ⟨hsize, hcc, -⟩ := holds_makeBox.1 h
  have hv : (UInt32.ofNat (body.length + 8)).toNat = body.length + 8 := by
    rw [UInt32.toNat_ofNat', Nat.mod_eq_of_lt (by omega)]
  rw [← hv] at hsize
  have hext : (⟨data, off, stop⟩ : AtomIter).extent p (body.length + 8)
      = .ok (8, body.length + 8) := by
    rfl
  have hcomm : off + (body.length + 8) = off + (8 + body.length) := by omega
  simp only [AtomIter.next]
  rw [add_ok p (by omega), ok_bind, if_neg (by omega), readU32_holds (by omega) hsize, ok_bind,
    add_ok p (by omega), ok_bind, readFourcc_holds (by omega) hcc, ok_bind, hv, hext, ok_bind]
  rw [add_ok p (by omega), ok_bind, if_neg (by omega), add_ok p (by omega), ok_bind, hcomm]
  rfl

theorem next_stop {off stop : Nat} (hoff : off + 8 < 2 ^ 64) (hstop : stop < off + 8) :
    (⟨data, off, stop⟩ : AtomIter).next p = .ok none := by
  simp only [AtomIter.next]
  rw [add_ok p hoff, ok_bind, if_pos hstop]
  rfl

theorem findAtomLoop_boxes (hd : data.length < 2 ^ 32) {target : FourCC} {stop : Nat}
    (hstop : stop ≤ data.length) : ∀ (l : List (FourCC × Bytes)) {off fuel : Nat},
    l.length < fuel → Holds data off (boxes l) → stop = off + (boxes l).length →
    (∀ body, childBody target l = some body →
      ∃ a, findAtomLoop p target fuel ⟨data, off, stop⟩ = .ok (some a) ∧ AtomAt data a body) ∧
    (childBody target l = none → findAtomLoop p target fuel ⟨data, off, stop⟩ = .ok none) := by
  intro l
  induction l with
  | nil =>
    intro off fuel hfuel _ hend
    obtain ⟨fuel, rfl⟩ := Nat.exists_eq_add_of_lt hfuel
    refine ⟨nofun, fun _ => ?_⟩
    obtain rfl : off = stop := by simpa using hend.symm
    rw [findAtomLoop, next_stop (by omega) (by omega)]
    rfl
  | cons b l ih =>
    intro off fuel hfuel hold hend
    obtain ⟨cc, body⟩ := b
    obtain ⟨fuel, rfl⟩ := Nat.exists_eq_add_of_lt hfuel
    rw [boxes_cons, holds_append] at hold
    obtain ⟨(hbox : Holds data off (makeBox cc body)), hrest⟩ := hold
    have hlen : (makeBox cc body).length = 8 + body.length := by rw [makeBox_length]; omega
    rw [boxes_cons, length_append, hlen] at hend
    rw [hlen] at hrest
    have hnext := next_makeBox (p := p) hd hbox (by omega) hstop
    rw [findAtomLoop, hnext, ok_bind, childBody]
    simp only
    by_cases hcc : cc = target
    · rw [if_pos hcc, List.find?_cons_of_pos (by simpa using hcc)]
      refine ⟨?_, nofun⟩
      intro body' h
      rcases h with ⟨⟩
      exact ⟨_, rfl, (holds_makeBox.1 hbox).2.2, by simp only; omega⟩
    · rw [if_neg hcc, List.find?_cons_of_neg (by simpa using hcc)]
      exact ih (by simp only [length_cons]; omega) hrest (by omega)

theorem length_le_boxes_length (l : List (FourCC × Bytes)) : l.length ≤ (boxes l).length := by
  induction l with
  | nil => exact Nat.le_refl _
  | cons b l ih =>
    rw [boxes_cons, length_append, makeBox_length, length_cons]
    omega

section Child

variable {container : Atom} {l : List (FourCC × Bytes)} {target : FourCC}

section

variable (hd : data.length < 2 ^ 32) (hc : AtomAt data container (boxes l))
include hd hc

theorem child_boxes : (∀ body, childBody target l = some body →
      ∃ a, container.child p data target = .ok (some a) ∧ AtomAt data a body) ∧
      (childBody target l = none → container.child p data target = .ok none) := by
  have hle := hc.holds.le
  have hlen := length_le_boxes_length l
  have hend := hc.dataEnd
  have hmin : min container.dataEnd data.length = container.dataEnd := by omega
  unfold Atom.child findAtom AtomIter.new
  rw [hmin]
  exact findAtomLoop_boxes hd (by omega) l (by omega) hc.holds hend

theorem child_of_childBody {body : Bytes} (h : childBody target l = some body) :
    ∃ a, container.child p data target = .ok (some a) ∧ AtomAt data a body :=
  (child_boxes hd hc).1 body h

theorem child_of_childBody_none (h : childBody target l = none) :
    container.child p data target = .ok none :=
  (child_boxes hd hc).2 h

theorem require_of_childBody {body : Bytes} (h : childBody target l = some body) (what : String) :
    ∃ a, container.require p data target what = .ok a ∧ AtomAt data a body := by
  obtain ⟨a, ha, hbody⟩ := child_of_childBody hd hc h
  refine ⟨a, ?_, hbody⟩
  rw [Atom.require, ha]
  rfl

end

end Child

end Nozdormu.Packaging
