import Mathlib.Data.Rat.Floor
import Nozdormu.Proxy.Negotiation

/-!
# The size of an intermediate image

`calculate_dimensions` (`cdn-image/src/processor.rs`), behind `clamp`. Ratios and rounding are exact
here.
-/

namespace Nozdormu.Proxy

/-- `f64::round` of what is not negative, and `as u32` -/
def roundU32 (x : ℚ) : Nat := min ⌊x + 1 / 2⌋₊ (2 ^ 32 - 1)

/-- A side after `clamp` and `effective_width` or `effective_height`; no ratio is a NaN, and that is
0 as `u32`. -/
def effectiveSide (limit : UInt32) (dpr : Option ℚ) (side : UInt32) : Nat :=
  dpr.elim 0 fun dpr => roundU32 (min side.toNat ⌊limit.toNat / dpr⌋₊ * dpr)

structure CropRect where
  (x y width height : Nat)

/-- The factor for both sides; `fill` has none. -/
def ResizeFit.scale (ratioW ratioH : ℚ) : ResizeFit → Option ℚ
  | .contain => some (min ratioW ratioH)
  | .inside => some (min (min ratioW ratioH) 1)
  | .cover => some (max ratioW ratioH)
  | .outside => some (min (max ratioW ratioH) 1)
  | .fill => none

def calculateDimensions (origW origH : Nat) (targetW targetH : Option Nat) (fit : ResizeFit) :
    Nat × Nat × Option CropRect :=
  let tw := targetW.getD origW
  let th := targetH.getD origH
  if tw = 0 ∨ th = 0 ∨ origW = 0 ∨ origH = 0 then (max origW 1, max origH 1, none)
  else
    match fit.scale (tw / origW) (th / origH) with
    | some scale =>
      let w := roundU32 (origW * scale)
      let h := roundU32 (origH * scale)
      let crops := (fit = .cover ∨ fit = .outside) ∧ targetW.isSome ∧ targetH.isSome ∧
        (tw < w ∨ th < h)
      (max w 1, max h 1, if crops then some ⟨(w - tw) / 2, (h - th) / 2, min tw w,
        min th h⟩ else none)
    | none => (tw, th, none)

theorem roundU32_le {x : ℚ} {n : Nat} (h : x ≤ n) : roundU32 x ≤ n := by
  refine (min_le_left _ _).trans (Nat.lt_succ_iff.1 ((Nat.floor_lt' (Nat.succ_ne_zero n)).2 ?_))
  push_cast
  linarith

theorem roundU32_mono : Monotone roundU32 :=
  fun _ _ h => min_le_min_right _ (Nat.floor_mono (add_le_add_left h _))

theorem target_le (limit : UInt32) {dpr : Option ℚ} (hdpr : ∀ d ∈ dpr, 1 ≤ d) (side : Option UInt32)
    (orig : Nat) : (side.map (effectiveSide limit dpr)).getD orig ≤ max limit.toNat orig := by
  cases side with
  | none => exact le_max_right _ _
  | some side =>
    refine le_trans ?_ (le_max_left _ _)
    cases dpr with
    | none => exact Nat.zero_le _
    | some dpr =>
      have hpos : 0 < dpr := zero_lt_one.trans_le (hdpr dpr rfl)
      refine roundU32_le ((le_div_iff₀ hpos).1 ?_)
      exact (Nat.cast_le.2 (min_le_right _ _)).trans (Nat.floor_le (by positivity))

section

variable {orig t limit : Nat} (horig : orig ≠ 0) (ht : t ≤ max limit orig) (hlimit : 1 ≤ limit)
include horig ht hlimit

theorem scaled_le {scale : ℚ} (h : scale ≤ t / orig ∨ scale ≤ 1) :
    max (roundU32 (orig * scale)) 1 ≤ max limit orig := by
  have hpos : (0 : ℚ) < orig := Nat.cast_pos.2 (Nat.pos_of_ne_zero horig)
  refine max_le ?_ (hlimit.trans (le_max_left _ _))
  rcases h with h | h
  · exact (roundU32_le ((le_div_iff₀' hpos).1 h)).trans ht
  · exact (roundU32_le (mul_le_of_le_one_right hpos.le h)).trans (le_max_right _ _)

theorem covered_le_iff (ratio : ℚ) :
    max (roundU32 (orig * max ratio (t / orig))) 1 ≤ max limit orig ↔
    roundU32 (orig * ratio) ≤ max limit orig := by
  have hself := scaled_le horig ht hlimit (.inl le_rfl)
  rw [mul_max_of_nonneg _ _ (Nat.cast_nonneg _), roundU32_mono.map_max]
  omega

end

/-- **The intermediate image** is no larger than the limit or the original, except with `cover`,
where the side that needs the larger factor decides for both. -/
theorem dimensions_le_iff (config : ImageOptimizationConfig) (hw : 1 ≤ config.maxWidth.toNat)
    (hh : 1 ≤ config.maxHeight.toNat) (origW origH : Nat) (width height : Option UInt32)
    (dpr : Option ℚ) (hdpr : ∀ d ∈ dpr, 1 ≤ d) (fit : ResizeFit) :
    let targetW := width.map (effectiveSide config.maxWidth dpr)
    let targetH := height.map (effectiveSide config.maxHeight dpr)
    let size := calculateDimensions origW origH targetW targetH fit
    let tw := targetW.getD origW
    let th := targetH.getD origH
    (size.1 ≤ max config.maxWidth.toNat origW ∧ size.2.1 ≤ max config.maxHeight.toNat origH) ↔
      (fit = .cover → tw ≠ 0 ∧ th ≠ 0 ∧ origW ≠ 0 ∧ origH ≠ 0 →
        roundU32 (origW * (th / origH)) ≤ max config.maxWidth.toNat origW ∧
        roundU32 (origH * (tw / origW)) ≤ max config.maxHeight.toNat origH) := by
  intro targetW targetH size tw th
  have htw : tw ≤ max config.maxWidth.toNat origW := target_le _ hdpr width origW
  have hth : th ≤ max config.maxHeight.toNat origH := target_le _ hdpr height origH
  by_cases hzero : tw = 0 ∨ th = 0 ∨ origW = 0 ∨ origH = 0
  · have hsize : size = (max origW 1, max origH 1, none) := if_pos hzero
    rw [hsize]
    refine iff_of_true ⟨?_, ?_⟩ (by tauto) <;> dsimp only <;> omega
  have hsize : size = _ := if_neg hzero
  rw [hsize]
  push Not at hzero
  obtain ⟨-, -, hw0, hh0⟩ := id hzero
  cases fit with
  | contain => exact iff_of_true ⟨scaled_le hw0 htw hw (.inl (min_le_left _ _)),
      scaled_le hh0 hth hh (.inl (min_le_right _ _))⟩ nofun
  | inside | outside => exact iff_of_true ⟨scaled_le hw0 htw hw (.inr (min_le_right _ _)),
      scaled_le hh0 hth hh (.inr (min_le_right _ _))⟩ nofun
  | fill => exact iff_of_true ⟨htw, hth⟩ nofun
  | cover =>
    have hwidth := covered_le_iff hw0 htw hw (th / origH)
    rw [max_comm (th / origH : ℚ)] at hwidth
    refine (and_congr hwidth (covered_le_iff hh0 hth hh (tw / origW))).trans ?_
    simp [hzero]

/-- The size of a banner of 1000 by 10 pixels that is to fill a square of 4096. -/
def bannerSize (fit : ResizeFit) : Nat × Nat × Option CropRect :=
  calculateDimensions 1000 10 (some (effectiveSide 4096 (some 1) 4096))
    (some (effectiveSide 4096 (some 1) 4096)) fit

theorem dimensions_le_iff_contain : (bannerSize .contain).1 ≤ 4096 :=
  ((dimensions_le_iff {} (by decide) (by decide) 1000 10 (some 4096) (some 4096) (some 1)
    (by simp) .contain).2 nofun).1

theorem dimensions_cover_fails : (bannerSize .cover).1 = 409600 := by decide +kernel

end Nozdormu.Proxy
