import Nozdormu.Ingest.Aac
import Nozdormu.Packaging.InitSegment

/-!
# H.264 configuration

`cdn-ingest/src/codec/h264.rs`: the AVCDecoderConfigurationRecord of an RTMP sequence header,
the picture size its first SPS gives, and the sample description written from it.
-/

namespace Nozdormu.Ingest

open Rust Bmff Packaging

inductive ChromaFormat where
  | monochrome
  | yuv420
  | yuv422
  | yuv444
  | invalid
deriving DecidableEq, Repr

structure FrameCropping where
  leftOffset : UInt32
  rightOffset : UInt32
  topOffset : UInt32
  bottomOffset : UInt32
deriving DecidableEq, Repr

/-- The fields of an SPS that the picture size depends on. -/
structure SeqParameterSet where
  picWidthInMbsMinus1 : UInt32
  picHeightInMapUnitsMinus1 : UInt32
  /-- `FrameMbsFlags::Frames` -/
  isFrameMbs : Bool
  frameCropping : Option FrameCropping
  chromaFormat : ChromaFormat
deriving DecidableEq, Repr

/-- `decode_nal` and `SeqParameterSet::from_bits`; the error is the text of the message. -/
abbrev SpsDecoder := Bytes → Except String SeqParameterSet

namespace SeqParameterSet

variable (s : SeqParameterSet)

def fieldFactor : Nat := if s.isFrameMbs then 1 else 2

def cropUnitX : Nat :=
  match s.chromaFormat with
  | .monochrome => 1
  | .yuv420 => 2
  | .yuv422 => 2
  | .yuv444 => 1
  | .invalid => 1

def cropUnitY : Nat :=
  (match s.chromaFormat with
    | .monochrome => 1
    | .yuv420 => 2
    | _ => 1) * s.fieldFactor

/-- A margin of the cropping rectangle, in luma samples. -/
def cropMargin (p : Profile) (s : SeqParameterSet) (offset : FrameCropping → UInt32) (unit : Nat) :
    Exec IngestError Nat :=
  match s.frameCropping with
  | some crop => p.mul 32 (offset crop).toNat unit
  | none => return 0

def dimensions (p : Profile) (s : SeqParameterSet) : Exec IngestError (Nat × Nat) := do
  let mbs ← p.add 32 s.picWidthInMbsMinus1.toNat 1
  let width ← p.mul 32 mbs 16
  let mapUnits ← p.add 32 s.picHeightInMapUnitsMinus1.toNat 1
  let rows ← p.mul 32 mapUnits 16
  let height ← p.mul 32 rows s.fieldFactor
  let cropLeft ← s.cropMargin p FrameCropping.leftOffset s.cropUnitX
  let cropRight ← s.cropMargin p FrameCropping.rightOffset s.cropUnitX
  let cropTop ← s.cropMargin p FrameCropping.topOffset s.cropUnitY
  let cropBottom ← s.cropMargin p FrameCropping.bottomOffset s.cropUnitY
  let finalWidth ← p.sub 32 (← p.sub 32 width cropLeft) cropRight
  let finalHeight ← p.sub 32 (← p.sub 32 height cropTop) cropBottom
  return (finalWidth, finalHeight)

end SeqParameterSet

def parseSpsDimensions (p : Profile) (decode : SpsDecoder) (sps : Bytes) :
    Exec IngestError (Nat × Nat) := do
  ensure (sps ≠ []) (.codec "empty SPS")
  match decode sps with
  | .error what => fail (.codec what)
  | .ok parsed => parsed.dimensions p

structure H264Config where
  sps : Bytes
  pps : Bytes
  width : Nat
  height : Nat
  profile : UInt8
  level : UInt8
  timescale : UInt32
deriving DecidableEq, Repr

/-- What `from_avcc` takes out of the record before it looks at the SPS. -/
structure AvccRecord where
  profile : UInt8
  level : UInt8
  sps : Bytes
  pps : Bytes
deriving DecidableEq, Repr

def readU16 (data : Bytes) (offset : Nat) : Exec IngestError Nat := do
  let high ← index data offset
  let low ← index data (offset + 1)
  return beVal [high, low]

/-- Skip the remaining SPS entries, or stop where the record ends. -/
def skipSps (data : Bytes) : (entries offset : Nat) → Exec IngestError Nat
  | 0, offset => return offset
  | n + 1, offset => do
    if data.length < offset + 2 then return offset
    else
      let len ← readU16 data offset
      skipSps data n (offset + 2 + len)

/-- Offsets are `usize` and at most 32 lengths of 16 bits beyond the end of the slice, so their
sums do not overflow. -/
def readAvcc (data : Bytes) : Exec IngestError AvccRecord := do
  ensure (8 ≤ data.length) (.codec "AVCDecoderConfigurationRecord too short")
  let profile ← index data 1
  let level ← index data 3
  let numSps := (← index data 5) &&& 0x1F
  ensure (numSps ≠ 0) (.codec "no SPS in AVCC")
  ensure (6 + 2 ≤ data.length) (.codec "AVCC truncated at SPS length")
  let spsLen ← readU16 data 6
  ensure (8 + spsLen ≤ data.length) (.codec "AVCC truncated at SPS data")
  let sps ← slice data 8 (8 + spsLen)
  let offset ← skipSps data (numSps.toNat - 1) (8 + spsLen)
  ensure (offset < data.length) (.codec "AVCC truncated at PPS count")
  let numPps ← index data offset
  ensure (numPps ≠ 0) (.codec "no PPS in AVCC")
  ensure (offset + 1 + 2 ≤ data.length) (.codec "AVCC truncated at PPS length")
  let ppsLen ← readU16 data (offset + 1)
  ensure (offset + 3 + ppsLen ≤ data.length) (.codec "AVCC truncated at PPS data")
  let pps ← slice data (offset + 3) (offset + 3 + ppsLen)
  return { profile, level, sps, pps }

def fromAvcc (p : Profile) (decode : SpsDecoder) (data : Bytes) : Exec IngestError H264Config := do
  let record ← readAvcc data
  let (width, height) ← parseSpsDimensions p decode record.sps
  return { sps := record.sps, pps := record.pps, width, height, profile := record.profile
           level := record.level, timescale := 90000 }

def ccAvcC : FourCC := .ofChars 'a' 'v' 'c' 'C'
def ccAvc1 : FourCC := .ofChars 'a' 'v' 'c' '1'

variable (c : H264Config)

def H264Config.avccContent : Bytes :=
  [1, c.profile, 0, c.level, 0xFF, 0xE1] ++ be 2 c.sps.length ++ c.sps ++ [1]
    ++ be 2 c.pps.length ++ c.pps

def H264Config.buildAvc1Entry : Bytes :=
  makeBox ccAvc1 (zeros 6 ++ be 2 1 ++ zeros 16 ++ be 2 c.width ++ be 2 c.height
    ++ be 4 0x00480000 ++ be 4 0x00480000 ++ be 4 0 ++ be 2 1 ++ zeros 32 ++ be 2 0x0018
    ++ be 2 0xFFFF ++ makeBox ccAvcC c.avccContent)

def H264Config.buildStsdData : Bytes := be 4 0 ++ be 4 1 ++ c.buildAvc1Entry

def H264Config.liveTrack : LiveTrackInfo :=
  { trackId := 1, trackType := .video, timescale := c.timescale
    width := some (UInt32.ofNat c.width), height := some (UInt32.ofNat c.height)
    stsdData := c.buildStsdData }

/-! ## Where it faults -/

variable {data : Bytes}

theorem index_getD {k : Nat} (h : k < data.length) :
    (index data k : Exec IngestError UInt8) = .ok (data.getD k 0) := by
  rw [index, List.getD_eq_getElem?_getD, List.getElem?_eq_getElem h]
  rfl

theorem noFault_readU16_bind {offset : Nat} {α : Type} {f : Nat → Exec IngestError α}
    (h : offset + 2 ≤ data.length) (hf : ∀ n, NoFault (f n)) :
      NoFault (readU16 data offset >>= f) := by
  rw [readU16, index_ok (by omega), ok_bind, index_ok (by omega), ok_bind]
  exact hf _

theorem noFault_skipSps : ∀ {n offset : Nat}, NoFault (skipSps data n offset) := by
  intro n
  induction n with
  | zero => intro offset; exact noFault_ok _
  | succ n ih =>
    intro offset
    unfold skipSps
    split
    next => exact noFault_ok _
    next h => exact noFault_readU16_bind (by omega) fun _ => ih

theorem noFault_readAvcc (data : Bytes) : NoFault (readAvcc data) := by
  refine noFault_ensure_bind.2 fun hlen => ?_
  simp (disch := omega) only [index_ok, ok_bind]
  refine noFault_ensure_bind.2 fun _ => noFault_ensure_bind.2 fun _ => ?_
  refine noFault_readU16_bind (by omega) fun spsLen => noFault_ensure_bind.2 fun hsps => ?_
  rw [slice_ok (by omega) hsps, ok_bind]
  refine noFault_bind.2 ⟨noFault_skipSps, fun offset _ => noFault_ensure_bind.2 fun hoff => ?_⟩
  rw [index_ok hoff, ok_bind]
  refine noFault_ensure_bind.2 fun _ => noFault_ensure_bind.2 fun hpps => ?_
  refine noFault_readU16_bind (by omega) fun ppsLen => noFault_ensure_bind.2 fun hend => ?_
  rw [slice_ok (by omega) hend, ok_bind]
  exact noFault_ok _

namespace SeqParameterSet

variable (s : SeqParameterSet)

/-- A margin, computed without bounds. -/
def margin (offset : FrameCropping → UInt32) (unit : Nat) : Nat :=
  match s.frameCropping with
  | some crop => (offset crop).toNat * unit
  | none => 0

/-- The picture size can be computed in 32 bits: no product overflows, and the margins are not
wider than the picture. -/
def Fits : Prop :=
  (s.picWidthInMbsMinus1.toNat + 1) * 16 < 2 ^ 32 ∧
  (s.picHeightInMapUnitsMinus1.toNat + 1) * 16 * s.fieldFactor < 2 ^ 32 ∧
  s.margin FrameCropping.leftOffset s.cropUnitX < 2 ^ 32 ∧
  s.margin FrameCropping.rightOffset s.cropUnitX < 2 ^ 32 ∧
  s.margin FrameCropping.topOffset s.cropUnitY < 2 ^ 32 ∧
  s.margin FrameCropping.bottomOffset s.cropUnitY < 2 ^ 32 ∧
  s.margin FrameCropping.leftOffset s.cropUnitX + s.margin FrameCropping.rightOffset s.cropUnitX
    ≤ (s.picWidthInMbsMinus1.toNat + 1) * 16 ∧
  s.margin FrameCropping.topOffset s.cropUnitY + s.margin FrameCropping.bottomOffset s.cropUnitY
    ≤ (s.picHeightInMapUnitsMinus1.toNat + 1) * 16 * s.fieldFactor

theorem spec_cropMargin {s : SeqParameterSet} {offset : FrameCropping → UInt32} {unit : Nat} :
    Spec (s.cropMargin .dev offset unit) (s.margin offset unit < 2 ^ 32)
      fun m => m = s.margin offset unit := by
  unfold cropMargin margin
  cases s.frameCropping with
  | none => exact .of_ok rfl (Nat.two_pow_pos 32) rfl
  | some crop => exact spec_mul

theorem returnsIff_dimensions : ReturnsIff (s.dimensions .dev) s.Fits := by
  have hfactor : 1 ≤ s.fieldFactor := by
    unfold fieldFactor
    split <;> omega
  have hsize : ∀ a b : Nat, Spec (pure (a, b) : Exec IngestError (Nat × Nat)) True fun _ => True :=
    fun a b => .of_ok rfl trivial trivial
  refine ReturnsIff.congr (Spec.toReturnsIff (
    spec_add.bind_eq fun _ => spec_mul.bind_eq fun _ => spec_add.bind_eq fun _ =>
    spec_mul.bind_eq fun _ => spec_mul.bind_eq fun _ => spec_cropMargin.bind_eq fun _ =>
    spec_cropMargin.bind_eq fun _ => spec_cropMargin.bind_eq fun _ =>
    spec_cropMargin.bind_eq fun _ => spec_sub.bind_eq fun _ => spec_sub.bind_eq fun _ =>
    spec_sub.bind_eq fun _ => spec_sub.bind_eq fun _ => hsize _ _)) ?_
  unfold Fits
  -- the last product bounds those before it
  have hrows : (s.picHeightInMapUnitsMinus1.toNat + 1) * 16
      ≤ (s.picHeightInMapUnitsMinus1.toNat + 1) * 16 * s.fieldFactor :=
    Nat.le_mul_of_pos_right _ hfactor
  generalize (s.picHeightInMapUnitsMinus1.toNat + 1) * 16 * s.fieldFactor = height at *
  simp only [and_true]
  omega

end SeqParameterSet

/-- With overflow checks, the picture size of an SPS that the decoder reads can be computed. -/
def SpsFits (p : Profile) (decode : SpsDecoder) (sps : Bytes) : Prop :=
  p = .dev → sps ≠ [] → ∀ parsed, decode sps = .ok parsed → parsed.Fits

theorem returns_dimensions_release (s : SeqParameterSet) : Returns (s.dimensions .release) := by
  have hmargin : ∀ offset unit, Returns (s.cropMargin .release offset unit) := by
    intro offset unit
    unfold SeqParameterSet.cropMargin
    split
    · exact returns_release_mul ..
    · exact ⟨0, rfl⟩
  refine (returns_release_add ..).bind fun _ _ => (returns_release_mul ..).bind fun _ _ => ?_
  refine (returns_release_add ..).bind fun _ _ => (returns_release_mul ..).bind fun _ _ => ?_
  refine (returns_release_mul ..).bind fun _ _ => (hmargin ..).bind fun _ _ => ?_
  refine (hmargin ..).bind fun _ _ => (hmargin ..).bind fun _ _ => (hmargin ..).bind fun _ _ => ?_
  refine (returns_release_sub ..).bind fun _ _ => (returns_release_sub ..).bind fun _ _ => ?_
  refine (returns_release_sub ..).bind fun _ _ => (returns_release_sub ..).bind fun _ _ => ?_
  exact ⟨_, rfl⟩

variable {p : Profile} {decode : SpsDecoder}

theorem noFault_parseSpsDimensions {sps : Bytes} :
    NoFault (parseSpsDimensions p decode sps) ↔ SpsFits p decode sps := by
  unfold parseSpsDimensions SpsFits
  rw [noFault_ensure_bind]
  cases p with
  | release =>
    refine iff_of_true (fun _ => ?_) (fun h => by cases h)
    split
    next => exact noFault_fail _
    next parsed _ => exact (returns_dimensions_release parsed).noFault
  | dev =>
    rw [forall_prop_of_true rfl]
    refine imp_congr_right fun _ => ?_
    split
    next what h => exact iff_of_true (noFault_fail _) fun parsed hp => by cases h.symm.trans hp
    next parsed h =>
      rw [(parsed.returnsIff_dimensions).noFault_iff]
      exact ⟨fun hfits q hq => ok_unique h hq ▸ hfits, fun hall => hall parsed h⟩

theorem noFault_fromAvcc : NoFault (fromAvcc p decode data) ↔
      ∀ record, readAvcc data = .ok record → SpsFits p decode record.sps := by
  unfold fromAvcc
  rw [noFault_bind, and_iff_right (noFault_readAvcc data)]
  refine forall_congr' fun record => imp_congr_right fun _ => ?_
  rw [noFault_bind, noFault_parseSpsDimensions]
  exact and_iff_left fun _ _ => noFault_ok _

end Nozdormu.Ingest
