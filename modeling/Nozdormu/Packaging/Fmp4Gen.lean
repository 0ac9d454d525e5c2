import Nozdormu.Packaging.InitSegment
import Nozdormu.Packaging.SampleTable

/-!
# Media segments

The second half of `fmp4_gen.rs`: which samples a segment or a part holds, and
the `moof` + `mdat` pair they are written as.
-/

namespace Nozdormu.Packaging

open Rust Bmff

variable {ε : Type}

/-- `index as f64 * duration * timescale as f64`, cast `as u64` (which saturates). -/
def boundaryTicks (index : Nat) (duration : Float) (timescale : UInt32) : Nat :=
  ((UInt32.ofNat index).toFloat * duration * timescale.toFloat).toUInt64.toNat

/-- Clamp a segment's end to the track, and for video move it up to the next keyframe. -/
def alignEnd (p : Profile) (track : TrackInfo) (total endSample : Nat) : Exec ε Nat := do
  let endSample := if total ≤ endSample then total else endSample
  if track.trackType = .video ∧ endSample < total then
    match track.sampleTable.stss with
    | none => return endSample
    | some stss =>
      let target ← p.add 32 endSample 1
      match syncSearch stss target with
      | .ok _ => return endSample
      | .error pos =>
        if pos < stss.length then
          let next ← index stss pos
          p.sub 32 next.toNat 1
        else return total
  else return endSample

def alignStart (p : Profile) (track : TrackInfo) (startSample : Nat) : Exec ε Nat :=
  if track.trackType = .video then nearestSyncSample p track.sampleTable.stss startSample
  else return startSample

def sampleRangeBetween (p : Profile) (track : TrackInfo) (total startTime endTime : Nat) :
    Exec ε (Nat × Nat) := do
  let startSample ← dtsToSample p track.sampleTable.stts startTime
  let startSample ← alignStart p track startSample
  let endSample ← dtsToSample p track.sampleTable.stts endTime
  let endSample ← alignEnd p track total endSample
  if endSample ≤ startSample then return (startSample, startSample)
  else return (startSample, endSample)

def segmentSampleRangeAt (p : Profile) (track : TrackInfo) (startTime endTime : Nat) :
    Exec ε (Nat × Nat) := do
  let total ← totalSamples p track.sampleTable.stts
  if total = 0 then return (0, 0)
  else sampleRangeBetween p track total startTime endTime

def segmentSampleRange (p : Profile) (track : TrackInfo) (segmentIndex : Nat)
    (segmentDuration : Float) : Exec ε (Nat × Nat) := do
  let total ← totalSamples p track.sampleTable.stts
  if total = 0 then return (0, 0)
  else
    let startTime := boundaryTicks segmentIndex segmentDuration track.timescale
    let next ← p.add 32 segmentIndex 1
    let endTime := boundaryTicks next segmentDuration track.timescale
    sampleRangeBetween p track total startTime endTime

/-- `(part_duration * timescale as f64) as u64`. -/
def partTicks (partDuration : Float) (timescale : UInt32) : Nat :=
  (partDuration * timescale.toFloat).toUInt64.toNat

/-- Where the part that starts at `currentSample` ends: at least one sample on,
and not past the segment. -/
def partEnd (p : Profile) (track : TrackInfo) (partDuration : Float)
    (segEnd currentSample : Nat) : Exec ε Nat := do
  let currentDts ← sampleToDts p track.sampleTable.stts currentSample
  let targetEndDts ← p.add 64 currentDts (partTicks partDuration track.timescale)
  let endSample ← dtsToSample p track.sampleTable.stts targetEndDts
  let endSample ← if endSample ≤ currentSample then p.add 32 currentSample 1 else pure endSample
  return if segEnd < endSample then segEnd else endSample

def partSampleRangeLoop (p : Profile) (track : TrackInfo) (partDuration : Float) (segEnd : Nat) :
    (skip currentSample : Nat) → Exec ε (Nat × Nat)
  | 0, currentSample => do
    if segEnd ≤ currentSample then return (segEnd, segEnd)
    else return (currentSample, ← partEnd p track partDuration segEnd currentSample)
  | skip + 1, currentSample => do
    if segEnd ≤ currentSample then return (segEnd, segEnd)
    else
      let endSample ← partEnd p track partDuration segEnd currentSample
      partSampleRangeLoop p track partDuration segEnd skip endSample

def partSampleRange (p : Profile) (track : TrackInfo) (segmentIndex partIndex : Nat)
    (segmentDuration partDuration : Float) : Exec ε (Nat × Nat) := do
  let (segStart, segEnd) ← segmentSampleRange p track segmentIndex segmentDuration
  if segEnd ≤ segStart then return (segStart, segStart)
  else partSampleRangeLoop p track partDuration segEnd partIndex segStart

/-! ### Ranges stay in 32 bits -/

variable {track : TrackInfo} {p : Profile}

theorem alignEnd_lt {total e n : Nat} (ht : total < 2 ^ 32)
    (h : (alignEnd p track total e : Exec ε Nat) = .ok n) : n < 2 ^ 32 := by
  have hclamp : (if total ≤ e then total else e) < 2 ^ 32 := by
    split <;> omega
  simp only [alignEnd] at h
  generalize (if total ≤ e then total else e) = c at h hclamp
  split at h
  · split at h
    · obtain rfl : c = n := by simpa using h
      exact hclamp
    obtain ⟨target, -, h⟩ := bind_eq_ok.1 h
    split at h
    · obtain rfl : c = n := by simpa using h
      exact hclamp
    · split at h
      · obtain ⟨next, -, h⟩ := bind_eq_ok.1 h
        exact lt_of_sub_eq_ok h next.toNat_lt
      · obtain rfl : total = n := by simpa using h
        exact ht
  · obtain rfl : c = n := by simpa using h
    exact hclamp

theorem sampleRangeBetween_lt {total b e : Nat} {r : Nat × Nat} (ht : total < 2 ^ 32)
    (h : (sampleRangeBetween p track total b e : Exec ε (Nat × Nat)) = .ok r) :
    r.1 ≤ r.2 ∧ r.2 < 2 ^ 32 := by
  simp only [sampleRangeBetween, bind_eq_ok] at h
  obtain ⟨s, hs, s', hs', e', -, e'', he'', h⟩ := h
  have hstart : s' < 2 ^ 32 := by
    unfold alignStart at hs'
    split at hs'
    · exact nearestSyncSample_lt (dtsToSample_lt hs) hs'
    · obtain rfl : s = s' := by simpa using hs'
      exact dtsToSample_lt hs
  split at h
  · obtain rfl : (s', s') = r := by simpa using h
    exact ⟨Nat.le_refl _, hstart⟩
  · obtain rfl : (s', e'') = r := by simpa using h
    exact ⟨by show s' ≤ e''; omega, alignEnd_lt ht he''⟩

variable {dur : Float}

theorem segmentSampleRange_lt {i : Nat}
    {r : Nat × Nat} (h : (segmentSampleRange p track i dur : Exec ε (Nat × Nat)) = .ok r) :
    r.1 ≤ r.2 ∧ r.2 < 2 ^ 32 := by
  simp only [segmentSampleRange, bind_eq_ok] at h
  obtain ⟨total, htotal, h⟩ := h
  split at h
  · obtain rfl : (0, 0) = r := by simpa using h
    decide
  · obtain ⟨next, -, h⟩ := bind_eq_ok.1 h
    rw [totalSamples_eq_add] at htotal
    exact sampleRangeBetween_lt (lt_of_add_eq_ok htotal) h

theorem partEnd_le {segEnd current e : Nat}
    (h : (partEnd p track dur segEnd current : Exec ε Nat) = .ok e) : e ≤ segEnd := by
  have hmin : ∀ {x : Nat}, (if segEnd < x then segEnd else x) = e → e ≤ segEnd := by
    intro x hx
    split at hx <;> omega
  simp only [partEnd, bind_eq_ok] at h
  obtain ⟨_, -, _, -, reach, -, h⟩ := h
  split at h
  · obtain ⟨next, -, h⟩ := bind_eq_ok.1 h
    exact hmin (by simpa using h)
  · exact hmin (by simpa using h)

theorem partSampleRangeLoop_le {segEnd : Nat} : ∀ {skip current : Nat} {r : Nat × Nat},
    (partSampleRangeLoop p track dur segEnd skip current : Exec ε (Nat × Nat)) = .ok r →
    r.2 ≤ segEnd := by
  intro skip
  induction skip with
  | zero =>
    intro current r h
    unfold partSampleRangeLoop at h
    split at h
    · obtain rfl : (segEnd, segEnd) = r := by simpa using h
      exact Nat.le_refl _
    · obtain ⟨e, he, h⟩ := bind_eq_ok.1 h
      obtain rfl : (current, e) = r := by simpa using h
      exact partEnd_le he
  | succ skip ih =>
    intro current r h
    unfold partSampleRangeLoop at h
    split at h
    · obtain rfl : (segEnd, segEnd) = r := by simpa using h
      exact Nat.le_refl _
    · obtain ⟨e, -, h⟩ := bind_eq_ok.1 h
      exact ih h

theorem partSampleRange_lt {i j : Nat} {pdur : Float}
    {r : Nat × Nat} (h : (partSampleRange p track i j dur pdur : Exec ε (Nat × Nat)) = .ok r) :
    r.2 < 2 ^ 32 := by
  simp only [partSampleRange, bind_eq_ok] at h
  obtain ⟨⟨s, e⟩, hseg, h⟩ := h
  have hle := segmentSampleRange_lt hseg
  split at h
  · obtain rfl : (s, s) = r := by simpa using h
    omega
  · have := partSampleRangeLoop_le h
    omega

structure TrunSample where
  duration : UInt32
  size : UInt32
  flags : UInt32
  ctsOffset : Int32
deriving DecidableEq, Repr

def buildMfhd (sequenceNumber : Nat) : Bytes := makeBox ccMfhd (be 4 0 ++ be 4 sequenceNumber)

/-- The only flag is default-base-is-moof. -/
def buildTfhd (trackId : UInt32) : Bytes :=
  makeBox ccTfhd (be 4 0x00020000 ++ be 4 trackId.toNat)

/-- Version 1, a 64-bit decode time. -/
def buildTfdt (baseMediaDecodeTime : Nat) : Bytes :=
  makeBox ccTfdt (be 4 0x01000000 ++ be 8 baseMediaDecodeTime)

def trunSampleBytes (s : TrunSample) : Bytes :=
  be 4 s.duration.toNat ++ (be 4 s.size.toNat ++ (be 4 s.flags.toNat ++
    be 4 s.ctsOffset.toUInt32.toNat))

/-- Version 0 with data offset and duration, size, flags and composition offset per sample. -/
def trunBody (samples : List TrunSample) (dataOffset : Nat) : Bytes :=
  be 4 0x00000F01 ++ (be 4 samples.length ++ (be 4 dataOffset ++ samples.flatMap trunSampleBytes))

def buildTrun (samples : List TrunSample) (dataOffset : Nat) : Bytes :=
  makeBox ccTrun (trunBody samples dataOffset)

def trafWithRun (trackId : UInt32) (baseDts : Nat) (samples : List TrunSample)
    (dataOffset : Nat) : Bytes :=
  makeBox ccTraf (buildTfhd trackId ++ (buildTfdt baseDts ++ buildTrun samples dataOffset))

def trafEmpty (trackId : UInt32) : Bytes := makeBox ccTraf (buildTfhd trackId)

def sampleFlags (isSync : Bool) : UInt32 := if isSync then 0x02000000 else 0x01010000

def isSyncSample (p : Profile) (stss : Option (List UInt32)) (i : Nat) : Exec ε Bool := do
  match stss with
  | none => return true
  | some stss =>
    let number ← p.add 32 i 1
    return stss.any fun k => k.toNat = number

/-- The bytes of a sample in the file; `none` if it has no location in range. -/
def sampleData (p : Profile) (mp4Data : Bytes) (table : SampleTable) (i : Nat) :
    Exec ε (Option Bytes) := do
  match ← getSampleOffset p table i with
  | none => return none
  | some (offset, sz) =>
    let stop ← p.add 64 offset sz
    if stop ≤ mp4Data.length then return some (← slice mp4Data offset stop)
    else return none

/-- One round of the sample loop of `build_traf_for_sample_range`: the run entry,
its size zeroed if the sample cannot be read, and the bytes. -/
def rangeSample (p : Profile) (mp4Data : Bytes) (table : SampleTable) (i : Nat) :
    Exec ε (TrunSample × Bytes) := do
  let duration ← getSampleDuration p table.stts i
  let size := table.stsz[i]?.getD 0
  let ctsOffset ← getCtsOffset p table.ctts i
  let isSync ← isSyncSample p table.stss i
  let flags := sampleFlags isSync
  match ← sampleData p mp4Data table i with
  | some data => return (⟨duration, size, flags, ctsOffset⟩, data)
  | none => return (⟨duration, 0, flags, ctsOffset⟩, [])

def buildTrafForSampleRange (p : Profile) (mp4Data : Bytes) (track : TrackInfo)
    (startSample endSample dataOffset : Nat) : Exec ε (Bytes × Bytes) := do
  let sampleCount := endSample - startSample
  if sampleCount = 0 then return (trafEmpty track.trackId, [])
  else
    let baseDts ← sampleToDts p track.sampleTable.stts startSample
    let samples ← (List.range' startSample sampleCount).mapM
      (rangeSample p mp4Data track.sampleTable)
    return (trafWithRun track.trackId baseDts (samples.map (·.1)) dataOffset, samples.flatMap (·.2))

def buildTrafWithOffset (p : Profile) (mp4Data : Bytes) (segmentIndex : Nat)
    (segmentDuration : Float) (track : TrackInfo) (dataOffset : Nat) :
    Exec ε (Bytes × Bytes) := do
  let (startSample, endSample) ← segmentSampleRange p track segmentIndex segmentDuration
  buildTrafForSampleRange p mp4Data track startSample endSample dataOffset

def finalTrafs {τ : Type} (p : Profile) (moofSize : Nat)
    (build : τ → Nat → Exec ε (Bytes × Bytes)) : List τ → (trackDataOffset : Nat) → Exec ε Bytes
  | [], _ => return []
  | track :: tracks, trackDataOffset => do
    let dataOffset ← p.add 32 (← p.add 32 moofSize 8) trackDataOffset
    let (traf, _) ← build track dataOffset
    let (_, trackMdat) ← build track 0
    let trackDataOffset ← p.add 32 trackDataOffset (trackMdat.length % 2 ^ 32)
    return traf ++ (← finalTrafs p moofSize build tracks trackDataOffset)

/-- `build track offset` gives a track's `traf` and its `mdat` bytes. -/
def assembleFragment {τ : Type} (p : Profile) (sequenceNumber : Nat) (tracks : List τ)
    (build : τ → Nat → Exec ε (Bytes × Bytes)) : Exec ε Bytes := do
  let mfhd := buildMfhd sequenceNumber
  let firstPass ← tracks.mapM fun track => build track 0
  let moof := makeBox ccMoof (mfhd ++ firstPass.flatMap (·.1))
  let mdat := makeBox ccMdat (firstPass.flatMap (·.2))
  let moofSize := moof.length % 2 ^ 32
  let trafs ← finalTrafs p moofSize build tracks 0
  return makeBox ccMoof (mfhd ++ trafs) ++ mdat

def generateMediaSegment (p : Profile) (mp4Data : Bytes) (metadata : Mp4Metadata)
    (segmentIndex : Nat) (segmentDuration : Float) : Exec ε Bytes := do
  let sequenceNumber ← p.add 32 segmentIndex 1
  assembleFragment p sequenceNumber metadata.tracks
    (buildTrafWithOffset p mp4Data segmentIndex segmentDuration)

def generatePartialSegment (p : Profile) (mp4Data : Bytes) (metadata : Mp4Metadata)
    (segmentIndex partIndex : Nat) (segmentDuration partDuration : Float) : Exec ε Bytes := do
  let sequenceNumber ← p.add 32 (← p.add 32 (← p.mul 32 segmentIndex 1000) partIndex) 1
  assembleFragment p sequenceNumber metadata.tracks fun track dataOffset => do
    let (startSample, endSample) ←
      partSampleRange p track segmentIndex partIndex segmentDuration partDuration
    buildTrafForSampleRange p mp4Data track startSample endSample dataOffset

/-- `sample.data.len() as u32` truncates. -/
def LiveSample.entry (s : LiveSample) : TrunSample :=
  ⟨s.duration, UInt32.ofNat s.data.length, sampleFlags s.isSync, s.ctsOffset⟩

def buildLiveTraf (trackData : LiveTrackData) (dataOffset : Nat) : Bytes × Bytes :=
  if trackData.samples.isEmpty then (trafEmpty trackData.trackId, [])
  else
    (trafWithRun trackData.trackId trackData.baseDts.toNat
        (trackData.samples.map LiveSample.entry) dataOffset,
      trackData.samples.flatMap (·.data))

def generateLiveMediaSegment (p : Profile) (sequenceNumber : UInt32)
    (tracks : List LiveTrackData) : Exec ε Bytes :=
  assembleFragment p sequenceNumber.toNat tracks fun trackData dataOffset =>
    return buildLiveTraf trackData dataOffset

theorem returns_assembleFragment_release {τ : Type} {build : τ → Nat → Exec ε (Bytes × Bytes)}
    (hbuild : ∀ t off, Returns (build t off)) (seq : Nat) (tracks : List τ) :
    Returns (assembleFragment .release seq tracks build) := by
  have htrafs : ∀ tracks ms off, Returns (finalTrafs .release ms build tracks off) := by
    intro tracks
    induction tracks with
    | nil => intro ms off; exact ⟨[], rfl⟩
    | cons t ts ih =>
      intro ms off
      refine (returns_release_add ..).bind fun _ _ => (returns_release_add ..).bind fun _ _ => ?_
      refine (hbuild t _).bind fun _ _ => (hbuild t 0).bind fun _ _ => ?_
      exact (returns_release_add ..).bind fun _ _ => (ih ms _).bind fun _ _ => ⟨_, rfl⟩
  refine (returns_mapM.2 fun t _ => hbuild t 0).bind fun firstPass _ => ?_
  exact (htrafs tracks _ 0).bind fun _ _ => ⟨_, rfl⟩

theorem returns_generateLiveMediaSegment_release (seq : UInt32) (tracks : List LiveTrackData) :
    Returns (generateLiveMediaSegment .release seq tracks : Exec ε Bytes) :=
  returns_assembleFragment_release (fun _ _ => ⟨_, rfl⟩) _ _

end Nozdormu.Packaging
