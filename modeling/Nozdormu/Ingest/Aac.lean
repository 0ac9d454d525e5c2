import Nozdormu.Packaging.Types

/-!
# AAC configuration

`cdn-ingest/src/codec/aac.rs`: what live ingest keeps of an AudioSpecificConfig, and the
sample description it writes from it. The `esds` box nests MPEG-4 descriptors, each a
tag, a length in four groups of seven bits, and its data.
-/

namespace Nozdormu.Ingest

open Rust Bmff Packaging

/-- The errors of live ingest; `Io`, which only the sockets give, and the unused `NotFound` are
left out. -/
inductive IngestError where
  | authFailed (what : String)
  | maxStreams (limit : Nat)
  | codec (what : String)
  | protocol (what : String)
  | timeout
  | alreadyExists (key : String)
deriving DecidableEq, Repr

structure AacConfig where
  /-- the configuration as received -/
  audioSpecificConfig : Bytes
  sampleRate : UInt32
  channels : UInt16
  timescale : UInt32
deriving DecidableEq, Repr

def aacSampleRates : List UInt32 :=
  [96000, 88200, 64000, 48000, 44100, 32000, 24000, 22050, 16000, 12000, 11025, 8000, 7350]

variable (data : Bytes)

/-- The sampling frequency: from the table, or 24 explicit bits behind index 15. -/
def sampleRateOf (d₁ freqIndex : UInt8) : Exec IngestError UInt32 := do
  if freqIndex.toNat < aacSampleRates.length then index aacSampleRates freqIndex.toNat
  else if freqIndex = 0x0F then
    if data.length < 5 then
      fail (.codec "AudioSpecificConfig too short for explicit frequency")
    else
      let d₂ ← index data 2
      let d₃ ← index data 3
      let d₄ ← index data 4
      return ((d₁.toUInt32 &&& 0x7F) <<< 17) ||| (d₂.toUInt32 <<< 9) ||| (d₃.toUInt32 <<< 1) |||
        (d₄.toUInt32 >>> 7)
  else
    let n := freqIndex.toNat
    fail (.codec s!"invalid sampling frequency index: {n}")

/-- Four bits of channel configuration, behind the frequency. -/
def channelConfiguration (d₁ freqIndex : UInt8) : Exec IngestError UInt16 := do
  if freqIndex = 0x0F then
    if data.length < 5 then return 2
    else return ((← index data 4) >>> 3 &&& 0x0F).toUInt16
  else return (d₁ >>> 3 &&& 0x0F).toUInt16

def fromAudioSpecificConfig : Exec IngestError AacConfig := do
  if data.length < 2 then fail (.codec "AudioSpecificConfig too short")
  else
    let d₀ ← index data 0
    let d₁ ← index data 1
    let freqIndex := ((d₀ &&& 0x07) <<< 1) ||| (d₁ >>> 7 &&& 0x01)
    let sampleRate ← sampleRateOf data d₁ freqIndex
    let channels ← channelConfiguration data d₁ freqIndex
    -- 0 stands for a program config element and is taken as stereo
    let channels := if channels = 0 then 2 else channels
    return { audioSpecificConfig := data, sampleRate, channels, timescale := sampleRate }

theorem noFault_fromAudioSpecificConfig : NoFault (fromAudioSpecificConfig data) := by
  refine noFault_guard.2 fun hlen => ?_
  simp (disch := omega) only [index_ok, ok_bind]
  refine noFault_bind.2 ⟨?_, fun rate _ => noFault_bind.2 ⟨?_, fun channels _ => noFault_ok _⟩⟩
  · unfold sampleRateOf
    split
    next hrate => rw [index_ok hrate]; exact noFault_ok _
    split
    · refine noFault_guard.2 fun hlong => ?_
      simp (disch := omega) only [index_ok, ok_bind]
      exact noFault_ok _
    · exact noFault_fail _
  · unfold channelConfiguration
    split
    · split
      next => exact noFault_ok _
      next hlong => rw [index_ok (by omega), ok_bind]; exact noFault_ok _
    · exact noFault_ok _

def buildDescriptor (tag : UInt8) (data : Bytes) : Bytes :=
  let len := data.length
  [tag, UInt8.ofNat (len >>> 21 &&& 0x7F ||| 0x80), UInt8.ofNat (len >>> 14 &&& 0x7F ||| 0x80),
    UInt8.ofNat (len >>> 7 &&& 0x7F ||| 0x80), UInt8.ofNat (len &&& 0x7F)] ++ data

variable (c : AacConfig)

def AacConfig.buildEsds : Bytes :=
  let dsi := buildDescriptor 0x05 c.audioSpecificConfig
  let dcd := buildDescriptor 0x04 ([0x40, 0x15, 0, 0, 0] ++ (be 4 128000 ++ (be 4 128000 ++ dsi)))
  let slc := buildDescriptor 0x06 [0x02]
  let esd := buildDescriptor 0x03 (be 2 0 ++ ([0x00] ++ (dcd ++ slc)))
  be 4 0 ++ esd

def AacConfig.mp4aBody : Bytes :=
  List.replicate 6 0 ++ (be 2 1 ++ (List.replicate 8 0 ++ (be 2 c.channels.toNat ++ (be 2 16 ++
    (be 2 0 ++ (be 2 0 ++ (be 4 c.sampleRate.toNat ++ (be 2 0 ++
    makeBox ccEsds c.buildEsds))))))))

def AacConfig.buildMp4aEntry : Bytes := makeBox ccMp4a c.mp4aBody

def AacConfig.buildStsdData : Bytes := be 4 0 ++ (be 4 1 ++ c.buildMp4aEntry)

def AacConfig.liveTrack : LiveTrackInfo :=
  { trackId := 2, trackType := .audio, timescale := c.timescale
    width := none, height := none, stsdData := c.buildStsdData }

theorem of_fromAudioSpecificConfig {data : Bytes} {c : AacConfig}
    (h : fromAudioSpecificConfig data = .ok c) : c.timescale = c.sampleRate ∧ c.channels ≠ 0 := by
  unfold fromAudioSpecificConfig at h
  by_cases hlen : data.length < 2
  · rw [if_pos hlen] at h
    cases h
  rw [if_neg hlen] at h
  obtain ⟨d₀, -, h⟩ := bind_eq_ok.1 h
  obtain ⟨d₁, -, h⟩ := bind_eq_ok.1 h
  obtain ⟨rate, -, h⟩ := bind_eq_ok.1 h
  obtain ⟨channels, -, h⟩ := bind_eq_ok.1 h
  cases h
  refine ⟨rfl, ?_⟩
  show (if channels = 0 then 2 else channels) ≠ 0
  split
  next => decide
  next hne => exact hne

end Nozdormu.Ingest
