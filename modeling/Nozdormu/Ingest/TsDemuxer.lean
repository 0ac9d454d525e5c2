import Nozdormu.Ingest.Segmenter
import Nozdormu.Rust.Loop

/-!
# The MPEG-TS demuxer

`TsDemuxer` of `cdn-ingest/src/srt/demux.rs`: transport packets go in, frames come out. A packet
of PID 0 names the PMT, the PMT names the video and the audio PID, and the payloads of those
two are collected until a packet with the unit-start flag shows that a PES packet is complete.
-/

namespace Nozdormu.Ingest

open Rust Bmff

/-- The bytes collected for one track, and the decode time of its last frame. -/
structure PesTrack where
  buffer : Bytes
  dts : UInt64
deriving DecidableEq, Repr

/-- The 33 bits of a clock value between the marker bits of five bytes. -/
def clockValue (b₀ b₁ b₂ b₃ b₄ : UInt64) : UInt64 :=
  ((b₀ >>> 1) &&& 0x07) <<< 30 ||| b₁ <<< 22 ||| (b₂ >>> 1) <<< 15 ||| b₃ <<< 7 ||| b₄ >>> 1

def parseTimestamp (data : Bytes) : Exec IngestError UInt64 := do
  let b₀ := (← index data 0).toUInt64
  let b₁ := (← index data 1).toUInt64
  let b₂ := (← index data 2).toUInt64
  let b₃ := (← index data 3).toUInt64
  let b₄ := (← index data 4).toUInt64
  return clockValue b₀ b₁ b₂ b₃ b₄

/-- One round of the scan for start codes: `inl` is the answer, `inr` the next position. -/
def scanNalu (data : Bytes) (i : Nat) : Exec IngestError (Bool ⊕ Nat) := do
  if i < data.length then
    if i + 3 < data.length then
      let d₀ ← index data i
      let d₁ ← index data (i + 1)
      if d₀ = 0 ∧ d₁ = 0 then
        let d₂ ← index data (i + 2)
        let d₃ ← index data (i + 3)
        if d₂ = 1 then
          if d₃ &&& 0x1F = 5 then return .inl true else return .inr (i + 3)
        else if i + 4 < data.length ∧ d₂ = 0 ∧ d₃ = 1 then
          let d₄ ← index data (i + 4)
          if d₄ &&& 0x1F = 5 then return .inl true else return .inr (i + 4)
        else return .inr (i + 1)
      else return .inr (i + 1)
    else return .inr (i + 1)
  else return .inl false

def containsIdrNalu (data : Bytes) : Exec IngestError Bool :=
  iterate (scanNalu data) (data.length + 1) 0

/-- The time stamp flags of a PES packet and where its payload starts. -/
def pesHeader (pes : Bytes) : Exec IngestError (Option (UInt8 × Nat)) := do
  if pes.length < 9 then return none
  else
    let d₀ ← index pes 0
    let d₁ ← index pes 1
    let d₂ ← index pes 2
    if d₀ ≠ 0 ∨ d₁ ≠ 0 ∨ d₂ ≠ 1 then return none
    else
      let flags := (← index pes 7) >>> 6 &&& 0x03
      let dataStart := 9 + (← index pes 8).toNat
      if pes.length ≤ dataStart then return none else return some (flags, dataStart)

namespace PesTrack

def empty : PesTrack := ⟨[], 0⟩

/-- A frame without time stamps gets the decode time of the frame before it. -/
def extractVideoFrame (t : PesTrack) : Exec IngestError (Option FrameData × PesTrack) := do
  match ← pesHeader t.buffer with
  | none => return (none, t)
  | some (flags, dataStart) =>
    let (pts, dts) ← if 2 ≤ flags ∧ 14 ≤ t.buffer.length then do
        let pts ← parseTimestamp (← slice t.buffer 9 14)
        let dts ← if flags = 3 ∧ 19 ≤ t.buffer.length then do
            parseTimestamp (← slice t.buffer 14 19)
          else pure pts
        pure (pts, dts)
      else pure (t.dts, t.dts)
    let naluData ← slice t.buffer dataStart t.buffer.length
    let isKeyframe ← containsIdrNalu naluData
    return (some { track := .video, data := naluData, dts, pts, isKeyframe }, { t with dts })

def extractAudioFrame (t : PesTrack) : Exec IngestError (Option FrameData × PesTrack) := do
  match ← pesHeader t.buffer with
  | none => return (none, t)
  | some (flags, dataStart) =>
    let dts ← if 2 ≤ flags ∧ 14 ≤ t.buffer.length then do
        parseTimestamp (← slice t.buffer 9 14)
      else pure t.dts
    let data ← slice t.buffer dataStart t.buffer.length
    return (some { track := .audio, data, dts, pts := dts, isKeyframe := true }, { t with dts })

def extractFrame (t : PesTrack) : TrackKind → Exec IngestError (Option FrameData × PesTrack)
  | .video => t.extractVideoFrame
  | .audio => t.extractAudioFrame

/-- A payload of the track: a unit start hands out what was collected before it. -/
def push (kind : TrackKind) (t : PesTrack) (payloadStart : Bool) (payload : Bytes) :
    Exec IngestError (List FrameData × PesTrack) := do
  if payloadStart then
    let (frame, t) ← if t.buffer = [] then pure (none, t) else t.extractFrame kind
    return (frame.toList, { t with buffer := payload })
  else return ([], { t with buffer := t.buffer ++ payload })

end PesTrack

structure TsDemuxer where
  videoPid : Option UInt16
  audioPid : Option UInt16
  pmtPid : Option UInt16
  video : PesTrack
  audio : PesTrack
deriving DecidableEq, Repr

/-- A 13-bit PID in the low bits of two bytes. -/
def pidOf (hi lo : UInt8) : UInt16 := (hi.toUInt16 &&& 0x1F) <<< 8 ||| lo.toUInt16

/-- A 12-bit length in the low bits of two bytes. -/
def lengthOf (hi lo : UInt8) : Nat := (hi.toNat &&& 0x0F) <<< 8 ||| lo.toNat

def sectionOf (payload : Bytes) : Exec IngestError (Option Bytes) := do
  if payload = [] then return none
  else
    let pointer := (← index payload 0).toNat
    if payload.length ≤ 1 + pointer then return none
    else return some (← slice payload (1 + pointer) payload.length)

namespace TsDemuxer

def new : TsDemuxer := ⟨none, none, none, .empty, .empty⟩

/-- One entry of the PAT; the last program listed wins. -/
def patEntry (data : Bytes) (stop : Nat) (s : Nat × TsDemuxer) :
    Exec IngestError (TsDemuxer ⊕ Nat × TsDemuxer) := do
  let (i, d) := s
  if i + 4 ≤ stop then
    let programNum := (← index data i).toUInt16 <<< 8 ||| (← index data (i + 1)).toUInt16
    let pid := pidOf (← index data (i + 2)) (← index data (i + 3))
    return .inr (i + 4, if programNum ≠ 0 then { d with pmtPid := some pid } else d)
  else return .inl d

variable (d : TsDemuxer)

def parsePat (payload : Bytes) : Exec IngestError TsDemuxer := do
  match ← sectionOf payload with
  | none => return d
  | some data =>
    if data.length < 8 then return d
    else if (← index data 0) ≠ 0x00 then return d
    else
      let sectionLength := lengthOf (← index data 1) (← index data 2)
      let stop := min (3 + sectionLength) data.length - 4
      iterate (patEntry data stop) (data.length + 1) (8, d)

def announce (streamType : UInt8) (pid : UInt16) : TsDemuxer :=
  if streamType = 0x1B then { d with videoPid := some pid }
  else if streamType = 0x0F then { d with audioPid := some pid }
  else d

def pmtEntry (data : Bytes) (stop : Nat) (s : Nat × TsDemuxer) :
    Exec IngestError (TsDemuxer ⊕ Nat × TsDemuxer) := do
  let (i, d) := s
  if i + 5 ≤ stop then
    let streamType ← index data i
    let pid := pidOf (← index data (i + 1)) (← index data (i + 2))
    let esInfoLength := lengthOf (← index data (i + 3)) (← index data (i + 4))
    return .inr (i + (5 + esInfoLength), d.announce streamType pid)
  else return .inl d

def parsePmt (payload : Bytes) : Exec IngestError TsDemuxer := do
  match ← sectionOf payload with
  | none => return d
  | some data =>
    if data.length < 12 then return d
    else
      let sectionLength := lengthOf (← index data 1) (← index data 2)
      let programInfoLength := lengthOf (← index data 10) (← index data 11)
      let stop := min (3 + sectionLength) data.length - 4
      iterate (pmtEntry data stop) (data.length + 1) (12 + programInfoLength, d)

def pushVideo (pid : UInt16) (payloadStart : Bool) (payload : Bytes) :
    Exec IngestError (List FrameData × TsDemuxer) := do
  if some pid = d.videoPid then
    let (frames, video) ← d.video.push .video payloadStart payload
    return (frames, { d with video })
  else return ([], d)

def pushAudio (pid : UInt16) (payloadStart : Bool) (payload : Bytes) :
    Exec IngestError (List FrameData × TsDemuxer) := do
  if some pid = d.audioPid then
    let (frames, audio) ← d.audio.push .audio payloadStart payload
    return (frames, { d with audio })
  else return ([], d)

/-- Behind the header and the adaptation field. -/
def payloadOffset (packet : Bytes) (hasAdaptation : Bool) : Exec IngestError Nat := do
  if hasAdaptation then return 5 + (← index packet 4).toNat else return 4

/-- One packet. Sections are read where they start, everything else goes to the tracks. -/
def pushPacket (packet : Bytes) : Exec IngestError (List FrameData × TsDemuxer) := do
  let b₁ ← index packet 1
  let pid := pidOf b₁ (← index packet 2)
  let payloadStart : Bool := b₁ &&& 0x40 ≠ 0
  let b₃ ← index packet 3
  if b₃ &&& 0x10 = 0 then return ([], d)
  else
    let payloadOffset ← payloadOffset packet (b₃ &&& 0x20 ≠ 0)
    if 188 ≤ payloadOffset then return ([], d)
    else
      let payload ← slice packet payloadOffset 188
      if pid = 0 ∧ payloadStart then return ([], ← d.parsePat payload)
      else if some pid = d.pmtPid ∧ payloadStart then return ([], ← d.parsePmt payload)
      else
        let (videoFrames, d) ← d.pushVideo pid payloadStart payload
        let (audioFrames, d) ← d.pushAudio pid payloadStart payload
        return (videoFrames ++ audioFrames, d)

/-- One round over the data of a call: a byte that is no sync byte is skipped. -/
def pushRound (data : Bytes) (s : Nat × List FrameData × TsDemuxer) :
    Exec IngestError ((List FrameData × TsDemuxer) ⊕ (Nat × List FrameData × TsDemuxer)) := do
  let (offset, frames, d) := s
  if offset + 188 ≤ data.length then
    if (← index data offset) ≠ 0x47 then return .inr (offset + 1, frames, d)
    else
      let packet ← slice data offset (offset + 188)
      let (new, d) ← d.pushPacket packet
      return .inr (offset + 188, frames ++ new, d)
  else return .inl (frames, d)

def pushData (data : Bytes) : Exec IngestError (List FrameData × TsDemuxer) :=
  iterate (pushRound data) (data.length + 1) (0, [], d)

def pushCalls (d : TsDemuxer) : (calls : List Bytes) → Exec IngestError (List FrameData × TsDemuxer)
  | [] => return ([], d)
  | data :: calls => do
    let (frames, d) ← d.pushData data
    let (more, d) ← d.pushCalls calls
    return (frames ++ more, d)

end TsDemuxer

end Nozdormu.Ingest
