import Nozdormu.Packaging.Fmp4Gen
import Nozdormu.Rust.Float

/-!
# Playlists

`hls_manifest.rs`: how many segments a file has, which of them the playlist lists and
for how long each plays, the parts of a segment, and the text of the VOD and of the
low-latency playlist.
-/

namespace Nozdormu.Packaging

open Rust

variable {ε : Type}

def computeSegmentCount (metadata : Mp4Metadata) (segmentDuration : Float) : Nat :=
  if segmentDuration ≤ 0.0 ∨ metadata.durationSecs ≤ 0.0 then 0
  else ceilU32 (metadata.durationSecs / segmentDuration)

def referenceTrack (metadata : Mp4Metadata) : Option TrackInfo :=
  (metadata.tracks.find? fun t => t.trackType = .video).or metadata.tracks.head?

/-- A listed segment: its index, the decode times it is said to span, its duration. -/
structure SegmentSpan where
  index : Nat
  startDts : Nat
  endDts : Nat
  durationSecs : Float
deriving DecidableEq, Repr

def segmentCut (p : Profile) (track : TrackInfo) (total : Nat) (segmentDuration : Float)
    (index : Nat) : Exec ε Nat := do
  let targetEndTime := boundaryTicks (← p.add 32 index 1) segmentDuration track.timescale
  let endSample ← dtsToSample p track.sampleTable.stts targetEndTime
  alignEnd p track total endSample

/-- `(end_dts - start_dts) as f64 / timescale as f64`, with a fallback for timescale 0. -/
def tickSeconds (p : Profile) (timescale : UInt32) (fallback : Float) (startDts endDts : Nat) :
    Exec ε Float := do
  if 0 < timescale.toNat then
    let ticks ← p.sub 64 endDts startDts
    return (UInt64.ofNat ticks).toFloat / timescale.toFloat
  else return fallback

def segmentSpan (p : Profile) (track : TrackInfo) (total : Nat) (segmentDuration : Float)
    (index prevSample endSample : Nat) : Exec ε SegmentSpan := do
  let startDts ← sampleToDts p track.sampleTable.stts prevSample
  let endDts ←
    if total ≤ endSample then pure track.duration.toNat
    else sampleToDts p track.sampleTable.stts endSample
  let durationSecs ← tickSeconds p track.timescale segmentDuration startDts endDts
  return ⟨index, startDts, endDts, durationSecs⟩

def segmentSpansLoop (p : Profile) (track : TrackInfo) (total : Nat) (segmentDuration : Float)
    (segmentCount : Nat) : (n segIdx prevSample : Nat) → Exec ε (List SegmentSpan)
  | 0, _, _ => return []
  | n + 1, segIdx, prevSample => do
    let endSample ← segmentCut p track total segmentDuration segIdx
    if endSample ≤ prevSample ∧ segIdx < (← p.sub 32 segmentCount 1) then
      segmentSpansLoop p track total segmentDuration segmentCount n (segIdx + 1) prevSample
    else
      let span ← segmentSpan p track total segmentDuration segIdx prevSample endSample
      return span ::
        (← segmentSpansLoop p track total segmentDuration segmentCount n (segIdx + 1) endSample)

def segmentSpans (p : Profile) (metadata : Mp4Metadata) (segmentDuration : Float) :
    Exec ε (List SegmentSpan) := do
  let segmentCount := computeSegmentCount metadata segmentDuration
  if segmentCount = 0 then return []
  else
    match referenceTrack metadata with
    | none => return []
    | some track =>
      let total ← totalSamples p track.sampleTable.stts
      segmentSpansLoop p track total segmentDuration segmentCount segmentCount 0 0

def computeSegmentDurations (p : Profile) (metadata : Mp4Metadata) (segmentDuration : Float) :
    Exec ε (List (Nat × Float)) :=
  return (← segmentSpans p metadata segmentDuration).map fun s => (s.index, s.durationSecs)

/-! ## The VOD playlist -/

def emptyPlaylist : String := "#EXTM3U\n#EXT-X-ENDLIST\n"

def targetDuration (segments : List (Nat × Float)) : Nat :=
  ceilU32 (segments.foldl (fun m s => f64Max m s.2) 0.0)

def playlistHeader (version : Nat) (segments : List (Nat × Float)) : String :=
  "#EXTM3U\n#EXT-X-VERSION:" ++ toString version ++ "\n#EXT-X-TARGETDURATION:"
    ++ toString (targetDuration segments)
    ++ "\n#EXT-X-MEDIA-SEQUENCE:0\n#EXT-X-PLAYLIST-TYPE:VOD\n"

def mapLine (baseUrl queryBase : String) : String :=
  "#EXT-X-MAP:URI=\"" ++ baseUrl ++ "?format=hls&segment=init" ++ queryBase ++ "\"\n"

def segmentLines (baseUrl queryBase : String) (segment : Nat × Float) : String :=
  "#EXTINF:" ++ formatFixed 6 segment.2 ++ ",\n"
    ++ baseUrl ++ "?format=hls&segment=" ++ toString segment.1 ++ queryBase ++ "\n"

def generateMediaPlaylist (p : Profile) (metadata : Mp4Metadata) (segmentDuration : Float)
    (baseUrl queryBase : String) : Exec ε String := do
  let segments ← computeSegmentDurations p metadata segmentDuration
  if segments.isEmpty then return emptyPlaylist
  else
    return playlistHeader 7 segments ++ mapLine baseUrl queryBase
      ++ String.join (segments.map (segmentLines baseUrl queryBase)) ++ "#EXT-X-ENDLIST\n"

structure PartInfo where
  partIndex : Nat
  durationSecs : Float
  independent : Bool
deriving DecidableEq, Repr

def segmentPartsLoop (p : Profile) (track : TrackInfo) (partDuration : Float) (segEnd : Nat) :
    (fuel currentSample partIdx : Nat) → Exec ε (List PartInfo)
  | 0, _, _ => crash .hang
  | fuel + 1, currentSample, partIdx => do
    if segEnd ≤ currentSample then return []
    else
      let endSample ← partEnd p track partDuration segEnd currentSample
      let startDts ← sampleToDts p track.sampleTable.stts currentSample
      let endDts ← sampleToDts p track.sampleTable.stts endSample
      let durationSecs ← tickSeconds p track.timescale partDuration startDts endDts
      let independent ← isSyncSample p track.sampleTable.stss currentSample
      let nextIdx ← p.add 32 partIdx 1
      return ⟨partIdx, durationSecs, independent⟩ ::
        (← segmentPartsLoop p track partDuration segEnd fuel endSample nextIdx)

variable (p : Profile) (metadata : Mp4Metadata) (segmentDuration partDuration : Float)

def computeSegmentParts (segmentIndex : Nat) : Exec ε (List PartInfo) := do
  match referenceTrack metadata with
  | none => return []
  | some track =>
    let (segStart, segEnd) ← segmentSampleRange p track segmentIndex segmentDuration
    if segEnd ≤ segStart then return []
    else segmentPartsLoop p track partDuration segEnd (segEnd - segStart + 1) segStart 0

def computePartCount (segmentIndex : Nat) : Exec ε Nat :=
  return (← computeSegmentParts p metadata segmentDuration partDuration segmentIndex).length % 2 ^
    32

/-! ## The low-latency playlist -/

/-- The longest part; the configured duration if no part lasts. -/
def partTarget (partDuration : Float) (parts : List (List PartInfo)) : Float :=
  let longest := parts.flatten.foldl
    (fun m part => if part.durationSecs > m then part.durationSecs else m) 0.0
  if longest ≤ 0.0 then partDuration else longest

def partLine (baseUrl queryBase : String) (index : Nat) (part : PartInfo) : String :=
  "#EXT-X-PART:DURATION=" ++ formatFixed 6 part.durationSecs ++ ",URI=\"" ++ baseUrl
    ++ "?format=hls&segment=" ++ toString index ++ "&part=" ++ toString part.partIndex ++ queryBase
    ++ "\"" ++ (if part.independent then ",INDEPENDENT=YES" else "") ++ "\n"

/-- The source computes the parts of every segment twice, once for the part target. -/
def generateLlHlsPlaylist (baseUrl queryBase : String) : Exec ε String := do
  let segments ← computeSegmentDurations p metadata segmentDuration
  if segments.isEmpty then return emptyPlaylist
  else
    let partsOf := fun segment : Nat × Float =>
      computeSegmentParts p metadata segmentDuration partDuration segment.1
    let actualMaxPartDuration := partTarget partDuration (← segments.mapM partsOf)
    let partHoldBack := actualMaxPartDuration * 3.0
    let body ← segments.mapM fun segment => do
      let parts ← partsOf segment
      return String.join (parts.map (partLine baseUrl queryBase segment.1))
        ++ segmentLines baseUrl queryBase segment
    return playlistHeader 9 segments ++ "#EXT-X-SERVER-CONTROL:CAN-BLOCK-RELOAD=YES,PART-HOLD-BACK="
      ++ formatFixed 3 partHoldBack ++ "\n#EXT-X-PART-INF:PART-TARGET="
      ++ formatFixed 6 actualMaxPartDuration ++ "\n"
      ++ mapLine baseUrl queryBase ++ String.join body ++ "#EXT-X-ENDLIST\n"

end Nozdormu.Packaging
