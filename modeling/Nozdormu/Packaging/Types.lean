import Nozdormu.Bmff.Box

/-!
# What the packager knows about a file

The records of `mp4_parse.rs` and `packaging/mod.rs`: a parsed file is a list of
tracks, a track is its header fields plus the sample tables of its `stbl` box,
and the live side has its own, smaller track and sample records.
-/

namespace Nozdormu.Packaging

open Rust Bmff

inductive Mp4Error where
  | moovNotFound
  | truncated (offset : Nat)
  | noTracks
  | invalidAtom (what : String)
  | unsupported (what : String)
deriving DecidableEq, Repr

inductive TrackType where
  | video
  | audio
  | other
deriving DecidableEq, Repr

/-- A run of `sampleCount` samples, each lasting `sampleDelta` ticks. -/
structure SttsEntry where
  sampleCount : UInt32
  sampleDelta : UInt32
deriving DecidableEq, Repr

/-- From chunk `firstChunk` (1-based) on, chunks hold `samplesPerChunk` samples. -/
structure StscEntry where
  firstChunk : UInt32
  samplesPerChunk : UInt32
  sampleDescriptionIndex : UInt32
deriving DecidableEq, Repr

structure CttsEntry where
  sampleCount : UInt32
  sampleOffset : Int32
deriving DecidableEq, Repr

structure SampleTable where
  stts : List SttsEntry
  stsc : List StscEntry
  stsz : List UInt32
  stco : List UInt64
  /-- 1-based numbers of the sync samples; `none` means every sample is sync. -/
  stss : Option (List UInt32)
  ctts : Option (List CttsEntry)
deriving DecidableEq, Repr

structure TrackInfo where
  trackId : UInt32
  trackType : TrackType
  codec : Option FourCC
  timescale : UInt32
  duration : UInt64
  sampleTable : SampleTable
  width : Option UInt32
  height : Option UInt32
  sampleRate : Option UInt32
  channels : Option UInt16
  /-- Raw body of the `stsd` box, copied into init segments. -/
  stsdData : Bytes
deriving DecidableEq, Repr

structure Mp4Metadata where
  durationSecs : Float
  timescale : UInt32
  tracks : List TrackInfo
deriving DecidableEq, Repr

inductive LiveTrackType where
  | video
  | audio
deriving DecidableEq, Repr

/-- Track description for a live init segment. -/
structure LiveTrackInfo where
  trackId : UInt32
  trackType : LiveTrackType
  timescale : UInt32
  width : Option UInt32
  height : Option UInt32
  stsdData : Bytes
deriving DecidableEq, Repr

structure LiveSample where
  data : Bytes
  duration : UInt32
  isSync : Bool
  ctsOffset : Int32
deriving DecidableEq, Repr

structure LiveTrackData where
  trackId : UInt32
  baseDts : UInt64
  samples : List LiveSample
deriving DecidableEq, Repr

inductive PackagingRequest where
  | manifest
  | llHlsManifest
  | initSegment
  | mediaSegment (index : UInt32)
  | partialSegment (segmentIndex partIndex : UInt32)
deriving DecidableEq, Repr

inductive PackagingError where
  | mp4Parse (e : Mp4Error)
  | segmentGen (what : String)
  | segmentOutOfRange (index count : Nat)
  | partOutOfRange (part segment count : Nat)
deriving DecidableEq, Repr

/-- The part of the LL-HLS configuration the packager reads. -/
structure LlHlsConfig where
  partDuration : Float
deriving DecidableEq, Repr

end Nozdormu.Packaging
