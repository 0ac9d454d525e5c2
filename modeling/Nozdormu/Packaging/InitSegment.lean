import Nozdormu.Packaging.Types

/-!
# Init segments

The first half of `fmp4_gen.rs`: `ftyp` and a `moov` box whose tracks carry codec
configuration and empty sample tables. The generator for a parsed file and the
one for live tracks are the same code over two track records, with a suffix in
the function names; here both project their record to a `TrackHeader` and share
the box writers.
-/

namespace Nozdormu.Packaging

open Rust Bmff

/-- `&[0u8; n]`. -/
def zeros (n : Nat) : Bytes := List.replicate n 0

@[simp] theorem zeros_length (n : Nat) : (zeros n).length = n := List.length_replicate

structure TrackHeader where
  trackId : UInt32
  trackType : TrackType
  timescale : UInt32
  width : Option UInt32
  height : Option UInt32
  stsdData : Bytes
deriving DecidableEq, Repr

def TrackInfo.header (t : TrackInfo) : TrackHeader :=
  { trackId := t.trackId, trackType := t.trackType, timescale := t.timescale
    width := t.width, height := t.height, stsdData := t.stsdData }

def LiveTrackType.toTrackType : LiveTrackType → TrackType
  | .video => .video
  | .audio => .audio

def LiveTrackInfo.header (t : LiveTrackInfo) : TrackHeader :=
  { trackId := t.trackId, trackType := t.trackType.toTrackType, timescale := t.timescale
    width := t.width, height := t.height, stsdData := t.stsdData }

def buildFtyp : Bytes :=
  makeBox ccFtyp (ccIsom.bytes ++ (be 4 0x200 ++ (ccIsom.bytes ++ (ccIso6.bytes ++ ccMp41.bytes))))

def identityMatrix : Bytes :=
  [0x00010000, 0, 0, 0, 0x00010000, 0, 0, 0, 0x40000000].flatMap (be 4)

def mvhdBody (timescale : UInt32) : Bytes :=
  be 4 0 ++ (be 4 0 ++ (be 4 0 ++ (be 4 timescale.toNat ++ (be 4 0 ++ (be 4 0x00010000 ++
    (be 2 0x0100 ++ (zeros 10 ++ (identityMatrix ++ (zeros 24 ++ be 4 0xFFFFFFFF)))))))))

def buildMvhd (timescale : UInt32) : Bytes := makeBox ccMvhd (mvhdBody timescale)

/-- Width and height are 16.16 fixed point; `<<` drops the high bits. -/
def tkhdBody (t : TrackHeader) : Bytes :=
  be 4 0x00000003 ++ (be 4 0 ++ (be 4 0 ++ (be 4 t.trackId.toNat ++ (be 4 0 ++ (be 4 0 ++
    (zeros 8 ++ (be 2 0 ++ (be 2 0 ++
    (be 2 (if t.trackType = .audio then 0x0100 else 0) ++ (be 2 0 ++ (identityMatrix ++
    (be 4 ((t.width.getD 0) <<< 16).toNat ++ be 4 ((t.height.getD 0) <<< 16).toNat))))))))))))

def mdhdBody (timescale : UInt32) : Bytes :=
  be 4 0 ++ (be 4 0 ++ (be 4 0 ++ (be 4 timescale.toNat ++ (be 4 0 ++ (be 2 0x55C4 ++ be 2 0)))))

def buildMdhd (timescale : UInt32) : Bytes := makeBox ccMdhd (mdhdBody timescale)

def hdlrBody (handler : FourCC) : Bytes :=
  be 4 0 ++ (be 4 0 ++ (handler.bytes ++ (zeros 12 ++ [0])))

def buildHdlr (handler : FourCC) : Bytes := makeBox ccHdlr (hdlrBody handler)

def handlerCode : TrackType → FourCC
  | .video => ccVide
  | .audio => ccSoun
  | .other => ccHint

def mediaHeader : TrackType → List (FourCC × Bytes)
  | .video => [(ccVmhd, be 4 0x00000001 ++ (be 2 0 ++ zeros 6))]
  | .audio => [(ccSmhd, be 4 0 ++ (be 2 0 ++ be 2 0))]
  | .other => []

def dinfBody : Bytes :=
  makeBox ccDref (be 4 0 ++ (be 4 1 ++ makeBox ccUrl (be 4 0x00000001)))

def stsdBody (stsdData : Bytes) : Bytes :=
  if stsdData.isEmpty then be 4 0 ++ be 4 0 else stsdData

def stblChildren (stsdData : Bytes) : List (FourCC × Bytes) :=
  [(ccStsd, stsdBody stsdData), (ccStts, be 4 0 ++ be 4 0), (ccStsc, be 4 0 ++ be 4 0),
    (ccStsz, be 4 0 ++ (be 4 0 ++ be 4 0)), (ccStco, be 4 0 ++ be 4 0)]

def minfChildren (t : TrackHeader) : List (FourCC × Bytes) :=
  mediaHeader t.trackType ++ [(ccDinf, dinfBody), (ccStbl, boxes (stblChildren t.stsdData))]

def mdiaChildren (t : TrackHeader) : List (FourCC × Bytes) :=
  [(ccMdhd, mdhdBody t.timescale), (ccHdlr, hdlrBody (handlerCode t.trackType)),
    (ccMinf, boxes (minfChildren t))]

def trakChildren (t : TrackHeader) : List (FourCC × Bytes) :=
  [(ccTkhd, tkhdBody t), (ccMdia, boxes (mdiaChildren t))]

def trexBody (trackId : UInt32) : Bytes :=
  be 4 0 ++ (be 4 trackId.toNat ++ (be 4 1 ++ (be 4 0 ++ (be 4 0 ++ be 4 0))))

def buildTrex (trackId : UInt32) : Bytes := makeBox ccTrex (trexBody trackId)

/-- `moov`: the movie header, one `trak` per track, and `mvex` with one `trex` per track. -/
def moovChildren (timescale : UInt32) (tracks : List TrackHeader) : List (FourCC × Bytes) :=
  (ccMvhd, mvhdBody timescale) :: (tracks.map (fun t => (ccTrak, boxes (trakChildren t))) ++
      [(ccMvex, tracks.flatMap fun t => buildTrex t.trackId)])

def initSegment (timescale : UInt32) (tracks : List TrackHeader) : Bytes :=
  buildFtyp ++ makeBox ccMoov (boxes (moovChildren timescale tracks))

/-! ## The generator for parsed files -/

variable (track : TrackInfo)

def buildTkhd : Bytes := makeBox ccTkhd (tkhdBody track.header)

def buildInitStbl : Bytes :=
  makeBox ccStbl (boxes (stblChildren track.stsdData))

def buildInitMinf : Bytes := makeBox ccMinf (boxes (minfChildren track.header))

def buildInitMdia : Bytes := makeBox ccMdia (boxes (mdiaChildren track.header))

def buildInitTrak : Bytes := makeBox ccTrak (boxes (trakChildren track.header))

def buildInitMoov (metadata : Mp4Metadata) : Bytes :=
  makeBox ccMoov (boxes (moovChildren metadata.timescale (metadata.tracks.map TrackInfo.header)))

def generateInitSegment (metadata : Mp4Metadata) : Bytes := buildFtyp ++ buildInitMoov metadata

/-! ## The generator for live tracks -/

def buildLiveTkhd (track : LiveTrackInfo) : Bytes := makeBox ccTkhd (tkhdBody track.header)

def buildLiveInitStbl (stsdData : Bytes) : Bytes := makeBox ccStbl (boxes (stblChildren stsdData))

def buildLiveInitMinf (track : LiveTrackInfo) : Bytes :=
  makeBox ccMinf (boxes (minfChildren track.header))

def buildLiveInitMdia (track : LiveTrackInfo) : Bytes :=
  makeBox ccMdia (boxes (mdiaChildren track.header))

def buildLiveInitTrak (track : LiveTrackInfo) : Bytes :=
  makeBox ccTrak (boxes (trakChildren track.header))

def buildLiveInitMoov (tracks : List LiveTrackInfo) (timescale : UInt32) : Bytes :=
  makeBox ccMoov (boxes (moovChildren timescale (tracks.map LiveTrackInfo.header)))

def generateInitSegmentFromLiveTracks (tracks : List LiveTrackInfo) (timescale : UInt32) : Bytes :=
  buildFtyp ++ buildLiveInitMoov tracks timescale

end Nozdormu.Packaging
