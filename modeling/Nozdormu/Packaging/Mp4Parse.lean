import Nozdormu.Packaging.Types

/-!
# The MP4 parser

`mp4_parse.rs`, from the byte readers up to `parse_mp4`. The parser walks the
atoms of a container with `AtomIter`, looks a child up by its code
(`findAtom`), slices its body and reads fields at fixed offsets. Sizes come
from the file: 32-bit, 64-bit when the 32-bit field is 1, and "up to the end of
the container" when it is 0.
-/

namespace Nozdormu.Packaging

open Rust Bmff

variable {α : Type}

/-! ## Byte reading helpers -/

/-- The shape shared by `read_u16`, `read_u32` and `read_u64`. -/
def readBe (p : Profile) (n : Nat) (data : Bytes) (offset : Nat) : Exec Mp4Error Nat := do
  if data.length < (← p.add 64 offset n) then fail (.truncated offset)
  else return beVal ((data.drop offset).take n)

variable (p : Profile) (data : Bytes)

variable (offset : Nat)

def readU16 : Exec Mp4Error UInt16 :=
  return UInt16.ofNat (← readBe p 2 data offset)

def readU32 : Exec Mp4Error UInt32 :=
  return UInt32.ofNat (← readBe p 4 data offset)

def readU64 : Exec Mp4Error UInt64 :=
  return UInt64.ofNat (← readBe p 8 data offset)

def readFourcc : Exec Mp4Error FourCC := do
  if data.length < (← p.add 64 offset 4) then fail (.truncated offset)
  else
    match (data.drop offset).take 4 with
    | [a, b, c, d] => return ⟨a, b, c, d⟩
    | _ => crash .index

/-! ## Atom iteration -/

structure AtomIter where
  data : Bytes
  offset : Nat
  stop : Nat

def AtomIter.new (data : Bytes) (start stop : Nat) : AtomIter :=
  ⟨data, start, min stop data.length⟩

structure Atom where
  fourcc : FourCC
  headerSize : Nat
  dataStart : Nat
  dataEnd : Nat
deriving DecidableEq, Repr

/-- Header length and declared size of the atom at the iterator's offset, given
its 32-bit size field. -/
def AtomIter.extent (p : Profile) (it : AtomIter) (size : Nat) : Exec Mp4Error (Nat × Nat) := do
  if size = 1 then
    if it.stop < (← p.add 64 it.offset 16) then fail (.truncated it.offset)
    else return (16, (← readU64 p it.data (← p.add 64 it.offset 8)).toNat)
  else if size = 0 then
    return (8, ← p.sub 64 it.stop it.offset)
  else return (8, size)

/-- `AtomIter::next`: the next atom and the iterator behind it. -/
def AtomIter.next (p : Profile) (it : AtomIter) : Exec Mp4Error (Option (Atom × AtomIter)) := do
  if it.stop < (← p.add 64 it.offset 8) then return none
  else
    let size := (← readU32 p it.data it.offset).toNat
    let fourcc ← readFourcc p it.data (← p.add 64 it.offset 4)
    let (headerSize, atomSize) ← it.extent p size
    let atomEnd ← p.add 64 it.offset atomSize
    if it.stop < atomEnd then fail (.truncated it.offset)
    else
      let dataStart ← p.add 64 it.offset headerSize
      return some (⟨fourcc, headerSize, dataStart, atomEnd⟩, { it with offset := atomEnd })

def findAtomLoop (p : Profile) (target : FourCC) : Nat → AtomIter → Exec Mp4Error (Option Atom)
  | 0, _ => crash .hang
  | fuel + 1, it => do
    match ← it.next p with
    | none => return none
    | some (atom, it') =>
      if atom.fourcc = target then return some atom else findAtomLoop p target fuel it'

def findAtom (start stop : Nat) (target : FourCC) : Exec Mp4Error (Option Atom) :=
  findAtomLoop p target (data.length + 1) (.new data start stop)

def Atom.child (container : Atom) (target : FourCC) : Exec Mp4Error (Option Atom) :=
  findAtom p data container.dataStart container.dataEnd target

/-- `find_atom(..)?.ok_or(InvalidAtom(what))?`. -/
def Atom.require (container : Atom) (target : FourCC) (what : String) : Exec Mp4Error Atom := do
  match ← container.child p data target with
  | some a => return a
  | none => fail (.invalidAtom what)

/-- `mvhd` and `mdhd` have the same layout: timescale and duration, behind two
times that are 4 bytes each in version 0 and 8 bytes each in version 1. -/
def parseTimes (a : Atom) : Exec Mp4Error (UInt32 × UInt64) := do
  let d ← slice data a.dataStart a.dataEnd
  if d.isEmpty then fail (.truncated a.dataStart)
  else
    let version ← index d 0
    if version = 1 then
      if d.length < 28 then fail (.truncated a.dataStart)
      else
        let timescale ← readU32 p d 20
        let duration ← readU64 p d 24
        return (timescale, duration)
    else
      if d.length < 20 then fail (.truncated a.dataStart)
      else
        let timescale ← readU32 p d 12
        let duration ← readU32 p d 16
        return (timescale, duration.toUInt64)

def parseMvhd (moov : Atom) : Exec Mp4Error (UInt32 × UInt64) := do
  let mvhd ← moov.require p data ccMvhd "missing mvhd"
  parseTimes p data mvhd

def parseMdhd (mdhd : Atom) : Exec Mp4Error (UInt32 × UInt64) :=
  parseTimes p data mdhd

/-- Track id, and width and height without their 16 fractional bits. -/
def parseTkhd (tkhd : Atom) : Exec Mp4Error (UInt32 × UInt32 × UInt32) := do
  let d ← slice data tkhd.dataStart tkhd.dataEnd
  if d.isEmpty then fail (.truncated tkhd.dataStart)
  else
    let version ← index d 0
    if version = 1 then
      if d.length < 92 then fail (.truncated tkhd.dataStart)
      else
        let trackId ← readU32 p d 20
        let width ← readU32 p d 84
        let height ← readU32 p d 88
        return (trackId, width >>> 16, height >>> 16)
    else
      if d.length < 80 then fail (.truncated tkhd.dataStart)
      else
        let trackId ← readU32 p d 12
        let width ← readU32 p d 72
        let height ← readU32 p d 76
        return (trackId, width >>> 16, height >>> 16)

def parseHdlr (hdlr : Atom) : Exec Mp4Error TrackType := do
  let d ← slice data hdlr.dataStart hdlr.dataEnd
  if d.length < 12 then fail (.truncated hdlr.dataStart)
  else
    let handler ← readFourcc p d 8
    if handler = ccVide then return .video
    else if handler = ccSoun then return .audio
    else return .other

def parseStsdRaw (stbl : Atom) : Exec Mp4Error Bytes := do
  match ← stbl.child p data ccStsd with
  | some stsd => slice data stsd.dataStart stsd.dataEnd
  | none => return []

def parseStsdCodec (stbl : Atom) : Exec Mp4Error (Option FourCC) := do
  match ← stbl.child p data ccStsd with
  | none => return none
  | some stsd =>
    let d ← slice data stsd.dataStart stsd.dataEnd
    if d.length < 16 then return none
    else return some (← readFourcc p d 12)

def parseAudioInfo (stbl : Atom) : Exec Mp4Error (Option UInt32 × Option UInt16) := do
  match ← stbl.child p data ccStsd with
  | none => return (none, none)
  | some stsd =>
    let d ← slice data stsd.dataStart stsd.dataEnd
    if d.length < 36 then return (none, none)
    else
      let channels ← readU16 p d 24
      let sampleRateFixed ← readU32 p d 32
      return (some (sampleRateFixed >>> 16), some channels)

/-- `for i in 0..entry_count`: read the entry at `base + i * size`. -/
def readEntries (p : Profile) (d : Bytes) (dataStart base size : Nat)
    (entry : Nat → Exec Mp4Error α) : (n i : Nat) → Exec Mp4Error (List α)
  | 0, _ => return []
  | n + 1, i => do
    let off ← p.add 64 base (← p.mul 64 i size)
    if d.length < (← p.add 64 off size) then
      fail (.truncated (← p.add 64 dataStart off))
    else
      let e ← entry off
      return e :: (← readEntries p d dataStart base size entry n (i + 1))

/-- A table atom: `base` bytes of header ending in the entry count, then entries
of `size` bytes. -/
def parseTable (a : Atom) (base size : Nat)
    (entry : Bytes → Nat → Exec Mp4Error α) : Exec Mp4Error (List α) := do
  let d ← slice data a.dataStart a.dataEnd
  if d.length < base then fail (.truncated a.dataStart)
  else
    let entryCount ← readU32 p d (base - 4)
    let maxPossible := (d.length - base) / size
    readEntries p d a.dataStart base size (entry d) (min entryCount.toNat maxPossible) 0

def sttsEntry (p : Profile) (d : Bytes) (off : Nat) : Exec Mp4Error SttsEntry := do
  let sampleCount ← readU32 p d off
  let sampleDelta ← readU32 p d (← p.add 64 off 4)
  return ⟨sampleCount, sampleDelta⟩

def stscEntry (p : Profile) (d : Bytes) (off : Nat) : Exec Mp4Error StscEntry := do
  let firstChunk ← readU32 p d off
  let samplesPerChunk ← readU32 p d (← p.add 64 off 4)
  let sampleDescriptionIndex ← readU32 p d (← p.add 64 off 8)
  return ⟨firstChunk, samplesPerChunk, sampleDescriptionIndex⟩

def cttsEntry (p : Profile) (d : Bytes) (off : Nat) : Exec Mp4Error CttsEntry := do
  let sampleCount ← readU32 p d off
  let sampleOffset ← readU32 p d (← p.add 64 off 4)
  return ⟨sampleCount, sampleOffset.toInt32⟩

def stcoEntry (p : Profile) (d : Bytes) (off : Nat) : Exec Mp4Error UInt64 :=
  return (← readU32 p d off).toUInt64

def parseStts (stbl : Atom) : Exec Mp4Error (List SttsEntry) := do
  match ← stbl.child p data ccStts with
  | none => return []
  | some a => parseTable p data a 8 8 (sttsEntry p)

def parseStsc (stbl : Atom) : Exec Mp4Error (List StscEntry) := do
  match ← stbl.child p data ccStsc with
  | none => return []
  | some a => parseTable p data a 8 12 (stscEntry p)

/-- `stsz` alone has a mode without entries: one size for all samples, repeated
at most ten million times. -/
def parseStsz (stbl : Atom) : Exec Mp4Error (List UInt32) := do
  match ← stbl.child p data ccStsz with
  | none => return []
  | some a =>
    let d ← slice data a.dataStart a.dataEnd
    if d.length < 12 then fail (.truncated a.dataStart)
    else
      let sampleSize ← readU32 p d 4
      let sampleCount ← readU32 p d 8
      if sampleSize ≠ 0 then
        return List.replicate (min sampleCount.toNat 10000000) sampleSize
      else
        let maxPossible := (d.length - 12) / 4
        readEntries p d a.dataStart 12 4 (readU32 p d) (min sampleCount.toNat maxPossible) 0

/-- `co64` if there is one, else `stco`. -/
def parseStco (stbl : Atom) : Exec Mp4Error (List UInt64) := do
  match ← stbl.child p data ccCo64 with
  | some a => parseTable p data a 8 8 (readU64 p)
  | none =>
    match ← stbl.child p data ccStco with
    | some a => parseTable p data a 8 4 (stcoEntry p)
    | none => return []

def parseStss (stbl : Atom) : Exec Mp4Error (Option (List UInt32)) := do
  match ← stbl.child p data ccStss with
  | none => return none
  | some a => return some (← parseTable p data a 8 4 (readU32 p))

def parseCtts (stbl : Atom) : Exec Mp4Error (Option (List CttsEntry)) := do
  match ← stbl.child p data ccCtts with
  | none => return none
  | some a => return some (← parseTable p data a 8 8 (cttsEntry p))

/-! ## Tracks and file -/

def positive (x : UInt32) : Option UInt32 := if 0 < x.toNat then some x else none

def parseStbl (stbl : Atom) (trackId width height : UInt32)
    (times : UInt32 × UInt64) (trackType : TrackType) : Exec Mp4Error TrackInfo := do
  let stsdData ← parseStsdRaw p data stbl
  let codec ← parseStsdCodec p data stbl
  let stts ← parseStts p data stbl
  let stsc ← parseStsc p data stbl
  let stsz ← parseStsz p data stbl
  let stco ← parseStco p data stbl
  let stss ← parseStss p data stbl
  let ctts ← parseCtts p data stbl
  let (sampleRate, channels) ←
    if trackType = .audio then parseAudioInfo p data stbl else pure (none, none)
  return {
    trackId, trackType, codec
    timescale := times.1
    duration := times.2
    sampleTable := { stts, stsc, stsz, stco, stss, ctts }
    width := positive width
    height := positive height
    sampleRate, channels, stsdData }

/-- `None` for a track without `mdia`, `minf` or `stbl`. -/
def parseTrak (trak : Atom) : Exec Mp4Error (Option TrackInfo) := do
  let tkhd ← trak.require p data ccTkhd "missing tkhd"
  let (trackId, width, height) ← parseTkhd p data tkhd
  match ← trak.child p data ccMdia with
  | none => return none
  | some mdia =>
    let mdhd ← mdia.require p data ccMdhd "missing mdhd"
    let times ← parseMdhd p data mdhd
    let hdlr ← mdia.require p data ccHdlr "missing hdlr"
    let trackType ← parseHdlr p data hdlr
    match ← mdia.child p data ccMinf with
    | none => return none
    | some minf =>
      match ← minf.child p data ccStbl with
      | none => return none
      | some stbl =>
        return some (← parseStbl p data stbl trackId width height times trackType)

def parseTraksLoop (p : Profile) (data : Bytes) :
    Nat → AtomIter → List TrackInfo → Exec Mp4Error (List TrackInfo)
  | 0, _, _ => crash .hang
  | fuel + 1, it, tracks => do
    match ← it.next p with
    | none => return tracks
    | some (atom, it') =>
      if atom.fourcc = ccTrak then
        match ← parseTrak p data atom with
        | some track => parseTraksLoop p data fuel it' (tracks ++ [track])
        | none => parseTraksLoop p data fuel it' tracks
      else parseTraksLoop p data fuel it' tracks

def parseMp4 : Exec Mp4Error Mp4Metadata := do
  match ← findAtom p data 0 data.length ccMoov with
  | none => fail .moovNotFound
  | some moov =>
    let (timescale, duration) ← parseMvhd p data moov
    let durationSecs :=
      if 0 < timescale.toNat then duration.toFloat / timescale.toFloat else 0.0
    let tracks ← parseTraksLoop p data (data.length + 1) (.new data moov.dataStart moov.dataEnd) []
    if tracks.isEmpty then fail .noTracks
    else return { durationSecs, timescale, tracks }

/-! ## Writing small movies

Version 0 header boxes and sample tables as a muxer writes them, to run the model on
actual files. -/

def tableBox (cc : FourCC) (rows : List (List Nat)) : FourCC × Bytes :=
  (cc, be 4 0 ++ (be 4 rows.length ++ rows.flatMap (·.flatMap (be 4))))

def sizesBox (sizes : List Nat) : FourCC × Bytes :=
  (ccStsz, be 4 0 ++ (be 4 0 ++ (be 4 sizes.length ++ sizes.flatMap (be 4))))

def movieTrak (trackId : Nat) (handler : FourCC) (timescale duration width height : Nat)
    (tables : List (FourCC × Bytes)) : FourCC × Bytes :=
  (ccTrak, boxes [
    (ccTkhd, be 4 3 ++ (be 8 0 ++ (be 4 trackId ++ (List.replicate 24 0 ++
      ([0x00010000, 0, 0, 0, 0x00010000, 0, 0, 0, 0x40000000].flatMap (be 4) ++
        (be 2 width ++ (be 2 0 ++ (be 2 height ++ be 2 0)))))))),
    (ccMdia, boxes [
      (ccMdhd, be 4 0 ++ (be 8 0 ++ (be 4 timescale ++ be 4 duration))),
      (ccHdlr, be 8 0 ++ handler.bytes),
      (ccMinf, boxes [(ccStbl, boxes tables)])])])

/-- Media data first, so that its payload starts at offset 8. -/
def movie (timescale duration : Nat) (traks : List (FourCC × Bytes)) (media : Bytes) : Bytes :=
  boxes [(ccMdat, media),
    (ccMoov, boxes ((ccMvhd, be 4 0 ++ (be 8 0 ++ (be 4 timescale ++ be 4 duration))) :: traks))]

end Nozdormu.Packaging
