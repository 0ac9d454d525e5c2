import Nozdormu.Packaging.AtomSearch
import Nozdormu.Packaging.InitSegment

/-!
# Parsing an init segment
-/

namespace Nozdormu.Packaging

open Rust Bmff List

variable {p : Profile} {data : Bytes} {a : Atom}

variable {timescale : UInt32}

/-- Version 0 `mvhd` and `mdhd`: timescale at offset 12, duration at 16. -/
theorem parseTimes_body {d rest : Bytes} (hd : data.length < 2 ^ 32) (h : AtomAt data a d)
    (hbody : d = be 4 0 ++ (be 4 0 ++ (be 4 0 ++ (be 4 timescale.toNat ++ (be 4 0 ++ rest))))) :
    parseTimes p data a = .ok (timescale, 0) := by
  have hself := holds_self d
  nth_rewrite 2 [hbody] at hself
  simp only [holds_append, be_length, Nat.zero_add, Nat.reduceAdd] at hself
  obtain ⟨-, -, -, hscale, hdur, -⟩ := hself
  have hzero : Holds d 16 (be 4 (0 : UInt32).toNat) := hdur
  have hdata := h.holds.le
  have hlen := hdur.le
  rw [be_length] at hlen
  have hne : d.isEmpty = false := by rw [hbody]; rfl
  have hindex : (index d 0 : Exec Mp4Error UInt8) = .ok 0 := by rw [hbody]; rfl
  rw [parseTimes, h.slice, ok_bind, hne, if_neg (by decide), hindex, ok_bind,
    if_neg (by decide), if_neg (by omega), readU32_holds (by omega) hscale, ok_bind,
    readU32_holds (by omega) hzero]
  rfl

variable {t : TrackHeader}

/-- What the parser makes of the `tkhd` writer's output: the last matrix entry is taken for
the width and the width for the height. -/
theorem parseTkhd_tkhdBody (h : AtomAt data a (tkhdBody t)) :
    parseTkhd p data a = .ok (t.trackId, 16384, (t.width.getD 0 <<< 16) >>> 16) := by
  have hlen : (tkhdBody t).length = 84 := by
    rfl
  have hself := holds_self (tkhdBody t)
  nth_rewrite 2 [tkhdBody] at hself
  rw [show identityMatrix = [0x00010000, 0, 0, 0, 0x00010000, 0, 0, 0].flatMap (be 4)
    ++ be 4 0x40000000
    from rfl] at hself
  simp only [holds_append, be_length, zeros_length, Nat.zero_add, Nat.reduceAdd, length_append,
    flatMap_cons, flatMap_nil, length_nil, Nat.add_zero] at hself
  obtain ⟨-, -, -, hid, -, -, -, -, -, -, -, ⟨-, hmatrix⟩, hwidth, -⟩ := hself
  have hindex : (index (tkhdBody t) 0 : Exec Mp4Error UInt8) = .ok 0 := rfl
  rw [parseTkhd, h.slice, ok_bind, if_neg (by rw [isEmpty_iff_length_eq_zero]; omega), hindex,
    ok_bind, if_neg (by decide), if_neg (by omega), readU32_holds (by omega) hid, ok_bind,
    readU32_holds (v := 0x40000000) (by omega) hmatrix, ok_bind,
    readU32_holds (by omega) hwidth]
  rfl

theorem parseHdlr_hdlrBody {trackType : TrackType}
    (h : AtomAt data a (hdlrBody (handlerCode trackType))) :
    parseHdlr p data a = .ok trackType := by
  have hlen : (hdlrBody (handlerCode trackType)).length = 25 := by
    rfl
  have hself := holds_self (hdlrBody (handlerCode trackType))
  nth_rewrite 2 [hdlrBody] at hself
  simp only [holds_append, be_length, Nat.zero_add, Nat.reduceAdd] at hself
  obtain ⟨-, -, hcode, -⟩ := hself
  rw [parseHdlr, h.slice, ok_bind, if_neg (by omega), readFourcc_holds (by omega) hcode, ok_bind]
  cases trackType <;> rfl

/-! ## Sample description and empty tables -/

/-- Codec of a sample description: the type of its first entry. -/
def codecOf (d : Bytes) : Option FourCC :=
  if d.length < 16 then none
  else
    match (d.drop 12).take 4 with
    | [a, b, c, e] => some ⟨a, b, c, e⟩
    | _ => none

def audioInfoOf (d : Bytes) : Option UInt32 × Option UInt16 :=
  if d.length < 36 then (none, none)
  else
    (some (UInt32.ofNat (beVal ((d.drop 32).take 4)) >>> 16),
      some (UInt16.ofNat (beVal ((d.drop 24).take 2))))

section Stbl

variable {stbl : Atom} {l : List (FourCC × Bytes)} {d : Bytes}

section

variable (hd : data.length < 2 ^ 32) (h : AtomAt data stbl (boxes l))
  (hc : childBody ccStsd l = some d)
include hd h hc

theorem parseStsdRaw_eq : parseStsdRaw p data stbl = .ok d := by
  obtain ⟨a, ha, hbody⟩ := child_of_childBody hd h hc
  rw [parseStsdRaw, ha, ok_bind]
  exact hbody.slice

theorem parseStsdCodec_eq : parseStsdCodec p data stbl = .ok (codecOf d) := by
  obtain ⟨a, ha, hbody⟩ := child_of_childBody hd h hc
  have hle := hbody.holds.le
  rw [parseStsdCodec, ha, ok_bind]
  simp only [hbody.slice, ok_bind]
  unfold codecOf
  by_cases hlen : d.length < 16
  · rw [if_pos hlen, if_pos hlen]
    rfl
  · obtain ⟨cc, hcc, htake⟩ := readFourcc_eq p (by omega) (show 12 + 4 ≤ d.length by omega)
    rw [if_neg hlen, if_neg hlen, hcc, htake]
    rfl

theorem parseAudioInfo_eq : parseAudioInfo p data stbl = .ok (audioInfoOf d) := by
  obtain ⟨a, ha, hbody⟩ := child_of_childBody hd h hc
  have hle := hbody.holds.le
  rw [parseAudioInfo, ha, ok_bind]
  simp only [hbody.slice, ok_bind]
  unfold audioInfoOf
  by_cases hlen : d.length < 36
  · rw [if_pos hlen, if_pos hlen]
    rfl
  · rw [if_neg hlen, if_neg hlen, readU16, readBe_eq p (by omega) (by omega), ok_bind, pure_eq_ok,
      ok_bind, readU32, readBe_eq p (by omega) (by omega)]
    rfl

end

theorem parseTable_empty {α : Type} {size : Nat} {entry : Bytes → Nat → Exec Mp4Error α}
    (h : AtomAt data a (be 4 0 ++ be 4 0)) : parseTable p data a 8 size entry = .ok [] := by
  have hcount : readU32 p (be 4 0 ++ be 4 0) 4 = .ok 0 := by
    refine readU32_holds (by simp) ?_
    have hself := holds_self (be 4 0 ++ be 4 0)
    exact (holds_append.1 hself).2
  rw [parseTable, h.slice, ok_bind, if_neg (by simp), hcount]
  rfl

theorem parseStsz_empty (hd : data.length < 2 ^ 32) (h : AtomAt data stbl (boxes l))
    (hc : childBody ccStsz l = some (be 4 0 ++ (be 4 0 ++ be 4 0))) :
    parseStsz p data stbl = .ok [] := by
  obtain ⟨a, ha, hbody⟩ := child_of_childBody hd h hc
  rw [parseStsz, ha, ok_bind]
  simp only [hbody.slice, ok_bind]
  rfl

end Stbl

def reparsed (t : TrackHeader) : TrackInfo :=
  { trackId := t.trackId
    trackType := t.trackType
    codec := codecOf (stsdBody t.stsdData)
    timescale := t.timescale
    duration := 0
    sampleTable := { stts := [], stsc := [], stsz := [], stco := [], stss := none, ctts := none }
    width := some 16384
    height := positive ((t.width.getD 0 <<< 16) >>> 16)
    sampleRate := if t.trackType = .audio then (audioInfoOf (stsdBody t.stsdData)).1 else none
    channels := if t.trackType = .audio then (audioInfoOf (stsdBody t.stsdData)).2 else none
    stsdData := stsdBody t.stsdData }

theorem parseStbl_stblChildren {stbl : Atom} (hd : data.length < 2 ^ 32)
    (h : AtomAt data stbl (boxes (stblChildren t.stsdData))) :
    parseStbl p data stbl t.trackId 16384 ((t.width.getD 0 <<< 16) >>> 16) (t.timescale, 0)
      t.trackType = .ok (reparsed t) := by
  have hstsd : childBody ccStsd (stblChildren t.stsdData) = some (stsdBody t.stsdData) := rfl
  obtain ⟨stts, hstts, hsttsBody⟩ : ∃ x, stbl.child p data ccStts = .ok (some x) ∧
      AtomAt data x (be 4 0 ++ be 4 0) := child_of_childBody hd h rfl
  obtain ⟨stsc, hstsc, hstscBody⟩ : ∃ x, stbl.child p data ccStsc = .ok (some x) ∧
      AtomAt data x (be 4 0 ++ be 4 0) := child_of_childBody hd h rfl
  obtain ⟨stco, hstco, hstcoBody⟩ : ∃ x, stbl.child p data ccStco = .ok (some x) ∧
      AtomAt data x (be 4 0 ++ be 4 0) := child_of_childBody hd h rfl
  have hco64 : stbl.child p data ccCo64 = .ok none := child_of_childBody_none hd h rfl
  have hstss : stbl.child p data ccStss = .ok none := child_of_childBody_none hd h rfl
  have hctts : stbl.child p data ccCtts = .ok none := child_of_childBody_none hd h rfl
  simp only [parseStbl, parseStsdRaw_eq hd h hstsd, parseStsdCodec_eq hd h hstsd,
    parseAudioInfo_eq hd h hstsd, parseStsz_empty hd h rfl, parseStts, hstts, parseStsc, hstsc,
    parseStco, hco64, hstco, parseStss, hstss, parseCtts, hctts, parseTable_empty hsttsBody,
    parseTable_empty hstscBody, parseTable_empty hstcoBody, ok_bind, pure_eq_ok]
  unfold reparsed
  by_cases haudio : t.trackType = .audio
  · simp only [if_pos haudio]
    rfl
  · simp only [if_neg haudio]
    rfl

theorem parseTrak_trakChildren {trak : Atom} (hd : data.length < 2 ^ 32)
    (h : AtomAt data trak (boxes (trakChildren t))) :
    parseTrak p data trak = .ok (some (reparsed t)) := by
  obtain ⟨tkhd, htkhd, htkhdBody⟩ : ∃ x, trak.require p data ccTkhd "missing tkhd" = .ok x ∧
      AtomAt data x (tkhdBody t) := require_of_childBody hd h rfl _
  obtain ⟨mdia, hmdia, hmdiaBody⟩ : ∃ x, trak.child p data ccMdia = .ok (some x) ∧
      AtomAt data x (boxes (mdiaChildren t)) := child_of_childBody hd h rfl
  obtain ⟨mdhd, hmdhd, hmdhdBody⟩ : ∃ x, mdia.require p data ccMdhd "missing mdhd" = .ok x ∧
      AtomAt data x (mdhdBody t.timescale) := require_of_childBody hd hmdiaBody rfl _
  obtain ⟨hdlr, hhdlr, hhdlrBody⟩ : ∃ x, mdia.require p data ccHdlr "missing hdlr" = .ok x ∧
      AtomAt data x (hdlrBody (handlerCode t.trackType)) :=
    require_of_childBody hd hmdiaBody rfl _
  obtain ⟨minf, hminf, hminfBody⟩ : ∃ x, mdia.child p data ccMinf = .ok (some x) ∧
      AtomAt data x (boxes (minfChildren t)) := child_of_childBody hd hmdiaBody rfl
  -- behind the media header box, which depends on the type
  have hstblBody : childBody ccStbl (minfChildren t) = some (boxes (stblChildren t.stsdData)) := by
    unfold minfChildren
    cases t.trackType <;> rfl
  obtain ⟨stbl, hstbl, hstblAt⟩ := child_of_childBody (p := p) hd hminfBody hstblBody
  simp only [parseTrak, htkhd, ok_bind, parseTkhd_tkhdBody htkhdBody, hmdia, hmdhd, parseMdhd,
    parseTimes_body hd hmdhdBody rfl, hhdlr, parseHdlr_hdlrBody hhdlrBody, hminf, hstbl,
    parseStbl_stblChildren hd hstblAt]
  rfl

theorem parseTraksLoop_other {off stop fuel : Nat} {found : List TrackInfo}
    {cc : FourCC} {body : Bytes}
    (hd : data.length < 2 ^ 32) (hbox : Holds data off (makeBox cc body))
    (hcc : cc ≠ ccTrak) (hend : off + (8 + body.length) ≤ stop) (hstop : stop ≤ data.length) :
    parseTraksLoop p data (fuel + 1) ⟨data, off, stop⟩ found
      = parseTraksLoop p data fuel ⟨data, off + (8 + body.length), stop⟩ found := by
  rw [parseTraksLoop, next_makeBox hd hbox hend hstop, ok_bind]
  exact if_neg hcc

theorem parseTraksLoop_traks (hd : data.length < 2 ^ 32) {stop : Nat} (hstop : stop ≤ data.length)
    {mvex : Bytes} : ∀ (tracks : List TrackHeader) {off fuel : Nat} {found : List TrackInfo},
    tracks.length + 1 < fuel →
    Holds data off (boxes (tracks.map (fun t => (ccTrak, boxes (trakChildren t))) ++
      [(ccMvex, mvex)])) →
    stop = off + (boxes (tracks.map (fun t => (ccTrak, boxes (trakChildren t))) ++
      [(ccMvex, mvex)])).length →
    parseTraksLoop p data fuel ⟨data, off, stop⟩ found = .ok (found ++ tracks.map reparsed) := by
  intro tracks
  induction tracks with
  | nil =>
    intro off fuel found hfuel hold hend
    obtain ⟨fuel, rfl⟩ : ∃ k, fuel = k + 2 := ⟨fuel - 2, by rw [length_nil] at hfuel; omega⟩
    rw [map_nil, nil_append, boxes_cons, boxes_nil, append_nil] at hold hend
    rw [makeBox_length] at hend
    have hmove : off + (8 + mvex.length) = stop := by rw [hend]; simp only; omega
    rw [parseTraksLoop_other hd hold (show ccMvex ≠ ccTrak by decide) (by simp only; omega) hstop]
    rw [hmove, parseTraksLoop, next_stop (by omega) (by omega), ok_bind, map_nil, append_nil]
    rfl
  | cons t tracks ih =>
    intro off fuel found hfuel hold hend
    obtain ⟨fuel, rfl⟩ : ∃ k, fuel = k + 1 := ⟨fuel - 1, by omega⟩
    rw [map_cons, cons_append, boxes_cons] at hold hend
    rw [length_append, makeBox_length] at hend
    obtain ⟨hbox, hrest⟩ := holds_append.1 hold
    rw [makeBox_length, Nat.add_comm _ 8] at hrest
    have hat : AtomAt data ⟨ccTrak, 8, off + 8, off + (8 + (boxes (trakChildren t)).length)⟩
        (boxes (trakChildren t)) := ⟨(holds_makeBox.1 hbox).2.2, by simp only at hend ⊢; omega⟩
    rw [parseTraksLoop, next_makeBox hd hbox (by simp only at hend ⊢; omega) hstop, ok_bind]
    simp only [if_true, parseTrak_trakChildren hd hat, ok_bind]
    rw [ih (by simp only [length_cons] at hfuel; omega) hrest (by simp only at hend ⊢; omega),
      map_cons, append_assoc, singleton_append]

def reparsedMetadata (timescale : UInt32) (tracks : List TrackHeader) : Mp4Metadata :=
  { durationSecs :=
      if 0 < timescale.toNat then (0 : UInt64).toFloat / timescale.toFloat else 0.0
    timescale
    tracks := tracks.map reparsed }

/-- **Parsing an init segment.** Below 4 GiB the parser accepts every init segment with a
track and returns its tracks as `reparsed`. -/
theorem parseMp4_initSegment (p : Profile) {tracks : List TrackHeader}
    (hne : tracks ≠ []) (hlen : (initSegment timescale tracks).length < 2 ^ 32) :
    parseMp4 p (initSegment timescale tracks) = .ok (reparsedMetadata timescale tracks) := by
  have hboxes : initSegment timescale tracks
      = boxes [(ccFtyp, ccIsom.bytes ++ (be 4 0x200 ++ (ccIsom.bytes ++ (ccIso6.bytes ++
          ccMp41.bytes)))), (ccMoov, boxes (moovChildren timescale tracks))] := by
    rw [boxes_cons, boxes_cons, boxes_nil, append_nil]
    rfl
  generalize initSegment timescale tracks = data at hlen hboxes
  -- the file itself is a container without a header
  have hfile : AtomAt data ⟨ccMoov, 0, 0, data.length⟩ (boxes
      [(ccFtyp, ccIsom.bytes ++ (be 4 0x200 ++ (ccIsom.bytes ++ (ccIso6.bytes ++ ccMp41.bytes)))),
        (ccMoov, boxes (moovChildren timescale tracks))]) := by
    rw [← hboxes]
    exact ⟨holds_self data, (Nat.zero_add _).symm⟩
  have hfound : ∃ x, (⟨ccMoov, 0, 0, data.length⟩ : Atom).child p data ccMoov = .ok (some x) ∧
      AtomAt data x (boxes (moovChildren timescale tracks)) := child_of_childBody hlen hfile rfl
  obtain ⟨moov, (hmoov : findAtom p data 0 data.length ccMoov = .ok (some moov)), hmoovBody⟩ :=
    hfound
  obtain ⟨mvhd, hmvhd, hmvhdBody⟩ : ∃ x, moov.require p data ccMvhd "missing mvhd" = .ok x ∧
      AtomAt data x (mvhdBody timescale) := require_of_childBody hlen hmoovBody rfl _
  -- the track loop: step over `mvhd`, then collect
  have hle := hmoovBody.holds.le
  have hend := hmoovBody.dataEnd
  have hcount := length_le_boxes_length (moovChildren timescale tracks)
  have hloop : parseTraksLoop p data (data.length + 1) (.new data moov.dataStart moov.dataEnd) []
      = .ok (tracks.map reparsed) := by
    have hold := hmoovBody.holds
    obtain ⟨hbox, hrest⟩ := holds_append.1 hold
    rw [moovChildren, boxes_cons, length_append] at hend hle
    rw [moovChildren, length_cons, length_append, length_map,
      length_singleton, boxes_cons, length_append] at hcount
    rw [makeBox_length, Nat.add_comm _ 8] at hrest hend hle hcount
    have hmin : min moov.dataEnd data.length = moov.dataEnd := by omega
    rw [AtomIter.new, hmin, parseTraksLoop_other hlen hbox (show ccMvhd ≠ ccTrak by decide)
      (by omega) (by omega), parseTraksLoop_traks hlen (by omega) tracks (by omega) hrest
      (by omega), nil_append]
  have hempty : (tracks.map reparsed).isEmpty = false := by
    cases tracks with
    | nil => exact absurd rfl hne
    | cons => rfl
  rw [parseMp4, hmoov, ok_bind]
  simp only [parseMvhd, hmvhd, ok_bind, parseTimes_body hlen hmvhdBody rfl, hloop, hempty]
  rfl

theorem parsedTrack_liveInit (p : Profile) (before after : List LiveTrackInfo) (timescale : UInt32)
    {t : LiveTrackInfo}
    (hlen : (generateInitSegmentFromLiveTracks (before ++ t :: after) timescale).length < 2 ^ 32) :
    ((parseMp4 p (generateInitSegmentFromLiveTracks (before ++ t :: after) timescale)).toOption.bind
      fun m => m.tracks[before.length]?) = some (reparsed t.header) := by
  have hne : (before ++ t :: after).map LiveTrackInfo.header ≠ [] := by
    rw [map_append, map_cons]
    exact append_ne_nil_of_right_ne_nil _ (cons_ne_nil _ _)
  rw [show parseMp4 p (generateInitSegmentFromLiveTracks _ timescale) =
    _ from parseMp4_initSegment p hne hlen]
  simp only [Except.toOption, Option.bind_some, reparsedMetadata, map_append, map_cons]
  rw [List.getElem?_append_right (by simp)]
  simp only [length_map, Nat.sub_self, List.getElem?_cons_zero]

/-! ## Which tracks survive -/

/-- Parsing the init segment of `metadata` gives tracks with the same id, type, timescale,
width, height and sample description. -/
def SameTracks (p : Profile) (metadata : Mp4Metadata) : Prop :=
  (parseMp4 p (generateInitSegment metadata)).toOption.map (fun m => m.tracks.map TrackInfo.header)
    = some (metadata.tracks.map TrackInfo.header)

instance (p : Profile) (metadata : Mp4Metadata) : Decidable (SameTracks p metadata) :=
  inferInstanceAs (Decidable (_ = _))

theorem tracks_ne_nil_of_parseMp4 {metadata : Mp4Metadata} (h : parseMp4 p data = .ok metadata) :
    metadata.tracks ≠ [] := by
  obtain ⟨found, -, h⟩ := bind_eq_ok.1 h
  cases found with
  | none => cases h
  | some moov =>
    obtain ⟨times, -, h⟩ := bind_eq_ok.1 h
    obtain ⟨tracks, -, h⟩ := bind_eq_ok.1 h
    by_cases hempty : tracks.isEmpty = true
    · rw [if_pos hempty] at h
      cases h
    · rw [if_neg hempty] at h
      cases h
      intro hnil
      exact hempty (isEmpty_iff.2 hnil)

theorem reparsed_header_eq_iff (t : TrackHeader) : (reparsed t).header = t ↔
      t.width = some 16384 ∧ t.height = some 16384 ∧ t.stsdData ≠ [] := by
  obtain ⟨id, type, scale, width, height, stsd⟩ := t
  have hstsd : stsdBody stsd = stsd ↔ stsd ≠ [] := by
    unfold stsdBody
    cases stsd with
    | nil => decide
    | cons b bs => simp
  simp only [TrackInfo.header, reparsed, TrackHeader.mk.injEq, true_and, hstsd]
  constructor
  · intro h
    rcases h with ⟨rfl, rfl, hs⟩
    exact ⟨rfl, by decide, hs⟩
  · intro h
    rcases h with ⟨rfl, rfl, hs⟩
    exact ⟨rfl, by decide, hs⟩

/-- **Init round trip.** The init segment of a parsed file (below 4 GiB) parses back to the
same tracks exactly if each is 16384 by 16384 and has a sample description. -/
theorem sameTracks_iff (p : Profile) (data : Bytes) (metadata : Mp4Metadata)
    (hparse : parseMp4 p data = .ok metadata)
    (hlen : (generateInitSegment metadata).length < 2 ^ 32) :
    SameTracks p metadata ↔
      ∀ t ∈ metadata.tracks,
        t.width = some 16384 ∧ t.height = some 16384 ∧ t.stsdData ≠ [] := by
  have hne : metadata.tracks.map TrackInfo.header ≠ [] := by
    intro h
    exact tracks_ne_nil_of_parseMp4 hparse (map_eq_nil_iff.1 h)
  unfold SameTracks
  rw [show parseMp4 p (generateInitSegment metadata) = _ from parseMp4_initSegment p hne hlen]
  simp only [Except.toOption, Option.map_some, reparsedMetadata, Option.some.injEq, map_map]
  rw [map_inj_left]
  exact forall₂_congr fun t _ => reparsed_header_eq_iff t.header

def sizedMovie (width height : Nat) : Bytes :=
  movie 10 20 [movieTrak 1 ccVide 10 20 width height [(ccStsd, be 8 0)]] []

def sizedMetadata (width height : Nat) : Mp4Metadata :=
  ((parseMp4 .release (sizedMovie width height)).toOption).getD ⟨0, 0, []⟩

theorem sameTracks_sizedMovie : SameTracks .release (sizedMetadata 640 480) ↔
      ∀ t ∈ (sizedMetadata 640 480).tracks,
        t.width = some 16384 ∧ t.height = some 16384 ∧ t.stsdData ≠ [] :=
  sameTracks_iff .release (sizedMovie 640 480) (sizedMetadata 640 480) (by decide +kernel)
    (by decide +kernel)

/-- A video of 640 by 480 is parsed as 16384 by 640, and its init segment as 16384 by 16384. -/
theorem sameTracks_fails : parseMp4 .release (sizedMovie 640 480) = .ok (sizedMetadata 640 480) ∧
      (generateInitSegment (sizedMetadata 640 480)).length < 2 ^ 32 ∧
      ¬ SameTracks .release (sizedMetadata 640 480) := by
  refine ⟨?_, ?_, ?_⟩ <;> decide +kernel

end Nozdormu.Packaging
