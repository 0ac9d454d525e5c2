import Nozdormu.Packaging.Listing
import Nozdormu.Packaging.Mp4Parse

/-!
# What a player gets from the playlist

Two contracts between the playlist and the media segments it points to. `ExtinfMatches`: an
entry's duration is that of the reference-track samples in its segment. `EverySampleListed`:
no audio or video sample falls between the listed segments.
-/

namespace Nozdormu.Packaging

open Rust Bmff RunLength List

/-! ## Ranges of listed segments -/

section Ranges

variable {ε : Type} {track : TrackInfo} {dur : Float} {i : Nat}

/-- The range of segment `i` is the range between the ticks of its two boundaries. -/
theorem segmentSampleRange_eq_at (p : Profile) (hi : i + 1 < 2 ^ 32) :
    (segmentSampleRange p track i dur : Exec ε _)
      = segmentSampleRangeAt p track (boundaryTicks i dur track.timescale)
          (boundaryTicks (i + 1) dur track.timescale) := by
  rw [segmentSampleRange, add_ok p hi]
  rfl

theorem segmentSampleRange_spec (hi : i + 1 < 2 ^ 32) :
    Spec (segmentSampleRange .dev track i dur : Exec ε _)
      (RangeSafe track (boundaryTicks i dur track.timescale))
      fun r => r = (startAt track dur i, max (startAt track dur i) (cutAt track dur i)) := by
  rw [segmentSampleRange_eq_at .dev hi]
  exact segmentSampleRangeAt_spec

theorem startAt_lt (hn : track.samples < 2 ^ 32) : startAt track dur i < 2 ^ 32 := by
  unfold startAt rangeStart
  split
  · exact Nat.two_pow_pos 32
  have hle : sampleAt track.sampleTable.stts (boundaryTicks i dur track.timescale)
      ≤ track.samples := locate_le_total _ _
  exact Nat.lt_of_le_of_lt startOf_le (Nat.lt_of_le_of_lt hle hn)

end Ranges

def gopTables (offset : Nat) : List (FourCC × Bytes) :=
  [tableBox ccStts [[6, 1]], tableBox ccStsc [[1, 6, 1]], sizesBox (List.replicate 6 1),
    tableBox ccStco [[offset]]]

/-- A video track of one keyframe and five other frames, and an audio track of the same length. -/
def gopMovie : Bytes :=
  movie 1 6 [
    movieTrak 1 ccVide 1 6 16 16 (gopTables 8 ++ [tableBox ccStss [[1]]]),
    movieTrak 2 ccSoun 1 6 0 0 (gopTables 14)] (List.replicate 12 0)

def gopTrack (trackId : UInt32) (trackType : TrackType) (offset : UInt64)
    (stss : Option (List UInt32)) (height : Option UInt32) : TrackInfo := {
  trackId, trackType, height
  codec := none, timescale := 1, duration := 6
  sampleTable := ⟨[⟨6, 1⟩], [⟨1, 6, 1⟩], [1, 1, 1, 1, 1, 1], [offset], stss, none⟩
  width := some 16384, sampleRate := none, channels := none, stsdData := [] }

def gopVideo : TrackInfo := gopTrack 1 .video 8 (some [1]) (some 16)

def gopAudio : TrackInfo := gopTrack 2 .audio 14 none none

def gopMetadata : Mp4Metadata := ⟨6.0, 1, [gopVideo, gopAudio]⟩

theorem parseMp4_gopMovie (p : Profile) : parseMp4 p gopMovie = .ok gopMetadata := by
  cases p with
  | dev | release => decide +kernel

/-- The playlist is computed, and every entry spans exactly the decode times of the reference
track's samples in its segment. -/
def ExtinfMatches (p : Profile) (metadata : Mp4Metadata) (dur : Float) : Prop :=
  ∃ spans, (segmentSpans p metadata dur : Exec PackagingError _) = .ok spans ∧
    ∀ span ∈ spans, ∃ track first last, referenceTrack metadata = some track ∧
      (segmentSampleRange p track span.index dur : Exec PackagingError _) = .ok (first, last) ∧
      (sampleToDts p track.sampleTable.stts first : Exec PackagingError _) = .ok span.startDts ∧
      (sampleToDts p track.sampleTable.stts last : Exec PackagingError _) = .ok span.endDts

/-- Segment `i` starts when the listed segments before it end, and if it is cut at the last
sample, the declared duration is the sum of the sample durations. -/
def SpanExact (track : TrackInfo) (dur : Float) (i : Nat) : Prop :=
  RangeSafe track (boundaryTicks i dur track.timescale) ∧
  dts track.sampleTable.stts (startAt track dur i)
    = dts track.sampleTable.stts (prevCut track dur i) ∧
  dts track.sampleTable.stts (max (startAt track dur i) (cutAt track dur i))
    = spanEnd track (cutAt track dur i)

theorem ExtinfMatches.release {metadata : Mp4Metadata} {dur : Float}
    (h : ExtinfMatches .dev metadata dur) : ExtinfMatches .release metadata dur := by
  obtain ⟨spans, hspans, hmatch⟩ := h
  refine ⟨spans, (relaxed_segmentSpans _ _).agrees _ hspans, ?_⟩
  intro span hspan
  obtain ⟨track, first, last, href, hrange, hfirst, hlast⟩ := hmatch span hspan
  exact ⟨track, first, last, href, (relaxed_segmentSampleRange _ _).agrees _ hrange,
    (relaxed_sampleToDts _ _).agrees _ hfirst, (relaxed_sampleToDts _ _).agrees _ hlast⟩

theorem extinfMatches_dev_iff (metadata : Mp4Metadata) (dur : Float) :
    ExtinfMatches .dev metadata dur ↔
      ∀ track, referenceTrack metadata = some track → 0 < computeSegmentCount metadata dur →
        track.samples < 2 ^ 32 ∧
        ∀ i, Listed track dur (computeSegmentCount metadata dur) i → SpanExact track dur i := by
  have hcount := @computeSegmentCount_lt metadata dur
  constructor
  · intro h track href hpos
    rcases h with ⟨spans, hspans, hmatch⟩
    obtain ⟨hn, -⟩ := returnsIff_segmentSpans.returns_iff.1 ⟨spans, hspans⟩ track href hpos
    refine ⟨hn, ?_⟩
    intro i hi
    rw [segmentSpans_eq .dev href hn] at hspans
    obtain ⟨span, hspan⟩ := returns_mapM.1 ⟨spans, hspans⟩ i (mem_listedIndices.2 hi)
    obtain ⟨hindex, hstart, hend⟩ := segmentSpan_value (prevCut_lt hn i) (cutAt_lt hn) hspan
    obtain ⟨track', first, last, href', hrange, hfirst, hlast⟩ :=
      hmatch span ((mem_iff_of_mapM hspans).2 ⟨i, mem_listedIndices.2 hi, hspan⟩)
    obtain rfl := Option.mem_unique href href'
    have hlt := hi.1
    rw [hindex] at hrange
    obtain ⟨hsafe, hr⟩ := (segmentSampleRange_spec (by omega)).eq_ok_iff.1 hrange
    cases hr
    rw [sampleToDts_eq .dev _ (startAt_lt hn)] at hfirst
    rw [sampleToDts_eq .dev _ (Nat.max_lt.2 ⟨startAt_lt hn, cutAt_lt hn⟩)] at hlast
    exact ⟨hsafe, (Except.ok.inj hfirst).trans hstart, (Except.ok.inj hlast).trans hend⟩
  · intro hcond
    by_cases h0 : computeSegmentCount metadata dur = 0
    · exact ⟨[], segmentSpans_eq_nil .dev (Or.inl h0), by simp⟩
    rcases href : referenceTrack metadata with _ | track
    · exact ⟨[], segmentSpans_eq_nil .dev (Or.inr href), by simp⟩
    obtain ⟨hn, hexact⟩ := hcond track href (by omega)
    -- an exact span ends no earlier than it starts, so its duration can be computed
    have hsafe : PlaylistSafe metadata dur := by
      intro track' href' _
      obtain rfl := Option.mem_unique href href'
      refine ⟨hn, ?_⟩
      intro i hi _
      obtain ⟨-, hstart, hend⟩ := hexact i hi
      rw [← hstart, ← hend]
      exact prefixSum_mono _ (Nat.le_max_left _ _)
    obtain ⟨spans, hspans⟩ := (@returnsIff_segmentSpans PackagingError _ _).returns hsafe
    refine ⟨spans, hspans, ?_⟩
    intro span hspan
    rw [segmentSpans_eq .dev href hn] at hspans
    obtain ⟨i, hi, hspan⟩ := (mem_iff_of_mapM hspans).1 hspan
    rw [mem_listedIndices] at hi
    obtain ⟨hindex, hstart, hend⟩ := segmentSpan_value (prevCut_lt hn i) (cutAt_lt hn) hspan
    obtain ⟨hrange, hfirst, hlast⟩ := hexact i hi
    subst hindex
    have hlt := hi.1
    refine ⟨track, _, _, href, (segmentSampleRange_spec (by omega)).eq_ok_iff.2 ⟨hrange, rfl⟩, ?_,
      ?_⟩
    · rw [sampleToDts_eq .dev _ (startAt_lt hn), hfirst, hstart]
    · rw [sampleToDts_eq .dev _ (Nat.max_lt.2 ⟨startAt_lt hn, cutAt_lt hn⟩), hlast, hend]

/-- The entries of a playlist match their segments exactly if every listed index of the
reference track is `SpanExact`; then an optimised build's match too. -/
theorem extinfMatches_iff (metadata : Mp4Metadata) (dur : Float) :
    (ExtinfMatches .dev metadata dur ↔
      ∀ track, referenceTrack metadata = some track → 0 < computeSegmentCount metadata dur →
        track.samples < 2 ^ 32 ∧
        ∀ i, Listed track dur (computeSegmentCount metadata dur) i → SpanExact track dur i) ∧
    ((∀ track, referenceTrack metadata = some track → 0 < computeSegmentCount metadata dur →
        track.samples < 2 ^ 32 ∧
        ∀ i, Listed track dur (computeSegmentCount metadata dur) i → SpanExact track dur i) →
      ExtinfMatches .release metadata dur) :=
  ⟨extinfMatches_dev_iff metadata dur, fun h => ((extinfMatches_dev_iff metadata dur).2 h).release⟩

/-- The second entry claims no time, but its segment holds the whole video again. -/
theorem extinfMatches_gopMovie_fails :
    parseMp4 .dev gopMovie = .ok gopMetadata ∧ parseMp4 .release gopMovie = .ok gopMetadata ∧
    ¬ ExtinfMatches .dev gopMetadata 2.0 ∧ ¬ ExtinfMatches .release gopMetadata 2.0 := by
  have hnot : ∀ p, ¬ ExtinfMatches p gopMetadata 2.0 := by
    intro p h
    rcases h with ⟨spans, hspans, hmatch⟩
    -- the indices 0 and 2 are listed: the first video segment already reaches the end
    have hlisted : (segmentSpans p gopMetadata 2.0 : Exec PackagingError _)
        = .ok [⟨0, 0, 6, 6.0⟩, ⟨2, 6, 6, 0.0⟩] := by
      cases p with
      | dev | release => decide +kernel
    cases hlisted.symm.trans hspans
    obtain ⟨track, first, last, href, hr, hfirst, -⟩ := hmatch ⟨2, 6, 6, 0.0⟩ (by simp)
    obtain rfl : gopVideo = track := Option.some.inj href
    obtain ⟨rfl, -⟩ := ok_pair_inj hr
    exact absurd (Except.ok.inj hfirst) (by decide)
  exact ⟨parseMp4_gopMovie .dev, parseMp4_gopMovie .release, hnot .dev, hnot .release⟩

/-- The playlist is computed, and every audio or video sample lies in the range of a segment
it lists. -/
def EverySampleListed (p : Profile) (metadata : Mp4Metadata) (dur : Float) : Prop :=
  ∃ segments, (computeSegmentDurations p metadata dur : Exec PackagingError _) = .ok segments ∧
    ∀ track ∈ metadata.tracks, track.trackType ≠ .other → ∀ k < track.samples,
      ∃ segment ∈ segments, ∃ first last,
        (segmentSampleRange p track segment.1 dur : Exec PackagingError _) = .ok (first, last) ∧
        first ≤ k ∧ k < last

/-- Sample `k` in segment `i`. -/
def InSegment (track : TrackInfo) (dur : Float) (i k : Nat) : Prop :=
  match alignmentTable track with
  | none =>
    boundaryTicks i dur track.timescale < dts track.sampleTable.stts (k + 1) ∧
      dts track.sampleTable.stts (k + 1) ≤ boundaryTicks (i + 1) dur track.timescale
  | some stss =>
    FloorSafe stss (sampleAt track.sampleTable.stts (boundaryTicks i dur track.timescale)) ∧
      syncFloor stss (sampleAt track.sampleTable.stts (boundaryTicks i dur track.timescale)) ≤ k ∧
      k < cutAt track dur i

section Coverage

variable {track : TrackInfo} {dur : Float} {i k : Nat}

theorem cutAt_of_alignmentTable_none (h : alignmentTable track = none) : cutAt track dur i
      = sampleAt track.sampleTable.stts (boundaryTicks (i + 1) dur track.timescale) := by
  have hle : sampleAt track.sampleTable.stts (boundaryTicks (i + 1) dur track.timescale)
      ≤ track.samples := locate_le_total _ _
  unfold cutAt rangeCut endOf
  rw [h]
  split
  next => rfl
  next hge => omega

theorem inSegment_iff (hn : track.samples < 2 ^ 32) (hk : k < track.samples) :
    (RangeSafe track (boundaryTicks i dur track.timescale) ∧ startAt track dur i ≤ k ∧
      k < cutAt track dur i) ↔ InSegment track dur i k := by
  have h0 : track.samples ≠ 0 := by omega
  unfold RangeSafe StartSafe startAt rangeStart startOf InSegment
  rw [if_neg h0]
  rcases htable : alignmentTable track with _ | stss
  · -- without a sync table, sample numbers compare as the decode times do
    have hle := fun b => @prefixSum_le_iff (runs track.sampleTable.stts) (k + 1) b hk
    rw [cutAt_of_alignmentTable_none htable]
    refine (and_iff_right ⟨hn, by simp⟩).trans (and_congr ?_ (hle _).symm)
    exact Nat.lt_succ_iff.symm.trans (lt_iff_lt_of_le_iff_le (hle _)).symm
  simp only [Option.some.injEq, forall_eq']
  constructor
  · intro h
    rcases h with ⟨⟨_, hsafe⟩, hrest⟩
    exact ⟨hsafe h0, hrest⟩
  · intro h
    rcases h with ⟨hsafe, hrest⟩
    exact ⟨⟨hn, fun _ => hsafe⟩, hrest⟩

section Builds

variable {p : Profile} (hsize : p = .release → track.samples + 1 < 2 ^ 32)

theorem segmentSampleRange_ok (hi : i + 1 < 2 ^ 32)
    (h : RangeSafe track (boundaryTicks i dur track.timescale)) :
    (segmentSampleRange p track i dur : Exec PackagingError _)
      = .ok (startAt track dur i, max (startAt track dur i) (cutAt track dur i)) := by
  have hdev : (segmentSampleRange .dev track i dur : Exec PackagingError _) = .ok _ :=
    (segmentSampleRange_spec hi).eq_ok_iff.2 ⟨h, rfl⟩
  cases p with
  | dev => exact hdev
  | release => exact (relaxed_segmentSampleRange i dur).agrees _ hdev

include hsize

theorem rangeSafe_of_range {first last : Nat} (hi : i + 1 < 2 ^ 32) (hlt : first < last)
    (h : (segmentSampleRange p track i dur : Exec PackagingError _) = .ok (first, last)) :
    RangeSafe track (boundaryTicks i dur track.timescale) := by
  have hlast := (segmentSampleRange_lt h).2
  cases p with
  | dev => exact ((segmentSampleRange_spec hi).eq_ok_iff.1 h).1
  | release =>
    rw [segmentSampleRange_eq_at .release hi] at h
    exact rangeSafe_of_lt (hsize rfl) h (Nat.lt_of_le_of_lt hlt hlast)

theorem mem_range_iff (hi : i + 1 < 2 ^ 32) (hk : k < track.samples) :
    (∃ first last, (segmentSampleRange p track i dur : Exec PackagingError _) = .ok (first, last) ∧
        first ≤ k ∧ k < last) ↔ track.samples < 2 ^ 32 ∧ InSegment track dur i k := by
  constructor
  · intro h
    rcases h with ⟨first, last, hrange, hfirst, hlast⟩
    have hsafe := rangeSafe_of_range hsize hi (by omega) hrange
    obtain ⟨rfl, rfl⟩ := Prod.mk.inj (ok_unique hrange (segmentSampleRange_ok hi hsafe))
    exact ⟨hsafe.1, (inSegment_iff hsafe.1 hk).1 ⟨hsafe, hfirst, by omega⟩⟩
  · intro h
    rcases h with ⟨hn, hin⟩
    obtain ⟨hsafe, hfirst, hlast⟩ := (inSegment_iff hn hk).2 hin
    exact ⟨_, _, segmentSampleRange_ok hi hsafe, hfirst, by omega⟩

end Builds

end Coverage

variable {p : Profile} {metadata : Mp4Metadata} {dur : Float}

theorem mem_segmentDurations {track : TrackInfo}
    (href : referenceTrack metadata = some track) (hn : track.samples < 2 ^ 32)
    {segments : List (Nat × Float)}
    (h : (computeSegmentDurations p metadata dur : Exec PackagingError _) = .ok segments)
    {i : Nat} :
    (∃ segment ∈ segments, segment.1 = i) ↔
      Listed track dur (computeSegmentCount metadata dur) i := by
  obtain ⟨spans, hspans, hmap⟩ := bind_eq_ok.1 h
  cases hmap
  rw [segmentSpans_eq p href hn] at hspans
  constructor
  · intro h
    rcases h with ⟨segment, hmem, hseg⟩
    obtain ⟨span, hspan, rfl⟩ := mem_map.1 hmem
    obtain ⟨j, hj, hspan⟩ := (mem_iff_of_mapM hspans).1 hspan
    obtain ⟨hindex, -⟩ := segmentSpan_value (prevCut_lt hn j) (cutAt_lt hn) hspan
    rw [← hseg, hindex]
    exact mem_listedIndices.1 hj
  · intro hi
    obtain ⟨span, hspan⟩ := returns_mapM.1 ⟨spans, hspans⟩ i (mem_listedIndices.2 hi)
    obtain ⟨hindex, -⟩ := segmentSpan_value (prevCut_lt hn i) (cutAt_lt hn) hspan
    have hmem := (mem_iff_of_mapM hspans).2 ⟨i, mem_listedIndices.2 hi, hspan⟩
    exact ⟨_, mem_map_of_mem hmem, hindex⟩

theorem listed_of_mem {segments : List (Nat × Float)}
    (hsize : ∀ ref, referenceTrack metadata = some ref → 0 < computeSegmentCount metadata dur →
      ref.samples < 2 ^ 32)
    (h : (computeSegmentDurations p metadata dur : Exec PackagingError _) = .ok segments)
    {segment : Nat × Float} (hmem : segment ∈ segments) :
    ∃ ref, referenceTrack metadata = some ref ∧
      Listed ref dur (computeSegmentCount metadata dur) segment.1 := by
  have hne : ¬ (computeSegmentCount metadata dur = 0 ∨ referenceTrack metadata = none) := by
    intro hnil
    rw [computeSegmentDurations, segmentSpans_eq_nil p hnil, ok_bind] at h
    cases h
    cases hmem
  rcases href : referenceTrack metadata with _ | ref
  · exact absurd (Or.inr href) hne
  · have hn := hsize ref href (Nat.pos_of_ne_zero fun h0 => hne (Or.inl h0))
    exact ⟨ref, rfl, (mem_segmentDurations href hn h).1 ⟨segment, hmem, rfl⟩⟩

theorem mem_of_referenceTrack {ref : TrackInfo} (h : referenceTrack metadata = some ref) :
    ref ∈ metadata.tracks := by
  rcases Option.or_eq_some_iff.1 h with hfind | ⟨-, hhead⟩
  · exact mem_of_find?_eq_some hfind
  · exact mem_of_head? hhead

/-- A checked build needs `PlaylistSafe`, an optimised one nothing. -/
theorem returns_segmentSpans_iff :
    Returns (segmentSpans p metadata dur : Exec PackagingError _) ↔
      (p = .dev → PlaylistSafe metadata dur) := by
  cases p with
  | dev => exact returnsIff_segmentSpans.returns_iff.trans (imp_iff_right rfl).symm
  | release => exact iff_of_true (relaxed_segmentSpans _ _).returns nofun

/-- Every sample is listed exactly if the windows of the listed indices, in each track's own
ticks and alignment, leave no sample out. -/
theorem everySampleListed_iff (p : Profile) (metadata : Mp4Metadata) (dur : Float)
    (hsize : p = .release → ∀ track ∈ metadata.tracks, track.samples + 1 < 2 ^ 32) :
    EverySampleListed p metadata dur ↔
      (p = .dev → PlaylistSafe metadata dur) ∧
      ∀ track ∈ metadata.tracks, track.trackType ≠ .other →
        track.samples < 2 ^ 32 ∧ ∀ k < track.samples, ∃ ref, referenceTrack metadata = some ref ∧
          ∃ i, Listed ref dur (computeSegmentCount metadata dur) i ∧ InSegment track dur i k := by
  have hcount := @computeSegmentCount_lt metadata dur
  have hrefn : (p = .dev → PlaylistSafe metadata dur) → ∀ ref, referenceTrack metadata = some ref →
      0 < computeSegmentCount metadata dur → ref.samples < 2 ^ 32 := by
    intro hsafe ref href hpos
    cases p with
    | dev => exact (hsafe rfl ref href hpos).1
    | release => exact Nat.lt_of_succ_lt (hsize rfl ref (mem_of_referenceTrack href))
  constructor
  · intro h
    rcases h with ⟨segments, hsegments, hcover⟩
    obtain ⟨spans, hspans, -⟩ := bind_eq_ok.1 hsegments
    have hsafe := returns_segmentSpans_iff.1 ⟨spans, hspans⟩
    refine ⟨hsafe, ?_⟩
    intro track htrack hav
    have hin : ∀ k < track.samples, track.samples < 2 ^ 32 ∧
        ∃ ref, referenceTrack metadata = some ref ∧
          ∃ i, Listed ref dur (computeSegmentCount metadata dur) i ∧ InSegment track dur i k := by
      intro k hk
      obtain ⟨segment, hmem, hrange⟩ := hcover track htrack hav k hk
      obtain ⟨ref, href, hlisted⟩ := listed_of_mem (hrefn hsafe) hsegments hmem
      have hlt := hlisted.1
      obtain ⟨hn, hseg⟩ := (mem_range_iff (fun hp => hsize hp track htrack) (by omega) hk).1 hrange
      exact ⟨hn, ref, href, segment.1, hlisted, hseg⟩
    by_cases h0 : track.samples = 0
    · exact ⟨by omega, fun k hk => absurd hk (by omega)⟩
    · exact ⟨(hin 0 (by omega)).1, fun k hk => (hin k hk).2⟩
  · intro h
    rcases h with ⟨hsafe, hcover⟩
    obtain ⟨spans, hspans⟩ := returns_segmentSpans_iff.2 hsafe
    have hsegments : (computeSegmentDurations p metadata dur : Exec PackagingError _)
        = .ok (spans.map fun s => (s.index, s.durationSecs)) := by
      rw [computeSegmentDurations, hspans, ok_bind]
      rfl
    refine ⟨_, hsegments, ?_⟩
    intro track htrack hav k hk
    obtain ⟨hn, hlisted⟩ := hcover track htrack hav
    obtain ⟨ref, href, i, hi, hin⟩ := hlisted k hk
    have hlt := hi.1
    obtain ⟨segment, hmem, rfl⟩ :=
      (mem_segmentDurations href (hrefn hsafe ref href (by omega)) hsegments).2 hi
    exact ⟨segment, hmem,
      (mem_range_iff (fun hp => hsize hp track htrack) (by omega) hk).2 ⟨hn, hin⟩⟩

/-- Four samples of one tick on a track whose `mdhd` gives its duration as one tick. -/
def briefMovie : Bytes :=
  movie 1 4 [movieTrak 1 ccSoun 1 1 0 0 [tableBox ccStts [[4, 1]], tableBox ccStsc [[1, 4, 1]],
    sizesBox [1, 1, 1, 1], tableBox ccStco [[8]]]] (List.replicate 4 0)

def briefTrack : TrackInfo := {
  trackId := 1, trackType := .audio, codec := none, timescale := 1, duration := 1
  sampleTable := ⟨[⟨4, 1⟩], [⟨1, 4, 1⟩], [1, 1, 1, 1], [8], none, none⟩
  width := some 16384, height := none, sampleRate := none, channels := none, stsdData := [] }

def briefMetadata : Mp4Metadata := ⟨4.0, 1, [briefTrack]⟩

/-- The second entry would end before it starts, so a checked build has no playlist; an
optimised one lists both segments, and with them every sample. -/
theorem everySampleListed_briefMovie :
    parseMp4 .release briefMovie = .ok briefMetadata ∧ ¬ PlaylistSafe briefMetadata 2.0 ∧
    (∀ track ∈ briefMetadata.tracks, track.samples + 1 < 2 ^ 32) ∧
    EverySampleListed .release briefMetadata 2.0 := by
  have hsize : ∀ track ∈ briefMetadata.tracks, track.samples + 1 < 2 ^ 32 := by decide
  have href : referenceTrack briefMetadata = some briefTrack := rfl
  have hcount : computeSegmentCount briefMetadata 2.0 = 2 := by decide +kernel
  have hlisted : Listed briefTrack 2.0 2 0 ∧ Listed briefTrack 2.0 2 1 := by decide +kernel
  refine ⟨by decide +kernel, ?_, hsize, (everySampleListed_iff .release briefMetadata 2.0
    fun _ => hsize).2 ⟨nofun, ?_⟩⟩
  · intro h
    obtain ⟨-, hspans⟩ := h briefTrack href (by omega)
    rw [hcount] at hspans
    exact absurd (hspans 1 hlisted.2 (by decide)) (by decide +kernel)
  · intro track htrack _
    obtain rfl : track = briefTrack := by simpa [briefMetadata] using htrack
    refine ⟨by decide, ?_⟩
    rw [hcount]
    intro k hk
    refine ⟨briefTrack, href, ?_⟩
    -- ticks 0 and 1 are in the first window, 2 and 3 in the second
    have hin : ∀ k < 4, boundaryTicks (k / 2) 2.0 1 < dts [⟨4, 1⟩] (k + 1) ∧
        dts [⟨4, 1⟩] (k + 1) ≤ boundaryTicks (k / 2 + 1) 2.0 1 := by decide +kernel
    have hhalf : k / 2 = 0 ∨ k / 2 = 1 := by
      have : k < 4 := hk
      omega
    refine ⟨k / 2, ?_, hin k hk⟩
    rcases hhalf with h | h
    · exact h ▸ hlisted.1
    · exact h ▸ hlisted.2

/-- The audio samples of the skipped index 1 are in no listed segment. -/
theorem everySampleListed_gopMovie_fails :
    parseMp4 .dev gopMovie = .ok gopMetadata ∧ parseMp4 .release gopMovie = .ok gopMetadata ∧
    ¬ EverySampleListed .dev gopMetadata 2.0 ∧ ¬ EverySampleListed .release gopMetadata 2.0 := by
  have hfirst : ∀ p, (segmentSampleRange p gopAudio 0 2.0 : Exec PackagingError _) =
      .ok (0, 2) := by
    intro p
    cases p with
    | dev | release => decide +kernel
  have hlast : ∀ p, (segmentSampleRange p gopAudio 2 2.0 : Exec PackagingError _) = .ok (4, 6) := by
    intro p
    cases p with
    | dev | release => decide +kernel
  have hnot : ∀ p, ¬ EverySampleListed p gopMetadata 2.0 := by
    intro p h
    rcases h with ⟨segments, hsegments, hcover⟩
    cases hsegments
    obtain ⟨segment, hmem, first, last, hr, hle, hlt⟩ :=
      hcover gopAudio (by simp [gopMetadata]) (by decide) 2 (by decide)
    have hindex : segment.1 = 0 ∨ segment.1 = 2 := by
      simp only [map_cons, map_nil, mem_cons, not_mem_nil, or_false] at hmem
      rcases hmem with rfl | rfl
      · exact Or.inl rfl
      · exact Or.inr rfl
    rcases hindex with h | h
    · rw [h, hfirst p] at hr
      obtain ⟨-, rfl⟩ := ok_pair_inj hr
      omega
    · rw [h, hlast p] at hr
      obtain ⟨rfl, -⟩ := ok_pair_inj hr
      omega
  exact ⟨parseMp4_gopMovie .dev, parseMp4_gopMovie .release, hnot .dev, hnot .release⟩

end Nozdormu.Packaging
