import Nozdormu.Packaging.ChunkMap
import Nozdormu.Packaging.Fragment
import Nozdormu.Packaging.Mp4Parse

/-!
# What a player gets

The generators' output, read by the demuxer. For a live segment the reference is the
list of tracks that went in; for a segment or a part of a file it is, per track, the
samples of the computed range with the bytes the file has where the chunk map puts them.
-/

namespace Nozdormu.Packaging

open Rust Bmff LiveTrackData FragmentTrack List

variable {ε : Type}

theorem toUInt32_toNat_eq_toInt_iff (c : Int32) :
    (c.toUInt32.toNat : Int) = c.toInt ↔ 0 ≤ c.toInt := by
  have hsigned : c.toInt = c.toBitVec.toInt := rfl
  have hunsigned : c.toUInt32.toNat = c.toBitVec.toNat := rfl
  rw [hsigned, hunsigned, BitVec.toInt_eq_toNat_cond]
  split <;> omega

structure LiveSampleView where
  data : Bytes
  duration : Nat
  isSync : Bool
  ctsOffset : Int
deriving DecidableEq, Repr

/-- A live track, as sent and as received; an empty one has no decode time. -/
structure LiveTrackView where
  trackId : Nat
  baseDts : Option Nat
  samples : List LiveSampleView
deriving DecidableEq, Repr

def LiveSample.view (s : LiveSample) : LiveSampleView :=
  ⟨s.data, s.duration.toNat, s.isSync, s.ctsOffset.toInt⟩

def LiveTrackData.view (t : LiveTrackData) : LiveTrackView :=
  ⟨t.trackId.toNat, if t.samples.isEmpty then none else some t.baseDts.toNat,
    t.samples.map LiveSample.view⟩

/-- A demuxed sample; it is a sync sample unless `sample_is_non_sync_sample` is set. -/
def receivedSample (s : Sample) : LiveSampleView :=
  ⟨s.data, s.duration, !s.flags.testBit 16, s.compositionOffset⟩

def receivedTrack (f : TrackFragment) : LiveTrackView :=
  ⟨f.trackId, f.baseDecodeTime, f.samples.map receivedSample⟩

def LiveRoundTrip (p : Profile) (sequenceNumber : UInt32) (tracks : List LiveTrackData) : Prop :=
  ((generateLiveMediaSegment p sequenceNumber tracks : Exec PackagingError Bytes).toOption.bind
    demuxFragment).map (List.map receivedTrack) = some (tracks.map view)

instance (p : Profile) (sequenceNumber : UInt32) (tracks : List LiveTrackData) :
    Decidable (LiveRoundTrip p sequenceNumber tracks) :=
  inferInstanceAs (Decidable (_ = _))

def LiveTrackData.fragmentTrack (t : LiveTrackData) : FragmentTrack :=
  ⟨t.trackId, if t.samples.isEmpty then none
    else some (t.baseDts.toNat, t.samples.map fun s => (s.entry, s.data))⟩

/-- Size of the live segment: box headers, 16 bytes per sample, and the samples. -/
def liveSegmentSize (tracks : List LiveTrackData) : Nat :=
  fragmentSize (tracks.map fragmentTrack)

variable (t : LiveTrackData)

theorem buildLiveTraf_eq (off : Nat) :
    buildLiveTraf t off = (t.fragmentTrack.traf off, t.fragmentTrack.data) := by
  unfold buildLiveTraf fragmentTrack
  by_cases h : t.samples.isEmpty = true
  · rw [if_pos h, if_pos h, trafEmpty_eq _ off]
    rfl
  · rw [if_neg h, if_neg h, ← trafWithRun_eq, map_map]
    simp only [data, flatMap_map]
    rfl

theorem length_data_le_payload {t : FragmentTrack} {ts : List FragmentTrack} (h : t ∈ ts) :
    t.data.length ≤ (payload ts).length := by
  obtain ⟨l, r, rfl⟩ := append_of_mem h
  simp only [payload, flatMap_append, flatMap_cons, length_append]
  omega

theorem LiveTrackData.fragmentTrack_valid {t : LiveTrackData}
    (h : t.fragmentTrack.data.length < 2 ^ 32) : t.fragmentTrack.Valid := by
  unfold fragmentTrack at h ⊢
  by_cases he : t.samples.isEmpty = true
  · rw [if_pos he]
    exact ⟨nofun, nofun⟩
  rw [if_neg he] at h ⊢
  refine ⟨?_, ?_⟩
  · intro r h
    rcases h with ⟨⟩
    exact t.baseDts.toNat_lt
  intro r h x hx
  rcases h with ⟨⟩
  obtain ⟨s, hs, rfl⟩ := mem_map.mp hx
  -- one sample is no longer than all of them together
  have hle : s.data.length ≤ (t.samples.flatMap (·.data)).length := by
    obtain ⟨l, r, hlr⟩ := append_of_mem hs
    rw [hlr]
    simp only [flatMap_append, flatMap_cons, length_append]
    omega
  simp only [data, flatMap_map] at h
  show (UInt32.ofNat s.data.length).toNat = s.data.length
  rw [UInt32.toNat_ofNat', Nat.mod_eq_of_lt (by omega)]

theorem pure_buildLiveTraf (off : Nat) : (pure (buildLiveTraf t off) : Exec ε (Bytes × Bytes))
      = ((.ok t.fragmentTrack : Exec ε FragmentTrack) >>= fun r => .ok (r.traf off, r.data)) := by
  rw [ok_bind, buildLiveTraf_eq]
  rfl

theorem generateLiveMediaSegment_eq (p : Profile) (seq : UInt32) {tracks : List LiveTrackData}
    (h : liveSegmentSize tracks < 2 ^ 32) :
    (generateLiveMediaSegment p seq tracks : Exec ε Bytes)
      = .ok (fragment seq.toNat (tracks.map fragmentTrack)) := by
  have hmap : tracks.mapM (fun t => (.ok t.fragmentTrack : Exec ε FragmentTrack))
      = .ok (tracks.map fragmentTrack) := mapM_pure
  exact assembleFragment_eq pure_buildLiveTraf hmap h

theorem demuxFragment_live {seq : Nat} {tracks : List LiveTrackData}
    (hsize : liveSegmentSize tracks < 2 ^ 31) :
    demuxFragment (fragment seq (tracks.map fragmentTrack))
      = some (tracks.map fun t => t.fragmentTrack.player) := by
  have hvalid : ∀ t ∈ tracks.map fragmentTrack, t.Valid := by
    intro f hf
    have hle := length_data_le_payload hf
    obtain ⟨t, -, rfl⟩ := mem_map.mp hf
    unfold liveSegmentSize fragmentSize at hsize
    exact fragmentTrack_valid (by omega)
  rw [demuxFragment_fragment hvalid hsize, map_map]
  rfl

theorem received_player_track : receivedTrack t.fragmentTrack.player
      = ⟨t.trackId.toNat, if t.samples.isEmpty then none else some t.baseDts.toNat,
          t.samples.map fun s =>
            ⟨s.data, s.duration.toNat, s.isSync, s.ctsOffset.toUInt32.toNat⟩⟩ := by
  unfold fragmentTrack
  by_cases h : t.samples.isEmpty = true
  · rw [List.isEmpty_iff] at h
    rw [h]
    rfl
  rw [if_neg h, if_neg h]
  simp only [receivedTrack, player, Option.map_some, Option.getD_some, List.map_map]
  congr 1
  apply List.map_congr_left
  intro s _
  have hflag : ∀ b : Bool, (!(sampleFlags b).toNat.testBit 16) = b := by decide
  simp only [Function.comp, receivedSample, playerSample, LiveSample.entry, hflag]

theorem received_eq_view_iff :
    receivedTrack t.fragmentTrack.player = t.view ↔ ∀ s ∈ t.samples, 0 ≤ s.ctsOffset.toInt := by
  rw [received_player_track, view, LiveTrackView.mk.injEq]
  simp only [true_and]
  rw [map_inj_left]
  constructor
  · intro h s hs
    have heq := h s hs
    rw [LiveSample.view, LiveSampleView.mk.injEq] at heq
    exact (toUInt32_toNat_eq_toInt_iff _).1 heq.2.2.2
  · intro h s hs
    rw [LiveSample.view, (toUInt32_toNat_eq_toInt_iff _).2 (h s hs)]

/-- **Live round trip.** A live segment below 2 GiB demuxes to its tracks exactly when no
sample has a negative composition offset. -/
theorem liveRoundTrip_iff (p : Profile) (sequenceNumber : UInt32) (tracks : List LiveTrackData)
    (hsize : liveSegmentSize tracks < 2 ^ 31) :
    LiveRoundTrip p sequenceNumber tracks ↔
      ∀ t ∈ tracks, ∀ s ∈ t.samples, 0 ≤ s.ctsOffset.toInt := by
  unfold LiveRoundTrip
  rw [generateLiveMediaSegment_eq p sequenceNumber (by omega)]
  simp only [Except.toOption, Option.bind_some]
  rw [demuxFragment_live hsize, Option.map_some, map_map, Option.some.injEq,
    map_inj_left]
  exact forall₂_congr fun t _ => received_eq_view_iff t

def twoLiveTracks (cts : Int32) : List LiveTrackData :=
  [⟨1, 9000, [⟨[1, 2, 3], 3000, true, 0⟩, ⟨[4, 5], 3000, false, cts⟩]⟩, ⟨2, 0, []⟩]

theorem liveRoundTrip_twoLiveTracks : liveSegmentSize (twoLiveTracks 6000) < 2 ^ 31 ∧
      (LiveRoundTrip .release 7 (twoLiveTracks 6000) ↔
        ∀ t ∈ twoLiveTracks 6000, ∀ s ∈ t.samples, 0 ≤ s.ctsOffset.toInt) :=
  ⟨by decide, liveRoundTrip_iff .release 7 (twoLiveTracks 6000) (by decide)⟩

/-- An offset of -3000 ticks is read back as 4294964296. -/
theorem liveRoundTrip_negative_fails : liveSegmentSize (twoLiveTracks (-3000)) < 2 ^ 31 ∧
      ¬ LiveRoundTrip .dev 7 (twoLiveTracks (-3000)) ∧
      ¬ LiveRoundTrip .release 7 (twoLiveTracks (-3000)) := by
  refine ⟨by decide, ?_, ?_⟩ <;> decide +kernel

/-! ## Segments and parts of a file -/

/-- The bytes at a location; empty if they are not all in the file. -/
def bytesAt (mp4Data : Bytes) (offset size : Nat) : Bytes :=
  if offset + size ≤ mp4Data.length then (mp4Data.drop offset).take size else []

/-- The bytes the file has for a sample, at the address the chunk map gives. -/
def sourceBytes (mp4Data : Bytes) (table : SampleTable) (i : Nat) : Bytes :=
  match chunkAddress table i, table.stsz[i]? with
  | some offset, some size => bytesAt mp4Data offset size.toNat
  | _, _ => []

/-- The bytes at the location `get_sample_offset` returns; empty without one. -/
def foundBytes (p : Profile) (mp4Data : Bytes) (table : SampleTable) (i : Nat) : Bytes :=
  match (getSampleOffset p table i : Exec PackagingError _) with
  | .ok (some (offset, size)) => bytesAt mp4Data offset size
  | _ => []

/-- Whether the sync table, which counts from 1, lists a sample. -/
def listedSync (stss : Option (List UInt32)) (i : Nat) : Bool :=
  match stss with
  | none => true
  | some stss => stss.any fun k => k.toNat = i + 1

def sourceSample (mp4Data : Bytes) (table : SampleTable) (i : Nat) : Sample :=
  { duration := (durationOf table.stts i).toNat
    size := (sourceBytes mp4Data table i).length
    flags := (sampleFlags (listedSync table.stss i)).toNat
    compositionOffset := (ctsOffsetOf table.ctts i).toInt
    data := sourceBytes mp4Data table i }

def sourceTrack (mp4Data : Bytes) (track : TrackInfo) (range : Nat × Nat) : TrackFragment :=
  { trackId := track.trackId.toNat
    baseDecodeTime :=
      if range.2 - range.1 = 0 then none else some (dts track.sampleTable.stts range.1)
    samples := (List.range' range.1 (range.2 - range.1)).map
      (sourceSample mp4Data track.sampleTable) }

inductive FragmentRequest where
  | segment (index : UInt32)
  | part (segmentIndex partIndex : UInt32)
deriving DecidableEq, Repr

namespace FragmentRequest

def range (p : Profile) (segmentDuration partDuration : Float) (track : TrackInfo) :
    FragmentRequest → Exec ε (Nat × Nat)
  | segment i => segmentSampleRange p track i.toNat segmentDuration
  | part i j => partSampleRange p track i.toNat j.toNat segmentDuration partDuration

def generate (p : Profile) (mp4Data : Bytes) (metadata : Mp4Metadata)
    (segmentDuration partDuration : Float) : FragmentRequest → Exec ε Bytes
  | segment i => generateMediaSegment p mp4Data metadata i.toNat segmentDuration
  | part i j =>
    generatePartialSegment p mp4Data metadata i.toNat j.toNat segmentDuration partDuration

end FragmentRequest

def sourceTracks (p : Profile) (mp4Data : Bytes) (metadata : Mp4Metadata)
    (segmentDuration partDuration : Float) (request : FragmentRequest) :
    Option (List TrackFragment) :=
  (metadata.tracks.mapM fun track =>
    (request.range p segmentDuration partDuration track : Exec PackagingError _)).toOption.map
      (List.zipWith (sourceTrack mp4Data) metadata.tracks)

/-- The demuxer accepts the output and recovers, track by track, the samples of the computed
ranges, and their sizes add up to the payload of the media data box. -/
def FragmentRecovered (p : Profile) (mp4Data : Bytes) (metadata : Mp4Metadata)
    (segmentDuration partDuration : Float) (request : FragmentRequest) (out : Bytes) : Prop :=
  (demuxFragment out).isSome ∧
    demuxFragment out = sourceTracks p mp4Data metadata segmentDuration partDuration request ∧
    (mdatPayload out).map List.length
      = (demuxFragment out).map fun fs => ((fs.flatMap (·.samples)).map (·.size)).sum

instance (p : Profile) (mp4Data : Bytes) (metadata : Mp4Metadata)
    (segmentDuration partDuration : Float) (request : FragmentRequest) (out : Bytes) :
    Decidable (FragmentRecovered p mp4Data metadata segmentDuration partDuration request out) :=
  inferInstanceAs (Decidable (_ ∧ _ ∧ _))

variable {p : Profile} {table : SampleTable} {i : Nat}

/-- The size `get_sample_offset` returns is the sample's entry in the size table, and its
offset is a 64-bit number. -/
theorem getSampleOffset_eq_some {o sz : Nat}
    (h : (getSampleOffset p table i : Exec ε (Option (Nat × Nat))) = .ok (some (o, sz))) :
    sz = (table.stsz[i]?.getD 0).toNat ∧ o < 2 ^ 64 := by
  unfold getSampleOffset at h
  split at h
  · cases h
  next hi =>
  rw [index_ok (by omega), ok_bind] at h
  obtain ⟨r, -, h⟩ := bind_eq_ok.1 h
  split at h
  · cases h
  split at h
  · cases h
  obtain ⟨o', -, h⟩ := bind_eq_ok.1 h
  obtain ⟨f, -, h⟩ := bind_eq_ok.1 h
  split at h
  · cases h
  · obtain ⟨x, -, h⟩ := bind_eq_ok.1 h
    obtain ⟨y, hy, h⟩ := bind_eq_ok.1 h
    have heq : y = o ∧ (table.stsz[i]).toNat = sz := by simpa using h
    rw [List.getElem?_eq_getElem (by omega), Option.getD_some]
    exact ⟨heq.2.symm, heq.1 ▸ lt_of_add_eq_ok hy⟩

theorem isSyncSample_eq (p : Profile) (stss : Option (List UInt32))
    (hi : i + 1 < 2 ^ 32) : (isSyncSample p stss i : Exec ε Bool) = .ok (listedSync stss i) := by
  cases stss with
  | none => rfl
  | some l =>
    rw [isSyncSample, add_ok p hi, ok_bind]
    rfl

variable {mp4Data : Bytes}

theorem sampleData_eq_ok
    {d : Option Bytes} (h : (sampleData p mp4Data table i : Exec PackagingError _) = .ok d) :
    d.getD [] = foundBytes p mp4Data table i ∧
      ∀ data ∈ d, (table.stsz[i]?.getD 0).toNat = data.length := by
  obtain ⟨loc, hloc, h⟩ := bind_eq_ok.1 h
  unfold foundBytes bytesAt
  rw [hloc]
  cases loc with
  | none =>
    obtain rfl : none = d := by simpa using h
    exact ⟨rfl, nofun⟩
  | some r =>
    obtain ⟨o, sz⟩ := r
    obtain ⟨hsz, ho⟩ := getSampleOffset_eq_some hloc
    obtain ⟨stop, hstop, h⟩ := bind_eq_ok.1 h
    by_cases hfit : o + sz < 2 ^ 64
    · rw [add_ok p hfit] at hstop
      cases hstop
      by_cases hle : o + sz ≤ mp4Data.length
      · rw [if_pos hle] at h
        obtain ⟨data, hdata, h⟩ := bind_eq_ok.1 h
        obtain rfl : some data = d := by simpa using h
        rw [slice_ok (by omega) hle, Nat.add_sub_cancel_left] at hdata
        cases hdata
        refine ⟨(if_pos hle).symm, ?_⟩
        intro data h
        rcases h with ⟨⟩
        rw [← hsz, length_take, length_drop]
        omega
      · rw [if_neg hle] at h
        obtain rfl : none = d := by simpa using h
        exact ⟨(if_neg hle).symm, nofun⟩
    · -- the end wraps below the start: the slice would fault, so the end is out of range
      have hsz32 : sz < 2 ^ 32 := hsz ▸ (table.stsz[i]?.getD 0).toNat_lt
      have hwrap : stop < o ∧ stop < 2 ^ 64 := by
        unfold Profile.add at hstop
        rw [if_neg hfit] at hstop
        cases p with
        | dev => cases hstop
        | release =>
          cases hstop
          omega
      by_cases hle : stop ≤ mp4Data.length
      · rw [if_pos hle, slice, if_neg (by omega)] at h
        cases h
      · rw [if_neg hle] at h
        obtain rfl : none = d := by simpa using h
        exact ⟨(if_neg (by omega)).symm, nofun⟩

/-- A run entry and its bytes as they come out of the sample loop. -/
structure SampleOf (p : Profile) (mp4Data : Bytes) (table : SampleTable) (i : Nat)
    (x : TrunSample × Bytes) : Prop where
  duration : x.1.duration = durationOf table.stts i
  flags : x.1.flags = sampleFlags (listedSync table.stss i)
  ctsOffset : x.1.ctsOffset = ctsOffsetOf table.ctts i
  data : x.2 = foundBytes p mp4Data table i
  size : x.1.size.toNat = x.2.length

theorem sampleOf_of_rangeSample {x : TrunSample × Bytes} (hi : i + 1 < 2 ^ 32)
    (h : (rangeSample p mp4Data table i : Exec PackagingError _) = .ok x) :
    SampleOf p mp4Data table i x := by
  simp only [rangeSample, getSampleDuration_eq, getCtsOffset_eq, isSyncSample_eq p _ hi,
    ok_bind] at h
  obtain ⟨d, hd, h⟩ := bind_eq_ok.1 h
  obtain ⟨hdata, hsize⟩ := sampleData_eq_ok hd
  cases d with
  | none =>
    cases h
    exact ⟨rfl, rfl, rfl, hdata, rfl⟩
  | some data =>
    cases h
    exact ⟨rfl, rfl, rfl, hdata, hsize data rfl⟩

def rangeRun (p : Profile) (mp4Data : Bytes) (track : TrackInfo) (range : Nat × Nat) :
    Exec ε FragmentTrack := do
  if range.2 - range.1 = 0 then return ⟨track.trackId, none⟩
  else
    let baseDts ← sampleToDts p track.sampleTable.stts range.1
    let samples ← (List.range' range.1 (range.2 - range.1)).mapM
      (rangeSample p mp4Data track.sampleTable)
    return ⟨track.trackId, some (baseDts, samples)⟩

theorem buildTrafForSampleRange_eq (p : Profile) (mp4Data : Bytes) (track : TrackInfo)
    (range : Nat × Nat) (off : Nat) :
    (buildTrafForSampleRange p mp4Data track range.1 range.2 off : Exec ε (Bytes × Bytes))
      = (rangeRun p mp4Data track range >>= fun r => .ok (r.traf off, r.data)) := by
  unfold buildTrafForSampleRange rangeRun
  by_cases h : range.2 - range.1 = 0
  · simp only [h, if_true, pure_eq_ok, ok_bind, trafEmpty_eq _ off]
    rfl
  simp only [h, if_false]
  cases (sampleToDts p track.sampleTable.stts range.1 : Exec ε Nat) with
  | error s => rfl
  | ok b =>
    cases (List.range' range.1 (range.2 - range.1)).mapM
        (rangeSample p mp4Data track.sampleTable : Nat → Exec ε _) with
    | error s => rfl
    | ok samples =>
      simp only [ok_bind, pure_eq_ok, trafWithRun_eq]
      rfl

theorem map_eq_map_iff_of_forall₂ {α β γ : Type} {R : α → β → Prop} {f : β → γ} {g : α → γ}
    {P : α → Prop} (hR : ∀ a b, R a b → (f b = g a ↔ P a)) : ∀ {l : List α} {r : List β},
    List.Forall₂ R l r → (r.map f = l.map g ↔ ∀ a ∈ l, P a) := by
  intro l r h
  induction h with
  | nil => simp
  | cons hab _ ih => simp [hR _ _ hab, ih]

theorem forall_mem_right_of_forall₂ {α β : Type} {R : α → β → Prop} {Q : β → Prop}
    (hR : ∀ a b, R a b → Q b) {l : List α} {r : List β} (h : List.Forall₂ R l r) :
    ∀ b ∈ r, Q b := by
  intro b hb
  obtain ⟨a, -, hab⟩ := exists_of_mem_right h hb
  exact hR a b hab

theorem forall₂_sampleOf {range : Nat × Nat} {samples : List (TrunSample × Bytes)}
    (hr : range.2 < 2 ^ 32)
    (h : (List.range' range.1 (range.2 - range.1)).mapM (rangeSample p mp4Data table)
      = (.ok samples : Exec PackagingError _)) :
    List.Forall₂ (SampleOf p mp4Data table) (List.range' range.1 (range.2 - range.1)) samples := by
  have hsmall : ∀ i ∈ List.range' range.1 (range.2 - range.1), i + 1 < 2 ^ 32 := by
    intro i hi
    rw [mem_range'_1] at hi
    omega
  refine ((forall₂_and_left _ _).2 ⟨hsmall, mapM_eq_ok_iff.1 h⟩).imp ?_
  intro i x hix
  exact sampleOf_of_rangeSample hix.1 hix.2

/-- A sample is recovered if its offset is not negative and its bytes are found. -/
def Recovered (p : Profile) (mp4Data : Bytes) (table : SampleTable) (i : Nat) : Prop :=
  0 ≤ (ctsOffsetOf table.ctts i).toInt ∧
    foundBytes p mp4Data table i = sourceBytes mp4Data table i

/-- A player reads the source sample, up to the sign of its offset and its bytes. -/
theorem playerSample_eq_iff {x : TrunSample × Bytes} (h : SampleOf p mp4Data table i x) :
    playerSample x = sourceSample mp4Data table i ↔ Recovered p mp4Data table i := by
  rw [playerSample, sourceSample, Recovered, h.duration, h.flags, h.ctsOffset, h.data,
    ← toUInt32_toNat_eq_toInt_iff]
  simp only [Sample.mk.injEq, true_and]
  constructor
  · rintro ⟨-, hcts, hdata⟩
    exact ⟨hcts, hdata⟩
  · rintro ⟨hcts, hdata⟩
    exact ⟨by rw [hdata], hcts, hdata⟩

/-- What comes out of the range loop is valid, and a player reads it as the source track
exactly if every sample is recovered. -/
theorem rangeRun_spec {track : TrackInfo} {range : Nat × Nat} {x : FragmentTrack}
    (hr : range.2 < 2 ^ 32) (h : (rangeRun p mp4Data track range : Exec PackagingError _) = .ok x) :
    x.Valid ∧ (x.player = sourceTrack mp4Data track range ↔
      ∀ i, range.1 ≤ i → i < range.2 → Recovered p mp4Data track.sampleTable i) := by
  unfold rangeRun at h
  unfold sourceTrack
  by_cases hz : range.2 - range.1 = 0
  · rw [if_pos hz] at h
    cases h
    refine ⟨⟨nofun, nofun⟩, ?_⟩
    rw [if_pos hz, hz]
    refine ⟨?_, fun _ => rfl⟩
    intro _ i h1 h2
    omega
  · rw [if_neg hz, sampleToDts_eq p _ (by omega), ok_bind] at h
    obtain ⟨samples, hsamples, h⟩ := bind_eq_ok.1 h
    cases h
    have hof := forall₂_sampleOf hr hsamples
    refine ⟨⟨?_, ?_⟩, ?_⟩
    · intro r h
      rcases h with ⟨⟩
      exact dts_lt (by omega)
    · intro r h
      rcases h with ⟨⟩
      exact forall_mem_right_of_forall₂ (fun _ _ hx => hx.size) hof
    rw [if_neg hz]
    simp only [player, Option.map_some, Option.getD_some, TrackFragment.mk.injEq, true_and]
    rw [map_eq_map_iff_of_forall₂ (fun _ _ hx => playerSample_eq_iff hx) hof]
    simp only [mem_range'_1]
    constructor
    · intro hall i h1 h2
      exact hall i ⟨h1, by omega⟩
    · intro hall i hi
      exact hall i hi.1 (by omega)

theorem FragmentRequest.range_lt {dur pdur : Float} {track : TrackInfo}
    {request : FragmentRequest} {r : Nat × Nat}
    (h : (request.range p dur pdur track : Exec ε _) = .ok r) : r.2 < 2 ^ 32 := by
  cases request with
  | segment i => exact (segmentSampleRange_lt h).2
  | part i j => exact partSampleRange_lt h

theorem segmentBuild_eq (p : Profile) (mp4Data : Bytes) (i : UInt32) (dur pdur : Float)
    (track : TrackInfo) (off : Nat) :
    (buildTrafWithOffset p mp4Data i.toNat dur track off : Exec ε _)
      = (((FragmentRequest.segment i).range p dur pdur track >>= rangeRun p mp4Data track)
          >>= fun r => .ok (r.traf off, r.data)) := by
  rw [buildTrafWithOffset, bind_assoc]
  exact bind_congr fun r => buildTrafForSampleRange_eq p mp4Data track r off

theorem partBuild_eq (p : Profile) (mp4Data : Bytes) (i j : UInt32) (dur pdur : Float)
    (track : TrackInfo) (off : Nat) :
    (partSampleRange p track i.toNat j.toNat dur pdur >>= fun r =>
        buildTrafForSampleRange p mp4Data track r.1 r.2 off : Exec ε _)
      = (((FragmentRequest.part i j).range p dur pdur track >>= rangeRun p mp4Data track)
          >>= fun r => .ok (r.traf off, r.data)) := by
  rw [bind_assoc]
  exact bind_congr fun r => buildTrafForSampleRange_eq p mp4Data track r off

theorem FragmentRequest.generate_eq_ok {metadata : Mp4Metadata}
    {dur pdur : Float} {request : FragmentRequest} {out : Bytes}
    (h : (request.generate p mp4Data metadata dur pdur : Exec ε Bytes) = .ok out)
    (hlen : out.length < 2 ^ 32) :
    ∃ seq rs, metadata.tracks.mapM (fun track =>
        (request.range p dur pdur track : Exec ε _) >>= rangeRun p mp4Data track) = .ok rs ∧
      fragmentSize rs < 2 ^ 32 ∧ out = fragment seq rs := by
  cases request with
  | segment i =>
    obtain ⟨seq, -, h⟩ := bind_eq_ok.1 h
    exact ⟨seq, eq_of_assembleFragment (segmentBuild_eq p mp4Data i dur pdur) h hlen⟩
  | part i j =>
    obtain ⟨_, -, h⟩ := bind_eq_ok.1 h
    obtain ⟨_, -, h⟩ := bind_eq_ok.1 h
    obtain ⟨seq, -, h⟩ := bind_eq_ok.1 h
    exact ⟨seq, eq_of_assembleFragment (partBuild_eq p mp4Data i j dur pdur) h hlen⟩

theorem sum_player_sizes (ts : List FragmentTrack) :
    (((ts.map player).flatMap (·.samples)).map (·.size)).sum = (payload ts).length := by
  induction ts with
  | nil => rfl
  | cons t ts ih =>
    have ht : ((t.player.samples).map (·.size)).sum = t.data.length := by
      obtain ⟨id, run⟩ := t
      cases run with
      | none => rfl
      | some r =>
        simp only [player, data, Option.map_some, Option.getD_some,
          map_map, length_flatMap]
        rfl
    rw [map_cons, flatMap_cons, map_append, sum_append, ih, ht]
    simp [payload]

/-- A sample table whose chunk map gives every sample an address of 64 bits. -/
def Addressed (table : SampleTable) : Prop :=
  ∃ t : ChunkedTable, t.toSampleTable = table ∧ ∀ s, t.address s < 2 ^ 64

/-- The search finds the bytes of a sample unless it misses a sample that has some. -/
theorem Addressed.foundBytes_eq_iff (h : Addressed table) :
    foundBytes p mp4Data table i = sourceBytes mp4Data table i ↔
      (sourceBytes mp4Data table i ≠ [] → Found 0 table.stsc i) := by
  obtain ⟨t, rfl, haddr⟩ := h
  by_cases hi : i < t.stsz.length
  · by_cases hfound : Found 0 t.stsc i
    · refine iff_of_true ?_ fun _ => hfound
      have hsource := t.chunkAddress_eq ⟨i, hi⟩
      have hrun := @ChunkedTable.getSampleOffset_of_found PackagingError t ⟨i, hi⟩ p hfound
      rw [add_ok p (haddr ⟨i, hi⟩), ok_bind] at hrun
      simp only [foundBytes, sourceBytes, hrun, hsource, List.getElem?_eq_getElem hi]
      rfl
    · have hnone := @ChunkedTable.getSampleOffset_ne_some PackagingError t ⟨i, hi⟩ p hfound
      have hempty : foundBytes p mp4Data t.toSampleTable i = [] := by
        unfold foundBytes
        split
        next o sz hrun => exact absurd hrun (hnone (o, sz))
        next => rfl
      rw [hempty]
      constructor
      · intro h hne
        exact absurd h.symm hne
      · intro h
        by_contra hne
        exact hfound (h (Ne.symm hne))
  · -- the size table does not have the sample
    have hnone : (getSampleOffset p t.toSampleTable i : Exec PackagingError _) = .ok none :=
      if_pos (Nat.not_lt.1 hi)
    have hsource : sourceBytes mp4Data t.toSampleTable i = [] := by
      unfold sourceBytes
      rw [List.getElem?_eq_none (Nat.not_lt.1 hi)]
      split
      next heq => cases heq
      next => rfl
    rw [hsource, foundBytes, hnone]
    exact iff_of_true rfl fun h => absurd rfl h

/-- A two-second video of four samples, its second and fourth shifted by `cts` ticks. -/
def shortMovie (stsc stco : List (List Nat)) (cts : Nat) : Bytes :=
  movie 10 20 [movieTrak 1 ccVide 10 20 640 480 [tableBox ccStts [[4, 5]],
    tableBox ccStsc stsc, sizesBox [1, 2, 3, 4], tableBox ccStco stco,
    tableBox ccStss [[1], [3]], tableBox ccCtts [[1, 0], [1, cts], [1, 0], [1, cts]]]]
    [1, 2, 3, 4, 5, 6, 7, 8, 9, 10]

def parsedMetadata (mp4Data : Bytes) : Mp4Metadata :=
  ((parseMp4 .release mp4Data).toOption).getD ⟨0, 0, []⟩

def firstSegment (mp4Data : Bytes) : Bytes :=
  ((FragmentRequest.segment 0).generate .release mp4Data (parsedMetadata mp4Data) 1.0 0.5 :
    Exec PackagingError Bytes).toOption.getD []

/-- All four samples in one chunk. -/
def oneChunkMovie : Bytes := shortMovie [[1, 4, 1]] [[8]] 5

def oneChunkTable : ChunkedTable where
  stts := [⟨4, 5⟩]
  stsc := [⟨1, 4, 1⟩]
  stsz := [1, 2, 3, 4]
  stco := [8]
  stss := some [1, 3]
  ctts := some [⟨1, 0⟩, ⟨1, 5⟩, ⟨1, 0⟩, ⟨1, 5⟩]
  first_chunk := by intro e he; obtain rfl := Option.some.inj he; rfl
  increasing := by decide
  positive := by decide
  in_chunks := by decide
  samples := by decide
  chunk_count := by decide
  sample_count := by decide

theorem addressed_oneChunkMovie :
    ∀ track ∈ (parsedMetadata oneChunkMovie).tracks, Addressed track.sampleTable := by
  have htables : (parsedMetadata oneChunkMovie).tracks.map (·.sampleTable)
      = [oneChunkTable.toSampleTable] := by decide +kernel
  intro track htrack
  have hmem := mem_map_of_mem (f := (·.sampleTable)) htrack
  rw [htables, mem_singleton] at hmem
  exact ⟨oneChunkTable, hmem.symm, by decide⟩

/-- The first segment of the file is generated and not recovered. -/
abbrev LosesSegment (data : Bytes) : Prop :=
  parseMp4 .release data = .ok (parsedMetadata data) ∧
    ((FragmentRequest.segment 0).generate .release data (parsedMetadata data) 1.0 0.5 :
      Exec PackagingError Bytes) = .ok (firstSegment data) ∧
    (firstSegment data).length < 2 ^ 31 ∧
    ¬ FragmentRecovered .release data (parsedMetadata data) 1.0 0.5 (.segment 0)
      (firstSegment data)

open RunLength

theorem dts_add_durations {stts : List SttsEntry} (a : Nat) :
    ∀ {n : Nat}, a + n ≤ sampleCount stts →
    dts stts (a + n) = dts stts a +
    ((List.range' a n).map fun i => (durationOf stts i).toNat).sum := by
  have hruns : runs stts =
      (stts.map fun e => (e.sampleCount.toNat, e.sampleDelta)).map (Prod.map id UInt32.toNat) := by
    rw [map_map]
    rfl
  intro n
  induction n with
  | zero => intro _; rfl
  | succ n ih =>
    intro hn
    have hlt : a + n < total (runs stts) := hn
    rw [hruns] at hlt
    obtain ⟨v, hv, hsum⟩ := prefixSum_succ UInt32.toNat _ hlt
    rw [← hruns] at hsum
    rw [List.range'_1_concat, map_append, sum_append, map_singleton, sum_singleton,
      ← Nat.add_assoc (dts stts a), ← ih (by omega), durationOf, hv]
    exact hsum

variable {p : Profile} {mp4Data : Bytes} {track : TrackInfo}

theorem written_of_buildTraf {a b off : Nat} {out : Bytes × Bytes} (hab : a < b) (hb : b < 2 ^ 32)
    (h : (buildTrafForSampleRange p mp4Data track a b off : Exec PackagingError _) = .ok out) :
    ∃ samples, out.1 = trafWithRun track.trackId (dts track.sampleTable.stts a) samples off ∧
      samples.map (·.duration.toNat) =
        (List.range' a (b - a)).map fun i => (durationOf track.sampleTable.stts i).toNat := by
  rw [buildTrafForSampleRange, if_neg (by omega), sampleToDts_eq p _ (by omega), ok_bind] at h
  obtain ⟨samples, hsamples, h⟩ := bind_eq_ok.1 h
  cases h
  refine ⟨_, rfl, ?_⟩
  have hof := @forall₂_sampleOf p _ _ (a, b) _ hb hsamples
  rw [map_map]
  exact (map_eq_map_iff_of_forall₂ (P := fun _ => True)
    (fun _ _ hx => iff_true_intro (congrArg UInt32.toNat hx.duration)) hof).2 fun _ _ => trivial

/-- The fragments of `[a, b)` and `[b, c)`, once they are built, join on the decode timeline: the
decode time written in the second is that of the first and the durations written there. -/
def FragmentsJoin (p : Profile) (mp4Data : Bytes) (track : TrackInfo) (a b c off off' : Nat) :
    Prop :=
  ∀ first second,
    (buildTrafForSampleRange p mp4Data track a b off : Exec PackagingError _) = .ok first →
    (buildTrafForSampleRange p mp4Data track b c off' : Exec PackagingError _) = .ok second →
    ∃ base samples base' samples', first.1 = trafWithRun track.trackId base samples off ∧
      second.1 = trafWithRun track.trackId base' samples' off' ∧ samples.length = b - a ∧
      base' = base + (samples.map (·.duration.toNat)).sum ∧ base' < 2 ^ 64

theorem fragmentsJoin {a b c : Nat} (hcount : sampleCount track.sampleTable.stts < 2 ^ 32)
    (hab : a < b) (hbc : b < c) (hc : c ≤ sampleCount track.sampleTable.stts) (off off' : Nat) :
    FragmentsJoin p mp4Data track a b c off off' := by
  intro first second hfirst hsecond
  obtain ⟨samples, hwritten, hdurations⟩ := written_of_buildTraf hab (by omega) hfirst
  obtain ⟨samples', hwritten', -⟩ := written_of_buildTraf hbc (by omega) hsecond
  have hsum := @dts_add_durations track.sampleTable.stts a (b - a) (by omega)
  rw [Nat.add_sub_cancel' hab.le, ← hdurations] at hsum
  refine ⟨_, samples, _, samples', hwritten, hwritten', ?_, hsum, dts_lt (by omega)⟩
  simpa using congrArg List.length hdurations

def unevenTrack : TrackInfo :=
  ⟨1, .video, none, 10, 16, ⟨[⟨1, 3⟩, ⟨0, 9⟩, ⟨3, 5⟩], [], [], [], none, none⟩, none,
    none, none, none, []⟩

theorem fragmentsJoin_unevenTrack :
    Returns (buildTrafForSampleRange .dev [] unevenTrack 0 2 0 : Exec PackagingError _) ∧
      Returns (buildTrafForSampleRange .dev [] unevenTrack 2 4 0 : Exec PackagingError _) ∧
      FragmentsJoin .dev [] unevenTrack 0 2 4 0 0 :=
  ⟨⟨_, rfl⟩, ⟨_, rfl⟩, fragmentsJoin (by decide) (by decide) (by decide) (by decide) 0 0⟩

end Nozdormu.Packaging
