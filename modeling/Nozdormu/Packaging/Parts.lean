import Nozdormu.Packaging.RequestSafety

/-!
# The parts of a segment

Two loops walk a segment part by part: `compute_segment_parts` lists them for the
playlist, and `part_sample_range` walks up to one of them to serve it. Both step with
`partEnd`, which moves on by at least one sample, also over samples of duration 0, so
on the reference track the listed parts are the served ranges and tile the segment
(`parts_tile_segment`).
-/

namespace Nozdormu.Packaging

open Rust Bmff RunLength

/-- Consecutive nonempty ranges from `first` to `last`. -/
def Tiles : (first last : Nat) → List (Nat × Nat) → Prop
  | first, last, [] => first = last
  | first, last, r :: rs => r.1 = first ∧ r.1 < r.2 ∧ Tiles r.2 last rs

theorem Tiles.length_le {last : Nat} : ∀ {rs : List (Nat × Nat)} {first : Nat},
    Tiles first last rs →
    first + rs.length ≤ last := by
  intro rs
  induction rs with
  | nil => intro first h; exact Nat.le_of_eq h
  | cons r rs ih =>
    intro first h
    obtain ⟨rfl, hlt, hrest⟩ := h
    have hshort := ih hrest
    rw [List.length_cons]
    omega

section Walk

variable {p : Profile} {track : TrackInfo} {dur : Float} {segEnd : Nat}

/-- One listed part and the range it stands for. -/
def Lists (p : Profile) (stss : Option (List UInt32)) (idx : Nat) (part : PartInfo)
    (range : Nat × Nat) : Prop :=
  part.partIndex = idx ∧ (isSyncSample p stss range.1 : Exec PackagingError _) =
    .ok part.independent

theorem segmentPartsLoop_tiles (hend : segEnd < 2 ^ 32) :
    ∀ {fuel c idx : Nat} {parts : List PartInfo}, c ≤ segEnd → idx + (segEnd - c) < 2 ^ 32 →
      (segmentPartsLoop p track dur segEnd fuel c idx : Exec PackagingError _) = .ok parts →
      ∃ ranges, Tiles c segEnd ranges ∧ ranges.length = parts.length ∧
        (∀ j r, ranges[j]? = some r →
          (partSampleRangeLoop p track dur segEnd j c : Exec PackagingError _) = .ok r ∧
          ∃ part, parts[j]? = some part ∧ Lists p track.sampleTable.stss (idx + j) part r) ∧
        ∀ j, ranges.length ≤ j →
          (partSampleRangeLoop p track dur segEnd j c : Exec PackagingError _)
            = .ok (segEnd, segEnd) := by
  intro fuel
  induction fuel with
  | zero => intro c idx parts _ _ h; cases h
  | succ fuel ih =>
    intro c idx parts hc hidx h
    rcases Nat.eq_or_lt_of_le hc with heq | hlt
    · -- the walk is over: no range, and every further part is empty
      subst heq
      rw [segmentPartsLoop, if_pos (Nat.le_refl c)] at h
      cases h
      exact ⟨[], rfl, rfl, by simp, fun j _ => partSampleRangeLoop_end p j⟩
    · rw [segmentPartsLoop, if_neg (Nat.not_le.2 hlt)] at h
      simp only [bind_eq_ok] at h
      obtain ⟨e, he, _, -, _, -, secs, -, sync, hsync, next, hnext, rest, hrest, h⟩ := h
      cases h
      have hce := lt_partEnd hend hlt he
      have hle := partEnd_le he
      rw [add_ok p (by omega)] at hnext
      cases hnext
      obtain ⟨ranges, htiles, hlen, hranges, hlast⟩ := ih hle (by omega) hrest
      have hskip : ∀ j, (partSampleRangeLoop p track dur segEnd (j + 1) c : Exec PackagingError _)
          = partSampleRangeLoop p track dur segEnd j e := by
        intro j
        rw [partSampleRangeLoop, if_neg (Nat.not_le.2 hlt), he, ok_bind]
      refine ⟨(c, e) :: ranges, ⟨rfl, hce, htiles⟩,
        by rw [List.length_cons, List.length_cons, hlen],
        ?_, ?_⟩
      · intro j r hr
        cases j with
        | zero =>
          cases hr
          refine ⟨?_, ⟨idx, secs, sync⟩, rfl, rfl, hsync⟩
          rw [partSampleRangeLoop, if_neg (Nat.not_le.2 hlt), he]
          rfl
        | succ j =>
          obtain ⟨hserve, part, hpart, hindex, hflag⟩ := hranges j r hr
          rw [hskip]
          exact ⟨hserve, part, hpart, by omega, hflag⟩
      · intro j hj
        cases j with
        | zero => exact absurd hj (Nat.not_succ_le_zero _)
        | succ j =>
          rw [hskip]
          exact hlast j (Nat.le_of_succ_le_succ hj)

end Walk

/-! ### The listing and the parts that are served -/

/-- The listed parts stand for consecutive nonempty ranges of samples which make up the
segment, are the ranges the parts are served with, and start with the flag the listing
gives; a part behind the last is empty. -/
def PartsTile (p : Profile) (metadata : Mp4Metadata) (track : TrackInfo) (dur pdur : Float)
    (i : Nat) (parts : List PartInfo) : Prop :=
  ∃ first last ranges,
    (segmentSampleRange p track i dur : Exec PackagingError _) = .ok (first, last) ∧
    Tiles first last ranges ∧
    (computePartCount p metadata dur pdur i : Exec PackagingError _) = .ok ranges.length ∧
    parts.length = ranges.length ∧
    (∀ j r, ranges[j]? = some r →
      (partSampleRange p track i j dur pdur : Exec PackagingError _) = .ok r ∧
      ∃ part, parts[j]? = some part ∧ Lists p track.sampleTable.stss j part r) ∧
    ∀ j, ranges.length ≤ j → ∃ k,
      (partSampleRange p track i j dur pdur : Exec PackagingError _) = .ok (k, k)

/-- **Parts tile the segment.** On the reference track the parts that are listed are those
that are served, whenever the listing returns; an optimised build always returns one. -/
theorem parts_tile_segment (p : Profile) (metadata : Mp4Metadata) (track : TrackInfo)
    (dur pdur : Float) (i : UInt32) (href : referenceTrack metadata = some track) :
    (p = .release →
      Returns (computeSegmentParts p metadata dur pdur i.toNat : Exec PackagingError _)) ∧
    ∀ parts, (computeSegmentParts p metadata dur pdur i.toNat : Exec PackagingError _) = .ok parts →
      PartsTile p metadata track dur pdur i.toNat parts := by
  refine ⟨fun hp => hp ▸ (relaxed_computeSegmentParts ..).returns, ?_⟩
  intro parts hparts
  have hcount : (computePartCount p metadata dur pdur i.toNat : Exec PackagingError _)
      = .ok (parts.length % 2 ^ 32) := by
    rw [computePartCount, hparts]
    rfl
  rw [computeSegmentParts, href] at hparts
  obtain ⟨⟨first, last⟩, hrange, hparts⟩ := bind_eq_ok.1 hparts
  obtain ⟨hle, hlast⟩ := segmentSampleRange_lt hrange
  simp only at hle hlast hparts
  by_cases hempty : last ≤ first
  · -- an empty segment has no parts, and its range is the empty one that is served
    obtain rfl := Nat.le_antisymm hle hempty
    rw [if_pos hempty] at hparts
    cases hparts
    refine ⟨first, first, [], hrange, rfl, hcount, rfl, by simp, fun j _ => ⟨first, ?_⟩⟩
    rw [partSampleRange, hrange, ok_bind]
    exact if_pos hempty
  · rw [if_neg hempty] at hparts
    have hserve : ∀ j, (partSampleRange p track i.toNat j dur pdur : Exec PackagingError _)
        = partSampleRangeLoop p track pdur last j first := by
      intro j
      rw [partSampleRange, hrange, ok_bind]
      exact if_neg hempty
    obtain ⟨ranges, htiles, hlen, hranges, hrest⟩ :=
      segmentPartsLoop_tiles hlast hle (by omega) hparts
    have hshort := htiles.length_le
    refine ⟨first, last, ranges, hrange, htiles, ?_, hlen.symm, ?_, ?_⟩
    · rw [hcount, ← hlen, Nat.mod_eq_of_lt (by omega)]
    · intro j r hr
      rw [hserve]
      obtain ⟨hrun, part, hpart, hlists⟩ := hranges j r hr
      rw [Nat.zero_add] at hlists
      exact ⟨hrun, part, hpart, hlists⟩
    · intro j hj
      rw [hserve]
      exact ⟨last, hrest j hj⟩

/-- The first segment of the long group of pictures, in parts of two seconds. -/
theorem parts_tile_segment_gopMetadata :
    referenceTrack gopMetadata = some gopVideo ∧
    ∃ parts, (computeSegmentParts .release gopMetadata 6.0 2.0 0 : Exec PackagingError _)
        = .ok parts ∧
      PartsTile .release gopMetadata gopVideo 6.0 2.0 0 parts := by
  have href : referenceTrack gopMetadata = some gopVideo := by decide
  obtain ⟨hreturns, htile⟩ := parts_tile_segment .release gopMetadata gopVideo 6.0 2.0 0 href
  obtain ⟨parts, hparts⟩ := hreturns rfl
  exact ⟨href, parts, hparts, htile parts hparts⟩

/-- The parts that are served hold, of every track, every sample of the segment. -/
def PartsCover (p : Profile) (metadata : Mp4Metadata) (dur pdur : Float) (i : Nat) : Prop :=
  ∃ count, (computePartCount p metadata dur pdur i : Exec PackagingError _) = .ok count ∧
    ∀ track ∈ metadata.tracks, ∃ first last,
      (segmentSampleRange p track i dur : Exec PackagingError _) = .ok (first, last) ∧
      ∀ k, first ≤ k → k < last → ∃ j < count, ∃ a b,
        (partSampleRange p track i j dur pdur : Exec PackagingError _) = .ok (a, b) ∧ a ≤ k ∧ k < b

section PartStarts

variable {track : TrackInfo} {dur pdur : Float} {i j k n : Nat}

theorem partStart_succ : partStart track dur pdur i (n + 1)
    = partNext track pdur (segmentEnd track dur i) (partStart track dur pdur i n) :=
  Function.iterate_succ_apply' ..

theorem partStart_le : partStart track dur pdur i n ≤ segmentEnd track dur i := by
  cases n with
  | zero => exact Nat.le_max_left _ _
  | succ n => exact partStart_succ ▸ partNext_le

theorem partStart_mono : Monotone (partStart track dur pdur i) :=
  monotone_nat_of_le_succ fun _ => partStart_succ ▸ le_partNext partStart_le

theorem exists_partStart_le (hfirst : startAt track dur i ≤ k)
    (h : k < partStart track dur pdur i n) :
    ∃ j < n, partStart track dur pdur i j ≤ k ∧ k < partStart track dur pdur i (j + 1) := by
  induction n with
  | zero => exact absurd h (Nat.not_lt.2 hfirst)
  | succ n ih =>
    by_cases hk : k < partStart track dur pdur i n
    · obtain ⟨j, hj, hin⟩ := ih hk
      exact ⟨j, Nat.lt_succ_of_lt hj, hin⟩
    · exact ⟨n, Nat.lt_succ_self n, Nat.not_lt.1 hk, h⟩

theorem PartsSafe.part (h : PartsSafe track dur pdur i) : PartSafe track dur pdur i j :=
  ⟨h.1, fun n _ => h.2 n⟩

/-- Coverage of one track by its first `count` parts: none of its targets overflows, and part
`count` would start at the end of the segment. -/
theorem trackCovered_iff (hi : i + 1 < 2 ^ 32) (count : Nat) :
    (∃ first last, (segmentSampleRange .dev track i dur : Exec PackagingError _) =
      .ok (first, last) ∧
      ∀ k, first ≤ k → k < last → ∃ j < count, ∃ a b,
        (partSampleRange .dev track i j dur pdur : Exec PackagingError _) = .ok (a, b) ∧
          a ≤ k ∧ k < b) ↔
    PartsSafe track dur pdur i ∧
      partStart track dur pdur i count = segmentEnd track dur i := by
  have hrange := @segmentSampleRange_spec PackagingError track dur i hi
  have hpart := fun j => @partSampleRange_spec PackagingError track dur pdur i j hi
  constructor
  · intro h
    rcases h with ⟨first, last, hok, hcover⟩
    obtain ⟨rfl, rfl⟩ := Prod.mk.inj (hrange.value _ hok)
    -- the part that holds the first sample of part `n` is part `n` or a later one
    have hreach : ∀ n, partStart track dur pdur i n < segmentEnd track dur i →
        ∃ j < count, n ≤ j ∧ PartSafe track dur pdur i j := by
      intro n hn
      obtain ⟨j, hj, a, b, hab, -, hlt⟩ := hcover _ (partStart_mono (Nat.zero_le n)) hn
      obtain ⟨-, rfl⟩ := Prod.mk.inj ((hpart j).value _ hab)
      refine ⟨j, hj, Nat.not_lt.1 fun hjn => ?_, (hpart j).returns_iff.1 ⟨_, hab⟩⟩
      exact absurd hlt (Nat.not_lt.2 (partStart_mono hjn))
    refine ⟨⟨hrange.returns_iff.1 ⟨_, hok⟩, fun n hn => ?_⟩, ?_⟩
    · obtain ⟨j, -, hnj, hsafe⟩ := hreach n hn
      exact hsafe.2 n hnj hn
    · refine Nat.le_antisymm partStart_le (Nat.not_lt.1 fun hlt => ?_)
      obtain ⟨j, hj, hle, -⟩ := hreach count hlt
      omega
  · intro h
    rcases h with ⟨hsafe, hend⟩
    refine ⟨_, _, hrange.eq_ok_iff.2 ⟨hsafe.1, rfl⟩, ?_⟩
    intro k hfirst hlast
    obtain ⟨j, hj, hle, hlt⟩ := exists_partStart_le hfirst (hlast.trans_eq hend.symm)
    exact ⟨j, hj, _, _, (hpart j).eq_ok_iff.2 ⟨hsafe.part, rfl⟩, hle, hlt⟩

end PartStarts

theorem PartsCover.release {metadata : Mp4Metadata} {dur pdur : Float} {i : Nat}
    (h : PartsCover .dev metadata dur pdur i) : PartsCover .release metadata dur pdur i := by
  obtain ⟨count, hcount, hcover⟩ := h
  refine ⟨count, ((relaxed_computeSegmentParts metadata dur pdur i).map _).agrees _ hcount, ?_⟩
  intro track htrack
  obtain ⟨first, last, hrange, hparts⟩ := hcover track htrack
  refine ⟨first, last, (relaxed_segmentSampleRange i dur).agrees _ hrange, ?_⟩
  intro k hk hk'
  obtain ⟨j, hj, a, b, hab, hin⟩ := hparts k hk hk'
  exact ⟨j, hj, a, b, (relaxed_partSampleRange i j dur pdur).agrees _ hab, hin⟩

theorem partsCover_dev_iff (metadata : Mp4Metadata) (dur pdur : Float)
    (i : Fin (computeSegmentCount metadata dur)) :
    PartsCover .dev metadata dur pdur i ↔
      ∀ ref, referenceTrack metadata = some ref → PartsSafe ref dur pdur i ∧
        ∀ track ∈ metadata.tracks, PartsSafe track dur pdur i ∧
          ∀ n, partStart ref dur pdur i n = segmentEnd ref dur i →
            partStart track dur pdur i n = segmentEnd track dur i := by
  have hi : i.val + 1 < 2 ^ 32 := by
    have := @computeSegmentCount_lt metadata dur
    omega
  cases href : referenceTrack metadata with
  | none =>
    -- no reference track means no track at all
    have hnil : metadata.tracks = [] := by
      rw [referenceTrack, Option.or_eq_none_iff] at href
      exact List.head?_eq_none_iff.1 href.2
    refine iff_of_true ⟨0, ?_, by simp [hnil]⟩ (by simp)
    rw [computePartCount, computeSegmentParts, href]
    rfl
  | some ref =>
    have hcount := @computePartCount_spec PackagingError metadata dur ref pdur i href hi
    -- the count is the first index at which the reference track is at its end
    have hends : ∀ {count : Nat},
        (∀ j, j < count ↔ partStart ref dur pdur i j < segmentEnd ref dur i) →
        ∀ n, partStart ref dur pdur i n = segmentEnd ref dur i ↔ count ≤ n := by
      intro count hiff n
      have hle := @partStart_le ref dur pdur i n
      have hn := hiff n
      omega
    constructor
    · intro h ref' hsome
      cases hsome
      rcases h with ⟨count, hok, hcover⟩
      refine ⟨hcount.returns_iff.1 ⟨count, hok⟩, fun track htrack => ?_⟩
      obtain ⟨hsafe, hend⟩ := (trackCovered_iff hi count).1 (hcover track htrack)
      refine ⟨hsafe, fun n hn => Nat.le_antisymm partStart_le ?_⟩
      rw [← hend]
      exact partStart_mono ((hends (hcount.value count hok) n).1 hn)
    · intro h
      obtain ⟨hsafe, htracks⟩ := h ref rfl
      obtain ⟨count, hok⟩ := hcount.returns hsafe
      refine ⟨count, hok, fun track htrack => (trackCovered_iff hi count).2 ?_⟩
      obtain ⟨hsafe, hend⟩ := htracks track htrack
      exact ⟨hsafe, hend count ((hends (hcount.value count hok) count).2 (Nat.le_refl count))⟩

/-- The parts cover the segment exactly if no target overflows and no track still has samples
where the reference track has run out of parts; then an optimised build's cover it too. -/
theorem partsCover_iff (metadata : Mp4Metadata) (dur pdur : Float)
    (i : Fin (computeSegmentCount metadata dur)) :
    (PartsCover .dev metadata dur pdur i ↔
      ∀ ref, referenceTrack metadata = some ref → PartsSafe ref dur pdur i ∧
        ∀ track ∈ metadata.tracks, PartsSafe track dur pdur i ∧
          ∀ n, partStart ref dur pdur i n = segmentEnd ref dur i →
            partStart track dur pdur i n = segmentEnd track dur i) ∧
    ((∀ ref, referenceTrack metadata = some ref → PartsSafe ref dur pdur i ∧
        ∀ track ∈ metadata.tracks, PartsSafe track dur pdur i ∧
          ∀ n, partStart ref dur pdur i n = segmentEnd ref dur i →
            partStart track dur pdur i n = segmentEnd track dur i) →
      PartsCover .release metadata dur pdur i) :=
  ⟨partsCover_dev_iff metadata dur pdur i,
    fun h => ((partsCover_dev_iff metadata dur pdur i).2 h).release⟩

/-- Two pictures of two seconds, and four audio samples of one second. -/
def slowMovie : Bytes :=
  movie 1 4 [
    movieTrak 1 ccVide 1 4 16 16
      [tableBox ccStts [[2, 2]], tableBox ccStsc [[1, 2, 1]], sizesBox [1, 1],
        tableBox ccStco [[8]]],
    movieTrak 2 ccSoun 1 4 0 0
      [tableBox ccStts [[4, 1]], tableBox ccStsc [[1, 4, 1]], sizesBox [1, 1, 1, 1],
        tableBox ccStco [[10]]]] (List.replicate 6 0)

def slowVideo : TrackInfo := {
  trackId := 1, trackType := .video, codec := none, timescale := 1, duration := 4
  sampleTable := ⟨[⟨2, 2⟩], [⟨1, 2, 1⟩], [1, 1], [8], none, none⟩
  width := some 16384, height := some 16, sampleRate := none, channels := none, stsdData := [] }

def slowAudio : TrackInfo := {
  trackId := 2, trackType := .audio, codec := none, timescale := 1, duration := 4
  sampleTable := ⟨[⟨4, 1⟩], [⟨1, 4, 1⟩], [1, 1, 1, 1], [10], none, none⟩
  width := some 16384, height := none, sampleRate := none, channels := none, stsdData := [] }

def slowMetadata : Mp4Metadata := ⟨4.0, 1, [slowVideo, slowAudio]⟩

/-- In parts of one second the two pictures make two parts, and the audio would need four: its
third sample is in the segment and in no part. -/
theorem partsCover_slowMovie_fails :
    (∀ p, parseMp4 p slowMovie = .ok slowMetadata) ∧ computeSegmentCount slowMetadata 4.0 = 1 ∧
    ∀ p, ¬ PartsCover p slowMetadata 4.0 1.0 0 := by
  refine ⟨?_, by decide +kernel, ?_⟩
  · intro p
    cases p with
    | dev | release => decide +kernel
  intro p h
  rcases h with ⟨count, hcount, hcover⟩
  have hrun : (computePartCount p slowMetadata 4.0 1.0 0 : Exec PackagingError _) = .ok 2 ∧
      (segmentSampleRange p slowAudio 0 4.0 : Exec PackagingError _) = .ok (0, 4) ∧
      (partSampleRange p slowAudio 0 0 4.0 1.0 : Exec PackagingError _) = .ok (0, 1) ∧
      (partSampleRange p slowAudio 0 1 4.0 1.0 : Exec PackagingError _) = .ok (1, 2) := by
    cases p with
    | dev | release => decide +kernel
  obtain ⟨htwo, hfull, hpart0, hpart1⟩ := hrun
  obtain rfl := ok_unique hcount htwo
  obtain ⟨first, last, hrange, hcover⟩ := hcover slowAudio (by simp [slowMetadata])
  obtain ⟨rfl, rfl⟩ := Prod.mk.inj (ok_unique hrange hfull)
  obtain ⟨j, hj, a, b, hpart, hle, hlt⟩ := hcover 2 (by omega) (by omega)
  have hj : j = 0 ∨ j = 1 := by omega
  rcases hj with rfl | rfl
  · obtain ⟨-, rfl⟩ := Prod.mk.inj (Except.ok.inj (hpart.symm.trans hpart0))
    omega
  · obtain ⟨-, rfl⟩ := Prod.mk.inj (Except.ok.inj (hpart.symm.trans hpart1))
    omega

end Nozdormu.Packaging
