import Nozdormu.Packaging.SampleSafety
import Nozdormu.Packaging.Process

/-!
# When a packaging request cannot fault

`process_packaging_request` on a file the parser accepts. The parser does not compare the
sample tables with each other, so a request works on tables that may contradict themselves.
`RequestSafe` collects, request by request, what the tables must satisfy
(`processPackagingRequest_noFault_iff`).
-/

namespace Nozdormu.Packaging

open Rust Bmff RunLength FragmentRequest

variable {ε : Type} {τ : Type}

/-- Behind a `moof` of a given size, the data offset of every track and the running total of
the tracks' data fit 32 bits. -/
def OffsetsFit (moofSize : Nat) : (trackDataOffset : Nat) → List Nat → Prop
  | _, [] => True
  | off, size :: sizes =>
    moofSize + 8 + off < 2 ^ 32 ∧ off + size % 2 ^ 32 < 2 ^ 32 ∧
      OffsetsFit moofSize (off + size % 2 ^ 32) sizes

section TwoPasses

variable {build : τ → Nat → Exec ε (Bytes × Bytes)} {run : τ → Exec ε FragmentTrack}
  (hbuild : ∀ t off, build t off = (run t >>= fun r => .ok (r.traf off, r.data)))

include hbuild

theorem returnsIff_finalTrafs {ms : Nat} :
    ∀ (tracks : List τ) {rs : List FragmentTrack} {off : Nat},
    tracks.mapM run = .ok rs →
    ReturnsIff (finalTrafs .dev ms build tracks off)
      (OffsetsFit ms off (rs.map fun r => r.data.length)) := by
  intro tracks
  induction tracks with
  | nil =>
    intro rs off hrs
    obtain rfl : [] = rs := by simpa [List.mapM_nil] using hrs
    exact .of_eq_ok rfl trivial
  | cons t ts ih =>
    intro rs off hrs
    obtain ⟨r, rs', hr, hrs', rfl⟩ := mapM_cons_eq_ok.1 hrs
    rw [finalTrafs, ← bind_assoc]
    refine returnsIff_add_add.bind_const fun dataOffset _ => ?_
    rw [hbuild, hbuild, hr, ok_bind, ok_bind, ok_bind]
    exact spec_add.bind_returnsIff fun _ => (ih hrs').map _

theorem returnsIff_assembleFragment {seq : Nat} {tracks : List τ} {P : τ → Prop}
    (hrun : ∀ t ∈ tracks, ReturnsIff (run t) (P t)) :
    ReturnsIff (assembleFragment .dev seq tracks build)
      ((∀ t ∈ tracks, P t) ∧ ∀ rs, tracks.mapM run = .ok rs →
        OffsetsFit (moofSize rs % 2 ^ 32) 0 (rs.map fun r => r.data.length)) := by
  simp only [assembleFragment]
  rw [firstPass_eq hbuild, bind_assoc]
  refine (ReturnsIff.mapM hrun).bind fun rs hrs => ?_
  rw [ok_bind, makeBox_length, firstPass_moof_length]
  exact (returnsIff_finalTrafs hbuild tracks hrs).map _

end TwoPasses

namespace FragmentRequest

variable {dur pdur : Float} {track : TrackInfo}

def index : FragmentRequest → Nat
  | segment i => i.toNat
  | part i _ => i.toNat

/-- The samples of a track that the request covers, in closed form. -/
def samples (dur pdur : Float) (track : TrackInfo) : FragmentRequest → Nat × Nat
  | segment i => (startAt track dur i.toNat, segmentEnd track dur i.toNat)
  | part i j =>
    (partStart track dur pdur i.toNat j.toNat, partStart track dur pdur i.toNat (j.toNat + 1))

def RangeSafe (dur pdur : Float) (track : TrackInfo) : FragmentRequest → Prop
  | segment i => Packaging.RangeSafe track (boundaryTicks i.toNat dur track.timescale)
  | part i j => PartSafe track dur pdur i.toNat j.toNat

/-- The sequence number of the fragment fits 32 bits. -/
def SequenceFits : FragmentRequest → Prop
  | segment i => i.toNat + 1 < 2 ^ 32
  | part i j => i.toNat * 1000 + j.toNat + 1 < 2 ^ 32

end FragmentRequest

/-- The fragment of a request can be written: every track's range can be computed, its samples
can be cut out, and the data offsets fit. -/
def FragmentSafe (mp4Data : Bytes) (metadata : Mp4Metadata) (dur pdur : Float)
    (request : FragmentRequest) : Prop :=
  (∀ track ∈ metadata.tracks, request.RangeSafe dur pdur track ∧
    RunSafe track.sampleTable (request.samples dur pdur track)) ∧
  OffsetsFit
    ((24 + (metadata.tracks.map fun t => rangeTrafSize (request.samples dur pdur t)).sum) % 2 ^ 32)
      0
    (metadata.tracks.map fun t => rangeDataSize mp4Data t.sampleTable (request.samples dur pdur t))

section Fragment

variable {mp4Data : Bytes} {metadata : Mp4Metadata} {dur pdur : Float} {request : FragmentRequest}

theorem requestRun_spec (hi : request.index + 1 < 2 ^ 32) (track : TrackInfo) :
    Spec ((request.range .dev dur pdur track : Exec PackagingError _)
        >>= rangeRun .dev mp4Data track)
      (request.RangeSafe dur pdur track ∧
        RunSafe track.sampleTable (request.samples dur pdur track))
      fun x => x.trafSize = rangeTrafSize (request.samples dur pdur track) ∧
        x.data.length = rangeDataSize mp4Data track.sampleTable
        (request.samples dur pdur track) := by
  have hrange : Spec (request.range .dev dur pdur track : Exec PackagingError _)
      (request.RangeSafe dur pdur track) fun r => r = request.samples dur pdur track := by
    cases request with
    | segment i => exact segmentSampleRange_spec hi
    | part i j => exact partSampleRange_spec hi
  refine hrange.bind_eq fun hsafe => ?_
  obtain ⟨r, hr⟩ := hrange.returns hsafe
  obtain rfl := hrange.value r hr
  exact ⟨returnsIff_rangeRun (range_lt hr), fun x hx =>
    rangeRun_sizes (range_lt hr) hx⟩

theorem returnsIff_assemble (hi : request.index + 1 < 2 ^ 32) {seq : Nat}
    {build : TrackInfo → Nat → Exec PackagingError (Bytes × Bytes)}
    (hbuild : ∀ t off, build t off = (((request.range .dev dur pdur t : Exec PackagingError _)
      >>= rangeRun .dev mp4Data t) >>= fun r => .ok (r.traf off, r.data))) :
    ReturnsIff (assembleFragment .dev seq metadata.tracks build)
      (FragmentSafe mp4Data metadata dur pdur request) := by
  refine (returnsIff_assembleFragment hbuild fun t _ => (requestRun_spec hi t).toReturnsIff).congr
    ?_
  refine and_congr_right fun hsafe => ?_
  obtain ⟨rs, hrs⟩ := (ReturnsIff.mapM fun t _ =>
    (@requestRun_spec mp4Data dur pdur _ hi t).toReturnsIff).returns hsafe
  -- the sizes of the runs are those the tables give
  have hall := mapM_eq_ok_iff.1 hrs
  have htraf : rs.map FragmentTrack.trafSize = metadata.tracks.map fun t =>
      rangeTrafSize (request.samples dur pdur t) :=
    (map_eq_map_iff_of_forall₂ (fun t x hx =>
      iff_of_true ((requestRun_spec hi t).value x hx).1 trivial) hall).2 fun _ _ => trivial
  have hdata : rs.map (fun r => r.data.length) = metadata.tracks.map fun t =>
      rangeDataSize mp4Data t.sampleTable (request.samples dur pdur t) :=
    (map_eq_map_iff_of_forall₂ (fun t x hx =>
      iff_of_true ((requestRun_spec hi t).value x hx).2 trivial) hall).2 fun _ _ => trivial
  simp only [hrs, Except.ok.injEq, forall_eq', moofSize, htraf, hdata]

theorem returnsIff_generate (hi : request.index + 1 < 2 ^ 32) :
    ReturnsIff (request.generate .dev mp4Data metadata dur pdur : Exec PackagingError _)
      (request.SequenceFits ∧ FragmentSafe mp4Data metadata dur pdur request) := by
  cases request with
  | segment i =>
    exact returnsIff_add.bind_const fun _ _ =>
      returnsIff_assemble hi (segmentBuild_eq .dev mp4Data i dur pdur)
  | part i j =>
    have hgen := (@returnsIff_mul_add_add PackagingError 32 i.toNat 1000 j.toNat 1).bind_const
      fun seq _ =>
      @returnsIff_assemble mp4Data metadata dur pdur _ hi seq _
        (partBuild_eq .dev mp4Data i j dur pdur)
    simp only [bind_assoc] at hgen
    exact hgen

end Fragment

section Playlists

variable {metadata : Mp4Metadata} {dur pdur : Float}

theorem returnsIff_computeSegmentDurations :
    ReturnsIff (computeSegmentDurations .dev metadata dur : Exec ε _) (PlaylistSafe metadata dur) :=
  returnsIff_segmentSpans.map _

theorem returnsIff_generateLlHlsPlaylist {baseUrl queryBase : String} :
    ReturnsIff (generateLlHlsPlaylist .dev metadata dur pdur baseUrl queryBase :
        Exec PackagingError _)
      (PlaylistSafe metadata dur ∧ ∀ ref, referenceTrack metadata = some ref →
        ∀ i, Listed ref dur (computeSegmentCount metadata dur) i → PartsSafe ref dur pdur i) := by
  have hcount := @computeSegmentCount_lt metadata dur
  refine ((@returnsIff_computeSegmentDurations PackagingError metadata dur).bind
    (R := fun segments => ∀ segment ∈ segments, ∀ ref, referenceTrack metadata = some ref →
      PartsSafe ref dur pdur segment.1) fun segments hsegments => ?_).congr ?_
  · have hsafe := returnsIff_computeSegmentDurations.of_noFault
      (Returns.noFault ⟨segments, hsegments⟩)
    have hparts : ∀ segment ∈ segments, ReturnsIff
        (computeSegmentParts .dev metadata dur pdur segment.1 : Exec PackagingError _)
        (∀ ref, referenceTrack metadata = some ref → PartsSafe ref dur pdur segment.1) := by
      intro segment hmem
      obtain ⟨ref, href, hlisted⟩ :=
        listed_of_mem (fun ref href h0 => (hsafe ref href h0).1) hsegments hmem
      have hlt := hlisted.1
      refine (computeSegmentParts_spec href (by omega)).toReturnsIff.congr ?_
      exact ⟨fun h _ heq => Option.mem_unique href heq ▸ h, fun h => h ref href⟩
    by_cases hempty : segments.isEmpty
    · rw [if_pos hempty]
      refine .of_eq_ok rfl ?_
      rw [List.isEmpty_iff.1 hempty]
      simp
    rw [if_neg hempty]
    -- the parts are computed twice, under the same condition
    exact ((ReturnsIff.mapM hparts).bind_const fun _ _ =>
      (ReturnsIff.mapM fun segment hmem => (hparts segment hmem).map _).map _).congr and_self_iff
  · refine and_congr_right fun hsafe => ?_
    obtain ⟨segments, hsegments⟩ :=
      (@returnsIff_computeSegmentDurations PackagingError metadata dur).returns hsafe
    constructor
    · intro h ref href i hi
      obtain ⟨hn, -⟩ := hsafe ref href (Nat.lt_of_le_of_lt (Nat.zero_le _) hi.1)
      obtain ⟨segment, hmem, rfl⟩ := (mem_segmentDurations href hn hsegments).2 hi
      exact h segments hsegments segment hmem ref href
    · intro h segments' hsegments' segment hmem ref href
      obtain ⟨ref', href', hlisted⟩ :=
        listed_of_mem (fun ref href h0 => (hsafe ref href h0).1) hsegments' hmem
      obtain rfl := Option.mem_unique href href'
      exact h ref href segment.1 hlisted

end Playlists

/-- What a request needs of the sample tables. -/
def RequestSafe (mp4Data : Bytes) (metadata : Mp4Metadata) (dur : Float)
    (llHls : Option LlHlsConfig) : PackagingRequest → Prop
  | .manifest => PlaylistSafe metadata dur
  | .llHlsManifest => ∀ config, llHls = some config →
    PlaylistSafe metadata dur ∧ ∀ ref, referenceTrack metadata = some ref →
      ∀ i, Listed ref dur (computeSegmentCount metadata dur) i →
        PartsSafe ref dur config.partDuration i
  | .initSegment => True
  | .mediaSegment i => i.toNat < computeSegmentCount metadata dur →
    FragmentSafe mp4Data metadata dur dur (.segment i)
  | .partialSegment i j => ∀ config, llHls = some config →
    i.toNat < computeSegmentCount metadata dur → ∀ ref, referenceTrack metadata = some ref →
      PartsSafe ref dur config.partDuration i.toNat ∧
      (partStart ref dur config.partDuration i.toNat j.toNat < segmentEnd ref dur i.toNat →
        (part i j).SequenceFits ∧
        FragmentSafe mp4Data metadata dur config.partDuration (.part i j))

section Requests

variable {mp4Data : Bytes} {metadata : Mp4Metadata} {dur : Float}

theorem noFault_requireConfig_bind {llHls : Option LlHlsConfig} {what : String}
    {k : LlHlsConfig → Exec PackagingError α} :
    NoFault (requireConfig llHls what >>= k) ↔ ∀ config, llHls = some config →
      NoFault (k config) := by
  cases llHls with
  | none => exact iff_of_true (noFault_fail _) (by simp)
  | some config => exact ⟨fun h _ heq => Option.some.inj heq ▸ h, fun h => h config rfl⟩

theorem computePartCount_spec {ref : TrackInfo} {pdur : Float} {i : Nat}
    (href : referenceTrack metadata = some ref) (hi : i + 1 < 2 ^ 32) :
    Spec (computePartCount .dev metadata dur pdur i : Exec ε _) (PartsSafe ref dur pdur i)
      fun n => ∀ j, j < n ↔ partStart ref dur pdur i j < segmentEnd ref dur i := by
  have hspec := @computeSegmentParts_spec ε ref dur pdur _ metadata href hi
  refine ⟨hspec.map _, fun n hn => ?_⟩
  obtain ⟨parts, hparts, hn⟩ := bind_eq_ok.1 hn
  cases hn
  obtain ⟨hlt, hiff⟩ := hspec.value parts hparts
  rw [Nat.mod_eq_of_lt hlt]
  exact hiff

theorem partialSegment_noFault_iff {pdur : Float} {i j : UInt32}
    (hi : i.toNat < computeSegmentCount metadata dur) :
    NoFault (computePartCount .dev metadata dur pdur i.toNat >>= fun partCount =>
      if partCount ≤ j.toNat then fail (.partOutOfRange j.toNat i.toNat partCount)
      else generatePartialSegment .dev mp4Data metadata i.toNat j.toNat dur pdur :
        Exec PackagingError Bytes)
    ↔ ∀ ref, referenceTrack metadata = some ref → PartsSafe ref dur pdur i.toNat ∧
      (partStart ref dur pdur i.toNat j.toNat < segmentEnd ref dur i.toNat →
        (part i j).SequenceFits ∧
        FragmentSafe mp4Data metadata dur pdur (.part i j)) := by
  have hcount := @computeSegmentCount_lt metadata dur
  have hi' : i.toNat + 1 < 2 ^ 32 := by omega
  rcases href : referenceTrack metadata with _ | ref
  · -- no reference track: no parts, every index is out of range
    have hzero : (computePartCount .dev metadata dur pdur i.toNat : Exec PackagingError _) =
        .ok 0 := by
      rw [computePartCount, computeSegmentParts, href]
      rfl
    rw [hzero, ok_bind, if_pos (Nat.zero_le _)]
    exact iff_of_true (noFault_fail _) (by simp)
  · have hcountSpec := @computePartCount_spec PackagingError _ dur ref pdur _ href hi'
    have hgen := (@returnsIff_generate mp4Data metadata dur pdur (.part i j) hi').noFault_iff
    rw [noFault_bind, hcountSpec.noFault_iff]
    simp only [Option.some.injEq, forall_eq']
    refine and_congr_right fun hsafe => ?_
    obtain ⟨n, hn⟩ := hcountSpec.returns hsafe
    simp only [hn, Except.ok.injEq, forall_eq', noFault_guard, Nat.not_le, hcountSpec.value n hn]
    exact imp_congr_right fun _ => hgen

theorem respond_noFault_iff {request : PackagingRequest} {baseUrl : String}
    {query : Option String} {llHls : Option LlHlsConfig} :
    NoFault (respond .dev mp4Data metadata request dur baseUrl query llHls)
      ↔ RequestSafe mp4Data metadata dur llHls request := by
  cases request with
  | manifest =>
    refine (ReturnsIff.map
      ((returnsIff_computeSegmentDurations.bind_const fun segments _ => ?_).congr
      (and_iff_left trivial)) _).noFault_iff
    split <;> exact .of_eq_ok rfl trivial
  | llHlsManifest =>
    refine noFault_requireConfig_bind.trans (forall₂_congr fun config _ => ?_)
    exact (returnsIff_generateLlHlsPlaylist.map _).noFault_iff
  | initSegment => exact iff_of_true (noFault_ok _) trivial
  | mediaSegment i =>
    simp only [respond, RequestSafe]
    rw [noFault_guard, Nat.not_le]
    refine imp_congr_right fun hi => ?_
    have hcount := @computeSegmentCount_lt metadata dur
    have hindex : (segment i).index + 1 < 2 ^ 32 := show i.toNat + 1 < 2 ^ 32 by omega
    exact (returnsIff_generate hindex).noFault_iff.trans (and_iff_right hindex)
  | partialSegment i j =>
    refine noFault_requireConfig_bind.trans (forall₂_congr fun config _ => ?_)
    rw [noFault_guard, Nat.not_le]
    exact imp_congr_right partialSegment_noFault_iff

end Requests

structure AcceptedFile where
  data : Bytes
  metadata : Mp4Metadata
  accepted : parseMp4 .dev data = .ok metadata

/-- A request on an accepted file is answered, with a response or an error, if and only if
the tables it reads are safe for it. -/
theorem processPackagingRequest_noFault_iff (file : AcceptedFile) (request : PackagingRequest)
    (segmentDuration : Float) (baseUrl : String) (query : Option String)
    (llHls : Option LlHlsConfig) :
    NoFault (processPackagingRequest .dev file.data request segmentDuration baseUrl query llHls)
      ↔ RequestSafe file.data file.metadata segmentDuration llHls request := by
  rw [processPackagingRequest, file.accepted]
  exact respond_noFault_iff

/-- The second segment starts at tick 2 and is taken to end at tick 1: the playlist's
subtraction underflows, and where it wraps the segment lasts `2 ^ 64 - 1` seconds. -/
theorem processPackagingRequest_briefMovie_faults :
    parseMp4 .dev briefMovie = .ok briefMetadata ∧
    processPackagingRequest .dev briefMovie .manifest 2.0 "/video.mp4" none none
      = .error (.fault .overflow) ∧
    ¬ NoFault (processPackagingRequest .dev briefMovie .manifest 2.0 "/video.mp4" none none) ∧
    (segmentSpans .release briefMetadata 2.0 : Exec PackagingError _)
      = .ok [⟨0, 0, 2, 2.0⟩, ⟨1, 2, 1, 18446744073709551615.0⟩] := by
  have hparse : parseMp4 .dev briefMovie = .ok briefMetadata := by decide +kernel
  have hfault : processPackagingRequest .dev briefMovie .manifest 2.0 "/video.mp4" none none
      = .error (.fault .overflow) := by
    rw [processPackagingRequest, hparse]
    rfl
  exact ⟨hparse, hfault, fun h => h _ hfault, by decide +kernel⟩

end Nozdormu.Packaging
