import Nozdormu.Bmff.Demux
import Nozdormu.Ingest.H264
import Nozdormu.Packaging.InitRoundTrip

/-!
# What a configuration record says about the stream

An AVCDecoderConfigurationRecord goes through `from_avcc` and `build_avc1_entry`: read once,
written once. `describeAvc` is a reader of the whole record, with every parameter set, so that the
record of the publisher and the one of the init segment can be compared.
-/

namespace Nozdormu.Ingest

open Rust Bmff Packaging List

/-! ## Reading a record -/

def takeSet (bs : Bytes) : Option (Bytes × Bytes) :=
  (takeBe 2 bs).bind fun len =>
    if len.1 ≤ len.2.length then some (len.2.take len.1, len.2.drop len.1) else none

def takeSets : (count : Nat) → Bytes → Option (List Bytes × Bytes)
  | 0, bs => some ([], bs)
  | n + 1, bs =>
    (takeSet bs).bind fun set => (takeSets n set.2).map fun sets => (set.1 :: sets.1, sets.2)

structure AvcDescription where
  profile : UInt8
  compatibility : UInt8
  level : UInt8
  /-- Bytes in front of each NAL unit of a sample. -/
  lengthSize : Nat
  sps : List Bytes
  pps : List Bytes
deriving DecidableEq, Repr

/-- `none` if the record ends before its last parameter set. -/
def describeAvc (record : Bytes) : Option AvcDescription :=
  (takeSets (record.getD 5 0 &&& 0x1F).toNat (record.drop 6)).bind fun sps =>
  (takeBe 1 sps.2).bind fun count =>
  (takeSets count.1 count.2).map fun pps =>
    { profile := record.getD 1 0, compatibility := record.getD 2 0, level := record.getD 3 0
      lengthSize := (record.getD 4 0 &&& 3).toNat + 1, sps := sps.1, pps := pps.1 }

/-- The `avcC` box in the first sample entry of a sample description, behind the 78 bytes of a
visual sample entry. -/
def readAvcC (stsd : Bytes) : Option Bytes :=
  ((readBoxes (stsd.drop 8)).bind List.head?).bind fun entry =>
    (readBoxes (entry.2.drop 78)).bind (childBody ccAvcC)

theorem takeSet_be {set : Bytes} (h : set.length < 256 ^ 2) (rest : Bytes) :
    takeSet (be 2 set.length ++ (set ++ rest)) = some (set, rest) := by
  unfold takeSet
  rw [takeBe_be h]
  simp

variable {record : Bytes}

theorem takeBe_drop {n k : Nat} (h : n + k ≤ record.length) :
    takeBe k (record.drop n) = some (beVal ((record.drop n).take k), record.drop (n + k)) := by
  rw [takeBe, if_pos (by simp only [length_drop]; omega), drop_drop]

theorem takeBe_one {n : Nat} (h : n < record.length) :
    takeBe 1 (record.drop n) = some ((record.getD n 0).toNat, record.drop (n + 1)) := by
  have hbyte : (record.drop n).take 1 = [record.getD n 0] := by
    rw [drop_eq_getElem_cons h, getD_eq_getElem?_getD, List.getElem?_eq_getElem h]
    rfl
  rw [takeBe_drop h, hbyte]
  simp [beVal]

theorem takeSet_drop {n : Nat} (h : n + 2 + beVal ((record.drop n).take 2) ≤ record.length) :
    takeSet (record.drop n) = some ((record.drop (n + 2)).take (beVal ((record.drop n).take 2)),
          record.drop (n + 2 + beVal ((record.drop n).take 2))) := by
  unfold takeSet
  rw [takeBe_drop (by omega)]
  simp only [Option.bind_some]
  rw [if_pos (by simp only [length_drop]; omega), drop_drop]

theorem takeSets_one (bs : Bytes) : takeSets 1 bs = (takeSet bs).map fun r => ([r.1], r.2) := by
  unfold takeSets
  cases takeSet bs <;> rfl

theorem length_takeSets : ∀ {n : Nat} {bs rest : Bytes} {sets : List Bytes},
    takeSets n bs = some (sets, rest) → sets.length = n := by
  intro n
  induction n with
  | zero =>
    intro bs rest sets h
    cases h
    rfl
  | succ n ih =>
    intro bs rest sets h
    obtain ⟨set, -, h⟩ := Option.bind_eq_some_iff.1 h
    obtain ⟨⟨others, behind⟩, hothers, h⟩ := Option.map_eq_some_iff.1 h
    cases h
    rw [length_cons, ih hothers]

theorem readU16_eq {data : Bytes} {n : Nat} (h : n + 2 ≤ data.length) :
    readU16 data n = .ok (beVal ((data.drop n).take 2)) := by
  have htwo : (data.drop n).take 2 = [data[n], data[n + 1]] := by
    rw [drop_eq_getElem_cons (by omega), drop_eq_getElem_cons (by omega)]
    rfl
  rw [readU16, index_ok (by omega), ok_bind, index_ok (by omega), ok_bind, htwo]
  rfl

theorem le_of_skipSps {data : Bytes} : ∀ {n offset stop : Nat},
    skipSps data n offset = .ok stop → offset ≤ stop := by
  intro n
  induction n with
  | zero =>
    intro offset stop h
    exact (Except.ok.inj h).le
  | succ n ih =>
    intro offset stop h
    unfold skipSps at h
    split at h
    · exact (Except.ok.inj h).le
    obtain ⟨len, -, h⟩ := bind_eq_ok.1 h
    have := ih h
    omega

/-- What an accepted record has at which place. -/
theorem readAvcc_eq_ok {data : Bytes} {r : AvccRecord} (h : readAvcc data = .ok r) :
    8 ≤ data.length ∧ r.profile = data.getD 1 0 ∧ r.level = data.getD 3 0 ∧
      8 + beVal ((data.drop 6).take 2) ≤ data.length ∧
      r.sps = (data.drop 8).take (beVal ((data.drop 6).take 2)) ∧
      ∃ offset, skipSps data ((data.getD 5 0 &&& 0x1F).toNat - 1)
          (8 + beVal ((data.drop 6).take 2)) = .ok offset ∧
        offset + 3 + beVal ((data.drop (offset + 1)).take 2) ≤ data.length ∧
        r.pps = (data.drop (offset + 3)).take (beVal ((data.drop (offset + 1)).take 2)) := by
  obtain ⟨hlen, h⟩ := ensure_bind_eq_ok.1 h
  rw [index_getD (by omega), ok_bind, index_getD (by omega), ok_bind, index_getD (by omega),
    ok_bind] at h
  obtain ⟨-, h⟩ := ensure_bind_eq_ok.1 h
  obtain ⟨-, h⟩ := ensure_bind_eq_ok.1 h
  rw [readU16_eq (by omega), ok_bind] at h
  obtain ⟨hsps, h⟩ := ensure_bind_eq_ok.1 h
  rw [slice_ok (by omega) hsps, ok_bind] at h
  obtain ⟨offset, hoffset, h⟩ := bind_eq_ok.1 h
  obtain ⟨hcount, h⟩ := ensure_bind_eq_ok.1 h
  rw [index_getD hcount, ok_bind] at h
  obtain ⟨-, h⟩ := ensure_bind_eq_ok.1 h
  obtain ⟨hlength, h⟩ := ensure_bind_eq_ok.1 h
  rw [readU16_eq (by omega), ok_bind] at h
  obtain ⟨hpps, h⟩ := ensure_bind_eq_ok.1 h
  rw [slice_ok (by omega) hpps, ok_bind, Nat.add_sub_cancel_left, Nat.add_sub_cancel_left] at h
  cases h
  exact ⟨hlen, rfl, rfl, hsps, rfl, offset, hoffset, hpps, rfl⟩

theorem describeAvc_avccContent {c : H264Config} (hsps : c.sps.length < 256 ^ 2)
    (hpps : c.pps.length < 256 ^ 2) :
    describeAvc c.avccContent = some ⟨c.profile, 0, c.level, 4, [c.sps], [c.pps]⟩ := by
  have hrecord : c.avccContent = [1, c.profile, 0, c.level, 0xFF, 0xE1]
      ++ (be 2 c.sps.length ++ (c.sps ++ (be 1 1 ++ (be 2 c.pps.length ++ (c.pps ++ []))))) := by
    simp only [H264Config.avccContent, append_assoc, append_nil]
    rfl
  have hdrop : c.avccContent.drop 6
      = be 2 c.sps.length ++ (c.sps ++ (be 1 1 ++ (be 2 c.pps.length ++ (c.pps ++ [])))) := by
    rw [hrecord]
    rfl
  have hcount : c.avccContent.getD 5 0 = 0xE1 := by
    rfl
  have hsize : c.avccContent.getD 4 0 = 0xFF := by
    rfl
  have hone : ((0xE1 : UInt8) &&& 0x1F).toNat = 1 := by decide
  have hfour : ((0xFF : UInt8) &&& 3).toNat + 1 = 4 := by decide
  unfold describeAvc
  rw [hcount, hone, hsize, hfour, hdrop, takeSets_one, takeSet_be hsps, Option.map_some,
    Option.bind_some, takeBe_be (by decide), Option.bind_some, takeSets_one,
      takeSet_be hpps, hrecord]
  rfl

theorem readAvcC_buildStsdData {c : H264Config} (hsps : c.sps.length < 256 ^ 2)
    (hpps : c.pps.length < 256 ^ 2) : readAvcC c.buildStsdData = some c.avccContent := by
  have hcontent : c.avccContent.length = 11 + c.sps.length + c.pps.length := by
    simp only [H264Config.avccContent, length_append, be_length, length_cons,
      length_nil]
    omega
  have hchildren : readBoxes (boxes [(ccAvcC, c.avccContent)]) = some
      [(ccAvcC, c.avccContent)] := by
    apply readBoxes_boxes
    intro b hb
    rw [mem_singleton.1 hb]
    show c.avccContent.length + 8 < 2 ^ 32
    omega
  -- the fields of the sample entry, then its one child
  obtain ⟨fields, hfields, hentry⟩ : ∃ fields : Bytes, fields.length = 78 ∧
      c.buildAvc1Entry = makeBox ccAvc1 (fields ++ boxes [(ccAvcC, c.avccContent)]) := by
    refine ⟨_, ?_, by rw [boxes_cons, boxes_nil, append_nil]; rfl⟩
    simp only [length_append, be_length, zeros, length_replicate]
  have hentries : readBoxes c.buildAvc1Entry
      = some [(ccAvc1, fields ++ boxes [(ccAvcC, c.avccContent)])] := by
    have hbox : c.buildAvc1Entry = boxes [(ccAvc1, fields ++ boxes [(ccAvcC, c.avccContent)])] :=
      hentry.trans (append_nil _).symm
    rw [hbox]
    apply readBoxes_boxes
    intro b hb
    rw [mem_singleton.1 hb]
    simp only [length_append, boxes_cons, boxes_nil, makeBox_length, length_nil]
    omega
  have hdrop : c.buildStsdData.drop 8 = c.buildAvc1Entry := rfl
  unfold readAvcC
  rw [hdrop, hentries]
  show (readBoxes ((fields ++ boxes [(ccAvcC, c.avccContent)]).drop 78)).bind (childBody ccAvcC) = _
  rw [drop_left' hfields, hchildren]
  rfl

/-- The sample description the parser finds in an init segment, for the track behind `before`. -/
def parsedStsd (p : Profile) (before after : List LiveTrackInfo) (timescale : UInt32)
    (t : LiveTrackInfo) : Option Bytes :=
  ((parseMp4 p (generateInitSegmentFromLiveTracks (before ++ t :: after) timescale)).toOption.bind
    fun m => m.tracks[before.length]?).map (·.stsdData)

/-- The publisher's record has the values that the writer puts into every record: compatibility 0,
lengths of four bytes, one SPS, and behind it one PPS. -/
def WriterDefaults (record : Bytes) : Prop :=
  record.getD 2 0 = 0 ∧ record.getD 4 0 &&& 3 = 3 ∧ record.getD 5 0 &&& 0x1F = 1 ∧
    record.getD (8 + beVal ((record.drop 6).take 2)) 0 = 1

instance (record : Bytes) : Decidable (WriterDefaults record) := inferInstanceAs (Decidable (_ ∧ _))

theorem toNat_eq_one {b : UInt8} : b.toNat = 1 ↔ b = 1 := UInt8.toNat_inj (b := 1)

theorem describeAvc_of_writerDefaults {r : AvccRecord}
    (h : readAvcc record = .ok r) (hdefault : WriterDefaults record) :
    describeAvc record = some ⟨r.profile, 0, r.level, 4, [r.sps], [r.pps]⟩ := by
  obtain ⟨hlen, hprofile, hlevel, hspsLen, hsps, offset, hoffset, hppsLen, hpps⟩ := readAvcc_eq_ok h
  obtain ⟨hcompat, hsize, hnumSps, hnumPps⟩ := hdefault
  rw [hnumSps] at hoffset
  cases hoffset
  have hfour : ((3 : UInt8)).toNat + 1 = 4 := by decide
  have hone : (1 : UInt8).toNat = 1 := by decide
  generalize hn : 8 + beVal ((record.drop 6).take 2) = n at *
  unfold describeAvc
  rw [hnumSps, hone, hcompat, hsize, hfour, takeSets_one, takeSet_drop (by omega), Option.map_some,
    Option.bind_some, hn, takeBe_one (by omega), Option.bind_some, hnumPps, hone, takeSets_one,
    takeSet_drop (by omega), ← hprofile, ← hlevel, hsps, hpps]
  rfl

theorem writerDefaults_of_describeAvc {sps pps : Bytes} {profile level : UInt8}
    (h : describeAvc record = some ⟨profile, 0, level, 4, [sps], [pps]⟩)
    (hlen : 8 + beVal ((record.drop 6).take 2) < record.length) : WriterDefaults record := by
  obtain ⟨⟨spss, behind⟩, hspss, h⟩ := Option.bind_eq_some_iff.1 h
  obtain ⟨count, hcount, h⟩ := Option.bind_eq_some_iff.1 h
  obtain ⟨⟨ppss, _⟩, hppss, h⟩ := Option.map_eq_some_iff.1 h
  injection h with _ hcompat _ hsize hspsList hppsList
  subst hspsList hppsList
  have hnumSps : (record.getD 5 0 &&& 0x1F).toNat = 1 := by
    rw [← length_takeSets hspss]
    rfl
  have hnumPps : count.1 = 1 := by
    rw [← length_takeSets hppss]
    rfl
  refine ⟨hcompat, ?_, toNat_eq_one.1 hnumSps, ?_⟩
  · apply UInt8.toNat_inj.1
    exact Nat.succ.inj hsize
  · rw [hnumSps, takeSets_one, takeSet_drop (by omega)] at hspss
    obtain ⟨-, hbehind⟩ := Prod.mk.inj (Option.some.inj hspss)
    rw [← hbehind, takeBe_one hlen] at hcount
    cases hcount
    exact toNat_eq_one.1 hnumPps

/-- **The record of the init segment** describes the stream of the publisher's record exactly if
that has the writer's values. -/
theorem avcC_same_iff (p : Profile) (decode : SpsDecoder) (record : Bytes) (c : H264Config)
    (haccept : fromAvcc p decode record = .ok c) :
    (∀ (before after : List LiveTrackInfo) (timescale : UInt32),
      (generateInitSegmentFromLiveTracks (before ++ c.liveTrack :: after) timescale).length <
        2 ^ 32 →
        parsedStsd p before after timescale c.liveTrack = some c.buildStsdData) ∧
    ((readAvcC c.buildStsdData).bind describeAvc = describeAvc record ↔ WriterDefaults record) := by
  obtain ⟨r, hread, haccept⟩ := bind_eq_ok.1 haccept
  obtain ⟨size, -, haccept⟩ := bind_eq_ok.1 haccept
  cases haccept
  obtain ⟨hlen, -, -, hspsLen, hsps, offset, hoffset, hppsLen, hpps⟩ := readAvcc_eq_ok hread
  have hu16 : ∀ n, beVal ((record.drop n).take 2) < 256 ^ 2 := by
    intro n
    refine lt_of_lt_of_le (beVal_lt _) (Nat.pow_le_pow_right (by decide) ?_)
    exact length_take_le ..
  have hspsBound : r.sps.length < 256 ^ 2 := by
    rw [hsps]
    exact lt_of_le_of_lt (length_take_le ..) (hu16 6)
  have hppsBound : r.pps.length < 256 ^ 2 := by
    rw [hpps]
    exact lt_of_le_of_lt (length_take_le ..) (hu16 _)
  refine ⟨fun before after timescale h => ?_, ?_⟩
  · rw [parsedStsd, parsedTrack_liveInit p before after timescale h]
    rfl
  rw [readAvcC_buildStsdData hspsBound hppsBound, Option.bind_some,
    describeAvc_avccContent hspsBound hppsBound]
  constructor
  · intro hsame
    have hle := le_of_skipSps hoffset
    exact writerDefaults_of_describeAvc hsame.symm (by omega)
  · intro hdefault
    exact (describeAvc_of_writerDefaults hread hdefault).symm

/-- A Baseline SPS of level 3 and 640x480 pixels, without cropping. -/
def vgaSps (compatibility : UInt8) : Bytes :=
  [0x67, 0x42, compatibility, 0x1E, 0xF4, 0x05, 0x01, 0xE8, 0x80]

/-- What the library decodes of this SPS, with and without the constraint flags: 40 by 30
macroblocks, frames only. -/
def vgaDecoder : SpsDecoder := fun sps =>
  if sps = vgaSps 0 ∨ sps = vgaSps 0xC0 then .ok ⟨39, 29, true, none, .yuv420⟩
  else .error "not in the table"

/-- Two PPS of the stream, with the ids 0 and 1. -/
def firstPps : Bytes := [0x68, 0xCE, 0x38, 0x80]
def secondPps : Bytes := [0x68, 0x53, 0x8E, 0x20]

def plainRecord : Bytes :=
  [1, 0x42, 0, 0x1E, 0xFF, 0xE1, 0, 9] ++ vgaSps 0 ++ [1, 0, 4] ++ firstPps

def vgaConfig (compatibility : UInt8) : H264Config :=
  ⟨vgaSps compatibility, firstPps, 640, 480, 0x42, 0x1E, 90000⟩

theorem avcC_same_iff_plain : fromAvcc .release vgaDecoder plainRecord = .ok (vgaConfig 0) ∧
      parsedStsd .release [] [] 90000 (vgaConfig 0).liveTrack = some (vgaConfig 0).buildStsdData ∧
      ((readAvcC (vgaConfig 0).buildStsdData).bind describeAvc = describeAvc plainRecord ↔
        WriterDefaults plainRecord) := by
  have haccept : fromAvcc .release vgaDecoder plainRecord = .ok (vgaConfig 0) := by decide +kernel
  have h := avcC_same_iff .release vgaDecoder plainRecord (vgaConfig 0) haccept
  exact ⟨haccept, h.1 [] [] 90000 (by decide +kernel), h.2⟩

/-- Constrained Baseline, NAL lengths of two bytes, and two PPS. -/
def constrainedRecord : Bytes :=
  [1, 0x42, 0xC0, 0x1E, 0xFD, 0xE1, 0, 9] ++ vgaSps 0xC0 ++ [2, 0, 4] ++ firstPps
    ++ [0, 4] ++ secondPps

/-- The init segment loses the compatibility byte and the second PPS, and declares lengths of four
bytes for samples that have two. -/
theorem avcC_same_constrained_fails :
    fromAvcc .release vgaDecoder constrainedRecord = .ok (vgaConfig 0xC0) ∧
      describeAvc constrainedRecord = some
        ⟨0x42, 0xC0, 0x1E, 2, [vgaSps 0xC0], [firstPps, secondPps]⟩ ∧
      (readAvcC (vgaConfig 0xC0).buildStsdData).bind describeAvc = some
        ⟨0x42, 0, 0x1E, 4, [vgaSps 0xC0], [firstPps]⟩ := by
  refine ⟨by decide +kernel, by decide +kernel, by decide +kernel⟩

end Nozdormu.Ingest
