import Nozdormu.Packaging.Coverage
import Nozdormu.Packaging.Playback
import Mathlib.Logic.Function.Iterate

/-!
# When a sample can be cut out of the file

The conditions under which the sample lookups of a fragment return, for tables as they come
from the file: no entry of the chunk runs is assumed to make sense. `LocationSafe` is the
condition for one sample (`returnsIff_sampleData`). `PartsSafe` is the one for splitting a
segment into parts, over the closed form `partStart` of the part loop.
-/

namespace Nozdormu.Packaging

open Rust Bmff RunLength

variable {ε : Type}

def codedRun (e : StscEntry) (rest : List StscEntry) : Nat :=
  saturatingMul 32 (nextFirstChunk rest - e.firstChunk.toNat) e.samplesPerChunk.toNat

/-- The search for the chunk of `s` adds up runs in 32 bits, and the run it ends in does not
start at chunk 0. -/
def ChunkSearchSafe (s : Nat) : List StscEntry → Nat → Prop
  | [], _ => True
  | e :: rest, base =>
    base + codedRun e rest < 2 ^ 32 ∧
      if s < base + codedRun e rest then 1 ≤ e.firstChunk.toNat
      else ChunkSearchSafe s rest (base + codedRun e rest)

/-- The search for the first sample of chunk `c` adds up whole runs in 32 bits. -/
def FirstSampleSafe (c : Nat) : List StscEntry → Nat → Prop
  | [], _ => True
  | e :: rest, base =>
    if e.firstChunk.toNat ≤ c ∧ c < nextFirstChunk rest then
      base + (c - e.firstChunk.toNat) * e.samplesPerChunk.toNat < 2 ^ 32
    else
      base + (nextFirstChunk rest - e.firstChunk.toNat) * e.samplesPerChunk.toNat < 2 ^ 32 ∧
        FirstSampleSafe c rest
          (base + (nextFirstChunk rest - e.firstChunk.toNat) * e.samplesPerChunk.toNat)

theorem nextFirstChunk_lt (rest : List StscEntry) : nextFirstChunk rest < 2 ^ 32 := by
  cases rest with
  | nil => decide
  | cons e _ => exact e.firstChunk.toNat_lt

variable {s : Nat}

variable {e : StscEntry} {rest : List StscEntry} {base : Nat}

theorem samplesPerChunk_pos (hbase : base ≤ s) (hs : s < base + codedRun e rest) :
    0 < e.samplesPerChunk.toNat := by
  apply Nat.pos_of_ne_zero
  intro h0
  rw [codedRun, saturatingMul, h0, Nat.mul_zero, Nat.zero_min] at hs
  omega

variable (p : Profile)

theorem returnsIff_sampleToChunkLoop : ∀ {l : List StscEntry} {base : Nat}, base ≤ s →
    ReturnsIff (sampleToChunkLoop .dev s l base : Exec ε _) (ChunkSearchSafe s l base) := by
  intro l
  induction l with
  | nil => intro base _; exact .of_eq_ok rfl trivial
  | cons e rest ih =>
    intro base hbase
    rw [sampleToChunkLoop, ChunkSearchSafe, codedRun]
    refine spec_add.bind_returnsIff fun hfit => ?_
    by_cases hs : s < base + saturatingMul 32 (nextFirstChunk rest - e.firstChunk.toNat)
      e.samplesPerChunk.toNat
    · have hpos := samplesPerChunk_pos hbase hs
      have hhit := fun hfirst =>
        (@sampleToChunkLoop_hit ε s .dev e rest base hbase hpos hfirst _ rfl hfit hs).1
      rw [sampleToChunkLoop, add_ok .dev hfit, ok_bind, if_pos hs] at hhit
      rw [if_pos hs, if_pos hs]
      refine ⟨fun h => ?_, fun hfirst => ⟨_, hhit hfirst⟩⟩
      -- chunk numbers start at 1: `first_chunk - 1` underflows
      rw [sub_ok .dev 32 hbase, ok_bind, udiv_ok (by omega), ok_bind,
        umod_ok (by omega), ok_bind] at h
      exact noFault_dev_sub.1 (noFault_bind.1 h).1
    · rw [if_neg hs, if_neg hs, add_ok .dev hfit, ok_bind]
      exact ih (by omega)

theorem sampleToChunkLoop_lt : ∀ {l : List StscEntry} {base c r : Nat}, base ≤ s →
    (sampleToChunkLoop .dev s l base : Exec ε _) = .ok (some (c, r)) → c + 1 < 2 ^ 32 := by
  intro l
  induction l with
  | nil => intro base c r _ h; cases h
  | cons e rest ih =>
    intro base c r hbase h
    have hsafe : ChunkSearchSafe s (e :: rest) base :=
      (returnsIff_sampleToChunkLoop hbase).of_noFault (Returns.noFault ⟨_, h⟩)
    obtain ⟨hfit, hrest⟩ := hsafe
    by_cases hs : s < base + codedRun e rest
    · rw [if_pos hs] at hrest
      have hpos := samplesPerChunk_pos hbase hs
      obtain ⟨heq, hlt⟩ := @sampleToChunkLoop_hit ε s .dev e rest base hbase hpos
        hrest _ rfl hfit hs
      rw [heq] at h
      have hc := (Prod.mk.inj (Option.some.inj (Except.ok.inj h))).1
      have hnext := nextFirstChunk_lt rest
      generalize (s - base) / e.samplesPerChunk.toNat = q at hc hlt
      omega
    · rw [codedRun] at hfit hs
      rw [sampleToChunkLoop, add_ok .dev hfit, ok_bind, if_neg hs, ok_bind] at h
      exact ih (by omega) h

theorem returnsIff_firstSampleOfChunkLoop {c : Nat} : ∀ {l : List StscEntry} {base : Nat},
    ReturnsIff (firstSampleOfChunkLoop .dev c l base : Exec ε _) (FirstSampleSafe c l base) := by
  intro l
  induction l with
  | nil => intro base; exact .of_eq_ok rfl trivial
  | cons e rest ih =>
    intro base
    rw [firstSampleOfChunkLoop, FirstSampleSafe]
    by_cases hin : e.firstChunk.toNat ≤ c ∧ c < nextFirstChunk rest
    · rw [if_pos hin, if_pos hin, sub_ok .dev 32 hin.1, ok_bind, ← bind_assoc]
      exact spec_mul_add.map some
    · rw [if_neg hin, if_neg hin, ← bind_assoc]
      exact spec_mul_add.bind_returnsIff fun _ => ih

theorem returnsIff_firstSampleOfChunk {stsc : List StscEntry} {c : Nat} (hc : c + 1 < 2 ^ 32) :
    ReturnsIff (firstSampleOfChunk .dev stsc c : Exec ε _) (FirstSampleSafe (c + 1) stsc 0) := by
  cases stsc with
  | nil => exact .of_eq_ok rfl trivial
  | cons e rest =>
    rw [firstSampleOfChunk, if_neg (by simp), add_ok .dev hc, ok_bind]
    exact returnsIff_firstSampleOfChunkLoop

/-- A sample with an entry in the size table is located without a fault, and its bytes end
below `2 ^ 64`. -/
def LocationSafe (table : SampleTable) (s : Nat) : Prop :=
  ∀ size, table.stsz[s]? = some size →
    ChunkSearchSafe s table.stsc 0 ∧
    ∀ c r, (sampleToChunk .dev table.stsc s : Exec PackagingError _) = .ok (some (c, r)) →
    ∀ offset, table.stco[c]? = some offset →
      FirstSampleSafe (c + 1) table.stsc 0 ∧
      ∀ first, (firstSampleOfChunk .dev table.stsc c : Exec PackagingError _) = .ok (some first) →
        offset.toNat + bytesBetween table.stsz first s + size.toNat < 2 ^ 64

def cutSample (p : Profile) (mp4Data : Bytes) : Option (Nat × Nat) → Exec ε (Option Bytes)
  | none => return none
  | some (offset, sz) => do
    let stop ← p.add 64 offset sz
    if stop ≤ mp4Data.length then return some (← slice mp4Data offset stop)
    else return none

variable {mp4Data : Bytes}

theorem returnsIff_cutSample {offset sz : Nat} :
    ReturnsIff (cutSample .dev mp4Data (some (offset, sz)) : Exec ε _) (offset + sz < 2 ^ 64) := by
  refine (returnsIff_add.bind_const fun stop hstop => ?_).congr (and_iff_left trivial)
  obtain ⟨-, rfl⟩ := dev_add_eq_ok.1 hstop
  by_cases hin : offset + sz ≤ mp4Data.length
  · rw [if_pos hin, slice_ok (by omega) hin]
    exact .of_eq_ok rfl trivial
  · rw [if_neg hin]
    exact .of_eq_ok rfl trivial

theorem returnsIff_sampleData {table : SampleTable} (hs : s < 2 ^ 32) :
    ReturnsIff (sampleData .dev mp4Data table s : Exec PackagingError _)
    (LocationSafe table s) := by
  show ReturnsIff (getSampleOffset .dev table s >>= cutSample .dev mp4Data) _
  unfold LocationSafe
  rcases hsize : table.stsz[s]? with _ | size
  · have hlen : table.stsz.length ≤ s := List.getElem?_eq_none_iff.1 hsize
    simp only [getSampleOffset]
    rw [if_pos hlen]
    exact .of_eq_ok rfl (by simp)
  obtain ⟨hlen, hget⟩ := List.getElem?_eq_some_iff.1 hsize
  simp only [getSampleOffset, Option.some.injEq, forall_eq']
  rw [if_neg (by omega), index_ok hlen, ok_bind, hget, bind_assoc, sampleToChunk]
  refine (returnsIff_sampleToChunkLoop (Nat.zero_le s)).bind (R := fun found =>
    ∀ c r, found = some (c, r) → ∀ offset, table.stco[c]? = some offset →
      FirstSampleSafe (c + 1) table.stsc 0 ∧
      ∀ first, (firstSampleOfChunk .dev table.stsc c : Exec PackagingError _) = .ok (some first) →
        offset.toNat + bytesBetween table.stsz first s + size.toNat < 2 ^ 64) ?_ |>.congr ?_
  · intro found hfound
    rcases found with _ | ⟨c, r⟩
    · exact .of_eq_ok rfl (by simp)
    have hc := sampleToChunkLoop_lt (Nat.zero_le s) hfound
    refine ReturnsIff.congr ?_ ⟨fun h c' r' heq => ?_, fun h => h c r rfl⟩
    rotate_left
    · cases heq
      exact h
    rcases hoffset : table.stco[c]? with _ | offset
    · have hle : table.stco.length ≤ c := List.getElem?_eq_none_iff.1 hoffset
      simp only
      rw [if_pos hle]
      exact .of_eq_ok rfl (by simp)
    obtain ⟨hin, hoff⟩ := List.getElem?_eq_some_iff.1 hoffset
    simp only [Option.some.injEq, forall_eq']
    rw [if_neg (by omega), index_ok hin, ok_bind, hoff, bind_assoc]
    refine (returnsIff_firstSampleOfChunk hc).bind (R := fun found => ∀ first, found = some first →
        offset.toNat + bytesBetween table.stsz first s + size.toNat < 2 ^ 64) ?_ |>.congr ?_
    · intro found _
      rcases found with _ | first
      · exact .of_eq_ok rfl (by simp)
      · simp only [Option.some.injEq, forall_eq']
        rw [intraOffset_eq .dev (Nat.le_of_lt hlen) hs, ok_bind, bind_assoc]
        -- the address is added up and the sample cut out: one sum in the end
        refine ReturnsIff.congr (spec_add.bind_returnsIff fun _ => returnsIff_cutSample) ?_
        exact and_iff_right_of_imp fun h => by omega
    · refine and_congr_right fun _ => ?_
      exact ⟨fun h first hf => h _ hf first rfl, fun h _ hf first heq => h first (heq ▸ hf)⟩
  · refine and_congr_right fun _ => ?_
    exact ⟨fun h c r hf => h _ hf c r rfl, fun h _ hf c r heq => h c r (heq ▸ hf)⟩

/-! ## The run of a range -/

def RunSafe (table : SampleTable) (range : Nat × Nat) : Prop :=
  ∀ s, range.1 ≤ s → s < range.2 → LocationSafe table s

section Run

variable {mp4Data : Bytes} {track : TrackInfo} {range : Nat × Nat}

theorem returnsIff_rangeSample {table : SampleTable} (hs : s + 1 < 2 ^ 32) :
    ReturnsIff (rangeSample .dev mp4Data table s : Exec PackagingError _)
    (LocationSafe table s) := by
  simp only [rangeSample, getSampleDuration_eq, getCtsOffset_eq, isSyncSample_eq .dev _ hs, ok_bind]
  refine ((returnsIff_sampleData (by omega)).bind_const fun d _ => ?_).congr (and_iff_left trivial)
  cases d with
  | none | some => exact .of_eq_ok rfl trivial

theorem returnsIff_rangeRun (hr : range.2 < 2 ^ 32) :
    ReturnsIff (rangeRun .dev mp4Data track range : Exec PackagingError _)
      (RunSafe track.sampleTable range) := by
  unfold rangeRun
  by_cases hempty : range.2 - range.1 = 0
  · rw [if_pos hempty]
    refine .of_eq_ok rfl ?_
    intro s h1 h2
    omega
  rw [if_neg hempty, sampleToDts_eq .dev _ (by omega), ok_bind]
  have hsamples : ReturnsIff ((List.range' range.1 (range.2 - range.1)).mapM
      (rangeSample .dev mp4Data track.sampleTable) : Exec PackagingError _)
      (∀ s ∈ List.range' range.1 (range.2 - range.1), LocationSafe track.sampleTable s) := by
    refine .mapM fun s hs => returnsIff_rangeSample ?_
    rw [List.mem_range'_1] at hs
    omega
  refine (hsamples.map _).congr ?_
  simp only [List.mem_range'_1, RunSafe]
  constructor
  · intro h s h1 h2
    exact h s ⟨h1, by omega⟩
  · intro h s hs
    exact h s hs.1 (by omega)

def rangeTrafSize (range : Nat × Nat) : Nat :=
  if range.2 - range.1 = 0 then 24 else 64 + 16 * (range.2 - range.1)

def rangeDataSize (mp4Data : Bytes) (table : SampleTable) (range : Nat × Nat) : Nat :=
  ((List.range' range.1 (range.2 - range.1)).map fun s =>
    (foundBytes .dev mp4Data table s).length).sum

theorem rangeRun_sizes (hr : range.2 < 2 ^ 32) {x : FragmentTrack}
    (h : (rangeRun .dev mp4Data track range : Exec PackagingError _) = .ok x) :
    x.trafSize = rangeTrafSize range ∧
      x.data.length = rangeDataSize mp4Data track.sampleTable range := by
  unfold rangeRun at h
  unfold rangeTrafSize rangeDataSize
  by_cases hempty : range.2 - range.1 = 0
  · rw [if_pos hempty] at h
    cases h
    rw [if_pos hempty, hempty]
    exact ⟨rfl, rfl⟩
  rw [if_neg hempty, sampleToDts_eq .dev _ (by omega), ok_bind] at h
  obtain ⟨samples, hsamples, h⟩ := bind_eq_ok.1 h
  cases h
  rw [if_neg hempty]
  have hof := forall₂_sampleOf hr hsamples
  refine ⟨?_, ?_⟩
  · show 64 + 16 * samples.length = _
    rw [← hof.length_eq, List.length_range']
  show (samples.flatMap (·.2)).length = _
  rw [List.length_flatMap]
  have hmap : samples.map (fun x => x.2.length)
      = (List.range' range.1 (range.2 - range.1)).map fun s =>
          (foundBytes .dev mp4Data track.sampleTable s).length := by
    refine (map_eq_map_iff_of_forall₂ ?_ hof).2 fun _ _ => trivial
    intro s x hx
    exact iff_of_true (by rw [hx.data]) trivial
  rw [hmap]

end Run

variable (track : TrackInfo)

/-- Where the part that starts at `c` ends, in a segment that ends at `segEnd`. -/
def partNext (partDuration : Float) (segEnd c : Nat) : Nat :=
  min segEnd (max (c + 1) (sampleAt track.sampleTable.stts
    (dts track.sampleTable.stts c + partTicks partDuration track.timescale)))

/-- The target time of the part that starts at `c` fits 64 bits. -/
def PartTargetFits (partDuration : Float) (c : Nat) : Prop :=
  dts track.sampleTable.stts c + partTicks partDuration track.timescale < 2 ^ 64

section Parts

variable {track : TrackInfo} {dur : Float} {segEnd c : Nat}

theorem le_partNext (hc : c ≤ segEnd) : c ≤ partNext track dur segEnd c := by
  unfold partNext
  omega

theorem lt_partNext (hc : c < segEnd) : c < partNext track dur segEnd c := by
  unfold partNext
  omega

theorem partNext_le : partNext track dur segEnd c ≤ segEnd := Nat.min_le_left _ _

theorem partNext_end : partNext track dur segEnd segEnd = segEnd := by
  unfold partNext
  omega

section

variable (hn : track.samples < 2 ^ 32) (hend : segEnd < 2 ^ 32) (hc : c < segEnd)
include hn hend hc

theorem partEnd_eq (hfit : PartTargetFits track dur c) :
    (partEnd p track dur segEnd c : Exec ε _) = .ok (partNext track dur segEnd c) := by
  rw [partEnd, sampleToDts_eq p _ (by omega), ok_bind, add_ok p hfit, ok_bind, dtsToSample_eq p hn,
    ok_bind, partNext]
  generalize sampleAt track.sampleTable.stts
    (dts track.sampleTable.stts c + partTicks dur track.timescale) = e
  have hmin : ∀ x : Nat, (if segEnd < x then segEnd else x) = min segEnd x := by
    intro x
    split <;> omega
  by_cases hle : e ≤ c
  · rw [if_pos hle, add_ok p (by omega), ok_bind, Nat.max_eq_left (by omega), ← hmin]
    rfl
  · rw [if_neg hle, pure_eq_ok, ok_bind, Nat.max_eq_right (by omega), ← hmin]
    rfl

theorem partEnd_spec : Spec (partEnd .dev track dur segEnd c : Exec ε _)
    (PartTargetFits track dur c)
      fun e => e = partNext track dur segEnd c := by
  refine .of_eq (partEnd_eq .dev hn hend hc) fun h => ?_
  rw [partEnd, sampleToDts_eq .dev _ (by omega), ok_bind] at h
  exact noFault_dev_add.1 (noFault_bind.1 h).1

theorem segmentPartsLoop_succ
    (hfit : PartTargetFits track dur c) {fuel idx : Nat} (hidx : idx + 1 < 2 ^ 32) :
    ∃ part, (segmentPartsLoop .dev track dur segEnd (fuel + 1) c idx : Exec ε _)
      = segmentPartsLoop .dev track dur segEnd fuel (partNext track dur segEnd c) (idx + 1)
        >>= fun rest => pure (part :: rest) := by
  have hlt : partNext track dur segEnd c < 2 ^ 32 := Nat.lt_of_le_of_lt partNext_le hend
  have hmono : dts track.sampleTable.stts c ≤ dts track.sampleTable.stts
      (partNext track dur segEnd c) :=
    prefixSum_mono _ (le_partNext (Nat.le_of_lt hc))
  obtain ⟨secs, hsecs⟩ := (@returnsIff_tickSeconds ε track.timescale dur _ _).returns fun _ => hmono
  refine ⟨⟨idx, secs, listedSync track.sampleTable.stss c⟩, ?_⟩
  rw [segmentPartsLoop, if_neg (by omega), partEnd_eq .dev hn hend hc hfit, ok_bind,
    sampleToDts_eq .dev _ (by omega), ok_bind, sampleToDts_eq .dev _ hlt, ok_bind, hsecs, ok_bind,
    isSyncSample_eq .dev _ (by omega), ok_bind, add_ok .dev hidx, ok_bind]

end

theorem iterate_partNext_end (n : Nat) : (partNext track dur segEnd)^[n] segEnd = segEnd :=
  Function.iterate_fixed partNext_end n

/-- The part loop returns if no part it comes to has a target out of range. -/
theorem segmentPartsLoop_spec (hn : track.samples < 2 ^ 32) (hend : segEnd < 2 ^ 32) :
    ∀ {fuel c idx : Nat}, c ≤ segEnd → segEnd - c < fuel → idx + (segEnd - c) < 2 ^ 32 →
      Spec (segmentPartsLoop .dev track dur segEnd fuel c idx : Exec ε _)
        (∀ n, (partNext track dur segEnd)^[n] c < segEnd →
          PartTargetFits track dur ((partNext track dur segEnd)^[n] c))
        fun parts => parts.length ≤ segEnd - c ∧
          ∀ j, j < parts.length ↔ (partNext track dur segEnd)^[j] c < segEnd := by
  intro fuel
  induction fuel with
  | zero => intro c idx _ h; exact absurd h (Nat.not_lt_zero _)
  | succ fuel ih =>
    intro c idx hc hfuel hidx
    rcases Nat.eq_or_lt_of_le hc with heq | hlt
    · -- at the end every further start is the end itself
      subst heq
      have hrun : (segmentPartsLoop .dev track dur c (fuel + 1) c idx : Exec ε _) = .ok [] := by
        rw [segmentPartsLoop, if_pos (Nat.le_refl c)]
        rfl
      refine .of_ok hrun ?_ ⟨Nat.zero_le _, ?_⟩
      · intro n h
        rw [iterate_partNext_end] at h
        exact absurd h (Nat.lt_irrefl c)
      · intro j
        rw [iterate_partNext_end]
        exact iff_of_false (Nat.not_lt_zero j) (Nat.lt_irrefl c)
    · have hstep : c < partNext track dur segEnd c := lt_partNext hlt
      have hle : partNext track dur segEnd c ≤ segEnd := partNext_le
      have hrest := @ih (partNext track dur segEnd c) (idx + 1) hle (by omega) (by omega)
      by_cases hfit : PartTargetFits track dur c
      · obtain ⟨part, hpart⟩ := @segmentPartsLoop_succ ε _ dur _ _ hn hend hlt hfit
          fuel idx (by omega)
        rw [hpart]
        refine ⟨(hrest.map _).congr ⟨fun h n => ?_, fun h n => h (n + 1)⟩, ?_⟩
        · -- the starts behind the first are those of the rest of the segment
          cases n with
          | zero => exact fun _ => hfit
          | succ n => exact h n
        intro parts hparts
        obtain ⟨rest, hok, hparts⟩ := bind_eq_ok.1 hparts
        cases hparts
        obtain ⟨hshort, hiff⟩ := hrest.value rest hok
        rw [List.length_cons]
        refine ⟨by omega, ?_⟩
        intro j
        cases j with
        | zero => exact iff_of_true (Nat.succ_pos _) hlt
        | succ j => exact Nat.succ_lt_succ_iff.trans (hiff j)
      · -- the first target is out of range, and the loop comes to it
        refine .of_fault ?_ fun h => hfit (h 0 hlt)
        intro h
        rw [segmentPartsLoop, if_neg (Nat.not_le.2 hlt)] at h
        exact hfit ((partEnd_spec hn hend hlt).of_noFault (noFault_bind.1 h).1)

theorem partSampleRangeLoop_end (j : Nat) :
    (partSampleRangeLoop p track dur segEnd j segEnd : Exec ε _) = .ok (segEnd, segEnd) := by
  cases j with
  | zero | succ => rw [partSampleRangeLoop, if_pos (Nat.le_refl segEnd)]; rfl

theorem partSampleRangeLoop_end_spec (j : Nat) :
    Spec (partSampleRangeLoop .dev track dur segEnd j segEnd : Exec ε _)
      (∀ n ≤ j, (partNext track dur segEnd)^[n] segEnd < segEnd →
        PartTargetFits track dur ((partNext track dur segEnd)^[n] segEnd))
      fun r => r = ((partNext track dur segEnd)^[j] segEnd,
        (partNext track dur segEnd)^[j + 1] segEnd) := by
  refine .of_ok (partSampleRangeLoop_end .dev j) ?_ ?_
  · intro n _ h
    rw [iterate_partNext_end] at h
    exact absurd h (Nat.lt_irrefl segEnd)
  · rw [iterate_partNext_end, iterate_partNext_end]

theorem partSampleRangeLoop_spec (hn : track.samples < 2 ^ 32) (hend : segEnd < 2 ^ 32) :
    ∀ {j c : Nat}, c ≤ segEnd →
      Spec (partSampleRangeLoop .dev track dur segEnd j c : Exec ε _)
        (∀ n ≤ j, (partNext track dur segEnd)^[n] c < segEnd →
          PartTargetFits track dur ((partNext track dur segEnd)^[n] c))
        fun r => r = ((partNext track dur segEnd)^[j] c, (partNext track dur segEnd)^[j + 1] c) :=
          by
  intro j
  induction j with
  | zero =>
    intro c hc
    rcases Nat.eq_or_lt_of_le hc with heq | hlt
    · subst heq
      exact partSampleRangeLoop_end_spec 0
    rw [partSampleRangeLoop, if_neg (Nat.not_le.2 hlt)]
    have hpart := @partEnd_spec ε track dur segEnd c hn hend hlt
    have hpair : ∀ e : Nat, Spec (pure (c, e) : Exec ε _) True fun r => r = (c, e) :=
      fun _ => .of_ok rfl trivial rfl
    refine (hpart.bind_eq fun _ => hpair _).congr ?_
    rw [and_true]
    constructor
    · intro hfit n hn0 _
      obtain rfl := Nat.le_zero.1 hn0
      exact hfit
    · intro h
      exact h 0 (Nat.le_refl 0) hlt
  | succ j ih =>
    intro c hc
    rcases Nat.eq_or_lt_of_le hc with heq | hlt
    · subst heq
      exact partSampleRangeLoop_end_spec (j + 1)
    rw [partSampleRangeLoop, if_neg (Nat.not_le.2 hlt)]
    refine ((partEnd_spec hn hend hlt).bind_eq fun _ => ih partNext_le).congr ?_
    constructor
    · intro hsafe n hnj
      obtain ⟨hfit, h⟩ := hsafe
      cases n with
      | zero => exact fun _ => hfit
      | succ n => exact h n (Nat.le_of_succ_le_succ hnj)
    · intro h
      exact ⟨h 0 (Nat.zero_le _) hlt, fun n hnj => h (n + 1) (Nat.succ_le_succ hnj)⟩

end Parts

/-! ### The parts of a segment -/

def segmentEnd (dur : Float) (i : Nat) : Nat :=
  max (startAt track dur i) (cutAt track dur i)

variable (dur partDuration : Float)

/-- First sample of part `j` of segment `i`; the segment's end if it has no such part. -/
def partStart (i j : Nat) : Nat :=
  (partNext track partDuration (segmentEnd track dur i))^[j] (startAt track dur i)

/-- The targets of the parts up to `j` that segment `i` has fit 64 bits. -/
def PartSafe (i j : Nat) : Prop :=
  RangeSafe track (boundaryTicks i dur track.timescale) ∧
    ∀ n ≤ j, partStart track dur partDuration i n < segmentEnd track dur i →
      PartTargetFits track partDuration (partStart track dur partDuration i n)

def PartsSafe (i : Nat) : Prop :=
  RangeSafe track (boundaryTicks i dur track.timescale) ∧
    ∀ n, partStart track dur partDuration i n < segmentEnd track dur i →
      PartTargetFits track partDuration (partStart track dur partDuration i n)

section SegmentParts

variable {track : TrackInfo} {dur pdur : Float} {i j : Nat}

theorem segmentEnd_lt (hn : track.samples < 2 ^ 32) : segmentEnd track dur i < 2 ^ 32 :=
  Nat.max_lt.2 ⟨startAt_lt hn, cutAt_lt hn⟩

theorem partStart_of_le (h : segmentEnd track dur i ≤ startAt track dur i) :
    partStart track dur pdur i j = segmentEnd track dur i := by
  have heq : startAt track dur i = segmentEnd track dur i :=
    Nat.le_antisymm (Nat.le_max_left _ _) h
  rw [partStart, heq]
  exact Function.iterate_fixed partNext_end j

theorem partSampleRange_spec (hi : i + 1 < 2 ^ 32) :
    Spec (partSampleRange .dev track i j dur pdur : Exec ε _) (PartSafe track dur pdur i j)
      fun r => r = (partStart track dur pdur i j, partStart track dur pdur i (j + 1)) := by
  refine (segmentSampleRange_spec hi).bind_eq fun hsafe => ?_
  rw [← segmentEnd]
  simp only
  by_cases hempty : segmentEnd track dur i ≤ startAt track dur i
  · -- the range is returned as it is
    have hstart := fun j => @partStart_of_le track dur pdur i j hempty
    have heq : startAt track dur i = segmentEnd track dur i :=
      Nat.le_antisymm (Nat.le_max_left _ _) hempty
    rw [if_pos hempty]
    refine .of_ok rfl ?_ ?_
    · intro n _ h
      rw [hstart] at h
      exact absurd h (Nat.lt_irrefl _)
    · rw [hstart, hstart, heq]
  · rw [if_neg hempty]
    exact partSampleRangeLoop_spec hsafe.1 (segmentEnd_lt hsafe.1) (by omega)

theorem computeSegmentParts_spec {metadata : Mp4Metadata}
    (href : referenceTrack metadata = some track) (hi : i + 1 < 2 ^ 32) :
    Spec (computeSegmentParts .dev metadata dur pdur i : Exec ε _) (PartsSafe track dur pdur i)
      fun parts => parts.length < 2 ^ 32 ∧
        ∀ j, j < parts.length ↔ partStart track dur pdur i j < segmentEnd track dur i := by
  rw [computeSegmentParts, href]
  refine (segmentSampleRange_spec hi).bind_eq fun hsafe => ?_
  have hend : segmentEnd track dur i < 2 ^ 32 := segmentEnd_lt hsafe.1
  rw [← segmentEnd]
  simp only
  by_cases hempty : segmentEnd track dur i ≤ startAt track dur i
  · have hstart := fun j => @partStart_of_le track dur pdur i j hempty
    rw [if_pos hempty]
    refine .of_ok rfl ?_ ⟨Nat.two_pow_pos 32, ?_⟩
    · intro n h
      rw [hstart] at h
      exact absurd h (Nat.lt_irrefl _)
    · intro j
      rw [hstart]
      exact iff_of_false (Nat.not_lt_zero j) (Nat.lt_irrefl _)
  · rw [if_neg hempty]
    have hparts := @segmentPartsLoop_spec ε track pdur (segmentEnd track dur i) hsafe.1 hend
      (segmentEnd track dur i - startAt track dur i + 1) (startAt track dur i) 0 (by omega)
      (by omega) (by omega)
    refine ⟨hparts.toReturnsIff, fun parts hok => ?_⟩
    obtain ⟨hshort, hiff⟩ := hparts.value parts hok
    exact ⟨by omega, hiff⟩

end SegmentParts

end Nozdormu.Packaging
