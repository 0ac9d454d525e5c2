import Nozdormu.Packaging.Types
import Nozdormu.Rust.BinarySearch
import Nozdormu.Data.RunLength

/-!
# Sample table lookups

The utility functions at the end of `mp4_parse.rs` and the per-sample lookups of
`fmp4_gen.rs`: where a sample's bytes lie (`getSampleOffset`), when it is decoded
(`sampleToDts`), which sample is decoded at a time (`dtsToSample`), the keyframe
at or before a sample (`nearestSyncSample`).
-/

namespace Nozdormu.Packaging

open Rust Bmff RunLength

variable {ε : Type}

/-! ## Sample location -/

/-- `next_first_chunk`: where the run after `entry` starts; the last is open. -/
def nextFirstChunk : List StscEntry → Nat
  | [] => 2 ^ 32 - 1
  | next :: _ => next.firstChunk.toNat

def sampleToChunkLoop (p : Profile) (sampleIndex : Nat) :
    List StscEntry → (currentSample : Nat) → Exec ε (Option (Nat × Nat))
  | [], _ => return none
  | entry :: rest, currentSample => do
    let chunksInRun := nextFirstChunk rest - entry.firstChunk.toNat
    let samplesInRun := saturatingMul 32 chunksInRun entry.samplesPerChunk.toNat
    if sampleIndex < (← p.add 32 currentSample samplesInRun) then
      let offsetInRun ← p.sub 32 sampleIndex currentSample
      let chunkInRun ← udiv offsetInRun entry.samplesPerChunk.toNat
      let sampleInChunk ← umod offsetInRun entry.samplesPerChunk.toNat
      let chunkIndex ← p.add 32 (← p.sub 32 entry.firstChunk.toNat 1) chunkInRun
      return some (chunkIndex, sampleInChunk)
    else
      sampleToChunkLoop p sampleIndex rest (← p.add 32 currentSample samplesInRun)

def sampleToChunk (p : Profile) (stsc : List StscEntry) (sampleIndex : Nat) :
    Exec ε (Option (Nat × Nat)) :=
  sampleToChunkLoop p sampleIndex stsc 0

/-- The loop of `first_sample_of_chunk`; its products do not saturate. -/
def firstSampleOfChunkLoop (p : Profile) (chunk1based : Nat) :
    List StscEntry → (currentSample : Nat) → Exec ε (Option Nat)
  | [], _ => return none
  | entry :: rest, currentSample => do
    if entry.firstChunk.toNat ≤ chunk1based ∧ chunk1based < nextFirstChunk rest then
      let chunksBefore ← p.sub 32 chunk1based entry.firstChunk.toNat
      let samplesBefore ← p.mul 32 chunksBefore entry.samplesPerChunk.toNat
      return some (← p.add 32 currentSample samplesBefore)
    else
      let chunksInRun := nextFirstChunk rest - entry.firstChunk.toNat
      let samplesInRun ← p.mul 32 chunksInRun entry.samplesPerChunk.toNat
      firstSampleOfChunkLoop p chunk1based rest (← p.add 32 currentSample samplesInRun)

def firstSampleOfChunk (p : Profile) (stsc : List StscEntry) (chunkIndex : Nat) :
    Exec ε (Option Nat) := do
  if stsc.isEmpty then return none
  else firstSampleOfChunkLoop p (← p.add 32 chunkIndex 1) stsc 0

/-- `for i in first..sample_index`: add up the sizes of the samples in between. -/
def intraOffset (p : Profile) (stsz : List UInt32) (first sampleIndex : Nat) : Exec ε Nat :=
  (List.range' first (sampleIndex - first)).foldlM (fun acc i =>
    match stsz[i]? with
    | some size => p.add 64 acc size.toNat
    | none => return acc) 0

def getSampleOffset (p : Profile) (table : SampleTable) (sampleIndex : Nat) :
    Exec ε (Option (Nat × Nat)) := do
  if table.stsz.length ≤ sampleIndex then return none
  else
    let size ← index table.stsz sampleIndex
    match ← sampleToChunk p table.stsc sampleIndex with
    | none => return none
    | some (chunkIndex, _) =>
      if table.stco.length ≤ chunkIndex then return none
      else
        let chunkOffset ← index table.stco chunkIndex
        match ← firstSampleOfChunk p table.stsc chunkIndex with
        | none => return none
        | some firstSampleInChunk =>
          let intra ← intraOffset p table.stsz firstSampleInChunk sampleIndex
          return some (← p.add 64 chunkOffset.toNat intra, size.toNat)

/-! ## Decode times -/

def sampleToDtsLoop (p : Profile) : List SttsEntry → (remaining dts : Nat) → Exec ε Nat
  | [], _, dts => return dts
  | entry :: rest, remaining, dts => do
    if remaining ≤ entry.sampleCount.toNat then
      p.add 64 dts (← p.mul 64 remaining entry.sampleDelta.toNat)
    else
      let dts ← p.add 64 dts (← p.mul 64 entry.sampleCount.toNat entry.sampleDelta.toNat)
      sampleToDtsLoop p rest (← p.sub 32 remaining entry.sampleCount.toNat) dts

def sampleToDts (p : Profile) (stts : List SttsEntry) (sampleIndex : Nat) : Exec ε Nat :=
  sampleToDtsLoop p stts sampleIndex 0

def dtsToSampleLoop (p : Profile) (targetDts : Nat) :
    List SttsEntry → (dts sample : Nat) → Exec ε Nat
  | [], _, sample => return sample
  | entry :: rest, dts, sample => do
    let runDuration ← p.mul 64 entry.sampleCount.toNat entry.sampleDelta.toNat
    if targetDts < (← p.add 64 dts runDuration) then
      if 0 < entry.sampleDelta.toNat then
        let elapsed ← p.sub 64 targetDts dts
        p.add 32 sample (elapsed / entry.sampleDelta.toNat % 2 ^ 32)
      else return sample
    else
      let dts ← p.add 64 dts runDuration
      let sample ← p.add 32 sample entry.sampleCount.toNat
      dtsToSampleLoop p targetDts rest dts sample

def dtsToSample (p : Profile) (stts : List SttsEntry) (targetDts : Nat) : Exec ε Nat :=
  dtsToSampleLoop p targetDts stts 0 0

def totalSamples (p : Profile) (stts : List SttsEntry) : Exec ε Nat :=
  stts.foldlM (fun acc e => p.add 32 acc e.sampleCount.toNat) 0

def syncSearch (stss : List UInt32) (target : Nat) : Except Nat Nat :=
  binarySearchBy (fun k => compare k.toNat target) stss

/-- The keyframe at or before a sample; the table is 1-based. -/
def nearestSyncSample (p : Profile) (stss : Option (List UInt32)) (sampleIndex : Nat) :
    Exec ε Nat := do
  match stss with
  | none => return sampleIndex
  | some syncSamples =>
    let target ← p.add 32 sampleIndex 1
    match syncSearch syncSamples target with
    | .ok _ => return sampleIndex
    | .error pos =>
      if 0 < pos then
        let prev ← index syncSamples (pos - 1)
        p.sub 32 prev.toNat 1
      else return 0

/-! ## Per-sample lookups of the fragment writer -/

def getSampleDurationLoop (p : Profile) (last : UInt32) :
    List SttsEntry → (remaining : Nat) → Exec ε UInt32
  | [], _ => return last
  | entry :: rest, remaining => do
    if remaining < entry.sampleCount.toNat then return entry.sampleDelta
    else getSampleDurationLoop p last rest (← p.sub 32 remaining entry.sampleCount.toNat)

def getSampleDuration (p : Profile) (stts : List SttsEntry) (sampleIndex : Nat) : Exec ε UInt32 :=
  let last := (stts.getLast?.map fun e => e.sampleDelta).getD 0
  getSampleDurationLoop p last stts sampleIndex

def getCtsOffsetLoop (p : Profile) : List CttsEntry → (remaining : Nat) → Exec ε Int32
  | [], _ => return 0
  | entry :: rest, remaining => do
    if remaining < entry.sampleCount.toNat then return entry.sampleOffset
    else getCtsOffsetLoop p rest (← p.sub 32 remaining entry.sampleCount.toNat)

def getCtsOffset (p : Profile) (ctts : Option (List CttsEntry)) (sampleIndex : Nat) :
    Exec ε Int32 :=
  match ctts with
  | none => return 0
  | some entries => getCtsOffsetLoop p entries sampleIndex

/-! ## The timing table as runs -/

def runs (stts : List SttsEntry) : Runs :=
  stts.map fun e => (e.sampleCount.toNat, e.sampleDelta.toNat)

abbrev sampleCount (stts : List SttsEntry) : Nat := total (runs stts)

/-- Decode time of a sample, in unbounded arithmetic. -/
abbrev dts (stts : List SttsEntry) (k : Nat) : Nat := prefixSum (runs stts) k

/-- The largest sample index decoded by time `t`, in unbounded arithmetic. -/
abbrev sampleAt (stts : List SttsEntry) (t : Nat) : Nat := locate (runs stts) t

@[simp] theorem runs_cons (e : SttsEntry) (es : List SttsEntry) :
    runs (e :: es) = (e.sampleCount.toNat, e.sampleDelta.toNat) :: runs es := rfl

variable {stts : List SttsEntry}

theorem dts_lt {k : Nat} (hk : k < 2 ^ 32) : dts stts k < 2 ^ 64 := by
  have hb : dts stts k ≤ k * (2 ^ 32 - 1) := by
    apply prefixSum_le_mul
    intro r hr
    obtain ⟨e, -, rfl⟩ := List.mem_map.mp hr
    have := e.sampleDelta.toNat_lt
    omega
  omega

variable (p : Profile)

theorem sampleToDtsLoop_eq : ∀ (stts : List SttsEntry) (k d : Nat),
    k < 2 ^ 32 → d + k * (2 ^ 32 - 1) < 2 ^ 64 →
    (sampleToDtsLoop p stts k d : Exec ε Nat) = .ok (d + dts stts k) := by
  intro stts
  induction stts with
  | nil => intro k d _ _; rfl
  | cons e es ih =>
    intro k d hk hd
    have hv : e.sampleDelta.toNat ≤ 2 ^ 32 - 1 := by
      have := e.sampleDelta.toNat_lt
      omega
    unfold sampleToDtsLoop
    simp only [dts, runs_cons, prefixSum]
    by_cases hkc : k ≤ e.sampleCount.toNat
    · have hm : k * e.sampleDelta.toNat ≤ k * (2 ^ 32 - 1) := Nat.mul_le_mul_left k hv
      rw [if_pos hkc, if_pos hkc, mul_ok p (by omega), ok_bind, add_ok p (by omega)]
    · rw [if_neg hkc, if_neg hkc]
      have hm : e.sampleCount.toNat * e.sampleDelta.toNat
          ≤ e.sampleCount.toNat * (2 ^ 32 - 1) := Nat.mul_le_mul_left _ hv
      rw [mul_ok p (by omega), ok_bind, add_ok p (by omega), ok_bind,
        sub_ok p 32 (by omega), ok_bind, ih _ _ (by omega) (by omega), Nat.add_assoc]

theorem sampleToDts_eq (stts : List SttsEntry) {k : Nat} (hk : k < 2 ^ 32) :
    (sampleToDts p stts k : Exec ε Nat) = .ok (dts stts k) := by
  rw [sampleToDts, sampleToDtsLoop_eq p stts k 0 hk (by omega), Nat.zero_add]

theorem totalSamples_eq_add (stts : List SttsEntry) :
    (totalSamples p stts : Exec ε Nat) = p.add 32 0 (sampleCount stts) := by
  rw [totalSamples, foldlM_add p stts (by decide), sampleCount, total, runs, List.map_map]
  rfl

theorem spec_totalSamples : Spec (totalSamples .dev stts : Exec ε Nat) (sampleCount stts < 2 ^ 32)
    fun n => n = sampleCount stts := by
  simpa only [totalSamples_eq_add, Nat.zero_add] using @spec_add ε 32 0 (sampleCount stts)

theorem dtsToSampleLoop_eq : ∀ (stts : List SttsEntry) (t d n : Nat),
    n + sampleCount stts < 2 ^ 32 → d ≤ n * (2 ^ 32 - 1) → d ≤ t →
    (dtsToSampleLoop p t stts d n : Exec ε Nat) = .ok (n + sampleAt stts (t - d)) := by
  intro stts
  induction stts with
  | nil => intro t d n _ _ _; rfl
  | cons e es ih =>
    intro t d n hn hd hdt
    simp only [sampleCount, runs_cons, total_cons] at hn
    have hv : e.sampleDelta.toNat ≤ 2 ^ 32 - 1 := by
      have := e.sampleDelta.toNat_lt
      omega
    have hm : e.sampleCount.toNat * e.sampleDelta.toNat
        ≤ e.sampleCount.toNat * (2 ^ 32 - 1) := Nat.mul_le_mul_left _ hv
    -- the time reached stays below `(n + count) * (2 ^ 32 - 1)`, hence in 64 bits
    unfold dtsToSampleLoop
    simp only [sampleAt, runs_cons, locate]
    rw [mul_ok p (by omega), ok_bind, add_ok p (by omega), ok_bind]
    by_cases ht : t < d + e.sampleCount.toNat * e.sampleDelta.toNat
    · have hv0 : 0 < e.sampleDelta.toNat := Nat.pos_of_ne_zero fun h => by
        rw [h, Nat.mul_zero] at ht
        omega
      have hdiv : (t - d) / e.sampleDelta.toNat < e.sampleCount.toNat := by
        apply Nat.div_lt_of_lt_mul
        rw [Nat.mul_comm]
        omega
      rw [if_pos ht, if_pos hv0, if_pos (by omega), sub_ok p 64 hdt, ok_bind,
        Nat.mod_eq_of_lt (by omega), add_ok p (by omega)]
    · rw [if_neg ht, if_neg (by omega), ok_bind, add_ok p (by omega), ok_bind,
        ih t _ _ (by simp only [sampleCount]; omega) (by omega) (by omega), Nat.add_assoc,
        Nat.sub_sub]

theorem dtsToSample_eq (h : sampleCount stts < 2 ^ 32)
    (t : Nat) : (dtsToSample p stts t : Exec ε Nat) = .ok (sampleAt stts t) := by
  rw [dtsToSample, dtsToSampleLoop_eq p stts t 0 0 (by omega) (by omega) (by omega),
    Nat.zero_add, Nat.sub_zero]

/-- `dts_to_sample` finds the last sample, up to the end of the track, whose decode time has come.
-/
theorem dtsToSample_isGreatest (h : sampleCount stts < 2 ^ 32) (t : UInt64) :
    ∃ n, (dtsToSample p stts t.toNat : Exec ε Nat) = .ok n ∧
      IsGreatest {s | s ≤ sampleCount stts ∧
        ∃ d, (sampleToDts p stts s : Exec ε Nat) = .ok d ∧ d ≤ t.toNat} n := by
  have hle : sampleAt stts t.toNat ≤ sampleCount stts := locate_le_total ..
  refine ⟨_, dtsToSample_eq p h _, ⟨hle, _, sampleToDts_eq p stts (by omega), ?_⟩, ?_⟩
  · exact (prefixSum_le_iff _ hle).2 le_rfl
  · rintro s ⟨hs, d, hd, hdt⟩
    rw [sampleToDts_eq p stts (by omega)] at hd
    cases hd
    exact (prefixSum_le_iff _ hs).1 hdt

/-- Samples of no duration, an empty run, and a time inside the last run. -/
theorem dtsToSample_isGreatest_empty_run :
    sampleCount [⟨2, 0⟩, ⟨0, 7⟩, ⟨3, 5⟩] < 2 ^ 32 ∧
      ∃ n, (dtsToSample .dev [⟨2, 0⟩, ⟨0, 7⟩, ⟨3, 5⟩] (9 : UInt64).toNat : Exec Empty Nat) = .ok n ∧
        IsGreatest {s | s ≤ sampleCount [⟨2, 0⟩, ⟨0, 7⟩, ⟨3, 5⟩] ∧
          ∃ d, (sampleToDts .dev [⟨2, 0⟩, ⟨0, 7⟩, ⟨3, 5⟩] s : Exec Empty Nat) = .ok d ∧
            d ≤ (9 : UInt64).toNat} n :=
  ⟨by decide, dtsToSample_isGreatest .dev (by decide) 9⟩

/-! ## Results stay in 32 bits -/

theorem dtsToSample_lt {p : Profile} {t n : Nat}
    (h : (dtsToSample p stts t : Exec ε Nat) = .ok n) : n < 2 ^ 32 := by
  have hloop : ∀ es d s, s < 2 ^ 32 →
      (dtsToSampleLoop p t es d s : Exec ε Nat) = .ok n → n < 2 ^ 32 := by
    intro es
    induction es with
    | nil =>
      intro d s hs hn
      obtain rfl : s = n := by simpa [dtsToSampleLoop] using hn
      exact hs
    | cons e es ih =>
      intro d s hs hn
      simp only [dtsToSampleLoop, bind_eq_ok] at hn
      obtain ⟨run, -, reach, -, hn⟩ := hn
      split at hn
      · split at hn
        · obtain ⟨elapsed, -, hn⟩ := bind_eq_ok.1 hn
          exact lt_of_add_eq_ok hn
        · obtain rfl : s = n := by simpa using hn
          exact hs
      · obtain ⟨d', -, hn⟩ := bind_eq_ok.1 hn
        obtain ⟨s', hs', hn⟩ := bind_eq_ok.1 hn
        exact ih d' s' (lt_of_add_eq_ok hs') hn
  exact hloop stts 0 0 (by decide) h

theorem nearestSyncSample_lt {p : Profile} {stss : Option (List UInt32)} {i n : Nat}
    (hi : i < 2 ^ 32) (h : (nearestSyncSample p stss i : Exec ε Nat) = .ok n) : n < 2 ^ 32 := by
  unfold nearestSyncSample at h
  split at h
  · obtain rfl : i = n := by simpa using h
    exact hi
  obtain ⟨target, -, h⟩ := bind_eq_ok.1 h
  split at h
  · obtain rfl : i = n := by simpa using h
    exact hi
  · split at h
    · obtain ⟨prev, -, h⟩ := bind_eq_ok.1 h
      exact lt_of_sub_eq_ok h prev.toNat_lt
    · obtain rfl : 0 = n := by simpa using h
      decide

/-! ## Per-sample lookups as runs -/

/-- Duration of a sample: that of its run, beyond the table that of the last run. -/
def durationOf (stts : List SttsEntry) (i : Nat) : UInt32 :=
  (valueAt (stts.map fun e => (e.sampleCount.toNat, e.sampleDelta)) i).getD
    ((stts.getLast?.map fun e => e.sampleDelta).getD 0)

/-- Composition offset of a sample: that of its run, 0 without one. -/
def ctsOffsetOf (ctts : Option (List CttsEntry)) (i : Nat) : Int32 :=
  (valueAt ((ctts.getD []).map fun e => (e.sampleCount.toNat, e.sampleOffset)) i).getD 0

theorem getSampleDuration_eq (stts : List SttsEntry) (i : Nat) :
    (getSampleDuration p stts i : Exec ε UInt32) = .ok (durationOf stts i) := by
  have hloop : ∀ es last k, (getSampleDurationLoop p last es k : Exec ε UInt32)
        = .ok ((valueAt (es.map fun e => (e.sampleCount.toNat, e.sampleDelta)) k).getD last) := by
    intro es last
    induction es with
    | nil => intro k; rfl
    | cons e es ih =>
      intro k
      rw [getSampleDurationLoop, List.map_cons, valueAt]
      by_cases hk : k < e.sampleCount.toNat
      · rw [if_pos hk, if_pos hk]
        rfl
      · rw [if_neg hk, if_neg hk, sub_ok p 32 (by omega), ok_bind, ih]
  exact hloop stts _ i

theorem getCtsOffset_eq (ctts : Option (List CttsEntry)) (i : Nat) :
    (getCtsOffset p ctts i : Exec ε Int32) = .ok (ctsOffsetOf ctts i) := by
  have hloop : ∀ es k, (getCtsOffsetLoop p es k : Exec ε Int32)
        = .ok ((valueAt (es.map fun e => (e.sampleCount.toNat, e.sampleOffset)) k).getD 0) := by
    intro es
    induction es with
    | nil => intro k; rfl
    | cons e es ih =>
      intro k
      rw [getCtsOffsetLoop, List.map_cons, valueAt]
      by_cases hk : k < e.sampleCount.toNat
      · rw [if_pos hk, if_pos hk]
        rfl
      · rw [if_neg hk, if_neg hk, sub_ok p 32 (by omega), ok_bind, ih]
  cases ctts with
  | none => rfl
  | some es => exact hloop es i

end Nozdormu.Packaging
