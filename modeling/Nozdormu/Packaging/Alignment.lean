import Nozdormu.Packaging.Builds

/-!
# Keyframe alignment
-/

namespace Nozdormu.Packaging

open Rust RunLength

variable {ε : Type}

section Sync

variable {stss : List UInt32} {s n : Nat}

/-- The search finds the sample in the table. -/
def IsSync (stss : List UInt32) (s : Nat) : Prop := ∃ pos, syncSearch stss (s + 1) = .ok pos

/-- The sync sample before `s`, `s` itself if it is one, 0 without one. -/
def syncFloor (stss : List UInt32) (s : Nat) : Nat :=
  match syncSearch stss (s + 1) with
  | .ok _ => s
  | .error pos => if 0 < pos then (stss[pos - 1]?.getD 0).toNat - 1 else 0

/-- The sync sample behind `s`, `s` itself if it is one, `n` without one. -/
def syncCeil (stss : List UInt32) (n s : Nat) : Nat :=
  match syncSearch stss (s + 1) with
  | .ok _ => s
  | .error pos =>
    match stss[pos]? with
    | some k => k.toNat - 1
    | none => n

/-- Taking the floor does not fault: the sample number fits, and the entry in front of the
insertion point is a sample number. -/
def FloorSafe (stss : List UInt32) (s : Nat) : Prop :=
  s + 1 < 2 ^ 32 ∧
    ∀ pos, syncSearch stss (s + 1) = .error pos → 0 < pos → stss[pos - 1]? ≠ some 0

theorem syncFloor_of_isSync (h : IsSync stss s) : syncFloor stss s = s := by
  obtain ⟨pos, hpos⟩ := h
  rw [syncFloor, hpos]

theorem syncCeil_of_isSync (h : IsSync stss s) : syncCeil stss n s = s := by
  obtain ⟨pos, hpos⟩ := h
  rw [syncCeil, hpos]

theorem search_of_not_isSync (h : ¬ IsSync stss s) :
    ∃ pos, syncSearch stss (s + 1) = .error pos := by
  rcases hs : syncSearch stss (s + 1) with pos | pos
  · exact ⟨pos, rfl⟩
  · exact absurd ⟨pos, hs⟩ h

theorem lt_of_search {pos : Nat} {k : UInt32} (h : syncSearch stss (s + 1) = .error pos)
    (hk : stss[pos]? = some k) : s + 1 < k.toNat := by
  have hgt := (binarySearchBy_error h).2.2 k hk
  exact Nat.compare_eq_gt.1 hgt

theorem exists_entry {pos : Nat} (h : syncSearch stss (s + 1) = .error pos) (hpos : 0 < pos) :
    ∃ k, stss[pos - 1]? = some k ∧ k.toNat < s + 1 := by
  obtain ⟨hle, hbefore, -⟩ := binarySearchBy_error h
  have hk : stss[pos - 1]? = some stss[pos - 1] := List.getElem?_eq_getElem (by omega)
  exact ⟨_, hk, Nat.compare_eq_lt.1 (hbefore hpos _ hk)⟩

theorem syncFloor_lt (h : ¬ IsSync stss s) : syncFloor stss s = 0 ∨ syncFloor stss s < s := by
  obtain ⟨pos, hpos⟩ := search_of_not_isSync h
  rw [syncFloor, hpos]
  simp only
  by_cases h0 : 0 < pos
  · obtain ⟨k, hk, hlt⟩ := exists_entry hpos h0
    rw [if_pos h0, hk, Option.getD_some]
    omega
  · exact .inl (if_neg h0)

theorem syncFloor_le : syncFloor stss s ≤ s := by
  by_cases h : IsSync stss s
  · exact Nat.le_of_eq (syncFloor_of_isSync h)
  · have := syncFloor_lt h
    omega

theorem lt_syncCeil (h : ¬ IsSync stss s) (hs : s < n) : s < syncCeil stss n s := by
  obtain ⟨pos, hpos⟩ := search_of_not_isSync h
  rw [syncCeil, hpos]
  simp only
  rcases hk : stss[pos]? with _ | k
  · exact hs
  · have := lt_of_search hpos hk
    simp only
    omega

theorem le_syncCeil (hs : s < n) : s ≤ syncCeil stss n s := by
  by_cases h : IsSync stss s
  · exact Nat.le_of_eq (syncCeil_of_isSync h).symm
  · exact Nat.le_of_lt (lt_syncCeil h hs)

theorem IsSync.lt (h : IsSync stss s) : s + 1 < 2 ^ 32 := by
  obtain ⟨pos, hpos⟩ := h
  obtain ⟨k, -, hk⟩ := binarySearchBy_ok hpos
  rw [← Nat.compare_eq_eq.1 hk]
  exact k.toNat_lt

theorem IsSync.floorSafe (h : IsSync stss s) : FloorSafe stss s := by
  refine ⟨h.lt, ?_⟩
  intro pos hpos
  obtain ⟨pos', hok⟩ := h
  rw [hok] at hpos
  cases hpos

theorem nearestSyncSample_spec : Spec (nearestSyncSample .dev (some stss) s : Exec ε Nat)
    (FloorSafe stss s) fun k => k = syncFloor stss s := by
  refine spec_add.bind_eq fun _ => ?_
  unfold syncFloor
  rcases hpos : syncSearch stss (s + 1) with pos | pos
  on_goal 2 => exact .of_ok rfl (by simp) rfl
  simp only [Except.error.injEq, forall_eq']
  by_cases h0 : 0 < pos
  · obtain ⟨k, hk, -⟩ := exists_entry hpos h0
    rw [if_pos h0, if_pos h0, index, hk, ok_bind, Option.getD_some]
    exact spec_sub.congr (by simp [h0, Nat.one_le_iff_ne_zero, ← UInt32.toNat_inj])
  · rw [if_neg h0, if_neg h0]
    exact .of_ok rfl (fun h => absurd h h0) rfl

/-- A search that lands behind an entry 0 makes an optimised build start at the last number of
its type. -/
theorem floorSafe_of_nearestSyncSample {r : Nat} (hs : s + 1 < 2 ^ 32) (hr : r + 1 < 2 ^ 32)
    (h : (nearestSyncSample .release (some stss) s : Exec ε Nat) = .ok r) : FloorSafe stss s := by
  refine ⟨hs, ?_⟩
  intro pos hpos h0 hzero
  simp only [nearestSyncSample, add_ok .release hs, ok_bind, hpos, if_pos h0, index, hzero] at h
  have hwrap : 2 ^ 32 - 1 = r := Except.ok.inj h
  omega

end Sync

section Track

variable {track : TrackInfo} {s : Nat}

abbrev TrackInfo.samples (track : TrackInfo) : Nat := sampleCount track.sampleTable.stts

def alignmentTable (track : TrackInfo) : Option (List UInt32) :=
  if track.trackType = .video then track.sampleTable.stss else none

def startOf (track : TrackInfo) (s : Nat) : Nat :=
  match alignmentTable track with
  | none => s
  | some stss => syncFloor stss s

def endOf (track : TrackInfo) (s : Nat) : Nat :=
  if s < track.samples then
    match alignmentTable track with
    | none => s
    | some stss => syncCeil stss track.samples s
  else track.samples

def StartSafe (track : TrackInfo) (s : Nat) : Prop :=
  ∀ stss, alignmentTable track = some stss → FloorSafe stss s

theorem startOf_le : startOf track s ≤ s := by
  unfold startOf
  split
  · exact Nat.le_refl _
  · exact syncFloor_le

theorem le_endOf (hs : s ≤ track.samples) : s ≤ endOf track s := by
  unfold endOf
  by_cases h : s < track.samples
  · rw [if_pos h]
    split
    · exact Nat.le_refl _
    · exact le_syncCeil h
  · rw [if_neg h]
    exact hs

theorem alignStart_spec : Spec (alignStart .dev track s : Exec ε Nat) (StartSafe track s)
    fun k => k = startOf track s := by
  unfold alignStart StartSafe startOf alignmentTable
  by_cases hv : track.trackType = .video
  · rw [if_pos hv, if_pos hv]
    rcases track.sampleTable.stss with _ | stss
    · exact .of_ok rfl nofun rfl
    · exact nearestSyncSample_spec.congr (by simp)
  · rw [if_neg hv, if_neg hv]
    exact .of_ok rfl nofun rfl

theorem alignEnd_eq (p : Profile) (hn : track.samples < 2 ^ 32) :
    (alignEnd p track track.samples s : Exec ε Nat) = .ok (endOf track s) := by
  simp only [alignEnd]
  unfold endOf alignmentTable
  by_cases hs : s < track.samples
  · rw [if_neg (by omega : ¬ track.samples ≤ s), if_pos hs]
    by_cases hv : track.trackType = .video
    · rw [if_pos ⟨hv, hs⟩, if_pos hv]
      rcases track.sampleTable.stss with _ | stss
      · rfl
      simp only
      rw [add_ok p (by omega), ok_bind]
      by_cases hsync : IsSync stss s
      · rw [syncCeil_of_isSync hsync]
        obtain ⟨pos, hpos⟩ := hsync
        rw [hpos]
        rfl
      obtain ⟨pos, hpos⟩ := search_of_not_isSync hsync
      rw [syncCeil, hpos]
      simp only
      by_cases hin : pos < stss.length
      · have hk := lt_of_search hpos (List.getElem?_eq_getElem hin)
        rw [if_pos hin, index_ok hin, ok_bind, sub_ok p 32 (by omega), List.getElem?_eq_getElem hin]
      · rw [if_neg hin, List.getElem?_eq_none (by omega)]
        rfl
    · rw [if_neg fun h => hv h.1, if_neg hv]
      rfl
  · rw [if_pos (by omega : track.samples ≤ s), if_neg hs, if_neg fun h => Nat.lt_irrefl _ h.2]
    rfl

theorem startSafe_of_alignStart {r : Nat} (hs : s + 1 < 2 ^ 32) (hr : r + 1 < 2 ^ 32)
    (h : (alignStart .release track s : Exec ε Nat) = .ok r) : StartSafe track s := by
  intro stss hstss
  have hv : track.trackType = .video := by
    by_contra hv
    rw [alignmentTable, if_neg hv] at hstss
    cases hstss
  rw [alignmentTable, if_pos hv] at hstss
  rw [alignStart, if_pos hv, hstss] at h
  exact floorSafe_of_nearestSyncSample hs hr h

def rangeStart (track : TrackInfo) (b : Nat) : Nat :=
  if track.samples = 0 then 0 else startOf track (sampleAt track.sampleTable.stts b)

/-- The sample at which a segment that ends at a boundary is cut. -/
def rangeCut (track : TrackInfo) (b : Nat) : Nat :=
  endOf track (sampleAt track.sampleTable.stts b)

def RangeSafe (track : TrackInfo) (b : Nat) : Prop :=
  track.samples < 2 ^ 32 ∧
    (track.samples ≠ 0 → StartSafe track (sampleAt track.sampleTable.stts b))

theorem rangeCut_of_samples_eq_zero (h : track.samples = 0) (b : Nat) : rangeCut track b = 0 := by
  rw [rangeCut, endOf, if_neg (by omega), h]

theorem segmentSampleRangeAt_spec {b e : Nat} :
    Spec (segmentSampleRangeAt .dev track b e : Exec ε _) (RangeSafe track b)
      fun r => r = (rangeStart track b, max (rangeStart track b) (rangeCut track e)) := by
  refine spec_totalSamples.bind_eq fun hn => ?_
  unfold rangeStart
  by_cases h0 : track.samples = 0
  · rw [if_pos h0, if_pos h0, rangeCut_of_samples_eq_zero h0]
    exact .of_ok rfl (fun h => absurd h0 h) rfl
  rw [if_neg h0, if_neg h0, sampleRangeBetween, dtsToSample_eq .dev hn, ok_bind]
  refine (alignStart_spec.bind_eq fun _ => ?_).congr
    ((and_iff_left trivial).trans (imp_iff_right h0).symm)
  rw [dtsToSample_eq .dev hn, ok_bind, alignEnd_eq .dev hn, ok_bind, rangeCut]
  split
  next hle => exact .of_ok rfl trivial (by rw [Nat.max_eq_left hle])
  next hlt => exact .of_ok rfl trivial (by rw [Nat.max_eq_right (by omega)])

/-- An optimised build returns a range with a sample in it only where a checked build returns
one. -/
theorem rangeSafe_of_lt {b e first last : Nat} (hn : track.samples + 1 < 2 ^ 32)
    (h : (segmentSampleRangeAt .release track b e : Exec ε _) = .ok (first, last))
    (hfirst : first + 1 < 2 ^ 32) : RangeSafe track b := by
  have hcount : track.samples < 2 ^ 32 := by omega
  refine ⟨hcount, ?_⟩
  intro h0
  have hle : sampleAt track.sampleTable.stts b ≤ track.samples := locate_le_total _ _
  rw [segmentSampleRangeAt, totalSamples_eq_add, add_ok .release ((Nat.zero_add _).trans_lt hcount),
    ok_bind, Nat.zero_add, if_neg h0, sampleRangeBetween,
      dtsToSample_eq .release hcount, ok_bind] at h
  obtain ⟨s, hs, h⟩ := bind_eq_ok.1 h
  obtain ⟨_, -, h⟩ := bind_eq_ok.1 h
  obtain ⟨e, -, h⟩ := bind_eq_ok.1 h
  have hstart : s = first := by
    split at h
    next => exact (ok_pair_inj h).1
    next => exact (ok_pair_inj h).1
  exact startSafe_of_alignStart (by omega) (hstart ▸ hfirst) hs

end Track

structure Boundaries where
  tick : Nat → Nat
  zero : tick 0 = 0
  step : ∀ i, tick i ≤ tick (i + 1)

abbrev Boundaries.sample (b : Boundaries) (track : TrackInfo) (i : Nat) : Nat :=
  sampleAt track.sampleTable.stts (b.tick i)

abbrev VideoTrack := { track : TrackInfo // track.trackType = .video }

/-- Both ranges are returned and the second starts where the first ends. -/
def Adjacent (p : Profile) (track : TrackInfo) (b : Boundaries) (i : Nat) : Prop :=
  ∃ first cut last,
    (segmentSampleRangeAt p track (b.tick i) (b.tick (i + 1)) : Exec PackagingError _)
      = .ok (first, cut) ∧
    (segmentSampleRangeAt p track (b.tick (i + 1)) (b.tick (i + 2)) : Exec PackagingError _)
      = .ok (cut, last)

/-- The boundary between the segments `i` and `i + 1` falls on a sync sample. -/
def BoundaryOnSync (track : TrackInfo) (b : Boundaries) (i : Nat) : Prop :=
  track.samples < 2 ^ 32 ∧
    (track.samples = 0 ∨ ∀ stss, track.sampleTable.stss = some stss →
      IsSync stss (b.sample track (i + 1)) ∧ FloorSafe stss (b.sample track i))

variable (track : VideoTrack)

theorem alignmentTable_of_video : alignmentTable track.1 = track.1.sampleTable.stss := by
  rw [alignmentTable, if_pos track.2]

theorem startOf_eq_endOf_iff {s : Nat} (hs : s ≤ track.1.samples) (hpos : 0 < track.1.samples) :
    startOf track.1 s = endOf track.1 s ↔
      ∀ stss, track.1.sampleTable.stss = some stss → IsSync stss s := by
  unfold startOf endOf
  rw [alignmentTable_of_video]
  rcases hstss : track.1.sampleTable.stss with _ | stss
  · refine iff_of_true ?_ (by simp)
    simp only
    split
    next => rfl
    next h => omega
  · simp only [Option.some.injEq, forall_eq']
    constructor
    · intro heq
      by_contra hsync
      have hfloor : syncFloor stss s ≤ s := syncFloor_le
      by_cases hlt : s < track.1.samples
      · rw [if_pos hlt] at heq
        have := lt_syncCeil hsync hlt
        omega
      · rw [if_neg hlt] at heq
        have := syncFloor_lt hsync
        omega
    · intro hsync
      rw [syncFloor_of_isSync hsync, syncCeil_of_isSync hsync]
      split
      next => rfl
      next h => omega

/-- What is adjacent in a checked build is adjacent in an optimised one. -/
theorem Adjacent.release {track : TrackInfo} {b : Boundaries} {i : Nat}
    (h : Adjacent .dev track b i) : Adjacent .release track b i := by
  obtain ⟨first, cut, last, hfst, hsnd⟩ := h
  exact ⟨first, cut, last, (relaxed_segmentSampleRangeAt _ _).agrees _ hfst,
    (relaxed_segmentSampleRangeAt _ _).agrees _ hsnd⟩

theorem adjacent_dev_iff (b : Boundaries) (i : Nat) :
    Adjacent .dev track.1 b i ↔ BoundaryOnSync track.1 b i := by
  have hmono : b.sample track.1 i ≤ b.sample track.1 (i + 1) := locate_mono _ (b.step i)
  have hle : b.sample track.1 (i + 1) ≤ track.1.samples := locate_le_total _ _
  constructor
  · intro h
    rcases h with ⟨first, cut, last, hfst, hsnd⟩
    obtain ⟨hsafe, hfst⟩ := segmentSampleRangeAt_spec.eq_ok_iff.1 hfst
    obtain ⟨-, hsnd⟩ := segmentSampleRangeAt_spec.eq_ok_iff.1 hsnd
    refine ⟨hsafe.1, ?_⟩
    by_cases h0 : track.1.samples = 0
    · exact Or.inl h0
    have hcut := (Prod.mk.inj hfst).2
    have hstart := (Prod.mk.inj hsnd).1
    rw [rangeStart, if_neg h0] at hcut hstart
    have hge : endOf track.1 (b.sample track.1 (i + 1)) ≤ cut := hcut ▸ Nat.le_max_right _ _
    have hnext : cut = startOf track.1 (b.sample track.1 (i + 1)) := hstart
    -- the end is at least the boundary sample and the next start at most that
    have hend := le_endOf hle
    have hfloor : startOf track.1 (b.sample track.1 (i + 1)) ≤ b.sample track.1 (i + 1) :=
      startOf_le
    have hsync := (startOf_eq_endOf_iff track hle (by omega)).1 (by omega)
    refine Or.inr fun stss hstss => ⟨hsync stss hstss, ?_⟩
    exact hsafe.2 h0 stss (by rw [alignmentTable_of_video, hstss])
  · intro h
    rcases h with ⟨hn, hcond⟩
    have hsafe : RangeSafe track.1 (b.tick i) := by
      refine ⟨hn, ?_⟩
      intro h0 stss hstss
      rw [alignmentTable_of_video] at hstss
      exact ((hcond.resolve_left h0) stss hstss).2
    have hsafe' : RangeSafe track.1 (b.tick (i + 1)) := by
      refine ⟨hn, ?_⟩
      intro h0 stss hstss
      rw [alignmentTable_of_video] at hstss
      exact ((hcond.resolve_left h0) stss hstss).1.floorSafe
    have hmeet : max (rangeStart track.1 (b.tick i)) (rangeCut track.1 (b.tick (i + 1)))
        = rangeStart track.1 (b.tick (i + 1)) := by
      by_cases h0 : track.1.samples = 0
      · simp only [rangeStart, if_pos h0, rangeCut_of_samples_eq_zero h0]
        rfl
      have heq := (startOf_eq_endOf_iff track hle (by omega)).2 fun stss hstss =>
        ((hcond.resolve_left h0) stss hstss).1
      have hfloor : startOf track.1 (b.sample track.1 i) ≤ b.sample track.1 i := startOf_le
      have hend := le_endOf hle
      rw [rangeStart, if_neg h0, rangeStart, if_neg h0, rangeCut, heq]
      exact Nat.max_eq_right (Nat.le_trans hfloor (Nat.le_trans hmono hend))
    exact ⟨_, _, _, segmentSampleRangeAt_spec.eq_ok_iff.2 ⟨hsafe, by rw [hmeet]⟩,
      segmentSampleRangeAt_spec.eq_ok_iff.2 ⟨hsafe', rfl⟩⟩

/-- The ranges of consecutive segments of a video track are adjacent exactly if the boundary
between them falls on a sync sample (or there is no sync table, or no sample). -/
theorem adjacent_iff (track : VideoTrack) (b : Boundaries) (i : Nat) :
    (Adjacent .dev track.1 b i ↔ BoundaryOnSync track.1 b i) ∧
      (BoundaryOnSync track.1 b i → Adjacent .release track.1 b i) :=
  ⟨adjacent_dev_iff track b i, fun h => ((adjacent_dev_iff track b i).2 h).release⟩

/-- Four samples of one tick, the first of them sync, cut every two ticks. -/
def longGop : VideoTrack where
  val := {
    trackId := 1, trackType := .video, codec := none, timescale := 1, duration := 4
    sampleTable := ⟨[⟨4, 1⟩], [⟨1, 4, 1⟩], [10, 10, 10, 10], [8], some [1], none⟩
    width := none, height := none, sampleRate := none, channels := none, stsdData := [] }
  property := rfl

def everyTwoTicks : Boundaries := ⟨fun i => 2 * i, rfl, fun i => by omega⟩

theorem adjacent_longGop_fails :
    ¬ Adjacent .dev longGop.1 everyTwoTicks 0 ∧ ¬ Adjacent .release longGop.1 everyTwoTicks 0 := by
  have hnot : ∀ p, ¬ Adjacent p longGop.1 everyTwoTicks 0 := by
    intro p h
    rcases h with ⟨first, cut, last, hfst, hsnd⟩
    obtain ⟨-, rfl⟩ := ok_pair_inj hfst
    exact absurd (ok_pair_inj hsnd).1 (by decide)
  exact ⟨hnot .dev, hnot .release⟩

end Nozdormu.Packaging
