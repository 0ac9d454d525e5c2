import Nozdormu.Packaging.Alignment

/-!
# Which segments a playlist lists
-/

namespace Nozdormu.Packaging

open Rust RunLength

variable {ε : Type} (p : Profile) {i : Nat}

section Listing

variable {track : TrackInfo} {dur : Float} {count : Nat}

def startAt (track : TrackInfo) (dur : Float) (i : Nat) : Nat :=
  rangeStart track (boundaryTicks i dur track.timescale)

def cutAt (track : TrackInfo) (dur : Float) (i : Nat) : Nat :=
  rangeCut track (boundaryTicks (i + 1) dur track.timescale)

def prevCut (track : TrackInfo) (dur : Float) : Nat → Nat
  | 0 => 0
  | i + 1 => max (prevCut track dur i) (cutAt track dur i)

def Listed (track : TrackInfo) (dur : Float) (count i : Nat) : Prop :=
  i < count ∧ (prevCut track dur i < cutAt track dur i ∨ i + 1 = count)

instance (track : TrackInfo) (dur : Float) (count i : Nat) :
    Decidable (Listed track dur count i) := inferInstanceAs (Decidable (_ ∧ _))

def spanEnd (track : TrackInfo) (e : Nat) : Nat :=
  if track.samples ≤ e then track.duration.toNat else dts track.sampleTable.stts e

section

variable (hn : track.samples < 2 ^ 32)
include hn

theorem cutAt_lt : cutAt track dur i < 2 ^ 32 := alignEnd_lt hn
    (@alignEnd_eq Empty track _ .release hn)

theorem prevCut_lt : ∀ i, prevCut track dur i < 2 ^ 32 := by
  intro i
  induction i with
  | zero => exact Nat.two_pow_pos 32
  | succ i ih => exact Nat.max_lt.2 ⟨ih, cutAt_lt hn⟩

theorem segmentSpansLoop_eq (hcount : count < 2 ^ 32) : ∀ n i, i + n = count →
      (segmentSpansLoop p track track.samples dur count n i (prevCut track dur i) : Exec ε _)
        = ((List.range' i n).filter fun j => Listed track dur count j).mapM fun j =>
            segmentSpan p track track.samples dur j (prevCut track dur j) (cutAt track dur j) := by
  intro n
  induction n with
  | zero => intro i _; rfl
  | succ n ih =>
    intro i hi
    have hcut : (segmentCut p track track.samples dur i : Exec ε Nat) = .ok
        (cutAt track dur i) := by
      rw [segmentCut, add_ok p (by omega), ok_bind]
      simp only
      rw [dtsToSample_eq p hn, ok_bind, alignEnd_eq p hn]
      rfl
    rw [segmentSpansLoop, hcut, ok_bind, sub_ok p 32 (by omega), ok_bind,
      List.range'_succ, List.filter_cons]
    by_cases hskip : cutAt track dur i ≤ prevCut track dur i ∧ i < count - 1
    · have hnot : ¬ Listed track dur count i := by
        intro h
        rcases h with ⟨_, h⟩
        omega
      have hprev : prevCut track dur (i + 1) = prevCut track dur i := Nat.max_eq_left hskip.1
      rw [if_pos hskip, if_neg (by simpa using hnot), ← hprev]
      exact ih (i + 1) (by omega)
    · have hlisted : Listed track dur count i := ⟨by omega, by omega⟩
      rw [if_neg hskip, if_pos (by simpa using hlisted), List.mapM_cons]
      congr 1
      funext span
      by_cases hlast : n = 0
      · subst hlast
        rfl
      · have hprev : prevCut track dur (i + 1) = cutAt track dur i :=
          Nat.max_eq_right (by omega)
        rw [← hprev, ih (i + 1) (by omega)]

end

theorem returnsIff_tickSeconds {timescale : UInt32} {fallback : Float} {a b : Nat} :
    ReturnsIff (tickSeconds .dev timescale fallback a b : Exec ε _)
      (0 < timescale.toNat → a ≤ b) := .ite fun _ => returnsIff_sub.map _

section

variable {prev e : Nat} (hprev : prev < 2 ^ 32) (he : e < 2 ^ 32)
include hprev he

theorem segmentSpan_eq : (segmentSpan p track track.samples dur i prev e : Exec ε _)
    = tickSeconds p track.timescale dur (dts track.sampleTable.stts prev) (spanEnd track e)
      >>= fun secs => pure ⟨i, dts track.sampleTable.stts prev, spanEnd track e, secs⟩ := by
  rw [segmentSpan, sampleToDts_eq p _ hprev, ok_bind, sampleToDts_eq p _ he, spanEnd]
  split <;> rfl

theorem segmentSpan_value {p : Profile} {span : SegmentSpan}
    (h : (segmentSpan p track track.samples dur i prev e : Exec ε _) = .ok span) :
    span.index = i ∧ span.startDts = dts track.sampleTable.stts prev ∧
      span.endDts = spanEnd track e := by
  rw [segmentSpan_eq p hprev he] at h
  obtain ⟨secs, -, h⟩ := bind_eq_ok.1 h
  cases h
  exact ⟨rfl, rfl, rfl⟩

theorem returnsIff_segmentSpan :
    ReturnsIff (segmentSpan .dev track track.samples dur i prev e : Exec ε _)
      (0 < track.timescale.toNat → dts track.sampleTable.stts prev ≤ spanEnd track e) := by
  rw [segmentSpan_eq .dev hprev he]
  exact returnsIff_tickSeconds.map _

end

end Listing

section Playlist

variable {metadata : Mp4Metadata} {dur : Float} {track : TrackInfo}

def listedIndices (track : TrackInfo) (dur : Float) (count : Nat) : List Nat :=
  (List.range count).filter fun i => Listed track dur count i

theorem mem_listedIndices {count : Nat} :
    i ∈ listedIndices track dur count ↔ Listed track dur count i := by
  rw [listedIndices, List.mem_filter, List.mem_range, decide_eq_true_eq]
  exact ⟨fun h => h.2, fun h => ⟨h.1, h⟩⟩

theorem computeSegmentCount_lt : computeSegmentCount metadata dur < 2 ^ 32 := by
  unfold computeSegmentCount
  split
  · exact Nat.two_pow_pos 32
  · exact ceilU32_lt _

theorem segmentSpans_eq (href : referenceTrack metadata = some track)
    (hn : track.samples < 2 ^ 32) :
    (segmentSpans p metadata dur : Exec ε _)
      = (listedIndices track dur (computeSegmentCount metadata dur)).mapM fun i =>
          segmentSpan p track track.samples dur i (prevCut track dur i) (cutAt track dur i) := by
  simp only [segmentSpans]
  by_cases h0 : computeSegmentCount metadata dur = 0
  · rw [if_pos h0, h0]
    rfl
  · rw [if_neg h0, href]
    simp only
    rw [totalSamples_eq_add, add_ok p ((Nat.zero_add _).trans_lt hn), Nat.zero_add, ok_bind,
      listedIndices, List.range_eq_range',
      ← segmentSpansLoop_eq p hn computeSegmentCount_lt _ 0 (Nat.zero_add _)]
    rfl

/-- The entries of the playlist can be computed. -/
def PlaylistSafe (metadata : Mp4Metadata) (dur : Float) : Prop :=
  ∀ track, referenceTrack metadata = some track → 0 < computeSegmentCount metadata dur →
    track.samples < 2 ^ 32 ∧
    ∀ i, Listed track dur (computeSegmentCount metadata dur) i → 0 < track.timescale.toNat →
      dts track.sampleTable.stts (prevCut track dur i) ≤ spanEnd track (cutAt track dur i)

theorem segmentSpans_eq_nil
    (h : computeSegmentCount metadata dur = 0 ∨ referenceTrack metadata = none) :
    (segmentSpans p metadata dur : Exec ε _) = .ok [] := by
  simp only [segmentSpans]
  by_cases h0 : computeSegmentCount metadata dur = 0
  · rw [if_pos h0]
    rfl
  · rw [if_neg h0, h.resolve_left h0]
    rfl

theorem returnsIff_segmentSpans :
    ReturnsIff (segmentSpans .dev metadata dur : Exec ε _) (PlaylistSafe metadata dur) := by
  unfold PlaylistSafe
  by_cases h0 : computeSegmentCount metadata dur = 0
  · exact .of_eq_ok (segmentSpans_eq_nil .dev (Or.inl h0)) fun _ _ h => by omega
  rcases href : referenceTrack metadata with _ | track
  · exact .of_eq_ok (segmentSpans_eq_nil .dev (Or.inr href)) (by simp)
  have hlisted : ∀ hn : track.samples < 2 ^ 32,
      ReturnsIff (segmentSpans .dev metadata dur : Exec ε _)
        (∀ i ∈ listedIndices track dur (computeSegmentCount metadata dur),
          0 < track.timescale.toNat →
          dts track.sampleTable.stts (prevCut track dur i) ≤ spanEnd track (cutAt track dur i)) :=
            by
    intro hn
    rw [segmentSpans_eq .dev href hn]
    exact .mapM fun i _ => returnsIff_segmentSpan (prevCut_lt hn i) (cutAt_lt hn)
  simp only [Option.some.injEq, forall_eq']
  constructor
  · intro hrun _
    have hn : track.samples < 2 ^ 32 := by
      simp only [segmentSpans] at hrun
      rw [if_neg h0, href] at hrun
      exact spec_totalSamples.of_noFault (noFault_bind.1 hrun).1
    exact ⟨hn, fun i hi => (hlisted hn).of_noFault hrun i (mem_listedIndices.2 hi)⟩
  · intro h
    obtain ⟨hn, hspans⟩ := h (by omega)
    exact (hlisted hn).returns fun i hi => hspans i (mem_listedIndices.1 hi)

end Playlist

end Nozdormu.Packaging
