import Nozdormu.Packaging.HlsManifest

/-!
# The two builds of the packager

Every function of the packager that reads the sample tables, in an optimised and in a checked
build. The optimised one always answers, and where the checked one answers, the two answers
are the same (`Relaxed`). So whatever holds of a checked build's ranges, playlists and parts
holds of an optimised build's.
-/

namespace Nozdormu.Packaging

open Rust

variable {ε : Type} {track : TrackInfo}

section Tables

variable (stts : List SttsEntry)

theorem relaxed_sampleToDts (k : Nat) : Relaxed fun p => (sampleToDts p stts k : Exec ε Nat) := by
  have hloop : ∀ k d, Relaxed fun p => (sampleToDtsLoop p stts k d : Exec ε Nat) := by
    induction stts with
    | nil => intro k d; exact .const d
    | cons e es ih =>
      intro k d
      simp only [sampleToDtsLoop]
      refine .ite (fun _ => ?_) fun _ => ?_
      · exact (Relaxed.mul ..).bind fun _ _ => .add ..
      · refine (Relaxed.mul ..).bind fun _ _ => (Relaxed.add ..).bind fun _ _ => ?_
        exact (Relaxed.sub ..).bind fun _ _ => ih _ _
  exact hloop k 0

theorem relaxed_dtsToSample (t : Nat) : Relaxed fun p => (dtsToSample p stts t : Exec ε Nat) := by
  have hloop : ∀ d k, Relaxed fun p => (dtsToSampleLoop p t stts d k : Exec ε Nat) := by
    induction stts with
    | nil => intro d k; exact .const k
    | cons e es ih =>
      intro d k
      refine (Relaxed.mul ..).bind fun _ _ => (Relaxed.add ..).bind fun _ _ => ?_
      refine .ite (fun _ => .ite (fun _ => ?_) fun _ => .const k) fun _ => ?_
      · exact (Relaxed.sub ..).bind fun _ _ => .add ..
      · refine (Relaxed.add ..).bind fun _ _ => (Relaxed.add ..).bind fun _ _ => ?_
        exact ih _ _
  exact hloop 0 0

theorem relaxed_totalSamples : Relaxed fun p => (totalSamples p stts : Exec ε Nat) := by
  simp only [totalSamples_eq_add]
  exact .add ..

end Tables

/-- The one index of the alignment is in range: it is the search's insertion point. -/
theorem relaxed_alignStart (s : Nat) : Relaxed fun p => (alignStart p track s : Exec ε Nat) := by
  refine .ite (fun _ => ?_) fun _ => .const s
  cases track.sampleTable.stss with
  | none => exact .const s
  | some stss =>
    refine (Relaxed.add ..).bind fun target _ => ?_
    cases hpos : syncSearch stss target with
    | ok pos => exact .const s
    | error pos =>
      refine .ite (fun h0 => ?_) fun _ => .const 0
      have hle : pos ≤ stss.length := (binarySearchBy_error hpos).1
      rw [index_ok (show pos - 1 < stss.length by omega)]
      exact .sub ..

theorem relaxed_alignEnd (total e : Nat) :
    Relaxed fun p => (alignEnd p track total e : Exec ε Nat) := by
  simp only [alignEnd]
  generalize (if total ≤ e then total else e) = c
  refine .ite (fun _ => ?_) fun _ => .const c
  cases track.sampleTable.stss with
  | none => exact .const c
  | some stss =>
    refine (Relaxed.add ..).bind fun target _ => ?_
    cases syncSearch stss target with
    | ok pos => exact .const c
    | error pos =>
      refine .ite (fun hin => ?_) fun _ => .const total
      rw [index_ok hin]
      exact .sub ..

theorem relaxed_sampleRangeBetween (total b e : Nat) :
    Relaxed fun p => (sampleRangeBetween p track total b e : Exec ε _) := by
  refine (relaxed_dtsToSample ..).bind fun s _ => (relaxed_alignStart s).bind fun s' _ => ?_
  refine (relaxed_dtsToSample ..).bind fun e _ => (relaxed_alignEnd total e).bind fun e' _ => ?_
  exact .ite (fun _ => .const _) fun _ => .const _

theorem relaxed_segmentSampleRangeAt (b e : Nat) :
    Relaxed fun p => (segmentSampleRangeAt p track b e : Exec ε _) := by
  refine (relaxed_totalSamples _).bind fun total _ => ?_
  exact .ite (fun _ => .const _) fun _ => relaxed_sampleRangeBetween ..

theorem relaxed_segmentSampleRange (i : Nat) (dur : Float) :
    Relaxed fun p => (segmentSampleRange p track i dur : Exec ε _) := by
  refine (relaxed_totalSamples _).bind fun total _ => .ite (fun _ => .const _) fun _ => ?_
  exact (Relaxed.add ..).bind fun _ _ => relaxed_sampleRangeBetween ..

theorem relaxed_partEnd (dur : Float) (segEnd c : Nat) :
    Relaxed fun p => (partEnd p track dur segEnd c : Exec ε Nat) := by
  refine (relaxed_sampleToDts ..).bind fun d _ => (Relaxed.add ..).bind fun t _ => ?_
  refine (relaxed_dtsToSample ..).bind fun e _ => ?_
  exact .ite (fun _ => (Relaxed.add ..).map _) fun _ => .const _

theorem relaxed_tickSeconds (timescale : UInt32) (fallback : Float) (a b : Nat) :
    Relaxed fun p => (tickSeconds p timescale fallback a b : Exec ε _) :=
  .ite (fun _ => (Relaxed.sub ..).map _) fun _ => .const fallback

theorem relaxed_segmentSpan (total : Nat) (dur : Float) (i prev e : Nat) :
    Relaxed fun p => (segmentSpan p track total dur i prev e : Exec ε _) := by
  refine (relaxed_sampleToDts ..).bind fun start _ => .ite (fun _ => ?_) fun _ => ?_
  · exact (relaxed_tickSeconds ..).map _
  · exact (relaxed_sampleToDts ..).bind fun stop _ => (relaxed_tickSeconds ..).map _

theorem relaxed_segmentSpansLoop (total : Nat) (dur : Float) (count : Nat) : ∀ n i prev,
    Relaxed fun p => (segmentSpansLoop p track total dur count n i prev : Exec ε _) := by
  intro n
  induction n with
  | zero => intro i prev; exact .const []
  | succ n ih =>
    intro i prev
    have hcut : Relaxed fun p => (segmentCut p track total dur i : Exec ε _) :=
      (Relaxed.add ..).bind fun _ _ => (relaxed_dtsToSample ..).bind fun e _ => relaxed_alignEnd ..
    refine hcut.bind fun e _ => (Relaxed.sub ..).bind fun last _ => ?_
    exact .ite (fun _ => ih ..) fun _ => (relaxed_segmentSpan ..).bind fun _ _ => (ih ..).map _

theorem relaxed_segmentSpans (metadata : Mp4Metadata) (dur : Float) :
    Relaxed fun p => (segmentSpans p metadata dur : Exec ε _) := by
  refine .ite (fun _ => .const []) fun _ => ?_
  cases referenceTrack metadata with
  | none => exact .const []
  | some track => exact (relaxed_totalSamples _).bind fun _ _ => relaxed_segmentSpansLoop ..

/-! ## Parts -/

theorem lt_partEnd {c e : Nat} (hend : segEnd < 2 ^ 32) (hc : c < segEnd)
    (h : (partEnd p track dur segEnd c : Exec ε Nat) = .ok e) : c < e := by
  have hmin : ∀ {x : Nat}, c < x → (if segEnd < x then segEnd else x) = e → c < e := by
    intro x hx he
    split at he <;> omega
  simp only [partEnd, bind_eq_ok] at h
  obtain ⟨_, -, _, -, reach, -, h⟩ := h
  split at h
  next hle =>
    obtain ⟨next, hnext, h⟩ := bind_eq_ok.1 h
    rw [add_ok p (by omega)] at hnext
    cases hnext
    exact hmin (Nat.lt_succ_self c) (by simpa using h)
  next hgt => exact hmin (Nat.lt_of_not_le hgt) (by simpa using h)

/-- Each round moves on, so the bound on the rounds is never reached. -/
theorem relaxed_segmentPartsLoop {dur : Float} {segEnd : Nat} (hend : segEnd < 2 ^ 32) :
    ∀ {fuel c idx : Nat}, segEnd - c < fuel →
      Relaxed fun p => (segmentPartsLoop p track dur segEnd fuel c idx : Exec ε _) := by
  intro fuel
  induction fuel with
  | zero => intro c idx h; exact absurd h (Nat.not_lt_zero _)
  | succ fuel ih =>
    intro c idx hfuel
    refine .ite (fun _ => .const []) fun hlt => (relaxed_partEnd dur segEnd c).bind fun e he => ?_
    have hce := lt_partEnd hend (Nat.lt_of_not_le hlt) he
    refine (relaxed_sampleToDts ..).bind fun d _ => (relaxed_sampleToDts ..).bind fun d' _ => ?_
    have hsync : Relaxed fun p => (isSyncSample p track.sampleTable.stss c : Exec ε _) := by
      cases track.sampleTable.stss with
      | none => exact .const true
      | some stss => exact (Relaxed.add ..).map _
    refine (relaxed_tickSeconds ..).bind fun _ _ => hsync.bind fun _ _ => ?_
    exact (Relaxed.add ..).bind fun _ _ => (ih (by omega)).map _

theorem relaxed_computeSegmentParts (metadata : Mp4Metadata) (dur pdur : Float) (i : Nat) :
    Relaxed fun p => (computeSegmentParts p metadata dur pdur i : Exec ε _) := by
  unfold computeSegmentParts
  cases referenceTrack metadata with
  | none => exact .const []
  | some track =>
    refine (relaxed_segmentSampleRange i dur).bind fun r hr => .ite (fun _ => .const []) fun _ => ?_
    exact relaxed_segmentPartsLoop (segmentSampleRange_lt hr).2 (Nat.lt_succ_self _)

theorem relaxed_partSampleRange (i j : Nat) (dur pdur : Float) :
    Relaxed fun p => (partSampleRange p track i j dur pdur : Exec ε _) := by
  have hloop : ∀ segEnd j c,
      Relaxed fun p => (partSampleRangeLoop p track pdur segEnd j c : Exec ε _) := by
    intro segEnd j
    induction j with
    | zero => intro c; exact .ite (fun _ => .const _) fun _ => (relaxed_partEnd ..).map _
    | succ j ih =>
      intro c; exact .ite (fun _ => .const _) fun _ => (relaxed_partEnd ..).bind fun e _ => ih e
  exact (relaxed_segmentSampleRange i dur).bind fun r _ =>
    .ite (fun _ => .const _) fun _ => hloop ..

end Nozdormu.Packaging
