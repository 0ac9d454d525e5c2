import Nozdormu.Ingest.LiveRouting

/-!
# How long a part is served
-/

namespace Nozdormu.Ingest

open Rust Data Relation List

/-- The segment with this number is in progress, or kept. -/
def LiveStream.Present (s : LiveStream) (n : Nat) : Prop :=
  n = s.currentPartSequence ∨ ∃ seg ∈ s.segments, seg.sequence = n

/-- Every part that `live` lists is listed and served the same way by `later`, if its segment is
in progress or kept there. -/
def PartsPersist (live later : Live) : Prop :=
  ∀ n part, Listed.part n part ∈ live.stream.listed → later.stream.Present n →
    (∃ o ∈ later.stream.listed, o.file = (Listed.part n part).file) ∧
    ∀ (app streamName : String) (before after : LiveStreamStore),
      '/' ∉ app.toList → '/' ∉ streamName.toList →
      before.getStream app streamName = some live.stream →
      after.getStream app streamName = some later.stream →
      ∃ response, response.status = 200 ∧
        serveLiveRequest before ((Listed.part n part).uri (baseUrl app streamName))
          = some response ∧
        serveLiveRequest after ((Listed.part n part).uri (baseUrl app streamName)) = some response

/-- A segment is closed only if it has no parts yet, or if it is not kept anyway. -/
def ClosesWithoutParts (p : Profile) (live live' : Live) : Prop :=
  LiveStep p live live' ∧ (live'.completed ≠ live.completed →
    live.stream.currentParts = [] ∨ live.stream.maxSegments = 0)

/-! ## Parts and their numbers -/

section Find

variable {p : Profile} {live : Live} {n k : Nat} {part : LivePart}

theorem mem_of_findPart {s : LiveStream} (h : s.findPart n k = some part) :
    part.index = k ∧ ((∃ seg ∈ s.segments, seg.sequence = n ∧ part ∈ seg.parts) ∨
      n = s.currentPartSequence ∧ part ∈ s.currentParts) := by
  rcases Option.or_eq_some_iff.1 h with hclosed | ⟨-, hcurrent⟩
  · obtain ⟨seg, hseg, hfind⟩ := exists_of_findSome?_eq_some hclosed
    obtain ⟨hmem, hsequence⟩ := mem_filter.1 hseg
    have hindex := List.find?_some hfind
    exact ⟨of_decide_eq_true hindex,
      Or.inl ⟨seg, hmem, of_decide_eq_true hsequence, mem_of_find?_eq_some hfind⟩⟩
  · split at hcurrent
    next heq =>
      have hindex := List.find?_some hcurrent
      exact ⟨of_decide_eq_true hindex, Or.inr ⟨heq, mem_of_find?_eq_some hcurrent⟩⟩
    next => cases hcurrent

theorem exists_findPart (h : LiveInv p live) (hkept : live.stream.segments.length < 2 ^ 64)
    (hpart : Listed.part n part ∈ live.stream.listed) :
    live.stream.llHlsEnabled = true ∧ n < 2 ^ 64 ∧ part.index < 2 ^ 32 ∧
      ∃ found, live.stream.findPart n part.index = some found := by
  have hfind : ∀ {l : List LivePart}, part ∈ l →
      ∃ found, l.find? (·.index = part.index) = some found := fun hmem =>
    Option.isSome_iff_exists.1 (List.find?_isSome.2 ⟨part, hmem, decide_eq_true rfl⟩)
  rcases part_mem_listed.1 hpart with ⟨hll, ⟨seg, hseg, rfl, hq⟩ | ⟨rfl, hq⟩⟩
  · obtain ⟨found, hfound⟩ := hfind hq
    exact ⟨hll, h.sequence_lt hseg, (h.lastPart seg hseg).2 part hq, found,
      (h.findPart_closed hkept hseg _).trans hfound⟩
  · obtain ⟨found, hfound⟩ := hfind hq
    exact ⟨hll, h.current_lt, h.index_lt hq, found, (h.findPart_current hkept _).trans hfound⟩

end Find

/-! ## Along a run -/

section Run

variable {p : Profile} {live mid later : Live} {n k : Nat} {part : LivePart}

theorem findPart_step (h : LiveInv p live) (hstep : ClosesWithoutParts p live later)
    (hlt : later.completed < 2 ^ 64) (hle : n ≤ live.completed)
    (hfind : live.stream.Present n → live.stream.findPart n k = some part)
    (hn : later.stream.Present n) : later.stream.findPart n k = some part := by
  have hinv := h.step hstep.1
  have hkept := Nat.lt_of_le_of_lt (h.kept_le.trans (h.completed_le hstep.1)) hlt
  have hkept' := Nat.lt_of_le_of_lt hinv.kept_le hlt
  rcases h.grows_or_closes hstep.1 with ⟨new, hsegments, hcurrent, hparts⟩ |
    ⟨seg, hsequence, hsegments, hcompleted⟩
  · rw [LiveStream.Present, hsegments, hcurrent] at hn
    rw [LiveStream.findPart, hsegments, hparts, hcurrent]
    -- parts are added to the segment in progress
    rcases Option.or_eq_some_iff.1 (hfind hn) with hclosed | ⟨hnone, hfound⟩
    · rw [hclosed, Option.some_or]
    · rw [hnone, Option.none_or]
      split at hfound
      next heq => rw [if_pos heq, List.find?_append, hfound, Option.some_or]
      next => cases hfound
  -- the number in progress is new, so it is one of the kept segments
  have hnew : n ≠ later.stream.currentPartSequence := by
    rw [hinv.current_eq hlt, hcompleted]
    omega
  obtain ⟨kept, hmem, rfl⟩ := hn.resolve_left hnew
  rw [hinv.findPart_closed hkept' hmem]
  rw [hsegments] at hmem
  rcases mem_append.1 (mem_of_mem_drop hmem) with hold | hold
  · rw [← h.findPart_closed hkept hold]
    exact hfind (Or.inr ⟨kept, hold, rfl⟩)
  -- the segment that was just closed had no parts
  obtain rfl := mem_singleton.1 hold
  have hprogress : kept.sequence = live.stream.currentPartSequence := by
    rw [hsequence, h.current]
  have hfound := hfind (Or.inl hprogress)
  rw [hprogress, h.findPart_current hkept] at hfound
  rcases hstep.2 (by omega) with hempty | hzero
  · rw [hempty] at hfound
    cases hfound
  · rw [hzero, Nat.sub_zero, drop_eq_nil_of_le (by simp)] at hmem
    cases hmem

theorem path_of_closesWithoutParts (hpath : ReflTransGen (ClosesWithoutParts p) live later) :
    ReflTransGen (LiveStep p) live later :=
  ReflTransGen.mono (fun _ _ hstep => hstep.1) _ _ hpath

theorem findPart_path (h : LiveInv p live) (hpath : ReflTransGen (ClosesWithoutParts p) live later)
    (hlt : later.completed < 2 ^ 64) (hle : n ≤ live.completed)
    (hfind : live.stream.findPart n k = some part) :
    later.stream.Present n → later.stream.findPart n k = some part := by
  induction hpath with
  | refl => exact fun _ => hfind
  | @tail mid later hpath hstep ih =>
    obtain ⟨hinv, hcompleted, -⟩ := h.path (path_of_closesWithoutParts hpath)
    exact findPart_step hinv hstep hlt (hle.trans hcompleted)
      (ih (Nat.lt_of_le_of_lt (hinv.completed_le hstep.1) hlt))

/-- In runs where segments are closed before they have parts, and the segment counter has not
wrapped, a listed part stays listed and served. -/
theorem parts_persist {segmentDuration partDuration : Float} {llHls : Bool} {maxSegments : Nat}
    (hlive : ReflTransGen (ClosesWithoutParts p)
      (.start segmentDuration partDuration llHls maxSegments) live)
    (hlater : ReflTransGen (ClosesWithoutParts p) live later) (hcounted : SegmentsCounted p later) :
    PartsPersist live later := by
  intro n part hpart hn
  have hinv := liveInv_of_reachable (path_of_closesWithoutParts hlive)
  obtain ⟨hinv', hcompleted, -, -, hll⟩ := hinv.path (path_of_closesWithoutParts hlater)
  have hlt' := hinv'.completed_lt hcounted
  have hlt := Nat.lt_of_le_of_lt hcompleted hlt'
  obtain ⟨hlisted, hsequence, hindex, found, hfound⟩ :=
    exists_findPart hinv (Nat.lt_of_le_of_lt hinv.kept_le hlt) hpart
  -- behind the segment in progress there is nothing
  have hle : n ≤ live.completed := by
    rcases (mem_of_findPart hfound).2 with ⟨seg, hseg, rfl, -⟩ | ⟨rfl, -⟩
    · exact Nat.le_of_lt (hinv.sequence_mem hlt hseg).2
    · exact Nat.le_of_eq (hinv.current_eq hlt)
  -- the lookup finds the same part later, and a request is answered by the lookup
  have hfound' := findPart_path hinv hlater hlt' hle hfound hn
  obtain ⟨hsame, hmem⟩ := mem_of_findPart hfound'
  refine ⟨⟨.part n found, ?_, ?_⟩, ?_⟩
  · exact part_mem_listed.2 ⟨hll.trans hlisted, hmem⟩
  · rw [Listed.file, Listed.file, hsame]
  · intro app streamName before after happ hname hbefore hafter
    refine ⟨.media found.data "max-age=1", rfl, ?_, ?_⟩
    · rw [serveLiveRequest_part happ hname hsequence hindex, servePart, hbefore,
        Option.map_some, hfound]
    · rw [serveLiveRequest_part happ hname hsequence hindex, servePart, hafter,
        Option.map_some, hfound']

end Run

/-- The part of `ClosesWithoutParts` that can be evaluated. -/
def keepsParts (live live' : Live) : Bool :=
  live'.completed = live.completed ∨ live.stream.currentParts = [] ∨ live.stream.maxSegments = 0

theorem closesWithoutParts_of_keepsParts {p : Profile} (live live' : Live)
    (hstep : IngestStep p live live') (hkeeps : keepsParts live live' = true) :
    ClosesWithoutParts p live live' :=
  ⟨.ingest hstep, fun hne => (of_decide_eq_true hkeeps).resolve_left hne⟩

/-- Two keyframes six seconds apart: the part was cut with the segment, and stays. -/
theorem parts_persist_keyframes :
    ∃ live later, ReflTransGen (ClosesWithoutParts .release) (.start 6.0 0.5 true 10) live ∧
      ReflTransGen (ClosesWithoutParts .release) live later ∧
      live.stream.listed.map Listed.file = ["init.mp4", "seg0_part0.mp4", "seg0.mp4"] ∧
      PartsPersist live later := by
  have hrun : ((Live.start 6.0 0.5 true 10).withVideo.pushFrames .release keepsParts
      [videoFrame 0 0 true, videoFrame 540000 540000 true]).any (fun live =>
        live.stream.listed.map Listed.file = ["init.mp4", "seg0_part0.mp4", "seg0.mp4"] ∧
          (live.pushFrames .release keepsParts [videoFrame 543000 543000 false]).any
            fun later => later.completed = 1) = true := by
    decide +kernel
  obtain ⟨live, hpath, hlive⟩ := exists_path closesWithoutParts_of_keepsParts hrun
  obtain ⟨hlisted, hrun⟩ := of_decide_eq_true hlive
  obtain ⟨later, hlater, hcompleted⟩ := exists_path closesWithoutParts_of_keepsParts hrun
  have hlive : ReflTransGen (ClosesWithoutParts .release) (.start 6.0 0.5 true 10) live :=
    .head ⟨.ingest (.videoConfig ..), fun hne => absurd rfl hne⟩ hpath
  have hcounted : SegmentsCounted .release later := fun _ => by
    rw [of_decide_eq_true hcompleted]
    decide
  exact ⟨live, later, hlive, hlater, hlisted, parts_persist hlive hlater hcounted⟩

/-- A playlist lists the first part, and the next keyframe closes its segment without it. -/
theorem parts_persist_cut_fails :
    ∃ live later, Reachable .release 6.0 0.5 true 10 live ∧
      ReflTransGen (LiveStep .release) live later ∧ ¬ PartsPersist live later := by
  have hrun : ((Live.start 6.0 0.5 true 10).withVideo.pushFrames .release (fun _ _ => true)
      [videoFrame 0 0 true, videoFrame 45000 45000 false]).any (fun live =>
        live.stream.llHlsEnabled = true ∧ live.stream.currentPartSequence = 0 ∧
          live.stream.currentParts.map (·.index) = [0] ∧
          (live.pushFrames .release (fun _ _ => true) [videoFrame 540000 540000 true]).any
            fun later => later.stream.segments.map (·.sequence) = [0] ∧
              later.stream.listed.map Listed.file = ["init.mp4", "seg0_part1.mp4", "seg0.mp4"]) =
                true := by
    decide +kernel
  obtain ⟨live, hreach, hlive⟩ := exists_reachable hrun
  obtain ⟨hll, hcurrent, hparts, hrun⟩ := of_decide_eq_true hlive
  obtain ⟨later, hpath, hlater⟩ :=
    exists_path (R := LiveStep .release) (fun _ _ hstep _ => .ingest hstep) hrun
  obtain ⟨hsegments, hlisted⟩ := of_decide_eq_true hlater
  refine ⟨live, later, hreach, hpath, fun hpersist => ?_⟩
  obtain ⟨part, hpart, hindex⟩ : ∃ part ∈ live.stream.currentParts, part.index = 0 :=
    mem_map.1 (hparts ▸ mem_singleton_self 0)
  obtain ⟨seg, hseg, hsequence⟩ : ∃ seg ∈ later.stream.segments, seg.sequence = 0 :=
    mem_map.1 (hsegments ▸ mem_singleton_self 0)
  have hmem : Listed.part 0 part ∈ live.stream.listed :=
    part_mem_listed.2 ⟨hll, Or.inr ⟨hcurrent.symm, hpart⟩⟩
  obtain ⟨⟨o, ho, hfile⟩, -⟩ := hpersist 0 part hmem (Or.inr ⟨seg, hseg, hsequence⟩)
  have hfile : o.file = "seg0_part0.mp4" := by
    rw [hfile, Listed.file, hindex]
    rfl
  have hgone : "seg0_part0.mp4" ∈ later.stream.listed.map Listed.file :=
    mem_map.2 ⟨o, ho, hfile⟩
  rw [hlisted] at hgone
  exact absurd hgone (by decide)

end Nozdormu.Ingest
