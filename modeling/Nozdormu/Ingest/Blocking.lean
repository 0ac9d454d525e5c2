import Nozdormu.Ingest.LiveRouting

/-!
# Blocking playlist requests

`cdn-ingest/src/manifest/blocking.rs`: a request that asks for a segment or a part looks once
under the read lock, once more under the write lock, and then registers and waits to be sent
to, or for its timeout. Each look is one step here, and between any two steps of a request
other requests and the ingest side take theirs (`ServerStep`).
-/

namespace Nozdormu.Ingest

open Rust Bmff Data Relation List

inductive WaitPhase where
  | checking
  | registering
  | waiting
  | returned (result : Except IngestError Unit)

structure WaitRequest where
  targetMsn : Nat
  targetPart : Option Nat
  phase : WaitPhase

/-- A stream, and the calls that were ever made for it. -/
structure Server where
  live : Live
  requests : List WaitRequest

namespace Server

variable (s : Server) (i : Nat)

def move (phase : WaitPhase) : Server :=
  { s with requests := s.requests.modify i fun r => { r with phase } }

/-- The first look, under the read lock. -/
def check (r : WaitRequest) : Server :=
  s.move i (if s.live.stream.isReady r.targetMsn r.targetPart then .returned (.ok ())
    else .registering)

/-- The second look, under the write lock; without the target a sender is left behind. -/
def register (r : WaitRequest) : Server :=
  if s.live.stream.isReady r.targetMsn r.targetPart then s.move i (.returned (.ok ()))
  else
    { s.move i .waiting with
      live := { s.live with stream := s.live.stream.addWaiter r.targetMsn r.targetPart i } }

end Server

inductive ServerStep (p : Profile) : Server → Server → Prop where
  | ingest {s : Server} {live : Live} (h : IngestStep p s.live live) : ServerStep p
      s { s with live }
  | arrive (s : Server) (targetMsn : Nat) (targetPart : Option Nat) :
      ServerStep p s { s with requests := s.requests ++ [⟨targetMsn, targetPart, .checking⟩] }
  | check {s : Server} {i : Nat} {r : WaitRequest} (hr : s.requests[i]? = some r)
      (h : r.phase = .checking) : ServerStep p s (s.check i r)
  | register {s : Server} {i : Nat} {r : WaitRequest} (hr : s.requests[i]? = some r)
      (h : r.phase = .registering) : ServerStep p s (s.register i r)
  /-- its sender is gone: used, or dropped with the stream -/
  | wake {s : Server} {i : Nat} {r : WaitRequest} (hr : s.requests[i]? = some r)
      (h : r.phase = .waiting) (hsent : ∀ w ∈ s.live.stream.waiters, w.sender ≠ i) :
      ServerStep p s (s.move i (.returned (.ok ())))
  /-- the receiver is dropped, the sender stays registered -/
  | timeout {s : Server} {i : Nat} {r : WaitRequest} (hr : s.requests[i]? = some r)
      (h : r.phase = .waiting) : ServerStep p s (s.move i (.returned (.error .timeout)))

/-- Runs from a new stream without requests. -/
def ServerReachable (p : Profile) (segmentDuration partDuration : Float) (llHls : Bool)
    (maxSegments : Nat) (s : Server) : Prop :=
  ReflTransGen (ServerStep p) ⟨.start segmentDuration partDuration llHls maxSegments, []⟩ s

section Live

variable {p : Profile} {s s' : Server}

theorem ServerStep.live (h : ServerStep p s s') : s'.live = s.live ∨ LiveStep p s.live s'.live := by
  cases h with
  | ingest h => exact Or.inr (.ingest h)
  | arrive | check | wake | timeout => exact Or.inl rfl
  | @register i r =>
    unfold Server.register
    split
    next => exact Or.inl rfl
    next hnot => exact Or.inr (.register i (Bool.eq_false_iff.2 hnot))

theorem live_path (h : ReflTransGen (ServerStep p) s s') :
    ReflTransGen (LiveStep p) s.live s'.live := by
  induction h with
  | refl => exact .refl
  | tail _ hstep ih =>
    rcases hstep.live with hsame | hlive
    · rw [hsame]; exact ih
    · exact ih.tail hlive

end Live

/-! ## Who is registered waits for something -/

/-- Nobody is registered for what is there. -/
def Pending (s : LiveStream) : Prop := ∀ w ∈ s.waiters, s.isReady w.targetMsn w.targetPart = false

theorem pending_notifyWaiters (s : LiveStream) : Pending s.notifyWaiters := by
  intro w hw
  obtain ⟨-, hnot⟩ := mem_filter.1 hw
  exact Bool.not_eq_true' _ ▸ hnot

variable {p : Profile}

variable {live' live : Live}

theorem Pending.step (h : Pending live.stream) (hstep : LiveStep p live live') :
    Pending live'.stream := by
  rcases hstep with hstep | ⟨sender, hnot⟩
  case register =>
    intro w hw
    rcases mem_append.1 hw with hw | hw
    · exact h w hw
    · obtain rfl := mem_singleton.1 hw
      exact hnot
  cases hstep with
  | videoConfig | audioConfig => exact h
  | finish => exact nofun
  | @frame frame out segmenter stream hpush happly =>
    refine applySegmenterOutput_induction (fun _ => h) (fun _ _ _ => pending_notifyWaiters _)
      (fun _ _ _ _ hsegment => ?_) happly
    obtain ⟨⟨kept, media⟩, -, hsegment⟩ := bind_eq_ok.1 hsegment
    obtain ⟨next, -, hsegment⟩ := bind_eq_ok.1 hsegment
    cases hsegment
    exact pending_notifyWaiters _

theorem pending_of_path (h : Pending live.stream)
    (hpath : ReflTransGen (LiveStep p) live live') : Pending live'.stream := by
  induction hpath with
  | refl => exact h
  | tail _ hstep ih => exact ih.step hstep

/-! ## What is there stays there -/

/-- The segment in progress has the part, or any part if none is asked for. -/
def LiveStream.HasProgress (s : LiveStream) : Option Nat → Prop
  | none => s.currentParts ≠ []
  | some part => part < s.currentParts.length

theorem LiveStream.HasProgress.mono {s s' : LiveStream} {part : Option Nat} (h : s.HasProgress part)
    (hle : s.currentParts.length ≤ s'.currentParts.length) : s'.HasProgress part := by
  cases part with
  | none => exact length_pos_iff.1 (Nat.lt_of_lt_of_le (length_pos_iff.2 h) hle)
  | some part => exact Nat.lt_of_lt_of_le h hle

theorem isAvailable_iff {s : LiveStream} {n : Nat} {part : Option Nat} :
    s.isAvailable n part = true ↔ (∃ last, s.segments.getLast? = some last ∧ n ≤ last.sequence) ∨
      n = s.currentPartSequence ∧ s.HasProgress part := by
  cases part with
  | none | some => simp [LiveStream.isAvailable, LiveStream.HasProgress, Option.any_eq_true]

section Available

variable {p : Profile} {live live' : Live} {n : Nat} {part : Option Nat}

section

variable (h : LiveInv p live)
include h

theorem LiveInv.last_mod {last : LiveSegment} (hlast : live.stream.segments.getLast? = some last) :
    0 < live.completed ∧ last.sequence = (live.completed - 1) % 2 ^ 64 := by
  rw [List.getLast?_eq_getElem?] at hlast
  have hlen := (List.getElem?_eq_some_iff.1 hlast).1
  have hle := h.kept_le
  refine ⟨by omega, ?_⟩
  rw [eq_of_map_eq_counting h.sequences hlast]
  congr 1
  omega

theorem LiveInv.last_sequence (hlt : live.completed < 2 ^ 64) {last : LiveSegment}
    (hlast : live.stream.segments.getLast? = some last) : last.sequence + 1 = live.completed := by
  obtain ⟨hpos, hsequence⟩ := h.last_mod hlast
  omega

theorem isAvailable_step (hmax : 0 < live.stream.maxSegments)
    (hlt : live'.completed < 2 ^ 64) (hstep : LiveStep p live live')
    (havailable : live.stream.isAvailable n part = true) :
    live'.stream.isAvailable n part = true := by
  have hlt' := Nat.lt_of_le_of_lt (h.completed_le hstep) hlt
  rw [isAvailable_iff] at havailable ⊢
  rcases h.grows_or_closes hstep with ⟨new, hsegments, hcurrent, hparts⟩ |
    ⟨seg, hsequence, hsegments, hcompleted⟩
  · rw [hsegments, hcurrent]
    refine havailable.imp_right fun hpart => ⟨hpart.1, hpart.2.mono ?_⟩
    rw [hparts, length_append]
    exact Nat.le_add_right ..
  -- the segment that was closed is kept, and nothing available was behind it
  refine Or.inl ⟨seg, ?_, ?_⟩
  · rw [hsegments, drop_append_of_le_length (by omega), List.getLast?_concat]
  · rw [hsequence, Nat.mod_eq_of_lt hlt']
    rcases havailable with ⟨last, hlast, hn⟩ | ⟨rfl, -⟩
    · have := h.last_sequence hlt' hlast
      omega
    · exact Nat.le_of_eq (h.current_eq hlt')

theorem isAvailable_path (hmax : 0 < live.stream.maxSegments)
    (hpath : ReflTransGen (LiveStep p) live live') (hlt : live'.completed < 2 ^ 64)
    (havailable : live.stream.isAvailable n part = true) :
    live'.stream.isAvailable n part = true := by
  induction hpath with
  | refl => exact havailable
  | @tail mid live' hpath hstep ih =>
    obtain ⟨hinv, -, -, hsame, -⟩ := h.path hpath
    exact isAvailable_step hinv (hsame ▸ hmax) hlt hstep
      (ih (Nat.lt_of_le_of_lt (hinv.completed_le hstep) hlt))

end

end Available

/-! ## No wake-up is lost -/

section Wake

variable {p : Profile} {s : Server} {segmentDuration partDuration : Float} {llHls : Bool}
  {maxSegments : Nat}

/-- Nobody is registered for what is there, or with a stream that has ended; and what is there
stays there, as long as the segment counter has not wrapped. -/
theorem waiters_pending (hmax : 0 < maxSegments)
    (h : ServerReachable p segmentDuration partDuration llHls maxSegments s) :
    (∀ w ∈ s.live.stream.waiters, s.live.stream.isAvailable w.targetMsn w.targetPart = false) ∧
      (s.live.stream.ended = true → s.live.stream.waiters = []) ∧
      ∀ later, ReflTransGen (ServerStep p) s later → SegmentsCounted p later.live →
        ∀ targetMsn targetPart, s.live.stream.isAvailable targetMsn targetPart = true →
          later.live.stream.isAvailable targetMsn targetPart = true := by
  have hpending := pending_of_path (by exact nofun) (live_path h)
  have hnot : ∀ w ∈ s.live.stream.waiters,
      s.live.stream.isAvailable w.targetMsn w.targetPart = false ∧ s.live.stream.ended = false :=
    fun w hw => Bool.or_eq_false_iff.1 (hpending w hw)
  refine ⟨fun w hw => (hnot w hw).1, ?_, ?_⟩
  · intro hended
    refine eq_nil_iff_forall_not_mem.2 fun w hw => ?_
    rw [(hnot w hw).2] at hended
    cases hended
  intro later hpath hcounted targetMsn targetPart havailable
  have hlive := live_path hpath
  obtain ⟨hinv, -, -, hsame, -⟩ := (liveInv_start ..).path (live_path h)
  obtain ⟨hinv', -⟩ := hinv.path hlive
  have hmax' : 0 < s.live.stream.maxSegments := hsame ▸ hmax
  exact isAvailable_path hinv hmax' hlive (hinv'.completed_lt hcounted) havailable

end Wake

/-- A request for segment 0 of a new stream arrives, looks twice, and registers. -/
theorem waiters_pending_first :
    ∃ s, ServerReachable .release 6.0 0.5 true 10 s ∧ s.live.stream.waiters = [⟨0, none, 0⟩] ∧
      ∀ w ∈ s.live.stream.waiters, s.live.stream.isAvailable w.targetMsn w.targetPart = false := by
  let server requests : Server := ⟨.start 6.0 0.5 true 10, requests⟩
  have harrive : ServerStep .release (server []) (server [⟨0, none, .checking⟩]) := .arrive _ 0 none
  have hcheck : ServerStep .release (server [⟨0, none, .checking⟩])
      (server [⟨0, none, .registering⟩]) :=
    ServerStep.check (s := server [⟨0, none, .checking⟩]) (i := 0) rfl rfl
  have hregister : ServerStep .release (server [⟨0, none, .registering⟩])
      ((server [⟨0, none, .registering⟩]).register 0 ⟨0, none, .registering⟩) := .register rfl rfl
  have hreach : ServerReachable .release 6.0 0.5 true 10
      ((server [⟨0, none, .registering⟩]).register 0 ⟨0, none, .registering⟩) :=
    .head harrive (.head hcheck (.single hregister))
  exact ⟨_, hreach, rfl, (waiters_pending (by decide) hreach).1⟩

theorem server_path (h : ReflTransGen (IngestStep p) live live') :
    ReflTransGen (ServerStep p) ⟨live, []⟩ ⟨live', []⟩ := by
  induction h with
  | refl => exact .refl
  | tail _ hstep ih => exact ih.tail (.ingest hstep)

/-- When the segment counter wraps, what was there is there no longer. -/
theorem waiters_pending_wraps : ∃ s later, ServerReachable .release 6.0 0.5 false 10 s ∧
      ReflTransGen (ServerStep .release) s later ∧
      s.live.stream.isAvailable 5 none = true ∧ later.live.stream.isAvailable 5 none = false := by
  obtain ⟨live, hstart, hbetween, hcompleted⟩ := exists_segments 10 (2 ^ 64)
  obtain ⟨later, hlate, -, hlater⟩ := exists_segments_from live hbetween 1
  obtain ⟨hinv, -, -, hmax, -⟩ := (liveInv_start ..).path (path_of_ingest hstart)
  obtain ⟨hinv', -⟩ := hinv.path (path_of_ingest hlate)
  refine ⟨⟨live, []⟩, ⟨later, []⟩, server_path hstart, server_path hlate, ?_, ?_⟩
  · have hkept : live.stream.segments.length = 10 := by rw [hinv.kept, hcompleted, hmax]; rfl
    have hne : live.stream.segments ≠ [] := length_pos_iff.1 (by omega)
    have hlast := List.getLast?_eq_getLast_of_ne_nil hne
    refine isAvailable_iff.2 (Or.inl ⟨_, hlast, ?_⟩)
    rw [(hinv.last_mod hlast).2, hcompleted]
    decide
  · refine Bool.eq_false_iff.2 fun havailable => ?_
    rcases isAvailable_iff.1 havailable with ⟨last, hlast, hle⟩ | ⟨hcurrent, -⟩
    · rw [(hinv'.last_mod hlast).2, hlater, hcompleted] at hle
      exact absurd hle (by decide)
    · rw [hinv'.current, hlater, hcompleted] at hcurrent
      exact absurd hcurrent (by decide)

/-! ## What a request is told and what it gets -/

def ListsSegmentFrom (s : LiveStream) (n : Nat) : Prop :=
  ∃ seg, Listed.segment seg ∈ s.listed ∧ n ≤ seg.sequence

/-- The playlist has the segment, or this part of it. -/
def ListsSegmentOrPart (s : LiveStream) (n index : Nat) : Prop :=
  (∃ seg, Listed.segment seg ∈ s.listed ∧ seg.sequence = n) ∨
    ∃ part, Listed.part n part ∈ s.listed ∧ part.index = index

section Told

variable {p : Profile} {live : Live} {n : Nat}

/-- A segment that was evicted is said to be there, and is not in the playlist. -/
theorem LiveInv.listsSegmentOrPart_iff (h : LiveInv p live)
    (hlt : live.completed < 2 ^ 64) {k : Nat}
    (hk : k < 2 ^ 32) (havailable : live.stream.isAvailable n (some k) = true) :
    ListsSegmentOrPart live.stream n k ↔ live.stream.mediaSequence ≤ n := by
  have hmedia := h.media_eq hlt
  constructor
  · rintro (⟨seg, hseg, rfl⟩ | ⟨part, hpart, -⟩)
    · exact (h.sequence_mem hlt (segment_mem_listed.1 hseg)).1
    · rcases part_mem_listed.1 hpart with ⟨-, ⟨seg, hseg, rfl, -⟩ | ⟨rfl, -⟩⟩
      · exact (h.sequence_mem hlt hseg).1
      · rw [h.current_eq hlt, hmedia]
        exact Nat.sub_le ..
  · intro hle
    rcases isAvailable_iff.1 havailable with ⟨last, hlast, hlast_le⟩ | ⟨rfl, hprogress⟩
    · -- the segment is at its place in the window
      have hsequence := h.last_sequence hlt hlast
      have hi : n - live.stream.mediaSequence < live.stream.segments.length := by omega
      obtain ⟨seg, hseg⟩ : ∃ seg, live.stream.segments[n - live.stream.mediaSequence]? = some seg :=
        ⟨_, List.getElem?_eq_getElem hi⟩
      refine Or.inl ⟨seg, segment_mem_listed.2 (mem_of_getElem? hseg), ?_⟩
      rw [h.sequence_eq hlt hseg]
      omega
    · have hi : k < live.stream.currentParts.length := hprogress
      obtain ⟨part, hpart⟩ : ∃ part, live.stream.currentParts[k]? = some part :=
        ⟨_, List.getElem?_eq_getElem hi⟩
      have hll : live.stream.llHlsEnabled = true := by
        refine Bool.not_eq_false _ ▸ fun hplain => ?_
        rw [h.plain hplain] at hi
        exact absurd hi (Nat.not_lt_zero k)
      have hmem := mem_of_getElem? hpart
      refine Or.inr ⟨part, part_mem_listed.2 ⟨hll, Or.inr ⟨rfl, hmem⟩⟩, ?_⟩
      rw [h.index_eq hpart, Nat.mod_eq_of_lt hk]

/-- When a request is told that its target is there, the playlist has it, except for a segment in
progress, or one that was evicted. -/
theorem available_listed_iff {segmentDuration partDuration : Float} {llHls : Bool}
    {maxSegments : Nat} (h : Reachable p segmentDuration partDuration llHls maxSegments live)
    (hcounted : SegmentsCounted p live) (targetMsn : Nat) :
    (live.stream.isAvailable targetMsn none = true →
      (ListsSegmentFrom live.stream targetMsn ↔ targetMsn ≠ live.stream.currentPartSequence)) ∧
    ∀ targetPart, targetPart < 2 ^ 32 → live.stream.isAvailable targetMsn (some targetPart) = true →
      (ListsSegmentOrPart live.stream targetMsn targetPart ↔ live.stream.mediaSequence ≤
        targetMsn) := by
  have hinv := liveInv_of_reachable h
  have hlt := hinv.completed_lt hcounted
  refine ⟨fun havailable => ⟨?_, fun hne => ?_⟩, fun targetPart hpart =>
    hinv.listsSegmentOrPart_iff hlt hpart⟩
  · -- a part in progress says that the segment is there, but it is not in the playlist
    rintro ⟨seg, hseg, hle⟩ rfl
    obtain ⟨-, hbelow⟩ := hinv.sequence_mem hlt (segment_mem_listed.1 hseg)
    rw [hinv.current_eq hlt] at hle
    exact absurd hbelow (Nat.not_lt.2 hle)
  · rcases isAvailable_iff.1 havailable with ⟨last, hlast, hle⟩ | ⟨heq, -⟩
    · exact ⟨last, segment_mem_listed.2 (mem_of_getLast? hlast), hle⟩
    · exact absurd heq hne

end Told

/-- Segment 0 is closed. -/
theorem available_listed_closed :
    ∃ live, Reachable .release 6.0 0.5 true 10 live ∧ live.stream.isAvailable 0 none = true ∧
      ListsSegmentFrom live.stream 0 := by
  have hrun : ((Live.start 6.0 0.5 true 10).withVideo.pushFrames .release (fun _ _ => true)
      [videoFrame 0 0 true, videoFrame 540000 540000 true]).any (fun live =>
        live.completed = 1 ∧ live.stream.currentPartSequence = 1 ∧
          live.stream.isAvailable 0 none = true) = true := by
    decide +kernel
  obtain ⟨live, hreach, hlive⟩ := exists_reachable hrun
  obtain ⟨hcompleted, hcurrent, havailable⟩ := of_decide_eq_true hlive
  have hcounted : SegmentsCounted .release live := fun _ => by omega
  have hne : 0 ≠ live.stream.currentPartSequence := by omega
  exact ⟨live, hreach, havailable, ((available_listed_iff hreach hcounted 0).1 havailable).2 hne⟩

/-- A part of segment 0 is there, and a request for the segment gets a playlist without it; with
room for one segment, a request for a part of segment 0 gets a playlist that begins at 1. -/
theorem available_listed_fails :
    (∃ live, Reachable .release 6.0 0.5 true 10 live ∧ live.stream.ended = false ∧
        live.stream.isAvailable 0 none = true ∧ ¬ ListsSegmentFrom live.stream 0) ∧
      ∃ live, Reachable .release 6.0 0.5 true 1 live ∧ live.stream.ended = false ∧
        live.stream.isAvailable 0 (some 0) = true ∧ ¬ ListsSegmentOrPart live.stream 0 0 := by
  refine ⟨?_, ?_⟩
  · have hrun : ((Live.start 6.0 0.5 true 10).withVideo.pushFrames .release (fun _ _ => true)
        [videoFrame 0 0 true, videoFrame 45000 45000 false]).any (fun live =>
          live.stream.ended = false ∧ live.stream.isAvailable 0 none = true ∧
            live.stream.segments = []) = true := by
      decide +kernel
    obtain ⟨live, hreach, hlive⟩ := exists_reachable hrun
    obtain ⟨hended, havailable, hsegments⟩ := of_decide_eq_true hlive
    refine ⟨live, hreach, hended, havailable, ?_⟩
    rintro ⟨seg, hseg, -⟩
    rw [segment_mem_listed, hsegments] at hseg
    cases hseg
  · have hrun : ((Live.start 6.0 0.5 true 1).withVideo.pushFrames .release (fun _ _ => true)
        [videoFrame 0 0 true, videoFrame 540000 540000 true, videoFrame 543000 543000 false,
          videoFrame 1083000 1083000 true]).any (fun live =>
          live.stream.ended = false ∧ live.stream.isAvailable 0 (some 0) = true ∧
            live.completed = 2 ∧ live.stream.mediaSequence = 1) = true := by
      decide +kernel
    obtain ⟨live, hreach, hlive⟩ := exists_reachable hrun
    obtain ⟨hended, havailable, hcompleted, hmedia⟩ := of_decide_eq_true hlive
    refine ⟨live, hreach, hended, havailable, fun hlists => ?_⟩
    have hle := ((liveInv_of_reachable hreach).listsSegmentOrPart_iff (by omega) (by decide)
      havailable).1 hlists
    omega

end Nozdormu.Ingest
