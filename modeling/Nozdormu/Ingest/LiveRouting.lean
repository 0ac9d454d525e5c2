import Nozdormu.Ingest.HttpHandler
import Nozdormu.Ingest.LiveNumbering

/-!
# What a live playlist names is served

Playlists are printed in one place and requests are parsed in another. Here the two meet: a
printed URI is parsed back to its numbers (`serveLiveRequest_uri` and the file names), and the
numbers find the object they were printed for, since no two objects of a stream share them
(`listed_served`).
-/

namespace Nozdormu.Ingest

open Rust Bmff Packaging Data Relation List

/-! ## Reading back a URI -/

variable {seg : LiveSegment} {part : LivePart}

section Uri

variable {store : LiveStreamStore} {app streamName : String}

theorem serveLiveRequest_uri (happ : '/' ∉ app.toList)
    (hname : '/' ∉ streamName.toList) (o : Listed) :
    serveLiveRequest store (o.uri (baseUrl app streamName))
      = serveFile store app streamName o.file.toList := by
  have hpath : (o.uri (baseUrl app streamName)).toList
      = "/live/" ++ (app.toList ++ '/' :: (streamName.toList ++ '/' :: o.file.toList)) := by
    simp [Listed.uri, baseUrl]
  rw [serveLiveRequest, hpath, stripStart_append, Option.bind_eq_bind, Option.bind_some,
    splitN_append happ, splitN_append hname]
  show serveFile store (String.ofList app.toList) (String.ofList streamName.toList)
    o.file.toList = _
  rw [String.ofList_toList, String.ofList_toList]

theorem file_ne_init (s : Str) : "seg" ++ s ≠ "init.mp4" := by
  intro h
  exact absurd (head_eq_of_cons_eq h) (by decide)

theorem serveLiveRequest_part (happ : '/' ∉ app.toList) (hname : '/' ∉ streamName.toList)
    {sequence : Nat} (hn : sequence < 2 ^ 64) (hk : part.index < 2 ^ 32) :
    serveLiveRequest store ((Listed.part sequence part).uri (baseUrl app streamName))
      = servePart store app streamName sequence part.index := by
  have hfile : (Listed.part sequence part).file.toList
      = "seg" ++ (digits sequence ++ "_part" ++ digits part.index ++ ".mp4") := by
    simp [Listed.file, digits]
  have hmem : '_' ∈ digits sequence ++ "_part" ++ digits part.index := by simp
  have hsplit : splitOnce "_part" (digits sequence ++ "_part" ++ digits part.index)
      = some (digits sequence, digits part.index) := splitOnce_append (not_mem_digits rfl _) _
  rw [serveLiveRequest_uri happ hname, hfile, serveFile, if_neg (file_ne_init _)]
  -- the file of a part is not taken for that of a segment
  simp only [parseSegmentFilename, parsePartFilename, stripStart_append, stripEnd_append,
    Option.bind_eq_bind, Option.bind_some, if_pos hmem, hsplit, parseUInt_digits hn,
      parseUInt_digits hk]
  rfl

end Uri

/-! ## Finding the object -/

section Lookup

variable {p : Profile} {live : Live}

section

variable (h : LiveInv p live)
include h

theorem LiveInv.nodup_sequences (hkept : live.stream.segments.length < 2 ^ 64) :
    (live.stream.segments.map (·.sequence)).Nodup := by
  rw [h.sequences]
  exact nodup_counting (Nat.le_of_lt hkept)

theorem LiveInv.sequence_mod (hseg : seg ∈ live.stream.segments) :
    ∃ i, i < live.stream.segments.length ∧
      seg.sequence = (live.completed - live.stream.segments.length + i) % 2 ^ 64 := by
  obtain ⟨i, hi⟩ := List.getElem?_of_mem hseg
  exact ⟨i, (List.getElem?_eq_some_iff.1 hi).1, eq_of_map_eq_counting h.sequences hi⟩

theorem LiveInv.sequence_lt (hseg : seg ∈ live.stream.segments) : seg.sequence < 2 ^ 64 := by
  obtain ⟨i, -, hi⟩ := h.sequence_mod hseg
  rw [hi]
  exact Nat.mod_lt _ (Nat.two_pow_pos 64)

theorem LiveInv.current_lt : live.stream.currentPartSequence < 2 ^ 64 :=
  h.current ▸ Nat.mod_lt _ (Nat.two_pow_pos 64)

theorem LiveInv.sequence_ne_current (hkept : live.stream.segments.length < 2 ^ 64)
    (hseg : seg ∈ live.stream.segments) :
    seg.sequence ≠ live.stream.currentPartSequence := by
  obtain ⟨i, hi, hsequence⟩ := h.sequence_mod hseg
  intro heq
  -- the kept segments and the one in progress have numbers in a row
  have hcurrent : live.stream.currentPartSequence
      = (live.completed - live.stream.segments.length + live.stream.segments.length) % 2 ^ 64 := by
    rw [Nat.sub_add_cancel h.kept_le, h.current]
  rw [hsequence, hcurrent] at heq
  have hsame := counting_inj (Nat.succ_le_of_lt hkept) (Nat.lt_succ_of_lt hi)
    (Nat.lt_succ_self _) heq
  exact absurd hsame (Nat.ne_of_lt hi)

theorem LiveInv.findPart_closed (hkept : live.stream.segments.length < 2 ^ 64)
    (hseg : seg ∈ live.stream.segments) (index : Nat) :
    live.stream.findPart seg.sequence index = seg.parts.find? (·.index = index) := by
  rw [LiveStream.findPart, filter_numbered (h.nodup_sequences hkept) hseg,
    if_neg (h.sequence_ne_current hkept hseg), Option.or_none, List.findSome?_singleton]

theorem LiveInv.findPart_current (hkept : live.stream.segments.length < 2 ^ 64) (index : Nat) :
    live.stream.findPart live.stream.currentPartSequence index
      = live.stream.currentParts.find? (·.index = index) := by
  have hnone : live.stream.segments.filter (·.sequence = live.stream.currentPartSequence) = [] := by
    rw [filter_eq_nil_iff]
    intro seg hseg heq
    exact h.sequence_ne_current hkept hseg (of_decide_eq_true heq)
  rw [LiveStream.findPart, hnone, if_pos rfl]
  rfl

theorem LiveInv.index_lt (hpart : part ∈ live.stream.currentParts) : part.index < 2 ^ 32 := by
  obtain ⟨i, hi⟩ := List.getElem?_of_mem hpart
  rw [h.index_eq hi]
  exact Nat.mod_lt _ (Nat.two_pow_pos 32)

end

end Lookup

/-! ## Everything listed is served -/

def Served (store : LiveStreamStore) (app streamName : String) (o : Listed) : Prop :=
  ∃ response, serveLiveRequest store (o.uri (baseUrl app streamName)) = some response ∧
    response.status = 200 ∧ response.body = o.data

theorem mem_listed {s : LiveStream} {o : Listed} :
    o ∈ s.listed ↔ (∃ data, s.initSegment = some data ∧ o = .init data) ∨
      (∃ seg ∈ s.segments, o = .segment seg) ∨
      s.llHlsEnabled = true ∧
        ((∃ seg ∈ s.segments, ∃ part ∈ seg.parts, o = .part seg.sequence part) ∨
          ∃ part ∈ s.currentParts, o = .part s.currentPartSequence part) := by
  have hif : ∀ l : List Listed, o ∈ (if s.llHlsEnabled then l else []) ↔
      s.llHlsEnabled = true ∧ o ∈ l := by
    intro l
    split
    next hll => rw [and_iff_right hll]
    next hll => exact ⟨nofun, fun h => absurd h.1 hll⟩
  simp only [LiveStream.listed, mem_append, Option.mem_toList, Option.map_eq_some_iff,
    mem_flatMap, hif, mem_map, mem_singleton]
  constructor
  · rintro ((⟨data, hdata, rfl⟩ | ⟨seg, hseg, ⟨hll, part, hpart, rfl⟩ | rfl⟩) |
      ⟨hll, part, hpart, rfl⟩)
    · exact Or.inl ⟨data, hdata, rfl⟩
    · exact Or.inr (Or.inr ⟨hll, Or.inl ⟨seg, hseg, part, hpart, rfl⟩⟩)
    · exact Or.inr (Or.inl ⟨seg, hseg, rfl⟩)
    · exact Or.inr (Or.inr ⟨hll, Or.inr ⟨part, hpart, rfl⟩⟩)
  · rintro (⟨data, hdata, rfl⟩ | ⟨seg, hseg, rfl⟩ |
      ⟨hll, ⟨seg, hseg, part, hpart, rfl⟩ | ⟨part, hpart, rfl⟩⟩)
    · exact Or.inl (Or.inl ⟨data, hdata, rfl⟩)
    · exact Or.inl (Or.inr ⟨seg, hseg, Or.inr rfl⟩)
    · exact Or.inl (Or.inr ⟨seg, hseg, Or.inl ⟨hll, part, hpart, rfl⟩⟩)
    · exact Or.inr ⟨hll, part, hpart, rfl⟩

theorem segment_mem_listed {s : LiveStream} : Listed.segment seg ∈ s.listed ↔ seg ∈ s.segments := by
  constructor
  · intro h
    rcases mem_listed.1 h with ⟨_, _, heq⟩ | ⟨seg', hseg, heq⟩ |
      ⟨-, ⟨_, _, _, _, heq⟩ | ⟨_, _, heq⟩⟩
    · cases heq
    · exact Listed.segment.inj heq ▸ hseg
    · cases heq
    · cases heq
  · exact fun h => mem_listed.2 (Or.inr (Or.inl ⟨seg, h, rfl⟩))

theorem part_mem_listed {s : LiveStream} {n : Nat} :
    Listed.part n part ∈ s.listed ↔ s.llHlsEnabled = true ∧
      ((∃ seg ∈ s.segments, seg.sequence = n ∧ part ∈ seg.parts) ∨
        n = s.currentPartSequence ∧ part ∈ s.currentParts) := by
  constructor
  · intro h
    rcases mem_listed.1 h with ⟨_, _, heq⟩ | ⟨_, _, heq⟩ |
      ⟨hll, ⟨seg, hseg, q, hq, heq⟩ | ⟨q, hq, heq⟩⟩
    · cases heq
    · cases heq
    · cases heq
      exact ⟨hll, Or.inl ⟨seg, hseg, rfl, hq⟩⟩
    · cases heq
      exact ⟨hll, Or.inr ⟨rfl, hq⟩⟩
  · rintro ⟨hll, ⟨seg, hseg, rfl, hpart⟩ | ⟨rfl, hpart⟩⟩
    · exact mem_listed.2 (Or.inr (Or.inr ⟨hll, Or.inl ⟨seg, hseg, part, hpart, rfl⟩⟩))
    · exact mem_listed.2 (Or.inr (Or.inr ⟨hll, Or.inr ⟨part, hpart, rfl⟩⟩))

section Serve

variable {p : Profile} {live : Live} {store : LiveStreamStore} {app streamName : String}

theorem served_of_findPart (happ : '/' ∉ app.toList) (hname : '/' ∉ streamName.toList)
    (hstore : store.getStream app streamName = some live.stream) {sequence : Nat}
    (hn : sequence < 2 ^ 64) (hk : part.index < 2 ^ 32)
    (hfind : live.stream.findPart sequence part.index = some part) :
    Served store app streamName (.part sequence part) := by
  refine ⟨.media part.data "max-age=1", ?_, rfl, rfl⟩
  rw [serveLiveRequest_part happ hname hn hk, servePart, hstore, Option.map_some, hfind]

/-- Every object a playlist names is served with its bytes, as long as the part counter has not
wrapped. -/
theorem listed_served {segmentDuration partDuration : Float} {llHls : Bool} {maxSegments : Nat}
    (h : Reachable p segmentDuration partDuration llHls maxSegments live)
    (hmax : maxSegments < 2 ^ 64) (hcounted : PartsCounted p live)
    (happ : '/' ∉ app.toList) (hname : '/' ∉ streamName.toList)
    (hstore : store.getStream app streamName = some live.stream) :
    ∀ o ∈ live.stream.listed, Served store app streamName o := by
  intro o ho
  have hinv := liveInv_of_reachable h
  have hkept : live.stream.segments.length < 2 ^ 64 := Nat.lt_of_le_of_lt (kept_le_max h) hmax
  rcases mem_listed.1 ho with ⟨data, hdata, rfl⟩ | ⟨seg, hseg, rfl⟩ |
    ⟨-, ⟨seg, hseg, part, hpart, rfl⟩ | ⟨part, hpart, rfl⟩⟩
  · refine ⟨.media data "max-age=86400", ?_, rfl, rfl⟩
    have hfile : (Listed.init data).file.toList = "init.mp4" := rfl
    rw [serveLiveRequest_uri happ hname, serveFile, if_pos hfile, serveInitSegment, hstore,
      Option.map_some, hdata]
  · refine ⟨.media seg.data "max-age=3600", ?_, rfl, rfl⟩
    have hfile : (Listed.segment seg).file.toList = "seg" ++ (digits seg.sequence ++ ".mp4") := by
      simp [Listed.file, digits]
    rw [serveLiveRequest_uri happ hname, hfile, serveFile, if_neg (file_ne_init _)]
    simp only [parseSegmentFilename, stripStart_append, stripEnd_append, Option.bind_eq_bind,
      Option.bind_some]
    rw [if_neg (not_mem_digits rfl _), parseUInt_digits (hinv.sequence_lt hseg)]
    simp only [serveSegment, hstore, Option.map_some,
      find?_numbered (hinv.nodup_sequences hkept) hseg]
  · obtain ⟨hlen, hindex⟩ := hinv.lastPart seg hseg
    refine served_of_findPart happ hname hstore (hinv.sequence_lt hseg) (hindex part hpart) ?_
    -- it is the only part of its segment
    obtain ⟨only, hparts⟩ : ∃ only, seg.parts = [only] :=
      length_eq_one_iff.1 (Nat.le_antisymm hlen (length_pos_of_mem hpart))
    rw [hparts] at hpart
    rw [hinv.findPart_closed hkept hseg, hparts, mem_singleton.1 hpart]
    exact List.find?_cons_of_pos (decide_eq_true rfl)
  · refine served_of_findPart happ hname hstore hinv.current_lt (hinv.index_lt hpart) ?_
    have hnodup : (live.stream.currentParts.map (·.index)).Nodup := by
      rw [hinv.indices]
      exact nodup_counting (hinv.parts_le hcounted)
    rw [hinv.findPart_current hkept, find?_numbered hnodup hpart]

end Serve

def storeOf (s : LiveStream) : LiveStreamStore := ⟨[("live/test", 0)], [s], 10, 100⟩

theorem getStream_storeOf (s : LiveStream) : (storeOf s).getStream "live" "test" = some s := rfl

theorem listed_served_parts :
    ∃ live, Reachable .release 6.0 0.5 true 10 live ∧ live.stream.currentParts.length = 3 ∧
      ∀ o ∈ live.stream.listed, Served (storeOf live.stream) "live" "test" o := by
  obtain ⟨live, first, rest, hpath, hparts, hlen, -⟩ := exists_parts 10 2
  have hreach : Reachable .release 6.0 0.5 true 10 live := path_of_ingest hpath
  have hlen : live.stream.currentParts.length = 3 := by rw [hparts, length_cons, hlen]
  have hcounted : PartsCounted .release live := fun _ => by omega
  exact ⟨live, hreach, hlen, listed_served hreach (by decide) hcounted (by decide) (by decide)
    (getStream_storeOf _)⟩

theorem VideoFragment.read {samples : List LiveSample} {base : UInt64} {data : Bytes}
    (h : VideoFragment samples base data)
    (hsize : liveSegmentSize [⟨1, base, computeDurations samples⟩] < 2 ^ 31) :
    demuxFragment data
      = some [LiveTrackData.fragmentTrack ⟨1, base, computeDurations samples⟩ |>.player] := by
  obtain ⟨seq, hdata⟩ := h
  rw [generateLiveMediaSegment_eq _ seq (by omega)] at hdata
  rw [← Except.ok.inj hdata, demuxFragment_live hsize]
  rfl

/-- The part behind `2 ^ 32` others has the number of the first, and is answered with its bytes. -/
theorem listed_served_wraps : ∃ live o, Reachable .release 6.0 0.5 true 10 live ∧
    o ∈ live.stream.listed ∧
      ¬ Served (storeOf live.stream) "live" "test" o := by
  obtain ⟨live, first, rest, hpath, hparts, hlen, hfirst, hrest, -⟩ := exists_parts 10 (2 ^ 32)
  have hreach : Reachable .release 6.0 0.5 true 10 live := path_of_ingest hpath
  have hinv := liveInv_of_reachable hreach
  obtain ⟨-, -, -, -, hll⟩ := (liveInv_start ..).path hreach
  have hlt : 2 ^ 32 < live.stream.currentParts.length := by
    rw [hparts, length_cons, hlen]
    omega
  obtain ⟨part, hpart⟩ : ∃ part, live.stream.currentParts[2 ^ 32]? = some part :=
    ⟨_, List.getElem?_eq_getElem hlt⟩
  have hindex : part.index = 0 := hinv.index_eq hpart
  have hmem := mem_of_getElem? hpart
  refine ⟨live, .part live.stream.currentPartSequence part, hreach, ?_, ?_⟩
  · exact part_mem_listed.2 ⟨hll, Or.inr ⟨rfl, hmem⟩⟩
  rintro ⟨response, hserve, -, hbody⟩
  have hfind : live.stream.findPart live.stream.currentPartSequence part.index = some first := by
    have hzero : first.index = 0 := hinv.index_eq (i := 0) (by rw [hparts]; rfl)
    have hkept := Nat.lt_of_le_of_lt (kept_le_max hreach) (by decide : 10 < 2 ^ 64)
    rw [hinv.findPart_current hkept, hparts, hindex]
    exact List.find?_cons_of_pos (decide_eq_true hzero)
  rw [serveLiveRequest_part (by decide) (by decide) hinv.current_lt (hinv.index_lt hmem), servePart,
    getStream_storeOf, Option.map_some, hfind] at hserve
  cases hserve
  -- both are one fragment, but one has one sample and the other has two
  have hdata : first.data = part.data := hbody
  have hother : part ∈ rest := by
    rw [hparts] at hpart
    exact mem_of_getElem? hpart
  have hread := hfirst.read (by decide +kernel)
  rw [hdata, (hrest part hother).read (by decide +kernel)] at hread
  exact absurd hread (by decide +kernel)

end Nozdormu.Ingest
