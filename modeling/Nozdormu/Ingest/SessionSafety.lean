import Nozdormu.Ingest.SegmenterSafety
import Nozdormu.Ingest.Session

/-!
# When a session panics
-/

namespace Nozdormu.Ingest

open Rust Bmff Packaging List

/-- The stream's counters have room for one more segment. -/
def LiveStream.RoomForSegment (s : LiveStream) : Prop :=
  (s.maxSegments < s.segments.length + 1 →
    s.mediaSequence + (s.segments.length + 1 - s.maxSegments) < 2 ^ 64) ∧
      s.nextSequence + 1 < 2 ^ 64

theorem returnsIff_evict (maxSegments : Nat) : ∀ (segments : List LiveSegment) (media : Nat),
    ReturnsIff (LiveStream.evict .dev maxSegments segments media)
      (maxSegments < segments.length → media + (segments.length - maxSegments) < 2 ^ 64) := by
  intro segments
  induction segments with
  | nil => intro media; exact .of_eq_ok rfl fun h => absurd h (Nat.not_lt_zero _)
  | cons seg segs ih =>
    intro media
    unfold LiveStream.evict
    split
    next hlt =>
      refine (spec_add.bind_returnsIff fun _ => ih (media + 1)).congr ?_
      rw [length_cons] at hlt ⊢
      omega
    next hle => exact .of_eq_ok rfl fun hlt => absurd hlt hle

theorem roomForSegment_pushParts (parts : List LivePart) : ∀ s : LiveStream,
    (parts.foldl LiveStream.pushPart s).RoomForSegment ↔ s.RoomForSegment := by
  induction parts with
  | nil => exact fun _ => Iff.rfl
  | cons part parts ih => exact fun s => ih (s.pushPart part)

theorem returnsIff_applySegmenterOutput (s : LiveStream) (out : SegmenterOutput) :
    ReturnsIff (applySegmenterOutput .dev s out)
      (out.completedSegment.isSome = true → s.RoomForSegment) := by
  unfold applySegmenterOutput
  -- neither the init segment nor a part touches a counter
  have hinit : (out.initSegment.elim s s.setInitSegment).RoomForSegment ↔ s.RoomForSegment := by
    cases out.initSegment with
    | none | some => exact Iff.rfl
  split
  next hnone => exact .of_eq_ok rfl (by rw [hnone]; exact nofun)
  next segment hsegment =>
    unfold LiveStream.pushSegment
    refine ((returnsIff_evict _ _ _).bind_const fun r _ => returnsIff_add.map _).congr ?_
    rw [length_append, length_singleton]
    refine (roomForSegment_pushParts ..).trans (hinit.trans ?_)
    rw [hsegment]
    exact (imp_iff_right rfl).symm

/-- What a message holds for the segmenter. -/
inductive Content where
  | nothing
  | config (record : Bytes)
  | frame (frame : FrameData)

def Content.toTag (parse : Bytes → Exec IngestError FlvTag) : Content → Exec IngestError FlvTag
  | .nothing => return .ignored
  | .config record => orIgnored (parse record)
  | .frame f => return .frame f

/-- An AVC message; the time stamp is in milliseconds. -/
def videoContent (timestamp : UInt32) : Bytes → Content
  | d₀ :: d₁ :: d₂ :: d₃ :: d₄ :: payload =>
    if d₀ &&& 0x0F ≠ 7 then .nothing
    else if d₁ = 0 then
      if payload = [] then .nothing else .config payload
    else if d₁ = 1 then
      .frame {
        track := .video, data := payload, isKeyframe := (d₀ >>> 4 &&& 0x0F) = 1
        dts := UInt64.ofNat (timestamp.toNat * 90)
        pts := (Int64.ofInt (timestamp.toNat * 90 + (compositionTime d₂ d₃ d₄).toInt * 90)).toUInt64
          }
    else .nothing
  | _ => .nothing

def audioContent (timestamp : UInt32) : Bytes → Content
  | d₀ :: d₁ :: payload =>
    if d₀ >>> 4 &&& 0x0F ≠ 10 then .nothing
    else if d₁ = 0 then
      if payload = [] then .nothing else .config payload
    else if d₁ = 1 then
      .frame {
        track := .audio, data := payload, isKeyframe := true
        dts := UInt64.ofNat (timestamp.toNat * 48000 / 1000)
        pts := UInt64.ofNat (timestamp.toNat * 48000 / 1000) }
    else .nothing
  | _ => .nothing

theorem slice_rest {ε : Type} (head rest : Bytes) {n : Nat} (hn : head.length = n) :
    (slice (head ++ rest) n (head ++ rest).length : Exec ε Bytes) = .ok rest := by
  subst hn
  rw [slice_ok (by simp) (Nat.le_refl _), drop_left, length_append, Nat.add_sub_cancel_left,
    take_length]

theorem noFault_orIgnored {x : Exec IngestError FlvTag} : NoFault (orIgnored x) ↔ NoFault x := by
  rcases x with (e | k) | tag
  · exact iff_of_true (noFault_ok _) (noFault_err e)
  · exact Iff.rfl
  · exact Iff.rfl

theorem eq_ok_of_orIgnored {x : Exec IngestError FlvTag} {tag : FlvTag}
    (h : orIgnored x = .ok tag) :
    tag = .ignored ∨ x = .ok tag := by
  rcases x with (e | k) | tag'
  · exact .inl (Except.ok.inj h).symm
  · cases h
  · exact .inr h

section Messages

variable (p : Profile) (timestamp : UInt32) (data : Bytes)

theorem parseFlvVideoTag_eq (decode : SpsDecoder) :
    (p.mul 64 timestamp.toNat 90 >>= fun ticks =>
      parseFlvVideoTag p decode data (UInt64.ofNat ticks))
      = (videoContent timestamp data).toTag fun record =>
          fromAvcc p decode record >>= fun config => .ok (.videoConfig config) := by
  have htime : timestamp.toNat < 2 ^ 32 := timestamp.toNat_lt
  rw [mul_ok p (by omega), ok_bind]
  unfold videoContent
  split
  next d₀ d₁ d₂ d₃ d₄ payload =>
    have hslice : (slice (d₀ :: d₁ :: d₂ :: d₃ :: d₄ :: payload) 5
        (d₀ :: d₁ :: d₂ :: d₃ :: d₄ :: payload).length : Exec IngestError Bytes) = .ok payload :=
      slice_rest [d₀, d₁, d₂, d₃, d₄] payload rfl
    rw [parseFlvVideoTag, if_neg (by simp)]
    simp only [index, List.getElem?_cons_zero, List.getElem?_cons_succ, ok_bind]
    split_ifs
    · rfl
    · simp_all
    · rw [hslice]
      rfl
    · rfl
    · simp_all
    · -- 32 bits of milliseconds, and 32 bits of composition time
      have hlow := (compositionTime d₂ d₃ d₄).le_toInt
      have hhigh := (compositionTime d₂ d₃ d₄).toInt_lt
      have hdts : (UInt64.ofNat (timestamp.toNat * 90)).toInt64.toInt =
          (timestamp.toNat * 90 : Int) := by
        rw [UInt64.toInt64_ofNat', Int64.toInt_ofNat_of_lt (by omega)]
        rfl
      rw [hdts, signed_ok p (by omega), ok_bind, signed_ok p (by omega), ok_bind, hslice]
      rfl
    · rfl
  next hshort =>
    rw [parseFlvVideoTag, if_pos ?_]
    · rfl
    · rcases data with _ | ⟨d₀, _ | ⟨d₁, _ | ⟨d₂, _ | ⟨d₃, _ | ⟨d₄, rest⟩⟩⟩⟩⟩
      iterate 5 simp
      exact absurd rfl (hshort d₀ d₁ d₂ d₃ d₄ rest)

theorem parseFlvAudioTag_eq : parseFlvAudioTag p data (UInt64.ofNat timestamp.toNat)
      = (audioContent timestamp data).toTag fun record =>
          fromAudioSpecificConfig record >>= fun config => .ok (.audioConfig config) := by
  have htime : timestamp.toNat < 2 ^ 32 := timestamp.toNat_lt
  unfold audioContent
  split
  next d₀ d₁ payload =>
    have hslice : (slice (d₀ :: d₁ :: payload) 2 (d₀ :: d₁ :: payload).length : Exec
        IngestError Bytes)
        = .ok payload := slice_rest [d₀, d₁] payload rfl
    rw [parseFlvAudioTag, if_neg (by simp)]
    simp only [index, List.getElem?_cons_zero, List.getElem?_cons_succ, ok_bind]
    split_ifs
    · rfl
    · simp_all
    · rw [hslice]
      rfl
    · rfl
    · simp_all
    · -- scaled to 48 kHz, 32 bits of milliseconds take less than 48
      have hmillis : (UInt64.ofNat timestamp.toNat).toNat = timestamp.toNat :=
        UInt64.toNat_ofNat_of_lt (Nat.lt_trans htime (by decide))
      rw [hmillis, mul_ok p (by omega), ok_bind, hslice]
      rfl
    · rfl
  next hshort =>
    rw [parseFlvAudioTag, if_pos ?_]
    · rfl
    · rcases data with _ | ⟨d₀, _ | ⟨d₁, rest⟩⟩
      iterate 2 simp
      exact absurd rfl (hshort d₀ d₁ rest)

end Messages

namespace Session

/-- With overflow checks: the frame can be pushed, and if it closes a segment, the stream has
room for it. -/
structure FrameSafe (segmenter : LiveSegmenter) (stream : Option LiveStream) (frame : FrameData) :
    Prop where
  push : segmenter.FrameSafe frame
  room : segmenter.EndsSegment .dev frame → ∀ s ∈ stream, s.RoomForSegment

/-- The content of a message is no obstacle to the session; `readable` is what its codec asks of
a configuration. -/
def ContentSafe (p : Profile) (s : Session) (readable : Bytes → Prop) (content : Content) : Prop :=
  ∀ segmenter ∈ s.segmenter, ∀ handle ∈ s.liveStream,
    match content with
    | .nothing => True
    | .config record => readable record
    | .frame frame => p = .dev → FrameSafe segmenter s.store.objects[handle]? frame

def EventSafe (p : Profile) (env : SessionEnv) (s : Session) : SessionEvent → Prop
  | .connectionRequested _ => True
  | .publishStreamRequested streamKey =>
    -- the log line does not cut a character
    env.infoEnabled = true → CharBoundary streamKey.toList (min (byteLen streamKey.toList) 8)
  | .videoDataReceived data timestamp =>
    s.ContentSafe p (fun bytes => ∀ record, readAvcc bytes = .ok record →
      SpsFits p env.decode record.sps)
      (videoContent timestamp data)
  | .audioDataReceived data timestamp => s.ContentSafe p (fun _ => True)
      (audioContent timestamp data)
  | .publishStreamFinished => True

theorem noFault_publish (env : SessionEnv) (s : Session) (streamKey : String) :
    NoFault (s.publish env streamKey) ↔
      (env.infoEnabled = true → CharBoundary streamKey.toList (min (byteLen streamKey.toList) 8)) :=
        by
  unfold publish
  rw [noFault_bind]
  -- behind the log line, a request is refused or accepted
  refine (and_iff_left fun _ _ => ?_).trans ?_
  · refine NoFault.bind ?_ fun r => NoFault.bind ?_ fun r => noFault_ok _
    · unfold validateStreamKey
      split
      · exact noFault_ok _
      · exact noFault_fail _
    · exact noFault_ensure_bind.2 fun _ => noFault_ensure_bind.2 fun _ => noFault_ok _
  · exact (ReturnsIff.ite fun _ => (returnsIff_strPrefix ..).map _).noFault_iff

theorem noFault_frame (p : Profile) (segmenter : LiveSegmenter)
    (store : LiveStreamStore) (handle : Nat)
    (frame : FrameData) (f : LiveSegmenter → LiveStreamStore → Session) :
    NoFault (segmenter.pushFrame p frame >>= fun r =>
        modifyStream store handle (fun stream => applySegmenterOutput p stream r.1) >>= fun store =>
        pure (f r.2 store)) ↔
      (p = .dev → FrameSafe segmenter store.objects[handle]? frame) := by
  cases p with
  | release =>
    -- nothing is checked, and everything returns
    refine iff_of_true ?_ nofun
    refine (segmenter.returns_pushFrame_release frame).noFault.bind fun r => ?_
    refine NoFault.bind ?_ fun _ => noFault_ok _
    unfold modifyStream
    split
    next => exact noFault_ok _
    next stream _ =>
      exact ((returns_applySegmenterOutput_release stream r.1).bind fun _ _ => ⟨_, rfl⟩).noFault
  | dev =>
    -- the counters of the stream matter only if the frame closes a segment
    have hmodify : ∀ r, segmenter.pushFrame .dev frame = .ok r →
        ReturnsIff (modifyStream store handle fun stream => applySegmenterOutput .dev stream r.1)
          (segmenter.EndsSegment .dev frame → ∀ s ∈ store.objects[handle]?, s.RoomForSegment) := by
      intro r hr
      have hcloses : r.1.completedSegment.isSome = true ↔ segmenter.EndsSegment .dev frame := by
        obtain ⟨out, s'⟩ := r
        cases LiveSegmenter.pushed_of_pushFrame hr with
        | keep hsegment | part hsegment => exact iff_of_false Bool.false_ne_true hsegment
        | segment hends _ => exact iff_of_true rfl hends
      unfold modifyStream
      split
      next hnone => exact .of_eq_ok rfl (by rw [hnone]; exact nofun)
      next stream hsome =>
        refine ((returnsIff_applySegmenterOutput stream r.1).map _).congr ?_
        rw [hcloses, hsome]
        simp
    rw [((segmenter.returnsIff_pushFrame frame).bind_const fun r hr =>
      (hmodify r hr).map _).noFault_iff]
    exact ⟨fun h _ => ⟨h.1, h.2⟩, fun h => ⟨(h rfl).push, (h rfl).room⟩⟩

/-- A message goes through exactly if its content does; `readable` is when a configuration is
parsed without a fault. -/
theorem noFault_receive {p : Profile} {s : Session} {parse : Bytes → Exec IngestError FlvTag}
    {readable : Bytes → Prop} (hreads : ∀ record, NoFault (parse record) ↔ readable record)
    (hconfig : ∀ record frame, parse record ≠ .ok (.frame frame)) (content : Content) :
    NoFault (s.receive p (content.toTag parse)) ↔ s.ContentSafe p readable content := by
  unfold receive ContentSafe
  split
  next segmenter handle hsegmenter hhandle =>
    simp only [hsegmenter, hhandle, Option.mem_def, Option.some.injEq, forall_eq']
    cases content with
    | nothing => exact iff_of_true (noFault_ok _) trivial
    | config record =>
      rw [noFault_bind, Content.toTag, noFault_orIgnored, hreads]
      -- a configuration reaches the segmenter, or is dropped; neither can fault
      refine and_iff_left fun tag htag => ?_
      cases tag with
      | ignored | videoConfig | audioConfig => exact noFault_ok _
      | frame frame =>
        rcases eq_ok_of_orIgnored htag with h | h
        · cases h
        · exact absurd h (hconfig record frame)
    | frame frame =>
      exact noFault_frame p segmenter s.store handle frame fun segmenter store =>
        { s with segmenter := some segmenter, liveStream := some handle, store }
  next hnone =>
    refine iff_of_true (noFault_ok _) fun segmenter hsegmenter handle hhandle => ?_
    exact absurd hhandle (hnone segmenter handle hsegmenter)

theorem noFault_handleEvent (p : Profile) (env : SessionEnv) (s : Session) (event : SessionEvent) :
    NoFault (s.handleEvent p env event) ↔ s.EventSafe p env event := by
  cases event with
  | connectionRequested _ => exact iff_of_true (noFault_ok _) trivial
  | publishStreamRequested streamKey => exact s.noFault_publish env streamKey
  | videoDataReceived data timestamp =>
    show NoFault (s.receive p (p.mul 64 timestamp.toNat 90 >>= fun ticks =>
      parseFlvVideoTag p env.decode data (UInt64.ofNat ticks))) ↔ _
    rw [parseFlvVideoTag_eq]
    refine noFault_receive (fun record => ?_) (fun record frame h => ?_) _
    · rw [noFault_bind, noFault_fromAvcc]
      exact and_iff_left fun _ _ => noFault_ok _
    · obtain ⟨config, -, h⟩ := bind_eq_ok.1 h
      cases h
  | audioDataReceived data timestamp =>
    show NoFault (s.receive p (parseFlvAudioTag p data (UInt64.ofNat timestamp.toNat))) ↔ _
    rw [parseFlvAudioTag_eq]
    refine noFault_receive (fun record => ?_) (fun record frame h => ?_) _
    · exact iff_of_true ((noFault_fromAudioSpecificConfig record).bind fun _ =>
        noFault_ok _) trivial
    · obtain ⟨config, -, h⟩ := bind_eq_ok.1 h
      cases h
  | publishStreamFinished => exact iff_of_true (noFault_ok _) trivial

def RunSafe (p : Profile) (env : SessionEnv) : (rounds : List (LiveStreamStore × SessionEvent)) →
    (s : Session) → Prop
  | [], _ => True
  | (store, event) :: rounds, s =>
    { s with store }.EventSafe p env event ∧
      ∀ s', { s with store }.handleEvent p env event = .ok s' → RunSafe p env rounds s'

end Session

/-- A connection never panics exactly if every event it comes to is safe: a publish request that
is logged has a key with a character boundary at byte eight, and with overflow checks a frame
does not lie before the open segment or part, and the numbers and sizes fit. -/
theorem session_noFault_iff (p : Profile) (env : SessionEnv) (store : LiveStreamStore)
    (rounds : List (LiveStreamStore × SessionEvent)) :
    NoFault (handleRtmpConnection p env store rounds) ↔
    (Session.new store).RunSafe p env rounds := by
  show NoFault ((Session.new store).run p env rounds) ↔ _
  generalize Session.new store = s
  induction rounds generalizing s with
  | nil => exact iff_of_true (noFault_ok _) trivial
  | cons round rounds ih =>
    unfold Session.run Session.RunSafe
    rw [noFault_bind, Session.noFault_handleEvent]
    exact and_congr_right fun _ => forall_congr' fun s' => imp_congr_right fun _ => ih s'

/-- Nobody has to be authenticated: a key whose eighth byte is inside a character is enough, where
log lines of level `info` are written. -/
theorem session_noFault_fails :
    ¬ NoFault (handleRtmpConnection .release ⟨⟨[], 6.0, 0.5, true⟩, fun _ => .error "",
      true⟩ (.new 10 10)
        [(.new 10 10, .connectionRequested "live"),
          (.new 10 10, .publishStreamRequested "1234567é")]) ∧
      ¬ NoFault (handleRtmpConnection .dev
        ⟨⟨[⟨"key", "live", "show", true⟩], 6.0, 0.5, true⟩, fun _ => .error "", true⟩ (.new 10 10)
        [(.new 10 10, .connectionRequested "live"), (.new 10 10, .publishStreamRequested "key"),
          (⟨[("live/show", 0)], [.new 6.0 0.5 true 10], 10, 10⟩,
            .videoDataReceived [0x17, 1, 0, 0, 0] 1000),
          (⟨[("live/show", 0)], [.new 6.0 0.5 true 10], 10, 10⟩,
            .videoDataReceived [0x27, 1, 0, 0, 0] 999)]) :=
  ⟨fun h => h .slice (by decide +kernel), fun h => h .overflow (by decide +kernel)⟩

end Nozdormu.Ingest
