import Nozdormu.Data.Units
import Nozdormu.Ingest.PesFrames
import Nozdormu.Ingest.SegmenterRun

/-!
# Reassembly of PES packets
-/

namespace Nozdormu.Ingest

open Rust Bmff Data

/-- A transport packet: 188 bytes, the first of them the sync byte. -/
structure TsPacket where
  bytes : Bytes
  length_bytes : bytes.length = 188
  sync : bytes.getD 0 0 = 0x47
deriving DecidableEq

namespace TsPacket

def pid (p : TsPacket) : UInt16 := pidOf (p.bytes.getD 1 0) (p.bytes.getD 2 0)

def starts (p : TsPacket) : Bool := p.bytes.getD 1 0 &&& 0x40 ≠ 0

def payloadOffset (p : TsPacket) : Nat :=
  if p.bytes.getD 3 0 &&& 0x20 ≠ 0 then 5 + (p.bytes.getD 4 0).toNat else 4

/-- Empty if there is none, by the flag or by the length of the adaptation field. -/
def payload (p : TsPacket) : Bytes :=
  if p.bytes.getD 3 0 &&& 0x10 = 0 then [] else p.bytes.drop p.payloadOffset

end TsPacket

def dataOf (packets : List TsPacket) : Bytes := packets.flatMap TsPacket.bytes

variable {d : TsDemuxer} (kind : TrackKind) {p : TsPacket}

namespace TsDemuxer

/-- A packet of the PAT or of the PMT. -/
def StartsSection (d : TsDemuxer) (p : TsPacket) : Prop :=
  p.starts = true ∧ (p.pid = 0 ∨ some p.pid = d.pmtPid)

instance (d : TsDemuxer) (p : TsPacket) : Decidable (d.StartsSection p) :=
  inferInstanceAs (Decidable (_ ∧ _))

def pid (d : TsDemuxer) : TrackKind → Option UInt16
  | .video => d.videoPid
  | .audio => d.audioPid

def pes (d : TsDemuxer) : TrackKind → PesTrack
  | .video => d.video
  | .audio => d.audio

def nextTrack (d : TsDemuxer) (kind : TrackKind) (p : TsPacket) : List FrameData × PesTrack :=
  if some p.pid = d.pid kind then (d.pes kind).next kind p.starts p.payload else ([], d.pes kind)

/-- What a packet without a section does. -/
def next (d : TsDemuxer) (p : TsPacket) : List FrameData × TsDemuxer :=
  if p.payload = [] then ([], d)
  else
    ((d.nextTrack .video p).1 ++ (d.nextTrack .audio p).1,
      { d with video := (d.nextTrack .video p).2, audio := (d.nextTrack .audio p).2 })

@[simp] theorem next_pmtPid (d : TsDemuxer) (p : TsPacket) : (d.next p).2.pmtPid = d.pmtPid := by
  unfold next
  split <;> rfl

@[simp] theorem next_pid (d : TsDemuxer) (p : TsPacket) (kind : TrackKind) :
    (d.next p).2.pid kind = d.pid kind := by
  unfold next
  split
  · rfl
  · cases kind <;> rfl

theorem nextTrack_of_pid (h : some p.pid = d.pid kind) :
    d.nextTrack kind p = (d.pes kind).next kind p.starts p.payload := if_pos h

theorem nextTrack_other (h : some p.pid ≠ d.pid kind) :
    d.nextTrack kind p = ([], d.pes kind) := if_neg h

theorem pushVideo_eq (d : TsDemuxer) (p : TsPacket) : d.pushVideo p.pid p.starts p.payload
    = .ok ((d.nextTrack .video p).1, { d with video := (d.nextTrack .video p).2 }) := by
  unfold pushVideo
  split
  next h => rw [nextTrack_of_pid .video h, PesTrack.push_eq]; rfl
  next h => rw [nextTrack_other .video h]; rfl

theorem pushAudio_eq (d : TsDemuxer) (p : TsPacket) : d.pushAudio p.pid p.starts p.payload
    = .ok ((d.nextTrack .audio p).1, { d with audio := (d.nextTrack .audio p).2 }) := by
  unfold pushAudio
  split
  next h => rw [nextTrack_of_pid .audio h, PesTrack.push_eq]; rfl
  next h => rw [nextTrack_other .audio h]; rfl

theorem pushPacket_eq (d : TsDemuxer) (p : TsPacket) : d.pushPacket p.bytes =
    if p.payload = [] then .ok ([], d)
    else if p.pid = 0 ∧ p.starts = true then (do return ([], ← d.parsePat p.payload))
    else if some p.pid = d.pmtPid ∧ p.starts = true then (do return ([], ← d.parsePmt p.payload))
    else .ok (d.next p) := by
  have hlen := p.length_bytes
  have hoffset : TsDemuxer.payloadOffset p.bytes (p.bytes.getD 3 0 &&& 0x20 ≠ 0)
      = .ok p.payloadOffset := by
    unfold TsDemuxer.payloadOffset TsPacket.payloadOffset
    rw [index_getD (by omega)]
    by_cases hadapt : p.bytes.getD 3 0 &&& 0x20 ≠ 0
    · rw [if_pos (decide_eq_true hadapt), if_pos hadapt]
      rfl
    · rw [if_neg (by rw [decide_eq_false hadapt]; simp), if_neg hadapt]
      rfl
  unfold pushPacket
  simp (disch := omega) only [index_getD, ok_bind]
  by_cases hflag : p.bytes.getD 3 0 &&& 0x10 = 0
  · rw [if_pos hflag, if_pos (by rw [TsPacket.payload, if_pos hflag])]
    rfl
  rw [if_neg hflag, hoffset, ok_bind]
  have hpayload : p.payload = p.bytes.drop p.payloadOffset := by
    rw [TsPacket.payload, if_neg hflag]
  by_cases hbeyond : 188 ≤ p.payloadOffset
  · rw [if_pos hbeyond, if_pos (by rw [hpayload, List.drop_eq_nil_iff]; omega)]
    rfl
  have hne : p.payload ≠ [] := by
    rw [hpayload, ne_eq, List.drop_eq_nil_iff]
    omega
  have hslice : (slice p.bytes p.payloadOffset 188 : Exec IngestError Bytes) = .ok p.payload := by
    rw [slice_ok (by omega) (by omega), List.take_of_length_le (by simp; omega), hpayload]
  have hnext : d.next p = ((d.nextTrack .video p).1 ++ (d.nextTrack .audio p).1,
      { d with video := (d.nextTrack .video p).2, audio := (d.nextTrack .audio p).2 }) := if_neg hne
  rw [if_neg hbeyond, hslice, ok_bind, if_neg hne, hnext]
  show (if p.pid = 0 ∧ p.starts = true then _ else if some p.pid = d.pmtPid ∧ p.starts = true then _
    else d.pushVideo p.pid p.starts p.payload >>= fun v =>
      v.2.pushAudio p.pid p.starts p.payload >>= fun a => pure (v.1 ++ a.1, a.2)) = _
  rw [pushVideo_eq, ok_bind, pushAudio_eq]
  rfl

theorem pushPacket_plain (h : ¬ d.StartsSection p) : d.pushPacket p.bytes = .ok (d.next p) := by
  rw [pushPacket_eq, if_neg (c := _ ∧ _) fun hpat => h ⟨hpat.2, .inl hpat.1⟩,
    if_neg (c := _ ∧ _) fun hpmt => h ⟨hpmt.2, .inr hpmt.1⟩, ← apply_ite Except.ok]
  unfold next
  split <;> rfl

def runPackets (d : TsDemuxer) : List TsPacket → List FrameData × TsDemuxer
  | [] => ([], d)
  | p :: packets =>
    ((d.next p).1 ++ ((d.next p).2.runPackets packets).1, ((d.next p).2.runPackets packets).2)

theorem runPackets_append (d : TsDemuxer) (l r : List TsPacket) : d.runPackets (l ++ r)
      = ((d.runPackets l).1 ++ ((d.runPackets l).2.runPackets r).1,
          ((d.runPackets l).2.runPackets r).2) := by
  induction l generalizing d with
  | nil => rfl
  | cons p l ih => simp only [List.cons_append, runPackets, ih, List.append_assoc]

@[simp] theorem runPackets_pmtPid (d : TsDemuxer) (packets : List TsPacket) :
    (d.runPackets packets).2.pmtPid = d.pmtPid := by
  induction packets generalizing d with
  | nil => rfl
  | cons p packets ih => rw [runPackets, ih, next_pmtPid]

theorem iterate_pushRound {data : Bytes} : ∀ {packets : List TsPacket} {d : TsDemuxer}
    {frames : List FrameData} {offset n : Nat}, (∀ p ∈ packets, ¬ d.StartsSection p) →
    data.drop offset = dataOf packets → packets.length < n →
    iterate (pushRound data) n (offset, frames, d)
      = .ok (frames ++ (d.runPackets packets).1, (d.runPackets packets).2) := by
  intro packets
  induction packets with
  | nil =>
    intro d frames offset n _ hdata hn
    obtain ⟨n, rfl⟩ := Nat.exists_eq_succ_of_ne_zero (Nat.ne_of_gt hn)
    have hend : ¬ offset + 188 ≤ data.length := by
      have := List.drop_eq_nil_iff.1 hdata
      omega
    rw [iterate, pushRound, if_neg hend]
    simp [runPackets]
  | cons p packets ih =>
    intro d frames offset n hsection hdata hn
    rw [List.forall_mem_cons] at hsection
    obtain ⟨n, rfl⟩ := Nat.exists_eq_succ_of_ne_zero (Nat.ne_of_gt (Nat.zero_lt_of_lt hn))
    have hdrop : data.drop offset = p.bytes ++ dataOf packets := by
      rw [hdata, dataOf, List.flatMap_cons]
      rfl
    have hlen : data.length = offset + 188 + (dataOf packets).length := by
      have := congrArg List.length hdrop
      rw [List.length_drop, List.length_append, p.length_bytes] at this
      omega
    have hsync : (index data offset : Exec IngestError UInt8) = .ok 0x47 := by
      rw [index_getD (by omega), ← p.sync]
      have hat : data[offset]? = p.bytes[0]? := by
        rw [← Nat.add_zero offset, ← List.getElem?_drop, hdrop,
          List.getElem?_append_left (by rw [p.length_bytes]; omega)]
      rw [List.getD_eq_getElem?_getD, List.getD_eq_getElem?_getD, hat]
    have hslice : (slice data offset (offset + 188) : Exec IngestError Bytes) = .ok p.bytes := by
      rw [slice_ok (by omega) (by omega), hdrop, Nat.add_sub_cancel_left, ← p.length_bytes,
        List.take_left]
    have hround : pushRound data (offset, frames, d)
        = .ok (.inr (offset + 188, frames ++ (d.next p).1, (d.next p).2)) := by
      rw [pushRound]
      simp only [if_pos (show offset + 188 ≤ data.length by omega), hsync, ok_bind, ne_eq,
        not_true_eq_false, if_false, hslice, pushPacket_plain hsection.1]
      rfl
    rw [iterate, hround, ok_bind]
    have hrest : data.drop (offset + 188) = dataOf packets := by
      rw [← List.drop_drop, hdrop, ← p.length_bytes, List.drop_left]
    show iterate (pushRound data) n _ = _
    rw [ih (fun q hq => by rw [StartsSection, next_pmtPid]; exact hsection.2 q hq) hrest
      (Nat.lt_of_succ_lt_succ hn), runPackets, List.append_assoc]

theorem pushData_packets {packets : List TsPacket} (h : ∀ p ∈ packets, ¬ d.StartsSection p) :
    d.pushData (dataOf packets) = .ok (d.runPackets packets) := by
  have hlen : packets.length ≤ (dataOf packets).length := by
    rw [dataOf, List.length_flatMap]
    clear h
    induction packets with
    | nil => exact Nat.le_refl _
    | cons p packets ih =>
      simp only [List.map_cons, List.sum_cons, List.length_cons, p.length_bytes]
      omega
  rw [pushData, iterate_pushRound h rfl (by omega), List.nil_append]

theorem pushCalls_packets : ∀ {calls : List (List TsPacket)} {d : TsDemuxer},
    (∀ p ∈ calls.flatten, ¬ d.StartsSection p) →
    d.pushCalls (calls.map dataOf) = .ok (d.runPackets calls.flatten) := by
  intro calls
  induction calls with
  | nil => intro d _; rfl
  | cons packets calls ih =>
    intro d h
    rw [List.flatten_cons, List.forall_mem_append] at h
    have hrest : ∀ p ∈ calls.flatten, ¬ (d.runPackets packets).2.StartsSection p := by
      intro p hp hs
      refine h.2 p hp ?_
      rwa [StartsSection, runPackets_pmtPid] at hs
    rw [List.map_cons, pushCalls, pushData_packets h.1, ok_bind]
    show ((d.runPackets packets).2.pushCalls (calls.map dataOf) >>= fun more =>
      pure ((d.runPackets packets).1 ++ more.1, more.2)) = _
    rw [ih hrest, List.flatten_cons, runPackets_append]
    rfl

/-! ## Arbitrary data -/

variable (payload : Bytes)

theorem returns_sectionOf : Returns (sectionOf payload) := by
  unfold sectionOf
  split
  next => exact ⟨_, rfl⟩
  next h =>
    rw [index_getD (List.length_pos_iff.2 h), ok_bind]
    dsimp only
    split
    next => exact ⟨_, rfl⟩
    next hlt => exact ⟨_, by rw [slice_ok (by omega) (Nat.le_refl _)]; rfl⟩

variable (d : TsDemuxer)

theorem returns_parsePat : Returns (d.parsePat payload) := by
  refine (returns_sectionOf payload).bind fun found _ => ?_
  cases found with
  | none => exact ⟨_, rfl⟩
  | some data =>
    dsimp only
    split
    next => exact ⟨_, rfl⟩
    next hlen =>
      simp (disch := omega) only [index_getD, ok_bind]
      split
      · exact ⟨_, rfl⟩
      generalize hstop : min _ data.length - 4 = stop
      refine returns_iterate (μ := fun s => stop - s.1) ?_ (by omega)
      rintro ⟨i, d⟩
      rw [patEntry]
      split
      next hi =>
        simp (disch := omega) only [index_getD, ok_bind]
        refine ⟨_, rfl, ?_⟩
        rintro _ ⟨⟩
        omega
      next => exact ⟨_, rfl, nofun⟩

theorem returns_parsePmt : Returns (d.parsePmt payload) := by
  refine (returns_sectionOf payload).bind fun found _ => ?_
  cases found with
  | none => exact ⟨_, rfl⟩
  | some data =>
    dsimp only
    split
    next => exact ⟨_, rfl⟩
    next hlen =>
      simp (disch := omega) only [index_getD, ok_bind]
      generalize hstop : min _ data.length - 4 = stop
      refine returns_iterate (μ := fun s => stop - s.1) ?_ (by dsimp only; omega)
      rintro ⟨i, d⟩
      rw [pmtEntry]
      split
      next hi =>
        simp (disch := omega) only [index_getD, ok_bind]
        refine ⟨_, rfl, ?_⟩
        rintro _ ⟨⟩
        omega
      next => exact ⟨_, rfl, nofun⟩

theorem returns_pushPacket (p : TsPacket) : Returns (d.pushPacket p.bytes) := by
  rw [pushPacket_eq]
  split_ifs
  · exact ⟨_, rfl⟩
  · exact (d.returns_parsePat _).bind fun d' _ => ⟨_, rfl⟩
  · exact (d.returns_parsePmt _).bind fun d' _ => ⟨_, rfl⟩
  · exact ⟨_, rfl⟩

/-- **A call returns**, whatever it is given and whatever was pushed before. -/
theorem returns_pushData (d : TsDemuxer) (data : Bytes) : Returns (d.pushData data) := by
  refine returns_iterate (μ := fun s => data.length - s.1) (fun s => ?_) (by omega)
  obtain ⟨offset, frames, d⟩ := s
  rw [pushRound]
  split
  next hroom =>
    rw [index_getD (by omega), ok_bind]
    split
    next => exact ⟨_, rfl, fun s' hs => by rw [← Sum.inr.inj hs]; dsimp only; omega⟩
    next hsync =>
      let packet : TsPacket := ⟨(data.drop offset).take 188, by simp; omega, by
        simpa [List.getD_eq_getElem?_getD] using hsync⟩
      obtain ⟨sent, hsent⟩ := d.returns_pushPacket packet
      rw [slice_ok (by omega) hroom, Nat.add_sub_cancel_left, ok_bind]
      refine ⟨_, by rw [show d.pushPacket _ = _ from hsent]; rfl, fun s' hs => ?_⟩
      rw [← Sum.inr.inj hs]
      dsimp only
      omega
  next => exact ⟨_, rfl, nofun⟩

/-- The packets of a track that have a payload. -/
def carries (d : TsDemuxer) (kind : TrackKind) (p : TsPacket) : Bool :=
  some p.pid = d.pid kind ∧ p.payload ≠ []

/-- A piece of the track: whether it starts a unit, and its bytes. -/
def pieces (d : TsDemuxer) (kind : TrackKind) (packets : List TsPacket) : List (Bool × Bytes) :=
  (packets.filter (d.carries kind)).map fun p => (p.starts, p.payload)

end TsDemuxer

/-- The frames that a track hands out over its pieces. -/
def PesTrack.run (kind : TrackKind) (t : PesTrack) : List (Bool × Bytes) → List FrameData
  | [] => []
  | (starts, payload) :: pieces =>
    (t.next kind starts payload).1 ++ (t.next kind starts payload).2.run kind pieces

namespace TsDemuxer

theorem track_of_mem_nextTrack {kind : TrackKind} {frame : FrameData}
    (h : frame ∈ (d.nextTrack kind p).1) : frame.track = kind := by
  unfold nextTrack at h
  split at h
  · unfold PesTrack.next at h
    split at h
    · have hframe := Option.mem_toList.1 h
      unfold pesFrame at hframe
      split at hframe
      · rw [← Option.some.inj hframe]
      · cases hframe
    · cases h
  · cases h

theorem trackFrames_next (d : TsDemuxer) (kind : TrackKind) (h : p.payload ≠ []) :
    (trackFrames kind (d.next p).1, (d.next p).2.pes kind) = d.nextTrack kind p := by
  have hsame : ∀ k, trackFrames k (d.nextTrack k p).1 = (d.nextTrack k p).1 :=
    fun k => List.filter_eq_self.2 fun f hf => decide_eq_true (track_of_mem_nextTrack hf)
  have hother : ∀ k k', k ≠ k' → trackFrames k (d.nextTrack k' p).1 = [] := by
    intro k k' hk
    refine List.filter_eq_nil_iff.2 fun f hf => ?_
    rw [decide_eq_true_eq, track_of_mem_nextTrack hf]
    exact fun he => hk he.symm
  rw [next, if_neg h, trackFrames_append]
  cases kind with
  | video =>
    rw [hsame, hother .video .audio (by decide), List.append_nil]
    rfl
  | audio =>
    rw [hsame, hother .audio .video (by decide), List.nil_append]
    rfl

theorem trackFrames_runPackets : ∀ (packets : List TsPacket) (d : TsDemuxer),
    trackFrames kind (d.runPackets packets).1 = (d.pes kind).run kind (d.pieces kind packets) := by
  intro packets
  induction packets with
  | nil => intro d; rfl
  | cons p packets ih =>
    intro d
    have hcarries : (d.next p).2.carries kind = d.carries kind := by
      funext q
      rw [carries, carries, next_pid]
    rw [runPackets, trackFrames_append, ih, pieces, hcarries, pieces, List.filter_cons]
    by_cases hpayload : p.payload = []
    · -- no payload, no effect
      rw [if_neg (by simp [carries, hpayload]), next, if_pos hpayload]
      rfl
    · obtain ⟨hframes, hpes⟩ := Prod.ext_iff.1 (d.trackFrames_next kind hpayload)
      dsimp only at hframes hpes
      rw [hframes, hpes]
      by_cases hpid : some p.pid = d.pid kind
      · rw [if_pos (by simp [carries, hpayload, hpid]), List.map_cons, PesTrack.run,
          nextTrack_of_pid kind hpid]
      · rw [if_neg (by simp [carries, hpid]), nextTrack_other kind hpid]
        rfl

end TsDemuxer

def unitBytes (unit : List (Bool × Bytes)) : Bytes := unit.flatMap Prod.snd

/-- The units that begin with a unit start and end before the next one. -/
def completeUnits (collected : Bytes) (pieces : List (Bool × Bytes)) : List Bytes :=
  ((cut Prod.fst ((if collected = [] then [] else [(true, collected)]) ++ pieces)).dropLast.filter
    fun unit => unit.head?.any Prod.fst).map unitBytes

/-- A track that collected `o :: c`, a unit start and what continues it, hands out the units of
this and of the pieces that follow. -/
theorem run_eq (pieces : List (Bool × Bytes)) : ∀ (o : Bool × Bytes)
    (c : List (Bool × Bytes)) (dts : UInt64), (∀ b ∈ c, b.1 = false) →
    PesTrack.run kind ⟨unitBytes (o :: c), dts⟩ pieces
      = framesOf kind dts ((cut Prod.fst (o :: c ++ pieces)).dropLast.map unitBytes) := by
  induction pieces with
  | nil =>
    intro o c dts hc
    rw [List.append_nil, dropLast_cut_of_continued hc]
    rfl
  | cons piece pieces ih =>
    intro o c dts hc
    obtain ⟨starts, payload⟩ := piece
    cases starts with
    | false =>
      have hopen : unitBytes (o :: c) ++ payload = unitBytes (o :: (c ++ [(false, payload)])) := by
        simp [unitBytes]
      have happ : o :: c ++ (false, payload) :: pieces = o ::
          (c ++ [(false, payload)]) ++ pieces := by
        simp
      rw [happ, ← ih o _ dts (by simpa using hc), ← hopen]
      rfl
    | true =>
      have hnew : payload = unitBytes [(true, payload)] := by simp [unitBytes]
      rw [dropLast_cut_append_start pieces hc rfl, List.map_cons, framesOf, PesTrack.run]
      have hrest : ∀ dts, PesTrack.run kind ⟨payload, dts⟩ pieces
          = framesOf kind dts ((cut Prod.fst ((true, payload) :: pieces)).dropLast.map unitBytes) :=
            by
        intro dts
        rw [hnew, ih _ [] dts (by simp), ← hnew]
        rfl
      cases hframe : pesFrame kind dts (unitBytes (o :: c)) with
      | none | some => simp [PesTrack.next, PesTrack.advance, hframe, hrest]

/-- No unit has begun, and what arrives in front of the first unit start is a PES packet. -/
def Headless (collected : Bytes) (pieces : List (Bool × Bytes)) : Prop :=
  collected = [] ∧ (∃ piece ∈ pieces, piece.1 = true) ∧
    IsPes (unitBytes (pieces.takeWhile fun piece => !piece.1))

instance (collected : Bytes) (pieces : List (Bool × Bytes)) :
    Decidable (Headless collected pieces) :=
  inferInstanceAs (Decidable (_ ∧ _ ∧ _))

theorem filter_units {o : Bool × Bytes} (ho : o.1 = true) (pieces : List (Bool × Bytes)) :
    (cut Prod.fst (o :: pieces)).dropLast.filter (fun unit => unit.head?.any Prod.fst)
      = (cut Prod.fst (o :: pieces)).dropLast := by
  refine List.filter_eq_self.2 fun unit hunit => ?_
  exact head_of_mem_cut ho (c := []) (by simp) unit (List.dropLast_subset _ hunit)

theorem framesOf_units_iff (dts : UInt64) (collected : Bytes) (pieces : List (Bool × Bytes)) :
    framesOf kind dts ((cut Prod.fst ((true, collected) :: pieces)).dropLast.map unitBytes)
        = framesOf kind dts (completeUnits collected pieces) ↔ ¬ Headless collected pieces := by
  by_cases hcollected : collected = []
  · subst hcollected
    rcases exists_first_start Prod.fst pieces with hnone | ⟨lead, a, m, rfl, htake, hlead, ha⟩
    · have hnot : ¬ Headless [] pieces := by
        rintro ⟨-, ⟨b, hb, htrue⟩, -⟩
        rw [hnone b hb] at htrue
        cases htrue
      refine iff_of_true ?_ hnot
      rw [dropLast_cut_of_continued hnone, completeUnits, if_pos rfl, List.nil_append]
      cases pieces with
      | nil => rfl
      | cons b pieces =>
        rw [dropLast_cut_of_continued (List.forall_mem_cons.1 hnone).2]
        rfl
    · have hunits : completeUnits [] (lead ++ a :: m) =
          (cut Prod.fst (a :: m)).dropLast.map unitBytes := by
        rw [completeUnits, if_pos rfl, List.nil_append, cut_append_start lead m ha,
          List.dropLast_append_of_ne_nil (cut_ne_nil _ (List.cons_ne_nil a m)), List.filter_append,
          filter_cut_of_continued hlead, filter_units ha, List.nil_append]
      have hbytes : unitBytes ((true, []) :: lead) = unitBytes lead := rfl
      have hheadless : Headless [] (lead ++ a :: m) ↔ IsPes (unitBytes lead) := by
        rw [Headless, htake]
        exact ⟨fun h => h.2.2, fun h => ⟨rfl, ⟨a, by simp, ha⟩, h⟩⟩
      rw [hunits, ← List.cons_append, dropLast_cut_append_start m hlead ha, List.map_cons, hbytes,
        hheadless]
      constructor
      · intro heq hpes
        -- it would be one frame more
        have hlen := congrArg List.length heq
        rw [length_framesOf, length_framesOf, List.countP_cons_of_pos (by simpa using hpes)] at hlen
        omega
      · intro hpes
        rw [framesOf, pesFrame_eq_none.2 hpes]
  · have hnot : ¬ Headless collected pieces := fun h => hcollected h.1
    refine iff_of_true ?_ hnot
    rw [completeUnits, if_neg hcollected, List.singleton_append, filter_units rfl]

/-! ## The frames of a track -/

namespace TsDemuxer

/-- The frames of a track are those of its complete units, and packets of other PIDs may be added,
removed or moved without a change. -/
def TrackReassembled (d : TsDemuxer) (kind : TrackKind) (calls : List (List TsPacket)) : Prop :=
  ∃ frames d', d.pushCalls (calls.map dataOf) = .ok (frames, d') ∧
    trackFrames kind frames = framesOf kind (d.pes kind).dts
      (completeUnits (d.pes kind).buffer (d.pieces kind calls.flatten)) ∧
    ∀ calls' : List (List TsPacket), (∀ p ∈ calls'.flatten, ¬ d.StartsSection p) →
      calls'.flatten.filter (fun p => some p.pid = d.pid kind)
        = calls.flatten.filter (fun p => some p.pid = d.pid kind) →
      ∃ frames' d'', d.pushCalls (calls'.map dataOf) = .ok (frames', d'') ∧
        trackFrames kind frames' = trackFrames kind frames

section

variable {d : TsDemuxer} {kind : TrackKind} {calls : List (List TsPacket)}

theorem trackFrames_eq (d : TsDemuxer) (kind : TrackKind) (packets : List TsPacket) :
    trackFrames kind (d.runPackets packets).1
      = framesOf kind (d.pes kind).dts ((cut Prod.fst ((true, (d.pes kind).buffer) ::
          d.pieces kind packets)).dropLast.map unitBytes) := by
  rw [trackFrames_runPackets]
  have hopen : (d.pes kind).buffer = unitBytes [(true, (d.pes kind).buffer)] := by simp [unitBytes]
  have h := run_eq kind (d.pieces kind packets) (true, (d.pes kind).buffer) []
    (d.pes kind).dts (by simp)
  rwa [← hopen] at h

theorem not_headless_of_trackReassembled (hsection : ∀ p ∈ calls.flatten, ¬ d.StartsSection p)
    (h : d.TrackReassembled kind calls) :
    ¬ Headless (d.pes kind).buffer (d.pieces kind calls.flatten) := by
  obtain ⟨frames, d', hpush, hunits, -⟩ := h
  rw [pushCalls_packets hsection] at hpush
  obtain rfl := (Prod.ext_iff.1 (Except.ok.inj hpush)).1
  rw [← framesOf_units_iff kind (d.pes kind).dts, ← hunits, trackFrames_eq]

end

/-- **The demuxer reassembles a track** exactly if no PES packet arrives for it without a unit
start in front. -/
theorem trackReassembled_iff (d : TsDemuxer) (kind : TrackKind) (calls : List (List TsPacket))
    (hsection : ∀ p ∈ calls.flatten, ¬ d.StartsSection p) :
    d.TrackReassembled kind calls ↔
      ¬ Headless (d.pes kind).buffer (d.pieces kind calls.flatten) := by
  refine ⟨not_headless_of_trackReassembled hsection, ?_⟩
  intro hheadless
  refine ⟨_, _, pushCalls_packets hsection, ?_, ?_⟩
  · rw [trackFrames_eq]
    exact (framesOf_units_iff ..).2 hheadless
  · intro calls' hsection' hfilter
    refine ⟨_, _, pushCalls_packets hsection', ?_⟩
    -- the pieces of a track are those of the packets of its PID
    have hcarries : ∀ packets : List TsPacket, packets.filter (d.carries kind)
        = (packets.filter fun p => some p.pid = d.pid kind).filter fun p => p.payload ≠ [] := by
      intro packets
      rw [List.filter_filter]
      congr 1
      funext p
      simp [carries, Bool.and_comm]
    rw [trackFrames_eq, trackFrames_eq, pieces, pieces, hcarries, hcarries, hfilter]

def announced : TsDemuxer := { new with videoPid := some 256, audioPid := some 257 }

end TsDemuxer

namespace TsPacket

/-- A packet of PID 256 whose payload begins with the given bytes and goes on with zeros. -/
def video (starts : Bool) (payload : Bytes) (h : payload.length ≤ 184) : TsPacket where
  bytes := [0x47, if starts then 0x41 else 0x01, 0x00, 0x10] ++
    (payload ++ List.replicate (184 - payload.length) 0)
  length_bytes := by
    simp only [List.length_append, List.length_cons, List.length_nil, List.length_replicate]
    omega
  sync := rfl

end TsPacket

def barePes : Bytes := [0x00, 0x00, 0x01, 0xE0, 0x00, 0x00, 0x80, 0x00, 0x00, 0x41]

theorem trackReassembled_announced : TsDemuxer.announced.TrackReassembled .video
      [[.video true barePes (by decide)], [.video true barePes (by decide)]] :=
  (TsDemuxer.trackReassembled_iff _ _ _ (by decide)).2 (by decide +kernel)

/-- The first packet continues a unit that was never seen to start; the second one starts a unit,
and the demuxer hands out a frame. -/
theorem trackReassembled_headless_fails :
    TsDemuxer.announced.pid .video ≠ TsDemuxer.announced.pid .audio ∧
      (∀ p ∈ [TsPacket.video false barePes (by decide), .video true barePes (by decide)],
        ¬ TsDemuxer.announced.StartsSection p) ∧
      ¬ TsDemuxer.announced.TrackReassembled .video
        [[.video false barePes (by decide), .video true barePes (by decide)]] := by
  refine ⟨by decide, by decide, ?_⟩
  intro h
  exact TsDemuxer.not_headless_of_trackReassembled (by decide) h (by decide +kernel)

end Nozdormu.Ingest
