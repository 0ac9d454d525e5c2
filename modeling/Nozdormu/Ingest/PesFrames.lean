import Nozdormu.Ingest.TsDemuxer

/-!
# PES packets as frames

What the extraction functions of the demuxer compute, without the loops and the bounds checks:
`pesFrame kind dts pes` is the frame of a PES packet, if it is one, `dts` being the decode time
of the track's last frame. `extractFrame_eq` and `push_eq` say that the code returns this and
never stops; everything about reassembly is stated with `pesFrame`.
-/

namespace Nozdormu.Ingest

open Rust Bmff

/-- An IDR slice behind the three-byte start code at `i`. -/
def IdrAt (data : Bytes) (i : Nat) : Prop :=
  data[i]? = some 0 ∧ data[i + 1]? = some 0 ∧ data[i + 2]? = some 1 ∧
    data[i + 3]?.any (fun b => b &&& 0x1F = 5) = true

instance (data : Bytes) (i : Nat) : Decidable (IdrAt data i) := inferInstanceAs (Decidable (_ ∧ _))

def hasIdr (data : Bytes) : Bool := decide (∃ i < data.length, IdrAt data i)

variable {data : Bytes}

theorem hasIdr_of_idrAt {i : Nat} (h : IdrAt data i) : hasIdr data = true :=
  decide_eq_true ⟨i, (List.getElem?_eq_some_iff.1 h.1).1, h⟩

theorem not_idrAt_of_length_le {i : Nat} (h : data.length ≤ i + 3) : ¬ IdrAt data i := by
  intro hi
  rw [IdrAt, List.getElem?_eq_none h] at hi
  exact absurd hi.2.2.2 (by simp)

/-- What a round of the scan can do: end without having found anything behind the data, find an
IDR slice, or go on behind positions that have none. -/
inductive Scanned (data : Bytes) (i : Nat) : Bool ⊕ Nat → Prop where
  | stop (h : data.length ≤ i) : Scanned data i (.inl false)
  | found {j : Nat} (h : IdrAt data j) : Scanned data i (.inl true)
  | next {i' : Nat} (hlt : i < i') (hle : i' ≤ data.length)
      (h : ∀ j, i ≤ j → j < i' → ¬ IdrAt data j) : Scanned data i (.inr i')

/-- Behind a start code at `k` the scan goes on: the code itself is no place for another one. -/
theorem scanned_startCode {i k : Nat} {b : UInt8} (hik : i ≤ k)
    (hbefore : ∀ j, i ≤ j → j < k → ¬ IdrAt data j) (h₀ : data[k]? = some 0)
    (h₁ : data[k + 1]? = some 0) (h₂ : data[k + 2]? = some 1) (h₃ : data[k + 3]? = some b) :
    Scanned data i (if b &&& 0x1F = 5 then .inl true else .inr (k + 3)) := by
  have hlen : k + 3 < data.length := (List.getElem?_eq_some_iff.1 h₃).1
  split
  next hidr => exact .found ⟨h₀, h₁, h₂, by rw [h₃]; exact decide_eq_true hidr⟩
  next hidr =>
    refine .next (by omega) (by omega) fun j hj hj' hat => ?_
    by_cases hjk : j < k
    · exact hbefore j hj hjk hat
    obtain ⟨hzero, hzero', -, hslice⟩ := hat
    obtain rfl | rfl | rfl : j = k ∨ j = k + 1 ∨ j = k + 2 := by omega
    · rw [h₃] at hslice
      exact hidr (of_decide_eq_true hslice)
    · rw [h₂] at hzero'
      cases hzero'
    · rw [h₂] at hzero
      cases hzero

theorem scanned_scanNalu (data : Bytes) (i : Nat) :
    ∃ r, scanNalu data i = .ok r ∧ Scanned data i r := by
  -- going on to the next position is right as soon as this one has no slice
  have hone : i < data.length → ¬ IdrAt data i → Scanned data i (.inr (i + 1)) := by
    intro hi hnot
    refine .next (Nat.lt_succ_self i) hi ?_
    intro j hj hj'
    rwa [show j = i by omega]
  unfold scanNalu
  by_cases hi : i < data.length
  · rw [if_pos hi]
    by_cases h3 : i + 3 < data.length
    · rw [if_pos h3, index_ok (by omega), index_ok (by omega), index_ok (by omega), index_ok h3]
      simp only [ok_bind]
      have g0 : data[i]? = some data[i] := List.getElem?_eq_getElem _
      have g1 : data[i + 1]? = some data[i + 1] := List.getElem?_eq_getElem _
      have g2 : data[i + 2]? = some data[i + 2] := List.getElem?_eq_getElem _
      have g3 : data[i + 3]? = some data[i + 3] := List.getElem?_eq_getElem _
      by_cases hzero : data[i] = 0 ∧ data[i + 1] = 0
      · rw [if_pos hzero]
        rw [hzero.1] at g0
        rw [hzero.2] at g1
        by_cases hthree : data[i + 2] = 1
        · rw [if_pos hthree, ← apply_ite pure]
          rw [hthree] at g2
          exact ⟨_, rfl, scanned_startCode (Nat.le_refl i) (fun j hj hj' => by omega) g0 g1 g2 g3⟩
        have hnot : ¬ IdrAt data i := fun hat => hthree (Option.some.inj (g2.symm.trans hat.2.2.1))
        rw [if_neg hthree]
        by_cases hfour : i + 4 < data.length ∧ data[i + 2] = 0 ∧ data[i + 3] = 1
        · -- four bytes: the code of three bytes is at the next position
          have g4 : data[i + 4]? = some data[i + 4] := List.getElem?_eq_getElem hfour.1
          rw [if_pos hfour, index_ok hfour.1, ok_bind, ← apply_ite pure]
          rw [hfour.2.1] at g2
          rw [hfour.2.2] at g3
          refine ⟨_, rfl, scanned_startCode (Nat.le_succ i) (fun j hj hj' => ?_) g1 g2 g3 g4⟩
          rwa [show j = i by omega]
        · rw [if_neg hfour]
          exact ⟨_, rfl, hone hi hnot⟩
      · rw [if_neg hzero]
        refine ⟨_, rfl, hone hi fun hat => hzero ?_⟩
        exact ⟨Option.some.inj (g0.symm.trans hat.1), Option.some.inj (g1.symm.trans hat.2.1)⟩
    · rw [if_neg h3]
      exact ⟨_, rfl, hone hi (not_idrAt_of_length_le (by omega))⟩
  · rw [if_neg hi]
    exact ⟨_, rfl, .stop (by omega)⟩

theorem iterate_scanNalu : ∀ {n i : Nat}, i ≤ data.length → data.length < n + i →
    (∀ j < i, ¬ IdrAt data j) → iterate (scanNalu data) n i = .ok (hasIdr data) := by
  intro n
  induction n with
  | zero => intro i hi hn; omega
  | succ n ih =>
    intro i hi hn hnone
    obtain ⟨r, hr, hscan⟩ := scanned_scanNalu data i
    rw [iterate, hr, ok_bind]
    cases hscan with
    | stop hle =>
      have hnot : hasIdr data = false := by
        refine decide_eq_false ?_
        rintro ⟨j, hj, hat⟩
        exact hnone j (by omega) hat
      rw [hnot]
      rfl
    | found hat =>
      rw [hasIdr_of_idrAt hat]
      rfl
    | next hlt hle hskip =>
      refine ih hle (by omega) ?_
      intro j hj
      rcases Nat.lt_or_ge j i with hji | hji
      · exact hnone j hji
      · exact hskip j hji hj

theorem containsIdrNalu_eq (data : Bytes) : containsIdrNalu data = .ok (hasIdr data) :=
  iterate_scanNalu (Nat.zero_le _) (by omega) (fun _ h => absurd h (Nat.not_lt_zero _))

/-- No start code is skipped by a jump of the scan. -/
theorem containsIdrNalu_iff (data : Bytes) : ∃ found, containsIdrNalu data = .ok found ∧
    (found = true ↔ ∃ (i : Nat) (b : UInt8), data[i]? = some 0 ∧ data[i + 1]? = some 0 ∧
      data[i + 2]? = some 1 ∧ data[i + 3]? = some b ∧ b &&& 0x1F = 5) := by
  refine ⟨_, containsIdrNalu_eq data, ?_, ?_⟩
  · intro h
    obtain ⟨i, -, h₀, h₁, h₂, hany⟩ := of_decide_eq_true h
    obtain ⟨b, hb, hslice⟩ := (Option.any_eq_true ..).1 hany
    exact ⟨i, b, h₀, h₁, h₂, hb, of_decide_eq_true hslice⟩
  · rintro ⟨i, b, h₀, h₁, h₂, hb, hslice⟩
    exact hasIdr_of_idrAt ⟨h₀, h₁, h₂, (Option.any_eq_true ..).2 ⟨b, hb, decide_eq_true hslice⟩⟩

/-- The unit has the PES start code, its header, and a byte of payload behind that. -/
def IsPes (pes : Bytes) : Prop :=
  pes.take 3 = [0, 0, 1] ∧ 9 + (pes.getD 8 0).toNat < pes.length

instance (pes : Bytes) : Decidable (IsPes pes) := inferInstanceAs (Decidable (_ ∧ _))

def pesPayload (pes : Bytes) : Bytes := pes.drop (9 + (pes.getD 8 0).toNat)

def timestampAt (pes : Bytes) (i : Nat) : UInt64 :=
  clockValue (pes.getD i 0).toUInt64 (pes.getD (i + 1) 0).toUInt64 (pes.getD (i + 2) 0).toUInt64
    (pes.getD (i + 3) 0).toUInt64 (pes.getD (i + 4) 0).toUInt64

/-- The presentation and decode time in the header, `dts` if it has none. -/
def pesTimes (kind : TrackKind) (dts : UInt64) (pes : Bytes) : UInt64 × UInt64 :=
  let flags := pes.getD 7 0 >>> 6 &&& 0x03
  if 2 ≤ flags ∧ 14 ≤ pes.length then
    let pts := timestampAt pes 9
    (pts, if kind = .video ∧ flags = 3 ∧ 19 ≤ pes.length then timestampAt pes 14 else pts)
  else (dts, dts)

/-- The frame of a PES packet behind a frame with decode time `dts`. -/
def pesFrame (kind : TrackKind) (dts : UInt64) (pes : Bytes) : Option FrameData :=
  if IsPes pes then
    some {
      track := kind, data := pesPayload pes
      dts := (pesTimes kind dts pes).2, pts := (pesTimes kind dts pes).1
      isKeyframe := match kind with
        | .video => hasIdr (pesPayload pes)
        | .audio => true }
  else none

/-- The frames of consecutive units of a track; each passes its decode time on. -/
def framesOf (kind : TrackKind) : (dts : UInt64) → (units : List Bytes) → List FrameData
  | _, [] => []
  | dts, unit :: units =>
    match pesFrame kind dts unit with
    | none => framesOf kind dts units
    | some frame => frame :: framesOf kind frame.dts units

variable {pes : Bytes}

theorem pesFrame_eq_none {kind : TrackKind} {dts : UInt64} :
    pesFrame kind dts pes = none ↔ ¬ IsPes pes := by
  unfold pesFrame
  split
  next h => exact ⟨fun he => (Option.some_ne_none _ he).elim, fun hn => absurd h hn⟩
  next h => exact ⟨fun _ => h, fun _ => rfl⟩

variable (kind : TrackKind)

theorem length_framesOf (units : List Bytes) : ∀ dts,
    (framesOf kind dts units).length = units.countP (fun u => decide (IsPes u)) := by
  induction units with
  | nil => intro dts; rfl
  | cons unit units ih =>
    intro dts
    unfold framesOf
    split
    next h =>
      rw [ih, List.countP_cons_of_neg]
      simpa using pesFrame_eq_none.1 h
    next frame h =>
      have hpes : IsPes unit := by
        by_contra hnot
        rw [pesFrame_eq_none.2 hnot] at h
        cases h
      rw [List.length_cons, ih, List.countP_cons_of_pos (by simpa using hpes)]

/-! ### The code computes them -/

theorem parseTimestamp_slice {i : Nat} (h : i + 5 ≤ pes.length) :
    ∃ five, (slice pes i (i + 5) : Exec IngestError Bytes) = .ok five ∧
      parseTimestamp five = .ok (timestampAt pes i) := by
  refine ⟨(pes.drop i).take 5, by rw [slice_ok (by omega) h, Nat.add_sub_cancel_left], ?_⟩
  have hlen : ((pes.drop i).take 5).length = 5 := by
    rw [List.length_take, List.length_drop]
    omega
  have hget : ∀ k < 5, (index ((pes.drop i).take 5) k : Exec IngestError UInt8)
      = .ok (pes.getD (i + k) 0) := by
    intro k hk
    rw [index_getD (by omega), List.getD_eq_getElem?_getD, List.getElem?_take_of_lt hk,
      List.getElem?_drop, ← List.getD_eq_getElem?_getD]
  simp (disch := omega) only [parseTimestamp, hget]
  rfl

theorem isPes_iff (h : 3 ≤ pes.length) :
    IsPes pes ↔ (pes.getD 0 0 = 0 ∧ pes.getD 1 0 = 0 ∧ pes.getD 2 0 = 1) ∧
      9 + (pes.getD 8 0).toNat < pes.length := by
  have htake : pes.take 3 = [pes.getD 0 0, pes.getD 1 0, pes.getD 2 0] := by
    rcases pes with _ | ⟨a, _ | ⟨b, _ | ⟨c, rest⟩⟩⟩ <;> simp at h ⊢
  simp [IsPes, htake]

theorem pesHeader_eq (pes : Bytes) : pesHeader pes = .ok (if IsPes pes then
      some (pes.getD 7 0 >>> 6 &&& 0x03, 9 + (pes.getD 8 0).toNat) else none) := by
  unfold pesHeader
  by_cases hlen : pes.length < 9
  · rw [if_pos hlen, if_neg]
    · rfl
    · exact fun h => absurd h.2 (by omega)
  rw [if_neg hlen]
  simp (disch := omega) only [index_getD, ok_bind, pure_eq_ok, isPes_iff]
  by_cases hcode : pes.getD 0 0 = 0 ∧ pes.getD 1 0 = 0 ∧ pes.getD 2 0 = 1
  · rw [if_neg (by simp only [hcode.1, hcode.2.1, hcode.2.2]; simp)]
    by_cases hle : pes.length ≤ 9 + (pes.getD 8 0).toNat
    · rw [if_pos hle, if_neg (fun h => absurd h.2 (by omega))]
    · rw [if_neg hle, if_pos ⟨hcode, by omega⟩]
  · rw [if_pos (by simpa only [not_and_or] using hcode), if_neg (fun h => hcode h.1)]

namespace PesTrack

/-- The decode time moves on with a frame. -/
def advance (t : PesTrack) (frame : Option FrameData) : PesTrack :=
  { t with dts := (frame.map (·.dts)).getD t.dts }

theorem extractFrame_eq (t : PesTrack) : t.extractFrame kind
      = .ok (pesFrame kind t.dts t.buffer, t.advance (pesFrame kind t.dts t.buffer)) := by
  have hslice : IsPes t.buffer → (slice t.buffer (9 + (t.buffer.getD 8 0).toNat) t.buffer.length :
      Exec IngestError Bytes) = .ok (pesPayload t.buffer) := by
    intro hpes
    rw [slice_ok (Nat.le_of_lt hpes.2) (Nat.le_refl _),
      List.take_of_length_le (by simp), pesPayload]
  cases kind with
  | video =>
    rw [extractFrame, extractVideoFrame, pesHeader_eq, ok_bind, pesFrame]
    by_cases hpes : IsPes t.buffer
    · rw [if_pos hpes, if_pos hpes]
      simp only [hslice hpes, containsIdrNalu_eq, pesTimes, true_and]
      split_ifs with htimes hboth
      · obtain ⟨five, hfive, hpts⟩ := parseTimestamp_slice htimes.2
        obtain ⟨five', hfive', hdts⟩ := parseTimestamp_slice hboth.2
        rw [hfive, ok_bind, hpts, ok_bind, hfive', ok_bind, hdts]
        rfl
      · obtain ⟨five, hfive, hpts⟩ := parseTimestamp_slice htimes.2
        rw [hfive, ok_bind, hpts]
        rfl
      · rfl
    · rw [if_neg hpes, if_neg hpes]
      rfl
  | audio =>
    rw [extractFrame, extractAudioFrame, pesHeader_eq, ok_bind, pesFrame]
    by_cases hpes : IsPes t.buffer
    · rw [if_pos hpes, if_pos hpes]
      simp only [hslice hpes, pesTimes, reduceCtorEq, false_and, if_false]
      split_ifs with htimes
      · obtain ⟨five, hfive, hpts⟩ := parseTimestamp_slice htimes.2
        rw [hfive, ok_bind, hpts]
        rfl
      · rfl
    · rw [if_neg hpes, if_neg hpes]
      rfl

def next (kind : TrackKind) (t : PesTrack) (payloadStart : Bool) (payload : Bytes) :
    List FrameData × PesTrack :=
  if payloadStart then
    ((pesFrame kind t.dts t.buffer).toList,
      { t.advance (pesFrame kind t.dts t.buffer) with buffer := payload })
  else ([], { t with buffer := t.buffer ++ payload })

theorem push_eq (t : PesTrack) (payloadStart : Bool) (payload : Bytes) :
    t.push kind payloadStart payload = .ok (t.next kind payloadStart payload) := by
  unfold push next
  cases payloadStart with
  | false => rfl
  | true =>
    by_cases hempty : t.buffer = []
    · have hnone : pesFrame kind t.dts t.buffer = none :=
        pesFrame_eq_none.2 (fun h => absurd h.2 (by simp [hempty]))
      rw [hnone]
      simp [hempty, advance]
    · rw [if_pos rfl, if_neg hempty, extractFrame_eq]
      rfl

end PesTrack

end Nozdormu.Ingest
