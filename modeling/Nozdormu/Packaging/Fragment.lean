import Nozdormu.Packaging.Fmp4Gen
import Nozdormu.Bmff.Demux

/-!
# Fragments: what the two passes write, and what a player reads
-/

namespace Nozdormu.Packaging

open Rust Bmff List

variable {ε τ : Type}

/-- One track of a fragment: nothing, or a decode time and a run of samples. -/
structure FragmentTrack where
  trackId : UInt32
  run : Option (Nat × List (TrunSample × Bytes))
deriving DecidableEq, Repr

namespace FragmentTrack

def data (t : FragmentTrack) : Bytes :=
  match t.run with
  | none => []
  | some (_, samples) => samples.flatMap (·.2)

def tfhdBody (t : FragmentTrack) : Bytes := be 4 0x00020000 ++ be 4 t.trackId.toNat

def children (t : FragmentTrack) (dataOffset : Nat) : List (FourCC × Bytes) :=
  (ccTfhd, t.tfhdBody) ::
    match t.run with
    | none => []
    | some (baseDts, samples) =>
      [(ccTfdt, be 4 0x01000000 ++ be 8 baseDts), (ccTrun, trunBody (samples.map (·.1)) dataOffset)]

def traf (t : FragmentTrack) (dataOffset : Nat) : Bytes :=
  makeBox ccTraf (boxes (t.children dataOffset))

def trafSize (t : FragmentTrack) : Nat :=
  match t.run with
  | none => 24
  | some (_, samples) => 64 + 16 * samples.length

/-- The numbers a run carries fit their fields. -/
structure Valid (t : FragmentTrack) : Prop where
  base_lt : ∀ r ∈ t.run, r.1 < 2 ^ 64
  size_eq : ∀ r ∈ t.run, ∀ x ∈ r.2, x.1.size.toNat = x.2.length

end FragmentTrack

open FragmentTrack

theorem trafEmpty_eq (trackId : UInt32) (off : Nat) :
    trafEmpty trackId = (⟨trackId, none⟩ : FragmentTrack).traf off := by
  simp [trafEmpty, buildTfhd, traf, children, tfhdBody]

theorem trafWithRun_eq (trackId : UInt32) (baseDts : Nat) (samples : List (TrunSample × Bytes))
    (off : Nat) :
    trafWithRun trackId baseDts (samples.map (·.1)) off
      = (⟨trackId, some (baseDts, samples)⟩ : FragmentTrack).traf off := by
  simp [trafWithRun, buildTfhd, buildTfdt, buildTrun, traf, children, tfhdBody]

theorem flatMap_trunSampleBytes_length (samples : List TrunSample) :
    (samples.flatMap trunSampleBytes).length = 16 * samples.length := by
  induction samples with
  | nil => rfl
  | cons s samples ih =>
    rw [flatMap_cons, length_append, ih]
    simp only [trunSampleBytes, length_append, be_length, length_cons]
    omega

/-- **Size independence.** The offset written into a `traf` does not change its size. -/
theorem FragmentTrack.traf_length (t : FragmentTrack) (off : Nat) :
    (t.traf off).length = t.trafSize := by
  obtain ⟨id, run⟩ := t
  cases run with
  | none => rfl
  | some r =>
    obtain ⟨b, samples⟩ := r
    have hrun := flatMap_trunSampleBytes_length (samples.map (·.1))
    simp only [traf, children, trafSize,
      tfhdBody, trunBody, makeBox_length, boxes_cons, boxes_nil, length_append,
      be_length, length_nil, hrun, length_map]
    omega

/-! ## The fragment a player should see -/

def trafBoxes : (pos : Nat) → List FragmentTrack → List (FourCC × Bytes)
  | _, [] => []
  | pos, t :: ts => (ccTraf, boxes (t.children pos)) :: trafBoxes (pos + t.data.length) ts

def moofSize (ts : List FragmentTrack) : Nat := 24 + (ts.map trafSize).sum

variable (sequenceNumber : Nat)

def mfhdBody : Bytes := be 4 0 ++ be 4 sequenceNumber

/-- The `moof`'s children; the first track's bytes lie behind the `mdat` header. -/
def moofChildren (ts : List FragmentTrack) : List (FourCC × Bytes) :=
  (ccMfhd, mfhdBody sequenceNumber) :: trafBoxes (moofSize ts + 8) ts

def payload (ts : List FragmentTrack) : Bytes := ts.flatMap FragmentTrack.data

/-- `moof` and `mdat`, every track's offset the place of its bytes. -/
def fragment (ts : List FragmentTrack) : Bytes :=
  boxes [(ccMoof, boxes (moofChildren sequenceNumber ts)), (ccMdat, payload ts)]

theorem trafBoxes_length (ts : List FragmentTrack) : ∀ pos,
    (boxes (trafBoxes pos ts)).length = (ts.map trafSize).sum := by
  induction ts with
  | nil => intro pos; rfl
  | cons t ts ih =>
    intro pos
    have ht : (makeBox ccTraf (boxes (t.children pos))).length = t.trafSize := t.traf_length pos
    rw [trafBoxes, boxes_cons, length_append, ih, ht, map_cons, sum_cons]

theorem moof_length (seq : Nat) (ts : List FragmentTrack) :
    (makeBox ccMoof (boxes (moofChildren seq ts))).length = moofSize ts := by
  rw [makeBox_length, moofChildren, boxes_cons, length_append, trafBoxes_length,
    makeBox_length, moofSize]
  simp only [mfhdBody, length_append, be_length]
  omega

def fragmentSize (ts : List FragmentTrack) : Nat := moofSize ts + 8 + (payload ts).length

theorem fragment_length (seq : Nat) (ts : List FragmentTrack) :
    (fragment seq ts).length = fragmentSize ts := by
  rw [fragment, boxes_cons, boxes_cons, boxes_nil, append_nil, length_append,
    moof_length, makeBox_length, fragmentSize]
  show moofSize ts + ((payload ts).length + 8) = _
  omega

theorem firstPass_moof_length (seq : Nat) (rs : List FragmentTrack) :
    (buildMfhd seq ++ (rs.map fun r => (r.traf 0, r.data)).flatMap (·.1)).length + 8
      = moofSize rs := by
  have hsum : ((rs.map fun r => (r.traf 0, r.data)).flatMap (·.1)).length
      = (rs.map trafSize).sum := by
    simp [flatMap_map, length_flatMap, traf_length]
  rw [length_append, hsum, moofSize]
  simp only [buildMfhd, makeBox_length, length_append, be_length]
  omega

variable {seq : Nat}

section TwoPasses

-- A builder whose `traf` varies with the offset only through the offset field.
variable {p : Profile} {build : τ → Nat → Exec ε (Bytes × Bytes)} {run : τ → Exec ε FragmentTrack}
  (hbuild : ∀ t off, build t off = (run t >>= fun r => .ok (r.traf off, r.data)))

include hbuild

theorem firstPass_eq {off : Nat} : ∀ (tracks : List τ), tracks.mapM (fun t => build t off)
      = (tracks.mapM run >>= fun rs => .ok (rs.map fun r => (r.traf off, r.data))) := by
  intro tracks
  induction tracks with
  | nil => rfl
  | cons t ts ih =>
    rw [mapM_cons, mapM_cons, hbuild, ih]
    cases run t with
    | error s => rfl
    | ok r =>
      cases ts.mapM run with
      | error | ok => rfl

theorem finalTrafs_eq {ms : Nat} : ∀ (tracks : List τ) {rs : List FragmentTrack} {off : Nat},
    tracks.mapM run = .ok rs → ms + 8 + off + (payload rs).length < 2 ^ 32 →
    finalTrafs p ms build tracks off = .ok (boxes (trafBoxes (ms + 8 + off) rs)) := by
  intro tracks
  induction tracks with
  | nil =>
    intro rs off hrs _
    obtain rfl : [] = rs := by simpa [mapM_nil] using hrs
    rfl
  | cons t ts ih =>
    intro rs off hrs hfit
    obtain ⟨r, rs', hr, hrs', rfl⟩ := mapM_cons_eq_ok.1 hrs
    have hpay : (payload (r :: rs')).length = r.data.length + (payload rs').length := by
      simp [payload]
    have hoff : ms + 8 + off + r.data.length = ms + 8 + (off + r.data.length) := by omega
    rw [finalTrafs, add_ok p (by omega), ok_bind, add_ok p (by omega), ok_bind, hbuild, hbuild,
      hr, ok_bind, ok_bind, ok_bind]
    show (p.add 32 off (r.data.length % 2 ^ 32) >>= _) = _
    rw [Nat.mod_eq_of_lt (by omega), add_ok p (by omega), ok_bind, ih hrs' (by omega), trafBoxes,
      hoff]
    rfl

theorem length_of_finalTrafs {ms : Nat} : ∀ (tracks : List τ) {rs : List FragmentTrack}
    {off : Nat} {out : Bytes}, tracks.mapM run = .ok rs →
    finalTrafs p ms build tracks off = .ok out →
    out.length = (rs.map trafSize).sum := by
  intro tracks
  induction tracks with
  | nil =>
    intro rs off out hrs hout
    obtain rfl : [] = rs := by simpa [mapM_nil] using hrs
    obtain rfl : [] = out := by simpa [finalTrafs] using hout
    rfl
  | cons t ts ih =>
    intro rs off out hrs hout
    obtain ⟨r, rs', hr, hrs', rfl⟩ := mapM_cons_eq_ok.1 hrs
    simp only [finalTrafs, bind_eq_ok] at hout
    obtain ⟨base, -, dataOff, -, x, hx, y, -, next, -, rest, hrest, hout⟩ := hout
    rw [hbuild, hr, ok_bind] at hx
    obtain rfl : (r.traf dataOff, r.data) = x := by simpa using hx
    obtain rfl : r.traf dataOff ++ rest = out := by simpa using hout
    rw [length_append, r.traf_length, ih hrs' hrest, map_cons, sum_cons]

theorem assembleFragment_eq {tracks : List τ} {rs : List FragmentTrack}
    (hrs : tracks.mapM run = .ok rs) (hfit : fragmentSize rs < 2 ^ 32) :
    assembleFragment p seq tracks build = .ok (fragment seq rs) := by
  have hmoof := firstPass_moof_length seq rs
  have hpay : (rs.map fun r => (r.traf 0, r.data)).flatMap (·.2) = payload rs := by
    simp [payload, flatMap_map]
  unfold fragmentSize at hfit
  simp only [assembleFragment, firstPass_eq hbuild, hrs, ok_bind, makeBox_length, hmoof, hpay]
  rw [Nat.mod_eq_of_lt (by omega), finalTrafs_eq hbuild tracks hrs (by omega), ok_bind]
  simp [fragment, moofChildren, mfhdBody, buildMfhd]

theorem eq_of_assembleFragment {tracks : List τ} {out : Bytes}
    (hout : assembleFragment p seq tracks build = .ok out) (hlen : out.length < 2 ^ 32) :
    ∃ rs, tracks.mapM run = .ok rs ∧ fragmentSize rs < 2 ^ 32 ∧ out = fragment seq rs := by
  have hok := hout
  simp only [assembleFragment, firstPass_eq hbuild, bind_eq_ok] at hok
  obtain ⟨first, ⟨rs, hrs, hfirst⟩, trafs, htrafs, hok⟩ := hok
  obtain rfl : (rs.map fun r => (r.traf 0, r.data)) = first := by simpa using hfirst
  have hsize : out.length = fragmentSize rs := by
    have hl := length_of_finalTrafs hbuild tracks hrs htrafs
    have hpay : (rs.map fun r => (r.traf 0, r.data)).flatMap (·.2) = payload rs := by
      simp [payload, flatMap_map]
    rw [hpay] at hok
    obtain rfl : makeBox ccMoof (buildMfhd seq ++ trafs) ++ makeBox ccMdat (payload rs) = out := by
      simpa using hok
    simp only [length_append, makeBox_length, hl, buildMfhd, be_length, fragmentSize, moofSize]
    omega
  refine ⟨rs, hrs, by omega, ?_⟩
  rw [assembleFragment_eq hbuild hrs (by omega)] at hout
  exact (Except.ok.inj hout).symm

end TwoPasses

/-! ## Reading a fragment -/

/-- How a player reads a run entry: a version 0 run has unsigned composition offsets. -/
def playerSample (x : TrunSample × Bytes) : Sample :=
  { duration := x.1.duration.toNat, size := x.2.length, flags := x.1.flags.toNat
    compositionOffset := x.1.ctsOffset.toUInt32.toNat, data := x.2 }

def FragmentTrack.player (t : FragmentTrack) : TrackFragment :=
  { trackId := t.trackId.toNat
    baseDecodeTime := t.run.map (·.1)
    samples := ((t.run.map (·.2)).getD []).map playerSample }

theorem readTfhd_tfhdBody (t : FragmentTrack) :
    readTfhd t.tfhdBody = some ⟨t.trackId.toNat, 0, 0, 0⟩ := by
  have hid : t.trackId.toNat < 256 ^ 4 := t.trackId.toNat_lt
  have hflags : takeBe 4 t.tfhdBody = some (0x00020000, be 4 t.trackId.toNat) :=
    takeBe_be (by decide) _
  rw [readTfhd, hflags, Option.bind_eq_bind, Option.bind_some]
  simp only [takeBe_be_end hid, Option.bind_some]
  rfl

theorem readTfdt_body {b : Nat} (hb : b < 2 ^ 64) :
    readTfdt (be 4 0x01000000 ++ be 8 b) = some b := by
  have hversion : takeBe 4 (be 4 0x01000000 ++ be 8 b) = some (0x01000000, be 8 b) :=
    takeBe_be (by decide) _
  have htime : takeBe 8 (be 8 b) = some (b, []) := takeBe_be_end (by simpa using hb)
  simp [readTfdt, hversion, version, htime]

/-- A run entry as it stands in the file, before its data is cut out. -/
def playerEntry (s : TrunSample) : RunEntry :=
  ⟨s.duration.toNat, s.size.toNat, s.flags.toNat, s.ctsOffset.toUInt32.toNat⟩

theorem readRunEntry_bytes (d : Tfhd) (s : TrunSample) (tail : Bytes) :
    readRunEntry 0x00000F01 d (trunSampleBytes s ++ tail) = some (playerEntry s, tail) := by
  have hd : s.duration.toNat < 256 ^ 4 := s.duration.toNat_lt
  have hs : s.size.toNat < 256 ^ 4 := s.size.toNat_lt
  have hf : s.flags.toNat < 256 ^ 4 := s.flags.toNat_lt
  have hc : s.ctsOffset.toUInt32.toNat < 256 ^ 4 := s.ctsOffset.toUInt32.toNat_lt
  -- the four per-sample fields are all present
  have h8 : Nat.testBit 0x00000F01 8 = true := rfl
  have h9 : Nat.testBit 0x00000F01 9 = true := rfl
  have h10 : Nat.testBit 0x00000F01 10 = true := rfl
  have h11 : Nat.testBit 0x00000F01 11 = true := rfl
  simp only [readRunEntry, trunSampleBytes, append_assoc, h8, h9, h10, h11, takeIf_true,
    takeBe_be hd, takeBe_be hs, takeBe_be hf, takeBe_be hc, Option.bind_eq_bind, Option.bind_some]
  rfl

theorem readRunEntries_bytes (d : Tfhd) (samples : List TrunSample) :
    readRunEntries 0x00000F01 d samples.length (samples.flatMap trunSampleBytes)
      = some (samples.map playerEntry) := by
  induction samples with
  | nil => rfl
  | cons s samples ih =>
    rw [length_cons, readRunEntries, flatMap_cons, readRunEntry_bytes]
    simp [ih]

theorem readTrun_trunBody (d : Tfhd) {samples : List TrunSample} {off : Nat}
    (hcount : samples.length < 2 ^ 32) (hoff : off < 2 ^ 31) :
    readTrun d (trunBody samples off) = some ⟨some (off : Int), samples.map playerEntry⟩ := by
  have hflags : ∀ tail, takeBe 4 (be 4 0x00000F01 ++ tail) = some (0x00000F01, tail) :=
    takeBe_be (by decide)
  have hlen := takeBe_be (show samples.length < 256 ^ 4 by simpa using hcount)
  have hpos := takeBe_be (show off < 256 ^ 4 by omega)
  have h0 : Nat.testBit 0x00000F01 0 = true := rfl
  have h2 : Nat.testBit 0x00000F01 2 = false := rfl
  rw [readTrun, trunBody, hflags, Option.bind_eq_bind, Option.bind_some]
  simp only [hlen, hpos, h0, h2, takeIf_true, takeIf_false, Option.bind_eq_bind, Option.bind_some]
  rw [readRunEntries_bytes, Option.bind_some, signed32, if_pos hoff]
  rfl

variable {t : FragmentTrack}

theorem cutSamples_playerEntry {file : Bytes} {samples : List (TrunSample × Bytes)} {off : Nat}
    (hsize : ∀ x ∈ samples, x.1.size.toNat = x.2.length)
    (hold : Holds file off (samples.flatMap (·.2))) :
    cutSamples file ((samples.map (·.1)).map playerEntry) off
      = some (samples.map playerSample, off + (samples.flatMap (·.2)).length) := by
  have hcut := @cutSamples_holds file (samples.map fun x => (playerEntry x.1, x.2)) off ?_ ?_
  · rw [map_map, map_map, flatMap_map] at hcut
    rw [map_map]
    refine hcut.trans ?_
    congr 2
    apply map_congr_left
    intro x hx
    have hx := hsize x hx
    simp [playerSample, playerEntry, hx]
  · intro x hx
    obtain ⟨y, hy, rfl⟩ := mem_map.mp hx
    exact hsize y hy
  · rw [flatMap_map]
    exact hold

theorem demuxTraf_children {file : Bytes} {off : Nat} (ht : t.Valid)
    (hsize : t.trafSize < 2 ^ 31) (hoff : off < 2 ^ 31) (hold : Holds file off t.data) :
    demuxTraf file (boxes (t.children off)) = some t.player := by
  have hsmall : ∀ b ∈ t.children off, b.2.length + 8 < 2 ^ 32 := by
    intro b hb
    have hmem := makeBox_length_le_of_mem hb
    have hlen := t.traf_length off
    rw [traf, makeBox_length] at hlen
    rw [makeBox_length] at hmem
    omega
  rw [demuxTraf, readBoxes_boxes hsmall]
  have htfhd : childBody ccTfhd (t.children off) = some t.tfhdBody := rfl
  simp only [Option.bind_eq_bind, Option.bind_some, htfhd, readTfhd_tfhdBody]
  obtain ⟨id, run⟩ := t
  cases run with
  | none => rfl
  | some r =>
    obtain ⟨b, samples⟩ := r
    have htfdt : childBody ccTfdt ((⟨id, some (b, samples)⟩ : FragmentTrack).children off)
        = some (be 4 0x01000000 ++ be 8 b) := rfl
    have htrun : bodies ccTrun ((⟨id, some (b, samples)⟩ : FragmentTrack).children off)
        = [trunBody (samples.map (·.1)) off] := rfl
    have hcount : (samples.map (·.1)).length < 2 ^ 32 := by
      simp only [trafSize] at hsize
      rw [length_map]
      omega
    have hcut := cutSamples_playerEntry (ht.size_eq _ rfl) hold
    have hruns : runSamples file [⟨some off, (samples.map (·.1)).map playerEntry⟩] 0
        = some (samples.map playerSample) := by
      rw [runSamples, Option.getD_some, if_neg (by omega), Int.toNat_natCast, hcut,
        Option.bind_eq_bind, Option.bind_some]
      simp [runSamples]
    rw [htfdt, htrun, Option.mapM_some, readTfdt_body (ht.base_lt _ rfl), mapM_cons,
      readTrun_trunBody _ hcount hoff]
    simp only [Option.map_eq_map, Option.map_some, mapM_nil, Option.pure_def,
      Option.bind_eq_bind, Option.bind_some, hruns]
    rfl

theorem mapM_demuxTraf_trafBoxes {file : Bytes} : ∀ (ts : List FragmentTrack) {pos : Nat},
    (∀ t ∈ ts, t.Valid ∧ t.trafSize < 2 ^ 31) → file.length < 2 ^ 31 →
    Holds file pos (payload ts) →
    (bodies ccTraf (trafBoxes pos ts)).mapM (demuxTraf file) = some (ts.map player) := by
  intro ts
  induction ts with
  | nil => intro pos _ _ _; rfl
  | cons t ts ih =>
    intro pos hts hfile hold
    have hold' : Holds file pos (t.data ++ payload ts) := hold
    rw [holds_append] at hold'
    obtain ⟨hdata, hrest⟩ := hold'
    obtain ⟨hvalid, hsize⟩ := hts t (mem_cons_self ..)
    have hpos := hdata.le
    have hbodies : bodies ccTraf (trafBoxes pos (t :: ts))
        = boxes (t.children pos) :: bodies ccTraf (trafBoxes (pos + t.data.length) ts) := rfl
    rw [hbodies, mapM_cons, demuxTraf_children hvalid hsize (by omega) hdata,
      ih (fun t' ht' => hts t' (mem_cons_of_mem _ ht')) hfile hrest]
    rfl

variable {ts : List FragmentTrack}

theorem trafSize_le_of_mem (h : t ∈ ts) : t.trafSize ≤ (ts.map trafSize).sum := by
  obtain ⟨l, r, rfl⟩ := append_of_mem h
  simp only [map_append, map_cons, sum_append, sum_cons]
  omega

theorem readBoxes_fragment (h : fragmentSize ts < 2 ^ 31) : readBoxes (fragment seq ts)
      = some [(ccMoof, boxes (moofChildren seq ts)), (ccMdat, payload ts)] := by
  apply readBoxes_boxes
  have hmoof := moof_length seq ts
  rw [makeBox_length] at hmoof
  unfold fragmentSize at h
  intro b hb
  simp only [mem_cons, not_mem_nil, or_false] at hb
  rcases hb with rfl | rfl
  · show (boxes (moofChildren seq ts)).length + 8 < 2 ^ 32
    omega
  · show (payload ts).length + 8 < 2 ^ 32
    omega

/-- **Round trip.** A player reads every track and sample of a fragment below 2 GiB,
with composition offsets as unsigned words. -/
theorem demuxFragment_fragment (hvalid : ∀ t ∈ ts, t.Valid) (h : fragmentSize ts < 2 ^ 31) :
    demuxFragment (fragment seq ts) = some (ts.map player) := by
  have hsizes : ∀ t ∈ ts, t.Valid ∧ t.trafSize < 2 ^ 31 := by
    intro t ht
    have := trafSize_le_of_mem ht
    unfold fragmentSize moofSize at h
    exact ⟨hvalid t ht, by omega⟩
  have hchildren : ∀ b ∈ moofChildren seq ts, b.2.length + 8 < 2 ^ 32 := by
    have hmoof := moof_length seq ts
    rw [makeBox_length] at hmoof
    intro b hb
    have hmem := makeBox_length_le_of_mem hb
    rw [makeBox_length] at hmem
    unfold fragmentSize at h
    omega
  have hold : Holds (fragment seq ts) (moofSize ts + 8) (payload ts) := by
    have hself := holds_self (fragment seq ts)
    rw [fragment, boxes_cons, boxes_cons, boxes_nil, append_nil] at hself
    obtain ⟨-, hmdat⟩ := holds_append.1 hself
    rw [Nat.zero_add, moof_length, holds_makeBox] at hmdat
    rw [fragment, boxes_cons, boxes_cons, boxes_nil, append_nil]
    exact hmdat.2.2
  have hlen := fragment_length seq ts
  rw [demuxFragment, readBoxes_fragment h]
  simp only [Option.bind_eq_bind, Option.bind_some, if_true]
  rw [readBoxes_boxes hchildren, Option.bind_some]
  exact mapM_demuxTraf_trafBoxes ts hsizes (by omega) hold

end Nozdormu.Packaging
