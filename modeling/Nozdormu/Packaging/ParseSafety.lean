import Nozdormu.Packaging.AtomWalk

/-!
# The whole parser
-/

namespace Nozdormu.Packaging

open Rust Bmff Relation

variable {α : Type} {data d : Bytes}

/-! ## Reading fields cannot fault -/

variable {off : Nat}

theorem noFault_readBe {n : Nat} (h : off + n < 2 ^ 64) : NoFault (readBe .dev n d off) := by
  rw [readBe, add_ok .dev h, ok_bind]
  split
  · exact noFault_fail _
  · exact noFault_ok _

theorem noFault_readU16 (h : off + 2 < 2 ^ 64) : NoFault (readU16 .dev d off) :=
  (noFault_readBe h).bind fun _ => noFault_ok _

theorem noFault_readU32 (h : off + 4 < 2 ^ 64) : NoFault (readU32 .dev d off) :=
  (noFault_readBe h).bind fun _ => noFault_ok _

theorem noFault_readU64 (h : off + 8 < 2 ^ 64) : NoFault (readU64 .dev d off) :=
  (noFault_readBe h).bind fun _ => noFault_ok _

theorem noFault_readFourcc (hd : d.length < 2 ^ 63) (h : off + 4 < 2 ^ 64) :
    NoFault (readFourcc .dev d off) := by
  by_cases hin : off + 4 ≤ d.length
  · obtain ⟨cc, hcc, -⟩ := readFourcc_eq .dev hd hin
    rw [hcc]
    exact noFault_ok _
  · rw [readFourcc, add_ok .dev h, ok_bind, if_pos (by omega)]
    exact noFault_fail _

theorem noFault_readEntries (hd : d.length < 2 ^ 63) {dataStart base size : Nat}
    {entry : Nat → Exec Mp4Error α} (hentry : ∀ off, off + size ≤ d.length → NoFault (entry off)) :
    ∀ (n i : Nat), base + (i + n) * size ≤ d.length →
      NoFault (readEntries .dev d dataStart base size entry n i) := by
  intro n
  induction n with
  | zero => intro i _; exact noFault_ok _
  | succ n ih =>
    intro i hfit
    have hsplit : (i + (n + 1)) * size = i * size + size + n * size := by ring
    have hrest : (i + 1 + n) * size = (i + (n + 1)) * size := by ring
    rw [readEntries, mul_ok .dev (by omega), ok_bind, add_ok .dev (by omega), ok_bind,
      add_ok .dev (by omega), ok_bind, if_neg (by omega)]
    exact (hentry _ (by omega)).bind fun e => (ih (i + 1) (by omega)).bind fun _ => noFault_ok _

theorem le_of_div {len base size n : Nat} (hbase : base ≤ len) (hn : n ≤ (len - base) / size) :
    base + n * size ≤ len := by
  have h := Nat.div_mul_le_self (len - base) size
  have hmul : n * size ≤ (len - base) / size * size := Nat.mul_le_mul_right size hn
  omega

variable {β : Type}

theorem noFault_slice_bind (hd : data.length < 2 ^ 63) {a : Atom}
    {g : Bytes → Exec Mp4Error β} (ha : a.dataEnd ≤ data.length)
    (hg : ∀ d : Bytes, d.length < 2 ^ 63 → NoFault (g d)) :
    NoFault (slice data a.dataStart a.dataEnd >>= g) ↔ a.dataStart ≤ a.dataEnd := by
  rw [noFault_bind, noFault_slice]
  constructor
  · intro h
    exact h.1.1
  intro hle
  refine ⟨⟨hle, ha⟩, ?_⟩
  intro d hslice
  rw [slice_ok hle ha] at hslice
  cases hslice
  apply hg
  rw [List.length_take, List.length_drop]
  omega

theorem noFault_parseTable (hd : data.length < 2 ^ 63) {a : Atom} (ha : a.dataEnd ≤ data.length)
    {base size : Nat} {entry : Bytes → Nat → Exec Mp4Error α} (hbase : 4 ≤ base)
    (hentry : ∀ d off, d.length < 2 ^ 63 → off + size ≤ d.length → NoFault (entry d off)) :
    NoFault (parseTable .dev data a base size entry) ↔ a.dataStart ≤ a.dataEnd := by
  refine noFault_slice_bind hd ha ?_
  intro d hlen
  refine noFault_guard.2 fun hshort => ?_
  refine (noFault_readU32 (by omega)).bind fun count => ?_
  refine noFault_readEntries hlen (fun off => hentry d off hlen) _ _ ?_
  rw [Nat.zero_add]
  exact le_of_div (by omega) (Nat.min_le_right _ _)

/-! ## Looking up a child -/

/-- The search for a child is safe. -/
def ChildSafe (data : Bytes) (container : Atom) (target : FourCC) : Prop :=
  SearchSafe data container.dataStart (min container.dataEnd data.length) target

/-- The search for a child is safe, and the child it finds is no shorter than its header. -/
def LeafSafe (data : Bytes) (container : Atom) (target : FourCC) : Prop :=
  ChildSafe data container target ∧
    ∀ a, container.child .dev data target = .ok (some a) → a.dataStart ≤ a.dataEnd

section Child

variable {c : Atom} {target : FourCC}

section

variable (hd : data.length < 2 ^ 63)
include hd

theorem inBuffer_of_findAtomLoop {stop : Nat} (hstop : stop ≤ data.length) {a : Atom} :
    ∀ {fuel off : Nat},
    off ≤ data.length + 8 → findAtomLoop .dev target fuel ⟨data, off, stop⟩ = .ok (some a) →
      a.InBuffer data := by
  intro fuel
  induction fuel with
  | zero => intro off _ h; cases h
  | succ fuel ih =>
    intro off hoff h
    obtain ⟨r, hr, h⟩ := bind_eq_ok.1 h
    cases r with
    | none => cases h
    | some r =>
      obtain ⟨atom, it'⟩ := r
      obtain ⟨cc, size, s, hh, hin, rfl, rfl⟩ := (next_eq_some_iff hd hstop hoff).1 hr
      have hle := header_le hh
      simp only at h
      split at h
      · cases h
        exact ⟨by simp only; omega, by simp only; omega⟩
      · exact ih (by omega) h

variable (hc : c.InBuffer data)
include hc

theorem child_inBuffer {a : Atom} (h : c.child .dev data target = .ok (some a)) : a.InBuffer data :=
  inBuffer_of_findAtomLoop hd (Nat.min_le_right _ _) hc.1 h

theorem child_noFault_iff : NoFault (c.child .dev data target) ↔ ChildSafe data c target :=
  findAtom_noFault_iff hd hc.1

variable {k : Option Atom → Exec Mp4Error β}

theorem lookup_noFault_iff {P : Atom → Prop} {Q : Prop} (hnone : NoFault (k none) ↔ Q)
    (hsome : ∀ a : Atom, a.InBuffer data → (NoFault (k (some a)) ↔ P a)) :
    NoFault (c.child .dev data target >>= k) ↔ ChildSafe data c target ∧
      (∀ a, c.child .dev data target = .ok (some a) → P a) ∧
      (c.child .dev data target = .ok none → Q) := by
  rw [noFault_bind, child_noFault_iff hd hc]
  refine and_congr_right fun _ => ?_
  constructor
  · intro h
    exact ⟨fun a ha => (hsome a (child_inBuffer hd hc ha)).1 (h _ ha), fun hn => hnone.1 (h _ hn)⟩
  · intro h r hr
    cases r with
    | none => exact hnone.2 (h.2 hr)
    | some a => exact (hsome a (child_inBuffer hd hc hr)).2 (h.1 a hr)

theorem descend_noFault_iff {P : Atom → Prop} (hnone : NoFault (k none))
    (hsome : ∀ a : Atom, a.InBuffer data → (NoFault (k (some a)) ↔ P a)) :
    NoFault (c.child .dev data target >>= k) ↔
      ChildSafe data c target ∧ ∀ a, c.child .dev data target = .ok (some a) → P a :=
  (lookup_noFault_iff hd hc (iff_true_intro hnone) hsome).trans
    (and_congr_right' (and_iff_left fun _ => trivial))

theorem leaf_noFault_iff (hnone : NoFault (k none)) (hsome : ∀ a : Atom, a.dataEnd ≤ data.length →
      (NoFault (k (some a)) ↔ a.dataStart ≤ a.dataEnd)) :
    NoFault (c.child .dev data target >>= k) ↔ LeafSafe data c target :=
  descend_noFault_iff hd hc hnone fun a ha => hsome a ha.2

theorem require_noFault_iff {what : String} {k : Atom → Exec Mp4Error β}
    (hk : ∀ a : Atom, a.dataEnd ≤ data.length → (NoFault (k a) ↔ a.dataStart ≤ a.dataEnd)) :
    NoFault (c.require .dev data target what >>= k) ↔ LeafSafe data c target := by
  unfold Atom.require
  rw [bind_assoc]
  refine leaf_noFault_iff hd hc ?_ ?_
  · exact noFault_fail _
  · intro a ha
    exact hk a ha

end

end Child

section Leaves

variable {a : Atom}

section

variable (hd : data.length < 2 ^ 63) (ha : a.dataEnd ≤ data.length)
include hd ha

theorem parseTimes_noFault_iff : NoFault (parseTimes .dev data a) ↔ a.dataStart ≤ a.dataEnd := by
  refine noFault_slice_bind hd ha ?_
  intro d hlen
  cases d with
  | nil => exact noFault_fail _
  | cons version d =>
    show NoFault (if version = 1 then _ else _)
    split <;> refine noFault_guard.2 fun _ => (noFault_readU32 (by decide)).bind fun _ => ?_
    · exact (noFault_readU64 (by decide)).bind fun _ => noFault_ok _
    · exact (noFault_readU32 (by decide)).bind fun _ => noFault_ok _

theorem parseTkhd_noFault_iff : NoFault (parseTkhd .dev data a) ↔ a.dataStart ≤ a.dataEnd := by
  refine noFault_slice_bind hd ha ?_
  intro d hlen
  have hfields : ∀ i j k : Nat, i + 4 < 2 ^ 64 → j + 4 < 2 ^ 64 → k + 4 < 2 ^ 64 →
      NoFault (do
        let trackId ← readU32 .dev d i
        let width ← readU32 .dev d j
        let height ← readU32 .dev d k
        return (trackId, width >>> 16, height >>> 16)) := by
    intro i j k hi hj hk
    refine (noFault_readU32 hi).bind fun _ => ?_
    refine (noFault_readU32 hj).bind fun _ => ?_
    exact (noFault_readU32 hk).bind fun _ => noFault_ok _
  cases d with
  | nil => exact noFault_fail _
  | cons version d =>
    show NoFault (if version = 1 then _ else _)
    split <;> refine noFault_guard.2 fun _ => ?_
    · exact hfields 20 84 88 (by decide) (by decide) (by decide)
    · exact hfields 12 72 76 (by decide) (by decide) (by decide)

theorem parseHdlr_noFault_iff : NoFault (parseHdlr .dev data a) ↔ a.dataStart ≤ a.dataEnd := by
  refine noFault_slice_bind hd ha ?_
  intro d hlen
  refine noFault_guard.2 fun _ => (noFault_readFourcc hlen (by decide)).bind fun handler => ?_
  split
  · exact noFault_ok _
  · split <;> exact noFault_ok _

end

end Leaves

section Tables

variable {stbl : Atom}

section

variable (hd : data.length < 2 ^ 63) (hc : stbl.InBuffer data)
include hd hc

theorem parseStsdRaw_noFault_iff :
    NoFault (parseStsdRaw .dev data stbl) ↔ LeafSafe data stbl ccStsd := by
  refine leaf_noFault_iff hd hc (noFault_ok _) ?_
  intro a ha
  rw [noFault_slice]
  exact and_iff_left ha

theorem parseStsdCodec_noFault_iff :
    NoFault (parseStsdCodec .dev data stbl) ↔ LeafSafe data stbl ccStsd := by
  refine leaf_noFault_iff hd hc (noFault_ok _) ?_
  intro a ha
  refine noFault_slice_bind hd ha ?_
  intro d hlen
  split
  · exact noFault_ok _
  · exact (noFault_readFourcc hlen (by decide)).bind fun _ => noFault_ok _

theorem parseAudioInfo_noFault_iff :
    NoFault (parseAudioInfo .dev data stbl) ↔ LeafSafe data stbl ccStsd := by
  refine leaf_noFault_iff hd hc (noFault_ok _) ?_
  intro a ha
  refine noFault_slice_bind hd ha ?_
  intro d hlen
  split
  · exact noFault_ok _
  · refine (noFault_readU16 (by decide)).bind fun _ => ?_
    exact (noFault_readU32 (by decide)).bind fun _ => noFault_ok _

end

theorem noFault_fieldPair {f : UInt32 → UInt32 → α} (hlen : d.length < 2 ^ 63)
    (h : off + 8 ≤ d.length) : NoFault (do
      let first ← readU32 .dev d off
      let second ← readU32 .dev d (← Profile.dev.add 64 off 4)
      return f first second) := by
  refine (noFault_readU32 (by omega)).bind fun _ => ?_
  rw [add_ok .dev (by omega), ok_bind]
  exact (noFault_readU32 (by omega)).bind fun _ => noFault_ok _

theorem noFault_stscEntry (hlen : d.length < 2 ^ 63) (h : off + 12 ≤ d.length) :
    NoFault (stscEntry .dev d off) := by
  refine (noFault_readU32 (by omega)).bind fun _ => ?_
  rw [add_ok .dev (by omega), ok_bind]
  refine (noFault_readU32 (by omega)).bind fun _ => ?_
  rw [add_ok .dev (by omega), ok_bind]
  exact (noFault_readU32 (by omega)).bind fun _ => noFault_ok _

section

variable (hd : data.length < 2 ^ 63) (hc : stbl.InBuffer data)
include hd hc

theorem parseStts_noFault_iff : NoFault (parseStts .dev data stbl) ↔ LeafSafe data stbl ccStts := by
  refine leaf_noFault_iff hd hc (noFault_ok _) ?_
  intro a ha
  exact noFault_parseTable hd ha (by decide) fun _ _ => noFault_fieldPair

theorem parseStsc_noFault_iff : NoFault (parseStsc .dev data stbl) ↔ LeafSafe data stbl ccStsc := by
  refine leaf_noFault_iff hd hc (noFault_ok _) ?_
  intro a ha
  exact noFault_parseTable hd ha (by decide) fun _ _ => noFault_stscEntry

theorem parseStsz_noFault_iff : NoFault (parseStsz .dev data stbl) ↔ LeafSafe data stbl ccStsz := by
  refine leaf_noFault_iff hd hc (noFault_ok _) ?_
  intro a ha
  refine noFault_slice_bind hd ha ?_
  intro d hlen
  refine noFault_guard.2 fun hshort => ?_
  refine (noFault_readU32 (by decide)).bind fun sampleSize => ?_
  refine (noFault_readU32 (by decide)).bind fun sampleCount => ?_
  split
  · exact noFault_ok _
  refine noFault_readEntries hlen (fun off h => noFault_readU32 (by omega)) _ _ ?_
  rw [Nat.zero_add]
  exact le_of_div (by omega) (Nat.min_le_right _ _)

theorem parseStco_noFault_iff : NoFault (parseStco .dev data stbl) ↔
      LeafSafe data stbl ccCo64 ∧
        (stbl.child .dev data ccCo64 = .ok none → LeafSafe data stbl ccStco) := by
  rw [LeafSafe, and_assoc]
  refine lookup_noFault_iff hd hc (leaf_noFault_iff hd hc (noFault_ok _) fun a ha => ?_) fun a ha =>
    ?_
  · refine noFault_parseTable hd ha (by decide) fun _ _ _ _ => ?_
    exact (noFault_readU32 (by omega)).bind fun _ => noFault_ok _
  · exact noFault_parseTable hd ha.2 (by decide) fun _ _ _ _ => noFault_readU64 (by omega)

theorem parseStss_noFault_iff : NoFault (parseStss .dev data stbl) ↔ LeafSafe data stbl ccStss := by
  refine leaf_noFault_iff hd hc (noFault_ok _) ?_
  intro a ha
  refine (noFault_bind.trans (and_iff_left fun _ _ => noFault_ok _)).trans ?_
  exact noFault_parseTable hd ha (by decide) fun _ _ _ _ => noFault_readU32 (by omega)

theorem parseCtts_noFault_iff : NoFault (parseCtts .dev data stbl) ↔ LeafSafe data stbl ccCtts := by
  refine leaf_noFault_iff hd hc (noFault_ok _) ?_
  intro a ha
  refine (noFault_bind.trans (and_iff_left fun _ _ => noFault_ok _)).trans ?_
  exact noFault_parseTable hd ha (by decide) fun _ _ => noFault_fieldPair

end

end Tables

def StblSafe (data : Bytes) (stbl : Atom) : Prop :=
  LeafSafe data stbl ccStsd ∧ (Returns (parseStsdRaw .dev data stbl) →
  Returns (parseStsdCodec .dev data stbl) →
  LeafSafe data stbl ccStts ∧ (Returns (parseStts .dev data stbl) →
  LeafSafe data stbl ccStsc ∧ (Returns (parseStsc .dev data stbl) →
  LeafSafe data stbl ccStsz ∧ (Returns (parseStsz .dev data stbl) →
  (LeafSafe data stbl ccCo64 ∧
    (stbl.child .dev data ccCo64 = .ok none → LeafSafe data stbl ccStco)) ∧
  (Returns (parseStco .dev data stbl) →
  LeafSafe data stbl ccStss ∧ (Returns (parseStss .dev data stbl) →
  LeafSafe data stbl ccCtts))))))

theorem parseStbl_noFault_iff (hd : data.length < 2 ^ 63) {stbl : Atom} (hc : stbl.InBuffer data)
    (trackId width height : UInt32) (times : UInt32 × UInt64) (trackType : TrackType) :
    NoFault (parseStbl .dev data stbl trackId width height times trackType) ↔
      StblSafe data stbl := by
  by_cases hstsd : LeafSafe data stbl ccStsd
  · refine (noFault_bind_iff (parseStsdRaw_noFault_iff hd hc) fun _ _ =>
      noFault_bind_iff (parseStsdCodec_noFault_iff hd hc) fun _ _ =>
      noFault_bind_iff (parseStts_noFault_iff hd hc) fun _ _ =>
      noFault_bind_iff (parseStsc_noFault_iff hd hc) fun _ _ =>
      noFault_bind_iff (parseStsz_noFault_iff hd hc) fun _ _ =>
      noFault_bind_iff (parseStco_noFault_iff hd hc) fun _ _ =>
      noFault_bind_iff (parseStss_noFault_iff hd hc) fun _ _ =>
      noFault_bind_iff (parseCtts_noFault_iff hd hc) fun _ _ => iff_true_intro ?_).trans ?_
    · -- the last lookup is that of `stsd` again, for audio
      split
      · exact ((parseAudioInfo_noFault_iff hd hc).2 hstsd).bind fun _ => noFault_ok _
      · exact noFault_ok _
    · simp only [StblSafe, hstsd, true_and, implies_true, and_true]
  · refine iff_of_false ?_ (fun h => hstsd h.1)
    intro h
    exact hstsd ((parseStsdRaw_noFault_iff hd hc).1 (noFault_bind.1 h).1)

/-- A track: its header, then `mdia` with its two headers, then `minf` and `stbl`. -/
def TrakSafe (data : Bytes) (trak : Atom) : Prop :=
  LeafSafe data trak ccTkhd ∧
  (Returns (trak.require .dev data ccTkhd "missing tkhd" >>= parseTkhd .dev data) →
  ChildSafe data trak ccMdia ∧ ∀ mdia, trak.child .dev data ccMdia = .ok (some mdia) →
  LeafSafe data mdia ccMdhd ∧
  (Returns (mdia.require .dev data ccMdhd "missing mdhd" >>= parseMdhd .dev data) →
  LeafSafe data mdia ccHdlr ∧
  (Returns (mdia.require .dev data ccHdlr "missing hdlr" >>= parseHdlr .dev data) →
  ChildSafe data mdia ccMinf ∧ ∀ minf, mdia.child .dev data ccMinf = .ok (some minf) →
  ChildSafe data minf ccStbl ∧ ∀ stbl, minf.child .dev data ccStbl = .ok (some stbl) →
  StblSafe data stbl)))

theorem parseTrak_noFault_iff (hd : data.length < 2 ^ 63) {trak : Atom} (hc : trak.InBuffer data) :
    NoFault (parseTrak .dev data trak) ↔ TrakSafe data trak := by
  have htkhd : NoFault (trak.require .dev data ccTkhd "missing tkhd" >>= parseTkhd .dev data) ↔
      LeafSafe data trak ccTkhd :=
    require_noFault_iff hd hc fun a ha => parseTkhd_noFault_iff hd ha
  unfold parseTrak TrakSafe
  rw [← bind_assoc]
  refine noFault_bind_iff htkhd fun ids _ => ?_
  refine descend_noFault_iff hd hc (noFault_ok _) ?_
  intro mdia hmdia
  have hmdhd : NoFault (mdia.require .dev data ccMdhd "missing mdhd" >>= parseMdhd .dev data) ↔
      LeafSafe data mdia ccMdhd :=
    require_noFault_iff hd hmdia fun a ha => parseTimes_noFault_iff hd ha
  have hhdlr : NoFault (mdia.require .dev data ccHdlr "missing hdlr" >>= parseHdlr .dev data) ↔
      LeafSafe data mdia ccHdlr :=
    require_noFault_iff hd hmdia fun a ha => parseHdlr_noFault_iff hd ha
  simp only
  rw [← bind_assoc]
  refine noFault_bind_iff hmdhd fun times _ => ?_
  rw [← bind_assoc]
  refine noFault_bind_iff hhdlr fun trackType _ => ?_
  refine descend_noFault_iff hd hmdia (noFault_ok _) ?_
  intro minf hminf
  refine descend_noFault_iff hd hminf (noFault_ok _) ?_
  intro stbl hstbl
  refine Iff.trans ?_ (parseStbl_noFault_iff hd hstbl ids.1 ids.2.1 ids.2.2 times trackType)
  exact noFault_bind.trans (and_iff_left fun _ _ => noFault_ok _)

/-! ## The loop over the tracks -/

/-- The loop behind `moov`'s `mvhd` passes the header at `off`. -/
def TraksStep (data : Bytes) (stop off off' : Nat) : Prop :=
  ∃ cc h s, header data stop off = some (cc, h, s) ∧ off + s ≤ stop ∧
    (cc = ccTrak → Returns (parseTrak .dev data ⟨cc, h, off + h, off + s⟩)) ∧ off' = off + s

/-- No header the loop meets overflows the offset or, a track's apart, has size 0, and
every track it meets is safe. -/
def TraksSafe (data : Bytes) (start stop : Nat) : Prop :=
  ∀ off, ReflTransGen (TraksStep data stop) start off →
    ∀ cc h s, header data stop off = some (cc, h, s) →
      off + s < 2 ^ 64 ∧ (s = 0 → cc = ccTrak) ∧
      (cc = ccTrak → off + s ≤ stop → TrakSafe data ⟨cc, h, off + h, off + s⟩)

/-- The loop collects the tracks it meets and never ends before the container does. -/
def traksVisit (p : Profile) (data : Bytes) (tracks : List TrackInfo) (atom : Atom) :
    Exec Mp4Error (List TrackInfo ⊕ List TrackInfo) := do
  if atom.fourcc = ccTrak then return .inr (tracks ++ (← parseTrak p data atom).toList)
  else return .inr tracks

theorem parseTraksLoop_eq_iterate (p : Profile) (data : Bytes) :
    ∀ (fuel : Nat) (it : AtomIter) (tracks : List TrackInfo), parseTraksLoop p data fuel it tracks =
        iterate (walkBody p (traksVisit p data) id) fuel (it, tracks) := by
  intro fuel
  induction fuel with
  | zero => intro it tracks; rfl
  | succ fuel ih =>
    intro it tracks
    rw [parseTraksLoop, iterate, walkBody]
    cases it.next p with
    | error e => rfl
    | ok r =>
      cases r with
      | none => rfl
      | some r =>
        obtain ⟨atom, it'⟩ := r
        simp only [ok_bind, traksVisit]
        split
        · cases parseTrak p data atom with
          | error e => rfl
          | ok t =>
            cases t with
            | none =>
              show parseTraksLoop p data fuel it' tracks = iterate _ fuel (it', tracks ++ [])
              rw [ih, List.append_nil]
            | some track => exact ih _ _
        · exact ih _ _

/-- A container whose data end before they start has no children, so a track of that
kind is refused. -/
theorem parseTrak_of_empty (hd : data.length < 2 ^ 63) {trak : Atom} (hc : trak.InBuffer data)
    (hempty : trak.dataEnd ≤ trak.dataStart) : ¬ Returns (parseTrak .dev data trak) := by
  intro h
  rcases h with ⟨t, ht⟩
  obtain ⟨tkhd, htkhd, -⟩ := bind_eq_ok.1 ht
  obtain ⟨r, hr, hsome⟩ := bind_eq_ok.1 htkhd
  obtain ⟨s, hs, hr⟩ := bind_eq_ok.1 hr
  cases s with
  | none =>
    cases hr
    cases hsome
  | some s =>
    obtain ⟨cc, h, s, hh, -⟩ := (next_eq_some_iff hd (Nat.min_le_right _ _) hc.1).1 hs
    have hle := header_le hh
    omega

section Traks

variable (hd : data.length < 2 ^ 63)
include hd

theorem visits_traks : Visits data (traksVisit .dev data)
    (fun a => a.fourcc = ccTrak → Returns (parseTrak .dev data a))
    (fun a => a.fourcc = ccTrak → TrakSafe data a) where
  pass := by
    intro tracks a
    unfold traksVisit
    by_cases hcc : a.fourcc = ccTrak
    · rw [if_pos hcc]
      constructor
      · rintro ⟨_, h⟩ _
        obtain ⟨t, ht, -⟩ := bind_eq_ok.1 h
        exact ⟨t, ht⟩
      · intro h
        obtain ⟨t, ht⟩ := h hcc
        rw [ht]
        exact ⟨_, rfl⟩
    · rw [if_neg hcc]
      exact iff_of_true ⟨tracks, rfl⟩ fun h => absurd h hcc
  safe := by
    intro tracks a ha
    unfold traksVisit
    by_cases hcc : a.fourcc = ccTrak
    · rw [if_pos hcc, noFault_bind, parseTrak_noFault_iff hd ha]
      exact (and_iff_left fun _ _ => noFault_ok _).trans ⟨fun h _ => h, fun h => h hcc⟩
    · rw [if_neg hcc]
      exact iff_of_true (noFault_ok _) fun h => absurd h hcc
  empty := by
    intro tracks a y ha hempty h
    unfold traksVisit at h
    split at h
    · obtain ⟨t, ht, -⟩ := bind_eq_ok.1 h
      exact absurd ⟨t, ht⟩ (parseTrak_of_empty hd ha hempty)
    · exact (Sum.inr.inj (Except.ok.inj h)).symm

theorem parseTraksLoop_noFault_iff {start stop : Nat} {tracks : List TrackInfo}
    (hstart : start ≤ data.length + 8) :
    NoFault (parseTraksLoop .dev data (data.length + 1) (.new data start stop) tracks) ↔
      TraksSafe data start (min stop data.length) := by
  rw [parseTraksLoop_eq_iterate, walk_noFault_iff hd (visits_traks hd) hstart]
  refine forall₂_congr fun off _ => forall₄_congr fun cc h s hh => and_congr_right fun _ => ?_
  have hle := header_le hh
  -- a track of size 0 does not return, so it is never passed
  have hzero : s = 0 → ((cc = ccTrak → Returns (parseTrak .dev data ⟨cc, h, off + h, off + s⟩)) ↔
      cc ≠ ccTrak) := by
    intro hs
    refine ⟨fun hret hcc => parseTrak_of_empty hd ⟨?_, ?_⟩ ?_ (hret hcc),
      fun hne hcc => absurd hcc hne⟩
    all_goals
      simp only
      omega
  refine and_congr (forall_congr' fun hs => ?_) forall_comm
  exact (not_congr (hzero hs)).trans not_not

end Traks

/-- The file: the search for `moov`, its `mvhd`, then the tracks. -/
def ParseSafe (data : Bytes) : Prop :=
  SearchSafe data 0 data.length ccMoov ∧
  ∀ moov, findAtom .dev data 0 data.length ccMoov = .ok (some moov) →
    LeafSafe data moov ccMvhd ∧
    (Returns (parseMvhd .dev data moov) →
      TraksSafe data moov.dataStart (min moov.dataEnd data.length))

/-- `parse_mp4` runs to an answer, with every arithmetic operation checked, exactly on
these buffers. -/
theorem parseMp4_noFault_iff (data : Buffer) :
    NoFault (parseMp4 .dev data.1) ↔ ParseSafe data.1 := by
  obtain ⟨data, hd⟩ := data
  -- the file is searched like the data of an atom
  let file : Atom := ⟨ccMoov, 0, 0, data.length⟩
  have hfile : file.InBuffer data := ⟨Nat.zero_le _, Nat.le_refl _⟩
  have hsearch : ChildSafe data file ccMoov ↔ SearchSafe data 0 data.length ccMoov := by
    rw [ChildSafe, Nat.min_self]
  refine (descend_noFault_iff hd hfile (noFault_fail _) fun moov hin => ?_).trans
    (and_congr_left' hsearch)
  refine noFault_bind_iff (require_noFault_iff hd hin fun a ha => parseTimes_noFault_iff hd ha) ?_
  intro times _
  rw [noFault_bind, parseTraksLoop_noFault_iff hd hin.1]
  refine and_iff_left ?_
  intro tracks _
  split
  · exact noFault_fail _
  · exact noFault_ok _

/-- A file with a `moov` that holds one header: an `mvhd` of declared size 4. -/
def shortMvhd : Bytes := makeBox ccMoov (be 4 4 ++ ccMvhd.bytes)

def extendedAtom (size : Nat) : Bytes := be 4 1 ++ (ccFtyp.bytes ++ be 8 size)

/-- The three faults, in the order slice, endless loop, overflow. -/
theorem parseMp4_faults :
    parseMp4 .dev shortMvhd = crash .slice ∧ parseMp4 .release shortMvhd = crash .slice ∧
    parseMp4 .dev (extendedAtom 0) = crash .hang ∧
    parseMp4 .dev (makeBox ccFtyp [] ++ extendedAtom (2 ^ 64 - 8)) = crash .overflow ∧
    parseMp4 .release (makeBox ccFtyp [] ++ extendedAtom (2 ^ 64 - 8)) = crash .hang :=
  ⟨rfl, rfl, rfl, rfl, rfl⟩

end Nozdormu.Packaging
