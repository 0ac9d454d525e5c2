import Nozdormu.Bmff.Box

/-!
# A fragment demuxer
-/

namespace Nozdormu.Bmff

open List

structure Sample where
  duration : Nat
  size : Nat
  flags : Nat
  compositionOffset : Int
  data : Bytes
deriving DecidableEq, Repr

/-- The samples of one track in one fragment; no `tfdt` means no decode time. -/
structure TrackFragment where
  trackId : Nat
  baseDecodeTime : Option Nat
  samples : List Sample
deriving DecidableEq, Repr

/-- Read an `n`-byte integer off the front. -/
def takeBe (n : Nat) (bs : Bytes) : Option (Nat × Bytes) :=
  if n ≤ bs.length then some (beVal (bs.take n), bs.drop n) else none

/-- An `n`-byte field that is there only if its flag is set. -/
def takeIf (present : Bool) (default n : Nat) (bs : Bytes) : Option (Nat × Bytes) :=
  if present then takeBe n bs else some (default, bs)

/-- Two's complement reading of a 32-bit word. -/
def signed32 (v : Nat) : Int := if v < 2 ^ 31 then v else (v : Int) - 2 ^ 32

def version (versionFlags : Nat) : Nat := versionFlags / 2 ^ 24

/-- Track id and per-sample defaults of a fragment. -/
structure Tfhd where
  trackId : Nat
  defaultDuration : Nat
  defaultSize : Nat
  defaultFlags : Nat
deriving DecidableEq, Repr

/-- `none` unless the fragment is addressed from its `moof`. -/
def readTfhd (body : Bytes) : Option Tfhd := do
  let (vf, r) ← takeBe 4 body
  let (trackId, r) ← takeBe 4 r
  if vf.testBit 0 || !vf.testBit 17 then none
  else
    let (_, r) ← takeIf (vf.testBit 1) 0 4 r
    let (defaultDuration, r) ← takeIf (vf.testBit 3) 0 4 r
    let (defaultSize, r) ← takeIf (vf.testBit 4) 0 4 r
    let (defaultFlags, _) ← takeIf (vf.testBit 5) 0 4 r
    return { trackId, defaultDuration, defaultSize, defaultFlags }

def readTfdt (body : Bytes) : Option Nat := do
  let (vf, r) ← takeBe 4 body
  let (time, _) ← takeBe (if version vf = 1 then 8 else 4) r
  return time

structure RunEntry where
  duration : Nat
  size : Nat
  flags : Nat
  compositionOffset : Int
deriving DecidableEq, Repr

/-- Composition offsets are unsigned in version 0 and signed in later versions. -/
def compositionOffset (version word : Nat) : Int :=
  if version = 0 then word else signed32 word

def readRunEntry (vf : Nat) (d : Tfhd) (bs : Bytes) : Option (RunEntry × Bytes) := do
  let (duration, r) ← takeIf (vf.testBit 8) d.defaultDuration 4 bs
  let (size, r) ← takeIf (vf.testBit 9) d.defaultSize 4 r
  let (flags, r) ← takeIf (vf.testBit 10) d.defaultFlags 4 r
  let (cts, r) ← takeIf (vf.testBit 11) 0 4 r
  return (⟨duration, size, flags, compositionOffset (version vf) cts⟩, r)

def readRunEntries (vf : Nat) (d : Tfhd) : Nat → Bytes → Option (List RunEntry)
  | 0, _ => some []
  | n + 1, bs => do
    let (e, r) ← readRunEntry vf d bs
    return e :: (← readRunEntries vf d n r)

/-- Where a run's data starts (`none`: behind the previous run) and its entries. -/
structure Run where
  dataOffset : Option Int
  entries : List RunEntry
deriving DecidableEq, Repr

def readTrun (d : Tfhd) (body : Bytes) : Option Run := do
  let (vf, r) ← takeBe 4 body
  let (count, r) ← takeBe 4 r
  let (offset, r) ← takeIf (vf.testBit 0) 0 4 r
  let (firstFlags, r) ← takeIf (vf.testBit 2) 0 4 r
  let entries ← readRunEntries vf d count r
  return {
    dataOffset := if vf.testBit 0 then some (signed32 offset) else none
    entries := if vf.testBit 2 then entries.modifyHead ({ · with flags := firstFlags })
      else entries }

/-- Cut consecutive samples out of the file from position `pos`; also the position
behind them. -/
def cutSamples (file : Bytes) : List RunEntry → (pos : Nat) → Option (List Sample × Nat)
  | [], pos => some ([], pos)
  | e :: es, pos =>
    if pos + e.size ≤ file.length then do
      let (rest, stop) ← cutSamples file es (pos + e.size)
      return (⟨e.duration, e.size, e.flags, e.compositionOffset,
        (file.drop pos).take e.size⟩ :: rest, stop)
    else none

/-- The samples of the runs of a track, whose `moof` starts the file. -/
def runSamples (file : Bytes) : List Run → (pos : Nat) → Option (List Sample)
  | [], _ => some []
  | run :: runs, pos =>
    let start := run.dataOffset.getD pos
    if start < 0 then none
    else do
      let (samples, stop) ← cutSamples file run.entries start.toNat
      return samples ++ (← runSamples file runs stop)

def bodies (cc : FourCC) (l : List (FourCC × Bytes)) : List Bytes :=
  (l.filter fun b => b.1 = cc).map (·.2)

def demuxTraf (file body : Bytes) : Option TrackFragment := do
  let children ← readBoxes body
  let tfhd ← readTfhd (← childBody ccTfhd children)
  let baseDecodeTime ← (childBody ccTfdt children).mapM readTfdt
  let runs ← (bodies ccTrun children).mapM (readTrun tfhd)
  let samples ← runSamples file runs 0
  return { trackId := tfhd.trackId, baseDecodeTime, samples }

def demuxFragment (file : Bytes) : Option (List TrackFragment) := do
  match ← readBoxes file with
  | (cc, moof) :: _ =>
    if cc = ccMoof then
      let children ← readBoxes moof
      (bodies ccTraf children).mapM (demuxTraf file)
    else none
  | [] => none

def mdatPayload (file : Bytes) : Option Bytes := do childBody ccMdat (← readBoxes file)

/-! ## Reading what was written -/

theorem takeBe_be {n v : Nat} (h : v < 256 ^ n) (tail : Bytes) :
    takeBe n (be n v ++ tail) = some (v, tail) := by
  have hlen : n ≤ (be n v ++ tail).length := by simp
  rw [takeBe, if_pos hlen]
  have htake : (be n v ++ tail).take n = be n v := by
    rw [take_append_of_le_length (by simp), take_of_length_le (by simp)]
  have hdrop : (be n v ++ tail).drop n = tail := by
    simp
  rw [htake, hdrop, beVal_be_of_lt h]

theorem takeBe_be_end {n v : Nat} (h : v < 256 ^ n) : takeBe n (be n v) = some (v, []) := by
  have := takeBe_be h []
  rwa [append_nil] at this

theorem takeIf_true (default n : Nat) (bs : Bytes) : takeIf true default n bs = takeBe n bs := rfl

theorem takeIf_false (default n : Nat) (bs : Bytes) :
    takeIf false default n bs = some (default, bs) := rfl

theorem cutSamples_holds {file : Bytes} : ∀ (l : List (RunEntry × Bytes)) {pos : Nat},
    (∀ x ∈ l, x.1.size = x.2.length) → Holds file pos (l.flatMap (·.2)) →
    cutSamples file (l.map (·.1)) pos
      = some (l.map fun x => ⟨x.1.duration, x.1.size, x.1.flags, x.1.compositionOffset, x.2⟩,
          pos + (l.flatMap (·.2)).length) := by
  intro l
  induction l with
  | nil => intro pos _ _; rfl
  | cons x l ih =>
    intro pos hsize hold
    rw [flatMap_cons, holds_append] at hold
    obtain ⟨hx, hrest⟩ := hold
    have hsz : x.1.size = x.2.length := hsize x (mem_cons_self ..)
    have hrec := ih (fun y hy => hsize y (mem_cons_of_mem _ hy)) hrest
    rw [map_cons, cutSamples, if_pos (by rw [hsz]; exact hx.le), hsz, hrec]
    show some (_ :: _, _) = _
    rw [hx.take, map_cons, flatMap_cons, length_append, hsz, Nat.add_assoc]

end Nozdormu.Bmff
