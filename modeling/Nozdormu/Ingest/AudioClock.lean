import Nozdormu.Ingest.AacInit
import Nozdormu.Ingest.FrameRecovery
import Nozdormu.Ingest.SessionSafety

/-!
# The clock of live audio
-/

namespace Nozdormu.Ingest

open Rust Bmff Packaging

def declaredTimescale (infos : List LiveTrackInfo) : Option Nat :=
  (infos.find? (·.trackType = .audio)).map (·.timescale.toNat)

def writtenDecodeTime (tracks : List LiveTrackData) : Option Nat :=
  (tracks.find? (·.trackId = 2)).map (·.baseDts.toNat)

/-- `time / timescale` seconds are `t` milliseconds up to a tick of `1 / timescale` seconds, with
the denominators multiplied out. -/
def WithinTick (t time timescale : Nat) : Prop := |(1000 * time : Int) - t * timescale| ≤ 1000

instance (t time timescale : Nat) : Decidable (WithinTick t time timescale) :=
  inferInstanceAs (Decidable (_ ≤ _))

theorem dts_of_audioContent {data : Bytes} {t : UInt32} {f : FrameData}
    (h : audioContent t data = .frame f) : f.track = .audio ∧ f.dts.toNat = 48 * t.toNat := by
  have ht : t.toNat < 2 ^ 32 := t.toNat_lt
  unfold audioContent at h
  split at h
  next d₀ d₁ payload =>
    split_ifs at h
    cases h
    refine ⟨rfl, ?_⟩
    rw [UInt64.toNat_ofNat_of_lt']
    · omega
    · show t.toNat * 48000 / 1000 < 2 ^ 64
      omega
  next => cases h

theorem audioContent_of_frame {p : Profile} {data : Bytes} {t : UInt32} {f : FrameData}
    (h : parseFlvAudioTag p data (UInt64.ofNat t.toNat) = .ok (.frame f)) :
    audioContent t data = .frame f := by
  rw [parseFlvAudioTag_eq] at h
  cases hcontent : audioContent t data with
  | nothing => rw [hcontent] at h; cases h
  | config record =>
    rw [hcontent] at h
    rcases eq_ok_of_orIgnored h with htag | hconfig
    · cases htag
    · obtain ⟨config, -, hconfig⟩ := bind_eq_ok.1 hconfig
      cases hconfig
  | frame g =>
    rw [hcontent] at h
    have hf := Except.ok.inj h
    injection hf with hf
    rw [hf]

theorem withinTick_iff (t rate : Nat) :
    WithinTick t (48 * t) rate ↔ t * ((48000 : Int) - rate).natAbs ≤ 1000 := by
  have hfactor : (1000 * (48 * t : Nat) : Int) - t * rate = t * (48000 - rate) := by
    push_cast
    ring
  rw [WithinTick, hfactor, Int.abs_eq_natAbs, Int.natAbs_mul, Int.natAbs_natCast]
  exact Int.ofNat_le

/-- **The decode time of an audio frame** that opens a segment or a part is right to a tick exactly
while the milliseconds, times the distance of the sampling frequency to 48000 Hz, are at most
1000. -/
theorem audioClock_iff (p : Profile) (record data : Bytes) (c : AacConfig) (t : UInt32)
    (f : FrameData) (s s' : LiveSegmenter) (out : SegmenterOutput) (a : Accumulator)
    (haccept : fromAudioSpecificConfig record = .ok c)
    (hframe : parseFlvAudioTag p data (UInt64.ofNat t.toNat) = .ok (.frame f))
    (hconfig : s.audioConfig = some c) (hpush : s.pushFrame p f = .ok (out, s'))
    (ha : a = s'.segment ∨ a = s'.part) (hfirst : a.audioSamples = [f.sample]) :
    ∃ timescale time, declaredTimescale s'.buildTrackInfos = some timescale ∧
      writtenDecodeTime (a.tracks s'.videoConfig s'.audioConfig) = some time ∧
      (WithinTick t.toNat time timescale ↔
        t.toNat * ((48000 : Int) - c.sampleRate.toNat).natAbs ≤ 1000) := by
  obtain ⟨htrack, hdts⟩ := dts_of_audioContent (audioContent_of_frame hframe)
  have hpushed := LiveSegmenter.pushed_of_pushFrame hpush
  have hconfig' : s'.audioConfig = some c := hpushed.settings_eq.2.2.1.trans hconfig
  have hbase : a.audioBaseDts = f.dts := by
    -- both accumulators take the frame, whatever was closed before it
    obtain ⟨mid, rfl⟩ : ∃ mid : Accumulator, a = mid.push f f.sample := by
      cases hpushed with
      | keep | part | segment => exact ha.elim (fun h => ⟨_, h⟩) fun h => ⟨_, h⟩
    unfold Accumulator.push at hfirst ⊢
    rw [htrack] at hfirst ⊢
    have hempty : mid.audioSamples = [] := List.append_cancel_right hfirst
    rw [hempty]
    rfl
  have htimescale : declaredTimescale s'.buildTrackInfos = some c.timescale.toNat := by
    rw [LiveSegmenter.buildTrackInfos, hconfig']
    cases s'.videoConfig <;> rfl
  have htime : writtenDecodeTime (a.tracks s'.videoConfig s'.audioConfig) =
      some a.audioBaseDts.toNat := by
    rw [Accumulator.tracks, hconfig']
    cases s'.videoConfig <;> rfl
  refine ⟨_, _, htimescale, htime, ?_⟩
  rw [hbase, hdts, (of_fromAudioSpecificConfig haccept).1]
  exact withinTick_iff ..

def aacMessage : Bytes := [0xAF, 0x01, 0x21]

def secondFrame : FrameData := ⟨.audio, [0x21], 48000, 48000, true⟩

def stereoSegmenter : LiveSegmenter := configured 6.0 0.5 false baseline stereo44100

theorem audioClock_iff_second :
    fromAudioSpecificConfig [0x12, 0x10] = .ok stereo44100 ∧
      parseFlvAudioTag .release aacMessage (UInt64.ofNat (1000 : UInt32).toNat) = .ok
      (.frame secondFrame) ∧
      ∃ out s, stereoSegmenter.pushFrame .release secondFrame = .ok (out, s) ∧
        s.segment.audioSamples = [secondFrame.sample] ∧
        ∃ timescale time, declaredTimescale s.buildTrackInfos = some timescale ∧
          writtenDecodeTime (s.segment.tracks s.videoConfig s.audioConfig) = some time ∧
          (WithinTick (1000 : UInt32).toNat time timescale ↔
            (1000 : UInt32).toNat * ((48000 : Int) - stereo44100.sampleRate.toNat).natAbs ≤ 1000) :=
              by
  obtain ⟨⟨out, s⟩, hpush, hfirst⟩ := exists_of_any_toOption
    (x := stereoSegmenter.pushFrame .release secondFrame)
    (q := fun r => r.2.segment.audioSamples = [secondFrame.sample]) (by decide +kernel)
  refine ⟨by decide, by decide, out, s, hpush, of_decide_eq_true hfirst, ?_⟩
  exact audioClock_iff _ [0x12, 0x10] aacMessage _ 1000 _ _ _ _ _ (by decide)
    (by decide) rfl hpush (.inl rfl)
    (of_decide_eq_true hfirst)

/-- One second of audio at 44100 Hz is written as 48000/44100 s. -/
theorem audioClock_second_fails :
    fromAudioSpecificConfig [0x12, 0x10] = .ok stereo44100 ∧
      parseFlvAudioTag .release aacMessage (UInt64.ofNat (1000 : UInt32).toNat) = .ok
      (.frame secondFrame) ∧
      ∃ out s, stereoSegmenter.pushFrame .release secondFrame = .ok (out, s) ∧
        s.segment.audioSamples = [secondFrame.sample] ∧
        declaredTimescale s.buildTrackInfos = some 44100 ∧
        writtenDecodeTime (s.segment.tracks s.videoConfig s.audioConfig) = some 48000 ∧
        ¬ WithinTick 1000 48000 44100 := by
  obtain ⟨⟨out, s⟩, hpush, hcheck⟩ := exists_of_any_toOption
    (x := stereoSegmenter.pushFrame .release secondFrame)
    (q := fun r => r.2.segment.audioSamples = [secondFrame.sample] ∧
      declaredTimescale r.2.buildTrackInfos = some 44100 ∧
      writtenDecodeTime (r.2.segment.tracks r.2.videoConfig r.2.audioConfig) = some 48000)
    (by decide +kernel)
  obtain ⟨hfirst, hscale, htime⟩ := of_decide_eq_true hcheck
  exact ⟨by decide, by decide, out, s, hpush, hfirst, hscale, htime, by decide⟩

end Nozdormu.Ingest
