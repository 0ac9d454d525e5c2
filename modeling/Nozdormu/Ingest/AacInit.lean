import Nozdormu.Ingest.Aac
import Nozdormu.Packaging.InitRoundTrip

/-!
# AAC in a live init segment
-/

namespace Nozdormu.Ingest

open Rust Bmff Packaging

/-- The format's audio sample entry: channel count at byte 16, 16.16 sample rate at 24, and
the `esds` box right behind the 28 fixed bytes. -/
def IsoAudioEntry (entry : Bytes) (channels sampleRate : Nat) : Prop :=
  beVal ((entry.drop 16).take 2) = channels ∧
    beVal ((entry.drop 24).take 4) = sampleRate * 2 ^ 16 ∧
    ((readBoxes (entry.drop 28)).bind List.head?).map (·.1) = some ccEsds

def liveInit (before after : List LiveTrackInfo) (timescale : UInt32) (c : AacConfig) : Bytes :=
  generateInitSegmentFromLiveTracks (before ++ c.liveTrack :: after) timescale

def parsedAudio (p : Profile) (before after : List LiveTrackInfo) (timescale : UInt32)
    (c : AacConfig) : Option (Option UInt16 × Option UInt32) :=
  ((parseMp4 p (liveInit before after timescale c)).toOption.bind
    fun m => m.tracks[before.length]?).map fun t => (t.channels, t.sampleRate)

theorem audioInfoOf_buildStsdData (c : AacConfig) :
    audioInfoOf c.buildStsdData = (some c.channels.toUInt32, some 0) := by
  have hreserved : (List.replicate 8 0 : Bytes) = be 2 0 ++ List.replicate 6 0 := rfl
  have hself := holds_self c.buildStsdData
  nth_rewrite 2 [AacConfig.buildStsdData] at hself
  rw [AacConfig.buildMp4aEntry, AacConfig.mp4aBody, hreserved] at hself
  simp only [holds_append, holds_makeBox, be_length, List.length_replicate, List.length_append,
    Nat.zero_add, Nat.reduceAdd] at hself
  obtain ⟨-, -, -, -, -, -, ⟨hzero, -⟩, hchannels, hbits, -⟩ := hself
  have hrate := holds_append.2 ⟨hchannels, by rw [be_length]; exact hbits⟩
  have hlen := hrate.le
  have htake := hrate.take
  rw [List.length_append, be_length, be_length] at hlen htake
  have hch : c.channels.toNat < 256 ^ 2 := c.channels.toNat_lt
  have hvalue : beVal (be 2 c.channels.toNat ++ be 2 16) = c.channels.toNat * 65536 + 16 := by
    rw [beVal_append, beVal_be_of_lt hch, be_length]
    rfl
  have hshift : UInt32.ofNat (c.channels.toNat * 65536 + 16) >>> 16 = c.channels.toUInt32 := by
    apply UInt32.toNat_inj.1
    rw [UInt32.toNat_shiftRight, UInt32.toNat_ofNat', Nat.mod_eq_of_lt (by omega),
      UInt16.toNat_toUInt32, Nat.shiftRight_eq_div_pow]
    show (c.channels.toNat * 65536 + 16) / 65536 = c.channels.toNat
    omega
  rw [audioInfoOf, if_neg (by omega), htake, hvalue, hshift, hzero.beVal]
  rfl

theorem not_isoAudioEntry (c : AacConfig) (channels sampleRate : Nat) :
    ¬ IsoAudioEntry c.mp4aBody channels sampleRate := by
  intro h
  rcases h with ⟨_, _, hesds⟩
  obtain ⟨box, hbox, hcode⟩ := Option.map_eq_some_iff.1 hesds
  -- half of the `esds` box's size stands where its code should begin
  obtain ⟨a, b, hhead⟩ : ∃ a b, box.1 = ⟨a, b, 101, 115⟩ := ⟨_, _, head_of_readBoxes hbox⟩
  rw [hhead] at hcode
  have hthird : (101 : UInt8) = 100 := congrArg FourCC.c hcode
  exact absurd hthird (by decide)

/-- **AAC never comes back.** For every accepted configuration the sample entry does not have
the format's layout, and the parser does not find its channel count and sample rate in any
live init segment (below 4 GiB) that carries it. -/
theorem aac_never_comes_back (p : Profile) (data : Bytes) (c : AacConfig)
    (before after : List LiveTrackInfo) (timescale : UInt32)
    (haccept : fromAudioSpecificConfig data = .ok c) :
    ¬ IsoAudioEntry c.mp4aBody c.channels.toNat c.sampleRate.toNat ∧
      ((liveInit before after timescale c).length < 2 ^ 32 →
        parsedAudio p before after timescale c ≠ some (some c.channels, some c.sampleRate)) := by
  refine ⟨not_isoAudioEntry c _ _, ?_⟩
  intro hlen heq
  -- the parser finds no channels and takes the channel count for the sample rate
  have hstsd : stsdBody c.liveTrack.header.stsdData = c.buildStsdData := rfl
  rw [parsedAudio, liveInit, parsedTrack_liveInit p before after timescale hlen, Option.map_some,
    reparsed, hstsd, audioInfoOf_buildStsdData, Option.some.injEq, Prod.mk.injEq] at heq
  exact (of_fromAudioSpecificConfig haccept).2 (Option.some.inj heq.1).symm

def stereo44100 : AacConfig := ⟨[0x12, 0x10], 44100, 2, 44100⟩

theorem aac_never_comes_back_stereo44100 :
    fromAudioSpecificConfig [0x12, 0x10] = .ok stereo44100 ∧
      ¬ IsoAudioEntry stereo44100.mp4aBody 2 44100 ∧
      parsedAudio .release [] [] 1000 stereo44100 ≠ some (some 2, some 44100) := by
  have h := aac_never_comes_back .release [0x12, 0x10] stereo44100 [] [] 1000 (by decide)
  exact ⟨by decide, h.1, h.2 (by decide +kernel)⟩

/-- It is parsed back with 0 channels and a sample rate of 2 Hz. -/
theorem stereo44100_comes_back_wrong :
    fromAudioSpecificConfig [0x12, 0x10] = .ok stereo44100 ∧
      ¬ IsoAudioEntry stereo44100.mp4aBody 2 44100 ∧
      parsedAudio .release [] [] 1000 stereo44100 = some (some 0, some 2) := by
  refine ⟨by decide, ?_, by decide +kernel⟩
  exact not_isoAudioEntry stereo44100 2 44100

end Nozdormu.Ingest
