import Nozdormu.Ingest.Store
import Nozdormu.Rust.Str

/-!
# RTMP sessions

`cdn-ingest/src/rtmp/session.rs` and `auth.rs`: what a connection does with the events that
the RTMP library raises. A publish request is logged, authenticated and given a stream and a
segmenter; a video or audio message is an FLV tag, either a codec configuration or a frame for
the segmenter; what the segmenter hands out goes to the stream under one write lock.
-/

namespace Nozdormu.Ingest

open Rust Bmff Packaging

/-! ## Segmenter output -/

def applySegmenterOutput (p : Profile) (s : LiveStream) (output : SegmenterOutput) :
    Exec IngestError LiveStream :=
  let s := output.initSegment.elim s s.setInitSegment
  let s := output.completedParts.foldl LiveStream.pushPart s
  match output.completedSegment with
  | none => return s
  | some segment => s.pushSegment p segment

theorem applySegmenterOutput_induction {p : Profile} {s s' : LiveStream} {output : SegmenterOutput}
    {motive : LiveStream → Prop} (hinit : ∀ data, motive { s with initSegment := data })
    (hpart : ∀ s part, motive s → motive (s.pushPart part))
    (hsegment : ∀ s segment s', motive s → s.pushSegment p segment = .ok s' → motive s')
    (h : applySegmenterOutput p s output = .ok s') : motive s' := by
  have hstart : motive (output.initSegment.elim s s.setInitSegment) := by
    cases output.initSegment with
    | none => exact hinit s.initSegment
    | some data => exact hinit (some data)
  have hparts : ∀ (parts : List LivePart) t, motive t →
      motive (parts.foldl LiveStream.pushPart t) := by
    intro parts
    induction parts with
    | nil => exact fun _ ht => ht
    | cons part parts ih => exact fun t ht => ih _ (hpart t part ht)
  unfold applySegmenterOutput at h
  split at h
  next =>
    cases h
    exact hparts _ _ hstart
  next segment _ => exact hsegment _ segment s' (hparts _ _ hstart) h

theorem returns_applySegmenterOutput_release (s : LiveStream) (out : SegmenterOutput) :
    Returns (applySegmenterOutput .release s out) := by
  unfold applySegmenterOutput
  split
  · exact ⟨_, rfl⟩
  · refine (LiveStream.returns_evict_release ..).bind fun _ _ => ?_
    exact (returns_release_add ..).bind fun _ _ => ⟨_, rfl⟩

structure StreamKeyEntry where
  key : String
  app : String
  streamName : String
  enabled : Bool
deriving DecidableEq, Repr

def validateStreamKey (keys : List StreamKeyEntry) (app streamKey : String) :
    Exec IngestError (String × String) :=
  match keys.find? fun e => e.enabled ∧ e.app = app ∧ e.key = streamKey with
  | some e => return (e.app, e.streamName)
  | none => fail (.authFailed ("invalid stream key for app '" ++ app ++ "'"))

inductive FlvTag where
  | ignored
  | videoConfig (config : H264Config)
  | audioConfig (config : AacConfig)
  | frame (frame : FrameData)
deriving DecidableEq, Repr

/-- A configuration that cannot be parsed is logged and dropped. -/
def orIgnored (config : Exec IngestError FlvTag) : Exec IngestError FlvTag :=
  match config with
  | .error (.err _) => return .ignored
  | r => r

def compositionTime (d₂ d₃ d₄ : UInt8) : Int32 :=
  let cts := (d₂.toUInt32 <<< 16 ||| d₃.toUInt32 <<< 8 ||| d₄.toUInt32).toInt32
  if cts &&& 0x800000 ≠ 0 then cts ||| ~~~0xFFFFFF else cts

/-- An FLV video tag: frame type and codec, packet type, composition time, data. -/
def parseFlvVideoTag (p : Profile) (decode : SpsDecoder) (data : Bytes) (dts : UInt64) :
    Exec IngestError FlvTag := do
  if data.length < 5 then return .ignored
  else
    let d₀ ← index data 0
    let frameType := d₀ >>> 4 &&& 0x0F
    let codecId := d₀ &&& 0x0F
    if codecId ≠ 7 then return .ignored
    else
      let packetType ← index data 1
      let cts := compositionTime (← index data 2) (← index data 3) (← index data 4)
      if packetType = 0 then
        if 5 < data.length then
          let record ← slice data 5 data.length
          orIgnored (return .videoConfig (← fromAvcc p decode record))
        else return .ignored
      else if packetType = 1 then
        let shift ← p.signed 64 (cts.toInt * 90)
        let pts ← p.signed 64 (dts.toInt64.toInt + shift)
        let payload ← slice data 5 data.length
        return .frame {
          track := .video, data := payload, dts, pts := (Int64.ofInt pts).toUInt64
          isKeyframe := frameType = 1 }
      else return .ignored

/-- An FLV audio tag: format, packet type, data. -/
def parseFlvAudioTag (p : Profile) (data : Bytes) (dtsMs : UInt64) : Exec IngestError FlvTag := do
  if data.length < 2 then return .ignored
  else
    let d₀ ← index data 0
    if d₀ >>> 4 &&& 0x0F ≠ 10 then return .ignored
    else
      let packetType ← index data 1
      if packetType = 0 then
        if 2 < data.length then
          let config ← slice data 2 data.length
          orIgnored (return .audioConfig (← fromAudioSpecificConfig config))
        else return .ignored
      else if packetType = 1 then
        let dts := UInt64.ofNat ((← p.mul 64 dtsMs.toNat 48000) / 1000)
        let payload ← slice data 2 data.length
        return .frame { track := .audio, data := payload, dts, pts := dts, isKeyframe := true }
      else return .ignored

/-- The part of the ingest configuration a session reads. -/
structure IngestConfig where
  streamKeys : List StreamKeyEntry
  segmentDuration : Float
  partDuration : Float
  llHlsEnabled : Bool
deriving DecidableEq, Repr

/-- The events of the RTMP library that a session handles; it ignores the others. -/
inductive SessionEvent where
  | connectionRequested (appName : String)
  | publishStreamRequested (streamKey : String)
  | videoDataReceived (data : Bytes) (timestamp : UInt32)
  | audioDataReceived (data : Bytes) (timestamp : UInt32)
  | publishStreamFinished
deriving DecidableEq, Repr

/-- The variables of the session loop, and the store. -/
structure Session where
  appName : String
  streamName : String
  segmenter : Option LiveSegmenter
  liveStream : Option Nat
  store : LiveStreamStore
deriving DecidableEq, Repr

/-- What a session is run with: the configuration, the SPS decoder, and whether log lines of
level `info` are written. -/
structure SessionEnv where
  config : IngestConfig
  decode : SpsDecoder
  infoEnabled : Bool

namespace Session

def logPublishRequest (infoEnabled : Bool) (streamKey : String) : Exec IngestError Unit := do
  if infoEnabled then
    let _ ← strPrefix streamKey.toList (min (byteLen streamKey.toList) 8)
    return ()
  else return ()

def publish (env : SessionEnv) (s : Session) (streamKey : String) : Exec IngestError Session := do
  logPublishRequest env.infoEnabled streamKey
  let (app, name) ← validateStreamKey env.config.streamKeys s.appName streamKey
  let (handle, store) ← s.store.createStream app name env.config.segmentDuration
    env.config.partDuration env.config.llHlsEnabled
  return { s with
    streamName := name, store, liveStream := some handle
    segmenter := some (.new env.config.segmentDuration env.config.partDuration
      env.config.llHlsEnabled) }

/-- Write to the stream an ingest task holds. -/
def modifyStream (store : LiveStreamStore) (handle : Nat)
    (f : LiveStream → Exec IngestError LiveStream) : Exec IngestError LiveStreamStore := do
  match store.objects[handle]? with
  | none => return store
  | some stream => return { store with objects := store.objects.set handle (← f stream) }

/-- A tag reaches the segmenter only once there is one. -/
def receive (p : Profile) (s : Session) (tag : Exec IngestError FlvTag) :
    Exec IngestError Session :=
  match s.segmenter, s.liveStream with
  | some segmenter, some handle => do
    match ← tag with
    | .ignored => return s
    | .videoConfig config => return { s with segmenter := some (segmenter.setVideoConfig config) }
    | .audioConfig config => return { s with segmenter := some (segmenter.setAudioConfig config) }
    | .frame frame =>
      let (output, segmenter) ← segmenter.pushFrame p frame
      let store ← modifyStream s.store handle fun stream => applySegmenterOutput p stream output
      return { s with segmenter := some segmenter, store }
  | _, _ => return s

/-- One round of the session loop. -/
def handleEvent (p : Profile) (env : SessionEnv) (s : Session) (event : SessionEvent) :
    Exec IngestError Session :=
  match event with
  | .connectionRequested appName => return { s with appName }
  | .publishStreamRequested streamKey => s.publish env streamKey
  | .videoDataReceived data timestamp =>
    -- milliseconds to 90 kHz
    s.receive p do parseFlvVideoTag p env.decode data (UInt64.ofNat (← p.mul 64 timestamp.toNat 90))
  | .audioDataReceived data timestamp =>
    s.receive p (parseFlvAudioTag p data (UInt64.ofNat timestamp.toNat))
  | .publishStreamFinished => return { s with store := s.store.endStream s.appName s.streamName }

/-- Behind the loop: the connection was closed. -/
def disconnect (s : Session) : Session :=
  if s.streamName = "" then s else { s with store := s.store.endStream s.appName s.streamName }

def new (store : LiveStreamStore) : Session := ⟨"", "", none, none, store⟩

/-- The session loop. Other tasks write to the store as well, so an event comes with the store
that it finds. -/
def run (p : Profile) (env : SessionEnv) : (rounds : List (LiveStreamStore × SessionEvent)) →
    (s : Session) → Exec IngestError Session
  | [], s => return s.disconnect
  | (store, event) :: rounds, s => do run p env rounds (← handleEvent p env { s with store } event)

end Session

/-- A connection behind the handshake, as the events it raises. -/
def handleRtmpConnection (p : Profile) (env : SessionEnv) (store : LiveStreamStore)
    (rounds : List (LiveStreamStore × SessionEvent)) : Exec IngestError Session :=
  (Session.new store).run p env rounds

end Nozdormu.Ingest
