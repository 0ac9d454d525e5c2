import Nozdormu.Ingest.FrameRecovery
import Nozdormu.Ingest.Session
import Nozdormu.Ingest.TsDemuxer

/-!
# SRT sessions

`handle_srt_connection` of `cdn-ingest/src/srt/demux.rs`: the stream id names application and
key, the stream is created, and every message that arrives is demuxed and its frames pushed into
the segmenter. Behind the loop the stream is ended, whether the connection was closed or broke.
-/

namespace Nozdormu.Ingest

open Rust Bmff

/-- `#!::r=app/key` or `app/key`. -/
def parseStreamId (streamId : String) : Exec IngestError (String × String) :=
  match (stripStart "#!::r=" streamId.toList).bind (splitOnce ['/']) with
  | some (app, key) => return (.ofList app, .ofList key)
  | none =>
    match splitOnce ['/'] streamId.toList with
    | some (app, key) => return (.ofList app, .ofList key)
    | none => fail (.protocol
        ("invalid SRT streamid format: '" ++ streamId ++ "', expected 'app/stream_key'"))

example : parseStreamId "#!::r=live/secret123" = .ok ("live", "secret123") ∧
    parseStreamId "live/secret123" = .ok ("live", "secret123") := by decide

structure SrtSession where
  appName : String
  streamName : String
  segmenter : LiveSegmenter
  demuxer : TsDemuxer
  liveStream : Nat
  store : LiveStreamStore
deriving DecidableEq, Repr

namespace SrtSession

/-- Everything in front of the loop; `accept` is the error of accepting the connection. -/
def start (config : IngestConfig) (store : LiveStreamStore) (streamId : String)
    (accept : Option String) : Exec IngestError SrtSession := do
  let (app, streamKey) ← parseStreamId streamId
  let (app, name) ← validateStreamKey config.streamKeys app streamKey
  match accept with
  | some e => fail (.protocol ("SRT accept: " ++ e))
  | none =>
    let (handle, store) ← store.createStream app name config.segmentDuration config.partDuration
      config.llHlsEnabled
    return {
      appName := app, streamName := name, liveStream := handle, store, demuxer := .new
      segmenter := .new config.segmentDuration config.partDuration config.llHlsEnabled }

def pushFrames (p : Profile) (s : SrtSession) : (frames : List FrameData) →
    Exec IngestError (List SegmenterOutput × SrtSession)
  | [] => return ([], s)
  | frame :: frames => do
    let (output, segmenter) ← s.segmenter.pushFrame p frame
    let store ← Session.modifyStream s.store s.liveStream fun stream =>
      applySegmenterOutput p stream output
    let (outputs, s) ← { s with segmenter, store }.pushFrames p frames
    return (output :: outputs, s)

/-- One round of the receive loop. -/
def receive (p : Profile) (s : SrtSession) (data : Bytes) :
    Exec IngestError (List SegmenterOutput × SrtSession) := do
  let (frames, demuxer) ← s.demuxer.pushData data
  { s with demuxer }.pushFrames p frames

def finish (s : SrtSession) : SrtSession :=
  { s with store := s.store.endStream s.appName s.streamName }

/-- The receive loop. Other tasks write to the store as well, so a message comes with the store
that it finds. -/
def run (p : Profile) : (rounds : List (LiveStreamStore × Bytes)) → (s : SrtSession) →
    Exec IngestError (List SegmenterOutput × SrtSession)
  | [], s => return ([], s.finish)
  | (store, data) :: rounds, s => do
    let (outputs, s) ← { s with store }.receive p data
    let (more, s) ← run p rounds s
    return (outputs ++ more, s)

end SrtSession

def handleSrtConnection (p : Profile) (config : IngestConfig) (store : LiveStreamStore)
    (streamId : String) (accept : Option String) (rounds : List (LiveStreamStore × Bytes)) :
    Exec IngestError (List SegmenterOutput × SrtSession) := do
  (← SrtSession.start config store streamId accept).run p rounds

def camConfig : IngestConfig := ⟨[⟨"key", "live", "cam", true⟩], 6.0, 0.5, false⟩

end Nozdormu.Ingest
