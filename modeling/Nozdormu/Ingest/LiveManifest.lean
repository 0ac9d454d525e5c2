import Nozdormu.Ingest.Store
import Nozdormu.Rust.Float

/-!
# Live playlists

`cdn-ingest/src/manifest/mod.rs`: the playlist of a live stream. Between its head and its end
it names objects of the stream one by one, in the order of `LiveStream.listed`; each prints
its tag and its URI (`Listed.lines`).
-/

namespace Nozdormu.Ingest

open Rust Bmff

inductive Listed where
  | init (data : Bytes)
  | part (sequence : Nat) (part : LivePart)
  | segment (segment : LiveSegment)
deriving DecidableEq, Repr

namespace Listed

def file : Listed → String
  | .init _ => "init.mp4"
  | .part sequence p => "seg" ++ toString sequence ++ "_part" ++ toString p.index ++ ".mp4"
  | .segment seg => "seg" ++ toString seg.sequence ++ ".mp4"

def uri (baseUrl : String) (o : Listed) : String := baseUrl ++ "/" ++ o.file

def data : Listed → Bytes
  | .init data => data
  | .part _ p => p.data
  | .segment seg => seg.data

def lines (baseUrl : String) (o : Listed) : String :=
  match o with
  | .init _ => "#EXT-X-MAP:URI=\"" ++ o.uri baseUrl ++ "\"\n"
  | .part _ p =>
    "#EXT-X-PART:DURATION=" ++ formatFixed 6 p.duration ++ ",URI=\"" ++ o.uri baseUrl ++ "\""
      ++ (if p.independent then ",INDEPENDENT=YES" else "") ++ "\n"
  | .segment seg => "#EXTINF:" ++ formatFixed 6 seg.duration ++ ",\n" ++ o.uri baseUrl ++ "\n"

end Listed

namespace LiveStream

variable (s : LiveStream)

/-- The objects a playlist of the stream names, in order; parts only in low-latency mode. -/
def listed : List Listed :=
  (s.initSegment.map Listed.init).toList ++ s.segments.flatMap (fun seg =>
      (if s.llHlsEnabled then seg.parts.map (Listed.part seg.sequence) else []) ++
        [.segment seg]) ++
    if s.llHlsEnabled then s.currentParts.map (Listed.part s.currentPartSequence) else []

def targetDuration : Nat :=
  ceilU64 ((s.segments.map (·.duration)).foldl f64Max s.segmentDuration)

def serverControl : String :=
  if s.llHlsEnabled then
    "#EXT-X-SERVER-CONTROL:CAN-BLOCK-RELOAD=YES,PART-HOLD-BACK=" ++ formatFixed 6
      (s.partDuration * 3.0)
      ++ "\n#EXT-X-PART-INF:PART-TARGET=" ++ formatFixed 6 s.partDuration ++ "\n"
  else ""

/-- The part that is expected next, once the segment in progress has parts. -/
def preloadHint (baseUrl : String) : String :=
  if s.llHlsEnabled ∧ s.currentParts ≠ [] then
    "#EXT-X-PRELOAD-HINT:TYPE=PART,URI=\"" ++ baseUrl ++ "/seg" ++ toString s.currentPartSequence
      ++ "_part" ++ toString (s.currentParts.length % 2 ^ 32) ++ ".mp4\"\n"
  else ""

end LiveStream

def generateLiveManifest (s : LiveStream) (baseUrl : String) : String :=
  "#EXTM3U\n#EXT-X-VERSION:" ++ (if s.llHlsEnabled then "9" else "7")
    ++ "\n#EXT-X-TARGETDURATION:" ++ toString s.targetDuration
    ++ "\n#EXT-X-MEDIA-SEQUENCE:" ++ toString s.mediaSequence ++ "\n"
    ++ s.serverControl ++ String.join (s.listed.map (Listed.lines baseUrl)) ++ s.preloadHint baseUrl
    ++ (if s.ended then "#EXT-X-ENDLIST\n" else "")

end Nozdormu.Ingest
