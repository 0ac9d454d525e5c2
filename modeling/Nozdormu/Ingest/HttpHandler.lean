import Nozdormu.Ingest.LiveManifest
import Nozdormu.Rust.Str

/-!
# Requests for live streams

`cdn-ingest/src/http_handler.rs`: a path under `/live/` names a playlist, or an object of a
stream by its file name. The store is the one at the moment the answer is written; a playlist
request that asks for a segment or a part waits for that moment first (`parseHlsParams` reads
what it asks for).
-/

namespace Nozdormu.Ingest

open Rust Bmff

structure LiveResponse where
  status : Nat
  contentType : String
  body : Bytes
  cacheControl : String
deriving DecidableEq, Repr

def utf8 (text : String) : Bytes := text.toUTF8.toList

def LiveResponse.media (body : Bytes) (cacheControl : String) : LiveResponse :=
  ⟨200, "video/mp4", body, cacheControl⟩

def LiveResponse.notFound (what : String) :
    LiveResponse := ⟨404, "text/plain", utf8 what, "no-cache"⟩

/-! ## File names and parameters -/

/-- `seg{N}.mp4`. -/
def parseSegmentFilename (file : Str) : Option Nat := do
  let name ← stripEnd ".mp4" (← stripStart "seg" file)
  if '_' ∈ name then none else parseUInt 64 name

/-- `seg{N}_part{P}.mp4`. -/
def parsePartFilename (file : Str) : Option (Nat × Nat) := do
  let name ← stripEnd ".mp4" (← stripStart "seg" file)
  let (seqStr, partStr) ← splitOnce "_part" name
  let seq ← parseUInt 64 seqStr
  let part ← parseUInt 32 partStr
  return (seq, part)

/-- `_HLS_msn` and `_HLS_part`; the last of each counts. -/
def parseHlsParams (query : Str) : Option Nat × Option Nat :=
  (query.splitOn '&').foldl (fun (msn, part) param =>
    match stripStart "_HLS_msn=" param with
    | some val => (parseUInt 64 val, part)
    | none =>
      match stripStart "_HLS_part=" param with
      | some val => (msn, parseUInt 32 val)
      | none => (msn, part)) (none, none)

example : parseHlsParams "_HLS_msn=5&_HLS_part=2" = (some 5, some 2) ∧
    parseHlsParams "foo=bar" = (none, none) := by decide +kernel

section Serve

variable (store : LiveStreamStore) (app streamName : String)

def baseUrl (app streamName : String) : String := "/live/" ++ app ++ "/" ++ streamName

def serveManifest : Option LiveResponse :=
  (store.getStream app streamName).map fun s =>
    ⟨200, "application/vnd.apple.mpegurl", utf8 (generateLiveManifest s (baseUrl app streamName)),
      "no-cache, no-store"⟩

def serveInitSegment : Option LiveResponse :=
  (store.getStream app streamName).map fun s =>
    match s.initSegment with
    | some data => .media data "max-age=86400"
    | none => .notFound "init segment not ready"

def serveSegment (sequence : Nat) : Option LiveResponse :=
  (store.getStream app streamName).map fun s =>
    match s.segments.find? (·.sequence = sequence) with
    | some seg => .media seg.data "max-age=3600"
    | none => .notFound "segment not found"

/-- The part with an index, in a closed segment or else in the segment in progress. -/
def LiveStream.findPart (s : LiveStream) (sequence index : Nat) : Option LivePart :=
  ((s.segments.filter (·.sequence = sequence)).findSome? fun seg =>
      seg.parts.find? (·.index = index)).or
    (if sequence = s.currentPartSequence then s.currentParts.find? (·.index = index) else none)

def servePart (sequence index : Nat) : Option LiveResponse :=
  (store.getStream app streamName).map fun s =>
    match s.findPart sequence index with
    | some part => .media part.data "max-age=1"
    | none => .notFound "part not found"

/-- A file of a stream; a name that is none of the three is not ours. -/
def serveFile (file : Str) : Option LiveResponse :=
  if file = "init.mp4" then serveInitSegment store app streamName
  else
    match parseSegmentFilename file with
    | some sequence => serveSegment store app streamName sequence
    | none =>
      match parsePartFilename file with
      | some (sequence, index) => servePart store app streamName sequence index
      | none => none

end Serve

/-- `None` leaves the request to the proxy. -/
def serveLiveRequest (store : LiveStreamStore) (path : String) : Option LiveResponse := do
  let path ← stripStart "/live/" path.toList
  match splitN '/' 3 path with
  | [app, file] =>
    let streamName ← stripEnd ".m3u8" file
    serveManifest store (String.ofList app) (String.ofList streamName)
  | [app, streamName, file] => serveFile store (String.ofList app) (String.ofList streamName) file
  | _ => none

end Nozdormu.Ingest
