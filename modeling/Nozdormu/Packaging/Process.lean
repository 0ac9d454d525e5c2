import Nozdormu.Packaging.Mp4Parse
import Nozdormu.Packaging.HlsManifest

/-!
# Packaging requests

`process_packaging_request` of `packaging/mod.rs`: parse the file, then write the
sub-resource that was asked for.
-/

namespace Nozdormu.Packaging

open Rust Bmff

def packagingParams : List String := ["format=", "segment=", "part=", "_HLS_msn=", "_HLS_part="]

/-- The query string without the packager's parameters, ready to be appended. -/
def filterQueryParams (query : Option String) : String :=
  match query with
  | none => ""
  | some q =>
    let filtered := (q.toList.splitOn '&').filter fun param =>
      !packagingParams.any fun name => name.toList.isPrefixOf param
    if filtered.isEmpty then "" else String.ofList ('&' :: List.intercalate ['&'] filtered)

example : filterQueryParams (some "format=hls&quality=high&segment=0") = "&quality=high" := by
  decide +kernel

def requireConfig (llHls : Option LlHlsConfig) (what : String) : Exec PackagingError LlHlsConfig :=
  match llHls with
  | some config => return config
  | none => fail (.segmentGen what)

def respond (p : Profile) (mp4Data : Bytes) (metadata : Mp4Metadata) (request : PackagingRequest)
    (segmentDuration : Float) (baseUrl : String) (query : Option String)
    (llHls : Option LlHlsConfig) : Exec PackagingError Bytes := do
  match request with
  | .manifest =>
    let playlist ← generateMediaPlaylist p metadata segmentDuration baseUrl
        (filterQueryParams query)
    return playlist.toUTF8.toList
  | .llHlsManifest =>
    let config ← requireConfig llHls "LL-HLS config required for LlHlsManifest"
    let playlist ← generateLlHlsPlaylist p metadata segmentDuration config.partDuration baseUrl
      (filterQueryParams query)
    return playlist.toUTF8.toList
  | .initSegment => return generateInitSegment metadata
  | .mediaSegment index =>
    let segmentCount := computeSegmentCount metadata segmentDuration
    if segmentCount ≤ index.toNat then fail (.segmentOutOfRange index.toNat segmentCount)
    else generateMediaSegment p mp4Data metadata index.toNat segmentDuration
  | .partialSegment segmentIndex partIndex =>
    let config ← requireConfig llHls "LL-HLS config required for PartialSegment"
    let segmentCount := computeSegmentCount metadata segmentDuration
    if segmentCount ≤ segmentIndex.toNat then
      fail (.segmentOutOfRange segmentIndex.toNat segmentCount)
    else
      let partCount ← computePartCount p metadata segmentDuration config.partDuration
        segmentIndex.toNat
      if partCount ≤ partIndex.toNat then
        fail (.partOutOfRange partIndex.toNat segmentIndex.toNat partCount)
      else
        generatePartialSegment p mp4Data metadata segmentIndex.toNat partIndex.toNat
          segmentDuration config.partDuration

def processPackagingRequest (p : Profile) (mp4Data : Bytes) (request : PackagingRequest)
    (segmentDuration : Float) (baseUrl : String) (query : Option String)
    (llHls : Option LlHlsConfig) : Exec PackagingError Bytes := do
  let metadata ← mapErr .mp4Parse (parseMp4 p mp4Data)
  respond p mp4Data metadata request segmentDuration baseUrl query llHls

end Nozdormu.Packaging
