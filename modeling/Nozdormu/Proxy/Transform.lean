import Nozdormu.Packaging.Process
import Nozdormu.Proxy.CacheWriters
import Nozdormu.Proxy.Negotiation

/-!
# Responses on their way to the client

`cdn-proxy/src/proxy.rs`: what the filters do to a response that comes from the origin. A response
can be cut to a range, packaged as HLS, resized or compressed; `request_filter` notes what the
request asks for, `response_filter` decides by the headers and announces the result in them, and
`response_body_filter` carries it out, chunk by chunk.
-/

namespace Nozdormu.Proxy

open Rust Bmff Cache Packaging List

def isHeaderValue (value : Str) : Bool := (strBytes value).all fun b =>
    (32 ≤ b && b != 127) || b == 9

namespace HeaderMap

def insertHeader (headers : HeaderMap) (name value : Str) : HeaderMap :=
  if CdnProxy.IsHeaderName name ∧ name.length < 2 ^ 16 ∧ isHeaderValue value then
    headers.insert (name.map Char.toLower) value
  else headers

def remove (headers : HeaderMap) (name : Str) : HeaderMap :=
  headers.filter (·.1 ≠ name.map Char.toLower)

end HeaderMap

inductive HeaderAction where
  | set
  | add
  | remove
  | append
deriving DecidableEq, Repr

structure HeaderRule where
  action : HeaderAction
  name : Str
  value : Option Str
deriving DecidableEq, Repr

variable (isWord : Char → Bool)

/-- The variable that a text begins with, and what comes behind it. -/
def variableAt (s : Str) : Option (Str × Str) :=
  (stripStart "$\x7b" s).bind fun rest =>
    if (rest.takeWhile isWord).isEmpty then none
    else (stripStart "\x7d" (rest.dropWhile isWord)).map fun rest' => (rest.takeWhile isWord, rest')

/-- One pass over the text; `fuel` is its length. -/
def substituteFrom (isWord : Char → Bool) (vars : Str → Option Str) : (fuel : Nat) → Str → Str
  | 0, s => s
  | _, [] => []
  | fuel + 1, c :: s =>
    match variableAt isWord (c :: s) with
    | some (name, rest) =>
      (vars name).getD ("$\x7b" ++ name ++ "\x7d") ++ substituteFrom isWord vars fuel rest
    | none => c :: substituteFrom isWord vars fuel s

def substitute (vars : Str → Option Str) (input : Str) : Str :=
  substituteFrom isWord vars input.length input

def applyRule (vars : Str → Option Str) (headers : HeaderMap) (rule : HeaderRule) :
    HeaderMap :=
  match rule.action, rule.value.map (substitute isWord vars) with
  | .remove, _ => headers.remove rule.name
  | _, none => headers
  | .set, some value => headers.insertHeader rule.name value
  | .add, some value =>
    if (headers.get rule.name).isNone then headers.insertHeader rule.name value else headers
  | .append, some value =>
    headers.insertHeader rule.name
      (((headers.text rule.name).map fun old => old ++ ", " ++ value).getD value)

structure DynamicPackagingConfig where
  enabled : Bool := false
  segmentDuration : Float := 6.0
  maxMp4Size : UInt64 := 2 * 1024 * 1024 * 1024
  llHlsEnabled : Bool := false
  llHls : LlHlsConfig := ⟨0.5⟩
deriving DecidableEq, Repr

structure SiteTransforms where
  responseRules : List HeaderRule := []
  rangeEnabled : Bool := true
  imageOptimization : ImageOptimizationConfig := {}
  compression : CompressionConfig := {}
  packaging : DynamicPackagingConfig := {}
deriving DecidableEq, Repr

/-- Functions of libraries; `κ` is the state of an encoder. -/
structure Codecs (κ : Type) where
  /-- `str::to_lowercase` -/
  lower : Str → Str
  /-- `\w` of the regex library -/
  isWord : Char → Bool
  parseF32 : Str → Option Float32
  /-- `process_image`; all that is done about an error is to log it -/
  processImage : Bytes → ImageParams → ImageFormat → Option Bytes
  newEncoder : CompressionAlgorithm → (level : UInt32) → κ
  /-- none is an error -/
  writeChunk : κ → Bytes → Option Bytes × κ
  finish : κ → Bytes

/-- One URL of one site, with what is done to its responses. -/
structure EdgeProxy (κ : Type) extends CdnProxy where
  codecs : Codecs κ
  transforms : SiteTransforms
  defaultImageOptimization : ImageOptimizationConfig := {}
  defaultCompression : CompressionConfig := {}
  uri : Str
  scheme : Str
  clientIp : Option Str

structure TransformCtx (κ : Type) where
  rangeRequest : Option RangeSpec := none
  rangePassthrough : Bool := false
  rangeServedFromCache : Bool := false
  totalContentLength : Option Nat := none
  rangeBodyBuffer : Bytes := []
  imageParams : Option ImageParams := none
  imageOutputFormat : Option ImageFormat := none
  imageBuffering : Bool := false
  imageBuffer : Bytes := []
  packagingRequest : Option PackagingRequest := none
  packagingBuffering : Bool := false
  packagingBuffer : Bytes := []
  compressor : Option κ := none

namespace EdgeProxy

variable {κ : Type} (self : EdgeProxy κ)

/-! ## `request_filter` and `upstream_request_filter` -/

def detectRange (request : Request) (status : CacheStatus) (ctx : TransformCtx κ) :
    TransformCtx κ :=
  if self.transforms.rangeEnabled then
    match (HeaderMap.text request.headers "range").bind parseRangeHeader with
    | some spec =>
      if status = .hit then { ctx with rangeRequest := some spec, rangeServedFromCache := true }
      else { ctx with rangeRequest := some spec, rangePassthrough := true }
    | none => ctx
  else ctx

def imageAsked : Option ImageParams :=
  if self.transforms.imageOptimization.enabled then
    (ImageParams.fromQuery self.codecs.lower self.codecs.parseF32 self.query
      self.transforms.imageOptimization).map fun params =>
        params.clamp self.transforms.imageOptimization
  else none

/-- The value of the first parameter that begins with `name`. -/
def param (name : String) : Option Str :=
  self.query.bind fun q => (q.splitOn '&').findSome? (stripStart name.toList)

/-- The sub-resource that `segment=` and `part=` name. -/
def subResource : PackagingRequest :=
  match self.param "segment=", self.param "part=" with
  | some n, part =>
    if n = "init" then .initSegment
    else
      match parseUInt 32 n, part.map (parseUInt 32) with
      | some segment, some (some part) =>
        if self.transforms.packaging.llHlsEnabled then .partialSegment
          (.ofNat segment) (.ofNat part)
        else .mediaSegment (.ofNat segment)
      | some index, _ => .mediaSegment (.ofNat index)
      | none, _ => .manifest
  | none, _ => if self.transforms.packaging.llHlsEnabled then .llHlsManifest else .manifest

/-- The packaging that the query or `Accept` asks for; image parameters come first. -/
def packagingAsked (request : Request) : Option PackagingRequest :=
  if self.transforms.packaging.enabled ∧ self.imageAsked.isNone ∧
      (self.query.any (strContains "format=hls") ∨
        strContains "application/vnd.apple.mpegurl" (request.text "accept")) then
    some self.subResource
  else none

def detectPackaging (request : Request) (ctx : TransformCtx κ) : TransformCtx κ :=
  match self.packagingAsked request with
  | some r =>
    { ctx with packagingRequest := some r, rangeRequest := none, rangePassthrough := false }
  | none => ctx

def detect (request : Request) (status : CacheStatus) : TransformCtx κ :=
  self.detectPackaging request { self.detectRange request status {} with imageParams :=
    self.imageAsked }

def upstreamRange (ctx : TransformCtx κ) : TransformCtx κ :=
  if ctx.rangePassthrough ∧ ctx.imageParams.isNone then ctx
  else if ctx.rangeRequest.isSome ∧ ctx.imageParams.isSome then
    { ctx with rangeRequest := none, rangePassthrough := false, rangeServedFromCache := false }
  else ctx

/-! ## `response_filter` -/

def contentType (headers : HeaderMap) : Str := (headers.text "content-type").getD []

def contentLength (headers : HeaderMap) : Option Nat :=
  (headers.text "content-length").bind (parseUInt 64)

def responseVariables (request : Request) (status : CacheStatus) (name : Str) : Option Str :=
  if name = "client_ip" then self.clientIp
  else if name = "request_id" then some request.requestId
  else if name = "host" then some self.host
  else if name = "uri" then some self.uri
  else if name = "scheme" then some self.scheme
  else if name = "site_id" then some self.site.siteId
  else if name = "cache_status" then some status.asStr
  else none

def ruleHeaders (request : Request) (status : CacheStatus) (headers : HeaderMap) : HeaderMap :=
  let ruled := self.transforms.responseRules.foldl
    (applyRule self.codecs.isWord (self.responseVariables request status)) headers
  if request.protocolType = .sse then
    ruled
      |>.insert "x-accel-buffering" "no"
      |>.insert "cache-control" "no-cache"
  else ruled

/-- A full answer to a request for a range is cut when it is there. -/
def noteLength (status : UInt16) (headers : HeaderMap) (ctx : TransformCtx κ) : TransformCtx κ :=
  if ctx.rangeRequest.isSome ∧ ctx.imageParams.isNone ∧ ctx.rangePassthrough ∧ status = 200 then
    { ctx with totalContentLength := (contentLength headers).or ctx.totalContentLength }
  else ctx

/-- A response that can be packaged: its type and its size, if that is known. -/
def isPackageable (headers : HeaderMap) : Bool :=
  (strContains "video/mp4" (contentType headers) ||
    strContains "application/mp4" (contentType headers)) &&
    (contentLength headers).all (· ≤ self.transforms.packaging.maxMp4Size.toNat)

def packagedType : PackagingRequest → Str
  | .manifest | .llHlsManifest => "application/vnd.apple.mpegurl"
  | .initSegment | .mediaSegment _ | .partialSegment _ _ => "video/mp4"

def announce (headers : HeaderMap) (type : Str) : HeaderMap :=
  (headers.insert "content-type" type).remove "content-length"

def setupPackaging (headers : HeaderMap) (ctx : TransformCtx κ) : HeaderMap × TransformCtx κ :=
  match ctx.packagingRequest, ctx.imageParams with
  | some r, none =>
    if self.isPackageable headers then (announce headers (packagedType r),
      { ctx with packagingBuffering := true })
    else (headers, { ctx with packagingRequest := none })
  | _, _ => (headers, ctx)

def imageConfig : Option ImageOptimizationConfig :=
  if self.transforms.imageOptimization.enabled then some self.transforms.imageOptimization
  else if self.defaultImageOptimization.enabled then some self.defaultImageOptimization
  else none

/-- The format that a response gets, if it is an image that can be worked on. -/
def imageFormat (request : Request) (params : ImageParams) (headers : HeaderMap) :
    Option (ImageFormat × Bool) :=
  self.imageConfig.bind fun config =>
    if isOptimizableImage self.codecs.lower (contentType headers) config ∧
        (contentLength headers).all (· ≤ config.maxInputSize.toNat) then
      some (negotiateFormat self.codecs.lower self.codecs.parseF32
        (request.text "accept") params.format
        config (contentType headers))
    else none

def setupImage (request : Request) (headers : HeaderMap) (ctx : TransformCtx κ) :
    HeaderMap × TransformCtx κ :=
  match ctx.imageParams with
  | some params =>
    if request.protocolType = .http then
      match self.imageFormat request params headers with
      | some (format, negotiated) =>
        let announced := announce headers format.contentType
        (if negotiated then announced.insert "vary" "Accept" else announced,
          { ctx with imageOutputFormat := some format, imageBuffering := true })
      | none => (headers, { ctx with imageParams := none })
    else (headers, ctx)
  | none => (headers, ctx)

def compressionConfig : Option CompressionConfig :=
  if self.transforms.compression.enabled then some self.transforms.compression
  else if self.defaultCompression.enabled then some self.defaultCompression
  else none

/-- The encoding of a response, and its level, if it is to be compressed. -/
def encoding (request : Request) (status : UInt16) (headers : HeaderMap) :
    Option (CompressionAlgorithm × UInt32) :=
  if request.protocolType = .http ∧ (headers.get "content-encoding").isNone then
    self.compressionConfig.bind fun config =>
      if status ≠ 204 ∧ status ≠ 304 ∧ (contentLength headers).all (config.minSize.toNat ≤ ·) ∧
          (headers.text "content-type").any (isCompressible self.codecs.lower · config) then
        (negotiate self.codecs.parseF32 (request.text "accept-encoding") config).map fun algo =>
          (algo, config.level)
      else none
  else none

def setupCompression (request : Request) (status : UInt16) (headers : HeaderMap)
    (ctx : TransformCtx κ) :
    HeaderMap × TransformCtx κ :=
  if ctx.imageBuffering ∨ ctx.packagingBuffering ∨ ctx.rangeRequest.isSome then (headers, ctx)
  else
    match self.encoding request status headers with
    | some (algo, level) =>
      let encoded := (headers.insert "content-encoding" algo.encodingToken).remove "content-length"
      (if (encoded.get "vary").isNone then encoded.insert "vary" "Accept-Encoding"
        else encoded,
        { ctx with compressor := some (self.codecs.newEncoder algo level) })
    | none => (headers, ctx)

def transformHeader (request : Request) (cacheStatus : CacheStatus) (status : UInt16)
    (headers : HeaderMap) (ctx : TransformCtx κ) : HeaderMap × TransformCtx κ :=
  let ruled := self.ruleHeaders request cacheStatus headers
  let packaged := self.setupPackaging ruled (noteLength status ruled ctx)
  let resized := self.setupImage request packaged.1 packaged.2
  self.setupCompression request status resized.1 resized.2

/-! ## `response_body_filter` -/

/-- What is sent while a body is collected. -/
def held (data : Option Bytes) : Option Bytes := data.map fun _ => []

def rangeBody (data : Option Bytes) (endOfStream : Bool) (ctx : TransformCtx κ) :
    Option Bytes × TransformCtx κ :=
  let buffer := ctx.rangeBodyBuffer ++ data.getD []
  if endOfStream then
    (some (((ctx.rangeRequest.bind (resolveRange · buffer.length)).map fun range =>
        sliceBody buffer range.1 range.2).getD buffer),
      { ctx with rangeBodyBuffer := [] })
  else (held data, { ctx with rangeBodyBuffer := buffer })

def package (r : PackagingRequest) (mp4Data : Bytes) : Exec PackagingError Bytes :=
  processPackagingRequest self.profile mp4Data r self.transforms.packaging.segmentDuration
    (String.ofList self.uri) (self.query.map String.ofList)
    (if self.transforms.packaging.llHlsEnabled then some self.transforms.packaging.llHls else none)

/-- What is sent for a whole file; a file that cannot be packaged is sent as it is. -/
def packaged (r : PackagingRequest) (mp4Data : Bytes) : Exec Empty Bytes :=
  match self.package r mp4Data with
  | .ok output => .ok output
  | .error (.err _) => .ok mp4Data
  | .error (.fault f) => crash f

def packagingBody (data : Option Bytes) (endOfStream : Bool) (ctx : TransformCtx κ) :
    Exec Empty (Option Bytes × TransformCtx κ) :=
  let buffer := ctx.packagingBuffer ++ data.getD []
  if endOfStream then
    match ctx.packagingRequest with
    | some r => do
      let output ← self.packaged r buffer
      return (some output, { ctx with packagingBuffering := false, packagingBuffer := [] })
    | none => crash .unwrap
  else .ok (held data, { ctx with packagingBuffer := buffer })

def resized (params : ImageParams) (format : ImageFormat) (image : Bytes) : Bytes :=
  if self.transforms.imageOptimization.maxInputSize.toNat < image.length then image
  else (self.codecs.processImage image params format).getD image

def imageBody (data : Option Bytes) (endOfStream : Bool) (ctx : TransformCtx κ) :
    Option Bytes × TransformCtx κ :=
  let buffer := ctx.imageBuffer ++ data.getD []
  if endOfStream then
    match ctx.imageParams, ctx.imageOutputFormat with
    | some params, some format =>
      (some (self.resized params format buffer),
        { ctx with imageBuffering := false, imageBuffer := [] })
    | _, _ => (held data, { ctx with imageBuffering := false, imageBuffer := buffer })
  else (held data, { ctx with imageBuffer := buffer })

/-- A chunk goes through the encoder; after an error what comes is sent as it is. -/
def compressChunk (encoder : κ) : (data : Option Bytes) → Option Bytes × Option κ
  | some data =>
    match self.codecs.writeChunk encoder data with
    | (some compressed, encoder) => (some compressed, some encoder)
    | (none, _) => (some data, none)
  | none => (none, some encoder)

def compressBody (data : Option Bytes) (endOfStream : Bool) (ctx : TransformCtx κ) :
    Exec Empty (Option Bytes × TransformCtx κ) :=
  match ctx.compressor with
  | none => .ok (data, ctx)
  | some encoder =>
    let sent := self.compressChunk encoder data
    if endOfStream then
      match sent.2 with
      | some encoder =>
        let final := self.codecs.finish encoder
        .ok (if final.isEmpty then sent.1 else some (sent.1.getD [] ++ final),
          { ctx with compressor := none })
      | none => crash .unwrap
    else .ok (sent.1, { ctx with compressor := sent.2 })

/-- One call, behind what it does for the cache. -/
def transformBody (data : Option Bytes) (endOfStream : Bool) (ctx : TransformCtx κ) :
    Exec Empty (Option Bytes × TransformCtx κ) :=
  if ctx.rangeRequest.isSome ∧ ctx.imageBuffering = false ∧ ctx.totalContentLength.isSome ∧
      ctx.imageParams.isNone then
    .ok (rangeBody data endOfStream ctx)
  else if ctx.packagingBuffering then self.packagingBody data endOfStream ctx
  else if ctx.imageBuffering then .ok (self.imageBody data endOfStream ctx)
  else self.compressBody data endOfStream ctx

def sendBody : (calls : List (Option Bytes)) → TransformCtx κ → Exec Empty Bytes
  | [], _ => return []
  | [data], ctx => do
    let sent ← self.transformBody data true ctx
    return sent.1.getD []
  | data :: next :: calls, ctx => do
    let sent ← self.transformBody data false ctx
    let rest ← sendBody (next :: calls) sent.2
    return sent.1.getD [] ++ rest

def missHeader (request : Request) (response : OriginResponse) : HeaderMap × TransformCtx κ :=
  let stamped := CdnProxy.stampHeaders request (self.missed request 0) response.headers
  self.transformHeader request .miss response.status stamped
    (upstreamRange (self.detect request .miss))

def missResponse (request : Request) (response : OriginResponse) : Exec Empty ClientResponse := do
  let header := self.missHeader request response
  let body ← self.sendBody response.body header.2
  return ⟨response.status, header.1, body⟩

/-! ## Whole bodies

However a body is cut into calls, the packager and the image library get all of it. An encoder sees
the chunks, and stays out of the way once it has failed. -/

/-- What an encoder makes of the calls. -/
def compressed : (encoder : κ) → (calls : List (Option Bytes)) → Exec Empty Bytes
  | _, [] => return []
  | encoder, [data] =>
    match (self.compressChunk encoder data).2 with
    | some encoder' =>
      return (self.compressChunk encoder data).1.getD [] ++ self.codecs.finish encoder'
    | none => crash .unwrap
  | encoder, data :: next :: calls =>
    match (self.compressChunk encoder data).2 with
    | some encoder' => do
      let rest ← compressed encoder' (next :: calls)
      return (self.compressChunk encoder data).1.getD [] ++ rest
    | none => return (self.compressChunk encoder data).1.getD [] ++ bytesOf (next :: calls)

variable {self} {ctx : TransformCtx κ} {calls : List (Option Bytes)}

theorem sendBody_of_collects {P : TransformCtx κ → Bytes → Prop} (out : Bytes → Exec Empty Bytes)
    (hmore : ∀ ctx buffer data, P ctx buffer →
      ∃ ctx', self.transformBody data false ctx = .ok (held data, ctx') ∧
        P ctx' (buffer ++ data.getD []))
    (hlast : ∀ ctx buffer data, P ctx buffer →
      (self.transformBody data true ctx).map Prod.fst = (out (buffer ++ data.getD [])).map some)
    {buffer : Bytes} (hctx : P ctx buffer) (hcalls : calls ≠ []) :
    self.sendBody calls ctx = out (buffer ++ bytesOf calls) := by
  induction calls generalizing ctx buffer with
  | nil => exact absurd rfl hcalls
  | cons data calls ih =>
    -- the last call sends all there is, those before it send nothing
    cases calls with
    | nil =>
      have hsent : self.sendBody [data] ctx =
          ((self.transformBody data true ctx).map Prod.fst).map fun sent => sent.getD [] := by
        rw [sendBody]
        cases self.transformBody data true ctx <;> rfl
      rw [hsent, hlast ctx buffer data hctx, bytesOf_cons,
        show bytesOf [] = [] from rfl, append_nil]
      cases out (buffer ++ data.getD []) <;> rfl
    | cons next calls =>
      obtain ⟨ctx', hbody, hctx'⟩ := hmore ctx buffer data hctx
      have hrest := ih hctx' (cons_ne_nil next calls)
      rw [sendBody, hbody, bytesOf_cons, ← append_assoc, ← hrest]
      show ((self.sendBody (next :: calls) ctx').bind fun rest => .ok ((held data).getD [] ++ rest))
        = _
      rw [show (held data).getD [] = [] by cases data <;> rfl]
      cases self.sendBody (next :: calls) ctx' <;> rfl

theorem sendBody_packaging {r : PackagingRequest} (hrange : ctx.rangeRequest = none)
    (hbuffering : ctx.packagingBuffering = true) (hr : ctx.packagingRequest = some r)
    (hcalls : calls ≠ []) :
    self.sendBody calls ctx = self.packaged r (ctx.packagingBuffer ++ bytesOf calls) := by
  refine sendBody_of_collects (self.packaged r) (P := fun ctx buffer => ctx.rangeRequest = none ∧
    ctx.packagingBuffering = true ∧ ctx.packagingRequest = some r ∧ ctx.packagingBuffer = buffer)
    ?_ ?_ ⟨hrange, hbuffering, hr, rfl⟩ hcalls
  · rintro ctx _ data ⟨hrange, hbuffering, hr, rfl⟩
    refine ⟨{ ctx with packagingBuffer := ctx.packagingBuffer ++ data.getD [] }, ?_, hrange,
      hbuffering, hr, rfl⟩
    simp [transformBody, packagingBody, hrange, hbuffering]
  · rintro ctx _ data ⟨hrange, hbuffering, hr, rfl⟩
    simp only [transformBody, packagingBody, hrange, hbuffering, hr, Option.isSome_none,
      Bool.false_eq_true,
      false_and, if_false, if_true]
    cases self.packaged r (ctx.packagingBuffer ++ data.getD []) <;> rfl

theorem sendBody_image {params : ImageParams} {format : ImageFormat}
    (hrange : ctx.rangeRequest = none)
    (hpackaging : ctx.packagingBuffering = false) (hbuffering : ctx.imageBuffering = true)
    (hparams : ctx.imageParams = some params) (hformat : ctx.imageOutputFormat = some format)
    (hcalls : calls ≠ []) :
    self.sendBody calls ctx = .ok (self.resized params format (ctx.imageBuffer ++ bytesOf calls)) :=
      by
  refine sendBody_of_collects (fun image => .ok (self.resized params format image))
    (P := fun ctx buffer => ctx.rangeRequest = none ∧ ctx.packagingBuffering = false ∧
      ctx.imageBuffering = true ∧ ctx.imageParams = some params ∧
        ctx.imageOutputFormat = some format ∧
      ctx.imageBuffer = buffer)
    ?_ ?_ ⟨hrange, hpackaging, hbuffering, hparams, hformat, rfl⟩ hcalls
  · rintro ctx _ data ⟨hrange, hpackaging, hbuffering, hparams, hformat, rfl⟩
    refine ⟨{ ctx with imageBuffer := ctx.imageBuffer ++ data.getD [] }, ?_, hrange,
      hpackaging, hbuffering,
      hparams, hformat, rfl⟩
    simp [transformBody, imageBody, hrange, hpackaging, hbuffering]
  · rintro ctx _ data ⟨hrange, hpackaging, hbuffering, hparams, hformat, rfl⟩
    simp only [transformBody, imageBody, hrange, hpackaging, hbuffering, hparams, hformat,
      Option.isSome_none,
      Bool.false_eq_true, false_and, if_false, if_true]
    rfl

/-- The response is neither cut nor packaged nor resized. -/
structure Plain (ctx : TransformCtx κ) : Prop where
  range : ctx.rangeRequest = none
  packaging : ctx.packagingBuffering = false
  image : ctx.imageBuffering = false

theorem Plain.with (h : Plain ctx) (compressor : Option κ) : Plain { ctx with compressor } :=
  ⟨h.range, h.packaging, h.image⟩

theorem transformBody_plain (h : Plain ctx) (data : Option Bytes) (last : Bool) :
    self.transformBody data last ctx = self.compressBody data last ctx := by
  simp [transformBody, h.range, h.packaging, h.image]

theorem sendBody_plain (h : Plain ctx) (hcompressor : ctx.compressor = none)
    (calls : List (Option Bytes)) : self.sendBody calls ctx = .ok (bytesOf calls) := by
  induction calls with
  | nil => rfl
  | cons data calls ih =>
    have hbody : ∀ last, self.transformBody data last ctx = .ok (data, ctx) := by
      intro last
      rw [transformBody_plain h, compressBody, hcompressor]
    cases calls with
    | nil =>
      rw [sendBody, hbody, bytesOf_cons, show bytesOf [] = [] from rfl, append_nil]
      rfl
    | cons next calls =>
      rw [sendBody, hbody, bytesOf_cons]
      show ((self.sendBody (next :: calls) ctx).bind fun rest => .ok (data.getD [] ++ rest)) = _
      rw [ih]
      rfl

variable {encoder : κ}

theorem compressBody_false (h : ctx.compressor = some encoder) (data : Option Bytes) :
    self.compressBody data false ctx =
      .ok ((self.compressChunk encoder data).1,
        { ctx with compressor := (self.compressChunk encoder data).2 }) := by
  simp [compressBody, h]

theorem sendBody_compressor (h : Plain ctx) (hcompressor : ctx.compressor = some encoder)
    (calls : List (Option Bytes)) :
    self.sendBody calls ctx = self.compressed encoder calls := by
  induction calls generalizing ctx encoder with
  | nil => rfl
  | cons data calls ih =>
    cases calls with
    | nil =>
      -- `finish` adds to what the last chunk has given
      rw [sendBody, transformBody_plain h]
      simp only [compressBody, hcompressor, compressed, if_true]
      cases (self.compressChunk encoder data).2 with
      | none => rfl
      | some encoder' =>
        dsimp only
        split
        next hempty =>
          rw [isEmpty_iff.1 hempty, append_nil]
          rfl
        next => rfl
    | cons next calls =>
      rw [sendBody, transformBody_plain h, compressBody_false hcompressor, compressed]
      show ((self.sendBody (next :: calls)
        { ctx with compressor := (self.compressChunk encoder data).2 }).bind
        fun rest => .ok ((self.compressChunk encoder data).1.getD [] ++ rest)) = _
      cases hnext : (self.compressChunk encoder data).2 with
      | none =>
        -- the encoder has failed, and the rest goes out as it comes
        rw [sendBody_plain (h.with none) rfl]
        rfl
      | some encoder' =>
        rw [ih (h.with (some encoder')) rfl]
        rfl

section

variable (self)

/-- Calls with their end-of-stream flags, and what goes out. -/
def filterBody : (calls : List (Option Bytes × Bool)) → TransformCtx κ → Exec Empty Bytes
  | [], _ => return []
  | (data, last) :: calls, ctx => do
    let sent ← self.transformBody data last ctx
    let rest ← filterBody calls sent.2
    return sent.1.getD [] ++ rest

/-- Unless it has been given up before, the encoder takes what comes with the end of the stream. -/
def TakesEnd : (encoder : κ) → (calls : List (Option Bytes × Bool)) → Prop
  | _, [] => True
  | encoder, (data, last) :: calls =>
    match (self.compressChunk encoder data).2 with
    | some encoder' => last = true ∨ TakesEnd encoder' calls
    | none => last = false

/-- The encoder takes all data, and what it gives for it, up to its end, is `out`. -/
inductive Encodes : (encoder : κ) → (calls : List (Option Bytes)) → (out : Bytes) → Prop where
  | last {encoder encoder' : κ} {data sent : Option Bytes}
      (h : self.compressChunk encoder data = (sent, some encoder')) :
      Encodes encoder [data] (sent.getD [] ++ self.codecs.finish encoder')
  | more {encoder encoder' : κ} {data sent next : Option Bytes}
      {calls : List (Option Bytes)} {out : Bytes}
      (h : self.compressChunk encoder data = (sent, some encoder'))
        (hrest : Encodes encoder' (next :: calls) out) :
      Encodes encoder (data :: next :: calls) (sent.getD [] ++ out)

end

theorem returns_filterBody_plain (h : Plain ctx) (hcompressor : ctx.compressor = none)
    (calls : List (Option Bytes × Bool)) : Returns (self.filterBody calls ctx) := by
  induction calls with
  | nil => exact ⟨_, rfl⟩
  | cons call calls ih =>
    rw [filterBody, transformBody_plain h, compressBody, hcompressor]
    exact ih.bind fun _ _ => ⟨_, rfl⟩

theorem returnsIff_filterBody (h : Plain ctx) (hcompressor : ctx.compressor = some encoder)
    (calls : List (Option Bytes × Bool)) :
      ReturnsIff (self.filterBody calls ctx) (self.TakesEnd encoder calls) := by
  induction calls generalizing ctx encoder with
  | nil => exact .of_eq_ok rfl trivial
  | cons call calls ih =>
    obtain ⟨data, last⟩ := call
    have hplain : Returns (self.filterBody calls { ctx with compressor := none }) :=
      returns_filterBody_plain (h.with none) rfl calls
    rw [filterBody, transformBody_plain h, TakesEnd]
    cases hnext : (self.compressChunk encoder data).2 with
    | none =>
      cases last with
      | false =>
        -- the encoder has failed, and the rest goes out as it comes
        rw [compressBody_false hcompressor, hnext]
        exact ⟨fun _ => rfl, fun _ => hplain.bind fun _ _ => ⟨_, rfl⟩⟩
      | true =>
        simp only [compressBody, hcompressor, hnext, if_true]
        exact ⟨fun h => absurd h (noFault_crash _), nofun⟩
    | some encoder' =>
      cases last with
      | false =>
        rw [compressBody_false hcompressor, hnext]
        exact ((ih (h.with (some encoder')) rfl).map _).congr (by simp)
      | true =>
        simp only [compressBody, hcompressor, hnext, if_true]
        exact ⟨fun _ => .inl trivial, fun _ => hplain.bind fun _ _ => ⟨_, rfl⟩⟩

/-- **A compressed body.** The filter panics exactly if the encoder refuses the data that comes with
the end of the stream. -/
theorem filterBody_iff (self : EdgeProxy κ) (ctx : TransformCtx κ) (encoder : κ) (h : Plain ctx)
    (hcompressor : ctx.compressor = some encoder) :
    (∀ calls, NoFault (self.filterBody calls ctx) ↔ self.TakesEnd encoder calls) ∧
      ∀ calls out, self.Encodes encoder calls out → self.sendBody calls ctx = .ok out := by
  refine ⟨fun calls => (returnsIff_filterBody h hcompressor calls).noFault_iff,
    fun calls out hencodes => ?_⟩
  rw [sendBody_compressor h hcompressor]
  clear hcompressor
  induction hencodes with
  | last h => simp [compressed, h]
  | more h _ ih => simp [compressed, h, ih]

end EdgeProxy

end Nozdormu.Proxy
