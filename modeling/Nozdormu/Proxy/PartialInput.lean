import Nozdormu.Proxy.HitMiss

/-!
# What is packaged or resized
-/

namespace Nozdormu.Proxy

open Rust Bmff Cache Packaging HeaderMap

/-- What a request is sent to the origin with, besides its own headers. -/
structure Forwarding where
  rules : List HeaderRule := []
  isEarlyData : Bool := false
  /-- the name of the selected origin, or the configured SNI -/
  host : Option Str := none

namespace EdgeProxy

variable {κ : Type} (self : EdgeProxy κ) (forwarding : Forwarding) (request : Request)

def requestVariables (name : Str) : Option Str :=
  if name = "cache_status" then none else self.responseVariables request .none name

def autoHeaders : HeaderMap :=
  let named := insertHeader request.headers "X-Request-ID" request.requestId
  let forwarded := self.clientIp.elim named fun ip => insertHeader named "X-Forwarded-For"
    (((text named "X-Forwarded-For").map fun old => old ++ ", " ++ ip).getD ip)
  let proto := insertHeader forwarded "X-Forwarded-Proto" self.scheme
  let early := if forwarding.isEarlyData then insertHeader proto "Early-Data" "1" else proto
  forwarding.host.elim early (insertHeader early "Host")

def protocolHeaders (headers : HeaderMap) : HeaderMap :=
  match request.protocolType with
  | .sse =>
    let plain := insertHeader (insertHeader headers "Accept-Encoding" "identity")
      "Cache-Control" "no-cache"
    (text request.headers "last-event-id").elim plain (insertHeader plain "Last-Event-ID")
  | .grpc => insertHeader headers "TE" "trailers"
  | _ => headers

def upstreamHeaders (ctx : TransformCtx κ) : HeaderMap :=
  let ruled := forwarding.rules.foldl (applyRule self.codecs.isWord (self.requestVariables request))
    (self.autoHeaders forwarding request)
  let headers := protocolHeaders request ruled
  if ctx.rangePassthrough ∧ ctx.imageParams.isNone then
    (text request.headers "range").elim headers (insertHeader headers "Range")
  else headers

/-! ## Answers of the origin -/

variable (ctx : ProxyCtx)

def sentHeader (status : UInt16) (headers : HeaderMap) : HeaderMap × TransformCtx κ :=
  self.transformHeader request ctx.cacheStatus status (CdnProxy.stampHeaders request ctx headers)
    (upstreamRange (self.detect request ctx.cacheStatus))

def sentBody (response : OriginResponse) : Exec Empty Bytes :=
  self.sendBody response.body (self.sentHeader request ctx response.status response.headers).2

def Transforms (response : OriginResponse) : Prop :=
  response.body ≠ [] ∧ ((self.sentHeader request ctx response.status
    response.headers).2.packagingBuffering = true ∨
    (self.sentHeader request ctx response.status response.headers).2.imageBuffering = true)

def AsksForPart : Prop :=
  (get (self.upstreamHeaders forwarding request (self.detect request ctx.cacheStatus))
    "range").isSome

/-- What is packaged or resized is the body of a response that is not partial. -/
structure WholeInput (response : OriginResponse) : Prop where
  complete : response.status ≠ 206
  input : (∃ r, self.sentBody request ctx response = self.packaged r response.content) ∨
    ∃ params format, self.sentBody request ctx response = .ok
      (self.resized params format response.content)

variable {self} {request} {ctx}

theorem detect_of_ne_hit (hctx : ctx.cacheStatus ≠ .hit) :
    self.detect request ctx.cacheStatus = self.detect request .miss := by
  cases hstatus : ctx.cacheStatus with
  | hit => exact absurd hstatus hctx
  | _ => rfl

theorem flags_setupCompression (status : UInt16) (headers : HeaderMap) (c : TransformCtx κ) :
    (self.setupCompression request status headers c).2.packagingBuffering = c.packagingBuffering ∧
      (self.setupCompression request status headers c).2.imageBuffering = c.imageBuffering := by
  unfold setupCompression
  split
  · exact ⟨rfl, rfl⟩
  · split <;> exact ⟨rfl, rfl⟩

variable (self) (request) (ctx) in
/-- The headers of an answer that `response_filter` decides by. -/
def ruledHeaders (headers : HeaderMap) : HeaderMap :=
  self.ruleHeaders request ctx.cacheStatus (CdnProxy.stampHeaders request ctx headers)

/-- The packaging that is asked for, or the format that is chosen for an image, with its type
announced; or neither. -/
theorem sentHeader_cases (self : EdgeProxy κ) (request : Request) (hctx : ctx.cacheStatus ≠ .hit)
    (headers : HeaderMap) :
    (∃ r, self.packagingAsked request = some r ∧
      ∀ status, (self.sentHeader request ctx status headers).2
          = { packagingRequest := some r, packagingBuffering := true } ∧
        get (self.sentHeader request ctx status headers).1 "content-type"
          = some (strBytes (packagedType r))) ∨
      (∃ params choice, (self.packagingAsked request = none ∧ self.imageAsked = some params ∧
          self.imageFormat request params (self.ruledHeaders request ctx headers) = some choice) ∧
        ∀ status, (self.sentHeader request ctx status headers).2
          = { imageParams := some params
              imageOutputFormat := some choice.1
              imageBuffering := true } ∧
        get (self.sentHeader request ctx status headers).1 "content-type"
          = some (strBytes choice.1.contentType)) ∨
      ∀ status, (self.sentHeader request ctx status headers).2.packagingBuffering = false ∧
        (self.sentHeader request ctx status headers).2.imageBuffering = false := by
  unfold sentHeader transformHeader ruledHeaders
  rw [detect_of_ne_hit hctx]
  generalize self.ruleHeaders request ctx.cacheStatus
    (CdnProxy.stampHeaders request ctx headers) = ruled
  dsimp only
  cases hr : self.packagingAsked request with
  | some r =>
    rw [ctx_of_packaging hr]
    cases hfits : self.isPackageable ruled with
    | true =>
      exact .inl ⟨r, rfl, fun status => by
        simpa [noteLength, setupPackaging, hfits, setupImage, setupCompression]
          using get_announce ..⟩
    | false =>
      exact .inr (.inr fun status =>
        by simp [noteLength, setupPackaging, hfits, setupImage, flags_setupCompression])
  | none =>
    cases himage : self.imageAsked with
    | some params =>
      rw [ctx_of_image himage]
      by_cases hhttp : request.protocolType = .http
      · cases hformat : self.imageFormat request params ruled with
        | some choice =>
          have htype : get
              (if choice.2 = true then (announce ruled choice.1.contentType).insert "vary"
              "Accept" else announce ruled choice.1.contentType) "content-type"
                = some (strBytes choice.1.contentType) := by
            split
            · rw [get_insert_of_ne (by decide), get_announce]
            · exact get_announce ..
          exact .inr (.inl ⟨params, choice, ⟨rfl, rfl, hformat⟩, fun status => by
            simpa [noteLength, setupPackaging, setupImage, hhttp, hformat,
              setupCompression] using htype⟩)
        | none =>
          exact .inr (.inr fun status => by
            simp [noteLength, setupPackaging, setupImage, hhttp, hformat, flags_setupCompression])
      · exact .inr (.inr fun status => by
          simp [noteLength, setupPackaging, setupImage, hhttp, flags_setupCompression])
    | none =>
      refine .inr (.inr fun status => ?_)
      obtain ⟨range, hrange⟩ := self.detectRange_miss request
      simp only [detect, detectPackaging, hr, hrange, himage]
      cases range <;> by_cases hstatus : status = 200 <;>
        simp [upstreamRange, noteLength, hstatus, setupPackaging, setupImage,
          flags_setupCompression]

/-- **Whole files** exactly if the origin is not asked for a part, or nothing of it is ever packaged
or resized. -/
theorem wholeInput_iff (self : EdgeProxy κ) (forwarding : Forwarding) (request : Request)
    (ctx : ProxyCtx) (hctx : ctx.cacheStatus ≠ .hit) :
    (∀ response, (response.status = 206 → self.AsksForPart forwarding request ctx) →
        self.Transforms request ctx response → self.WholeInput request ctx response) ↔
      ¬ self.AsksForPart forwarding request ctx ∨ ∀ response,
        ¬ self.Transforms request ctx response := by
  constructor
  · intro h
    by_contra hnot
    push Not at hnot
    obtain ⟨hasks, response, htransforms⟩ := hnot
    -- the same answer as a part
    have hpart : self.Transforms request ctx { response with status := 206 } := by
      refine ⟨htransforms.1, ?_⟩
      have hflags := htransforms.2
      rcases self.sentHeader_cases request hctx response.headers with
        ⟨r, -, hsent⟩ | ⟨params, choice, -, hsent⟩ | hsent
      · exact .inl (by rw [(hsent _).1])
      · exact .inr (by rw [(hsent _).1])
      · rw [(hsent _).1, (hsent _).2] at hflags
        simp at hflags
    obtain ⟨hcomplete, -⟩ := h _ (fun _ => hasks) hpart
    exact hcomplete rfl
  · intro h response hanswer htransforms
    refine ⟨fun hpart => ?_, ?_⟩
    · exact h.elim (fun hasks => hasks (hanswer hpart)) fun hnone => hnone _ htransforms
    unfold sentBody
    rcases self.sentHeader_cases request hctx response.headers with
      ⟨r, -, hsent⟩ | ⟨params, choice, -, hsent⟩ | hsent
    · rw [(hsent _).1]
      exact .inl ⟨r, sendBody_packaging rfl rfl rfl htransforms.1⟩
    · rw [(hsent _).1]
      exact .inr ⟨params, choice.1, sendBody_image rfl rfl rfl rfl rfl htransforms.1⟩
    · have hflags := htransforms.2
      rw [(hsent _).1, (hsent _).2] at hflags
      simp at hflags

def missCtx : ProxyCtx := initEdge.missed plainGet 0

theorem wholeInput_iff_plain :
    (∀ response, (response.status = 206 → initEdge.AsksForPart {} plainGet missCtx) →
        initEdge.Transforms plainGet missCtx response →
          initEdge.WholeInput plainGet missCtx response) ↔
      ¬ initEdge.AsksForPart {} plainGet missCtx ∨ ∀ response,
        ¬ initEdge.Transforms plainGet missCtx response :=
  wholeInput_iff initEdge {} plainGet missCtx (by decide)

/-- The first hundred bytes of a film are asked for, together with its initialization segment. -/
def rangeGet : Request := { plainGet with headers := [("range", strBytes "bytes=0-99")] }

def filmPart : OriginResponse := { filmPage with status := 206, body := [some (film.take 100)] }

/-- They are what the packager is given. -/
theorem wholeInput_fails :
    (initEdge.detect rangeGet .miss).rangeRequest = none ∧ initEdge.AsksForPart
    {} rangeGet missCtx ∧
      initEdge.Transforms rangeGet missCtx filmPart ∧
      initEdge.sentBody rangeGet missCtx filmPart = initEdge.packaged .initSegment
      (film.take 100) := by
  refine ⟨by decide +kernel, ?_, ⟨by decide, ?_⟩, by decide +kernel⟩
  · unfold AsksForPart
    decide +kernel
  · decide +kernel

/-! ## What the client is told -/

variable (self) in
/-- What the packager or the image library makes of a body, with its type. -/
def output (content : Bytes) (c : TransformCtx κ) : Option (Str × Bytes) :=
  match c.packagingRequest, c.imageParams, c.imageOutputFormat with
  | some r, _, _ => (self.package r content).toOption.map (packagedType r, ·)
  | none, some params, some format =>
    if self.transforms.imageOptimization.maxInputSize.toNat < content.length then none
    else (self.codecs.processImage content params format).map (format.contentType, ·)
  | _, _, _ => none

variable (self) in
/-- The type and the body that fit: those of the output, or those of the origin. -/
def fitting (response : OriginResponse) (c : TransformCtx κ) : Option Bytes × Bytes :=
  ((self.output response.content c).map fun out => (some (strBytes out.1), out.2)).getD
    (get response.headers "content-type", response.content)

/-- The transformation gives an output, or panics, or would have the type that the origin gives. -/
structure TypeHolds (proxy : EdgeProxy κ) (request : Request) (ctx : ProxyCtx)
    (response : OriginResponse) : Prop where
  packaged : ∀ r, proxy.packagingAsked request = some r →
    (∃ out, proxy.package r response.content = .ok out) ∨
      (∃ f, proxy.package r response.content = .error (.fault f)) ∨
      get response.headers "content-type" = some (strBytes (packagedType r))
  resized : ∀ params choice, proxy.packagingAsked request = none → proxy.imageAsked = some params →
    proxy.imageFormat request params
      (proxy.ruledHeaders request ctx response.headers) = some choice →
    (response.content.length ≤ proxy.transforms.imageOptimization.maxInputSize.toNat ∧
        (proxy.codecs.processImage response.content params choice.1).isSome) ∨
      get response.headers "content-type" = some (strBytes choice.1.contentType)

/-- **The type fits the body** exactly if there is an output, or the origin's type is the one of the
output that was announced. A panic sends nothing. -/
theorem typeFits_iff (self : EdgeProxy κ) (request : Request) (ctx : ProxyCtx)
    (response : OriginResponse) (hctx : ctx.cacheStatus ≠ .hit)
    (h : self.Transforms request ctx response) :
    let header := self.sentHeader request ctx response.status response.headers
    (∀ body, self.sentBody request ctx response = .ok body →
        (get header.1 "content-type", body) = self.fitting response header.2) ↔
      self.TypeHolds request ctx response := by
  intro header
  unfold sentBody
  rcases self.sentHeader_cases request hctx response.headers with
    ⟨r, hr, hsent⟩ | ⟨params, choice, ⟨hr, hparams, hchoice⟩, hsent⟩ | hsent
  · obtain ⟨hheader, htype⟩ := hsent response.status
    have hholds : self.TypeHolds request ctx response ↔
        (∃ out, self.package r response.content = .ok out) ∨
          (∃ f, self.package r response.content = .error (.fault f)) ∨
          get response.headers "content-type" = some (strBytes (packagedType r)) := by
      refine ⟨fun h => h.packaged r hr, fun h => ⟨fun r' hr' => ?_, fun _ _ hnone => ?_⟩⟩
      · cases hr.symm.trans hr'
        exact h
      · cases hr.symm.trans hnone
    rw [hholds, hheader, sendBody_packaging rfl rfl rfl h.1]
    simp only [header, htype, fitting, output]
    show (∀ body, self.packaged r response.content = .ok body → _) ↔ _
    unfold packaged
    cases self.package r response.content with
    | ok out => simp [Except.toOption]
    | error stop =>
      cases stop with
      | err e => simp [Except.toOption, eq_comm]
      | fault f => simp [crash]
  · obtain ⟨hheader, htype⟩ := hsent response.status
    have hholds : self.TypeHolds request ctx response ↔
        (response.content.length ≤ self.transforms.imageOptimization.maxInputSize.toNat ∧
            (self.codecs.processImage response.content params choice.1).isSome) ∨
          get response.headers "content-type" = some (strBytes choice.1.contentType) := by
      refine ⟨fun h => h.resized params choice hr hparams hchoice, fun h => ⟨fun r hsome => ?_, ?_⟩⟩
      · cases hr.symm.trans hsome
      · intro params' choice' _ hparams' hchoice'
        cases hparams.symm.trans hparams'
        cases hchoice.symm.trans hchoice'
        exact h
    rw [hholds, hheader, sendBody_image rfl rfl rfl rfl rfl h.1]
    simp only [header, htype, fitting, output, Except.ok.injEq, forall_eq']
    show (_, self.resized params choice.1 response.content) = _ ↔ _
    unfold resized
    by_cases hsize : self.transforms.imageOptimization.maxInputSize.toNat < response.content.length
    · simpa [if_pos hsize, Nat.not_le.2 hsize] using eq_comm
    · cases self.codecs.processImage response.content params choice.1 with
      | some out => simp [if_neg hsize, Nat.not_lt.1 hsize]
      | none => simpa [if_neg hsize] using eq_comm
  · have hflags := h.2
    rw [(hsent _).1, (hsent _).2] at hflags
    simp at hflags

theorem typeFits_iff_film :
    let header := initEdge.sentHeader plainGet missCtx filmPage.status filmPage.headers
    ∀ body, initEdge.sentBody plainGet missCtx filmPage = .ok body →
      (get header.1 "content-type", body) = initEdge.fitting filmPage header.2 := by
  refine (typeFits_iff initEdge plainGet missCtx filmPage (by decide)
    ⟨by decide, by decide +kernel⟩).2 ?_
  have hr : initEdge.packagingAsked plainGet = some .initSegment := by decide +kernel
  refine ⟨fun r hsome => ?_, fun _ _ hnone => ?_⟩
  · cases hr.symm.trans hsome
    exact .inl ⟨_, eq_ok_of_toOption (a := (initEdge.package .initSegment film).toOption.getD [])
      (by decide +kernel)⟩
  · cases hr.symm.trans hnone

/-- A site that packages, and the playlist of what is no film. -/
def playlistEdge : EdgeProxy Unit :=
  { initEdge with toCdnProxy := { plainSite with query := some "format=hls" } }

def brokenPage : OriginResponse := { filmPage with body := [some [0]] }

/-- It is sent as it is, as a playlist. -/
theorem typeFits_fails :
    let header := playlistEdge.sentHeader plainGet missCtx brokenPage.status brokenPage.headers
    playlistEdge.Transforms plainGet missCtx brokenPage ∧
      playlistEdge.sentBody plainGet missCtx brokenPage = .ok [0] ∧
      get header.1 "content-type" = some (strBytes "application/vnd.apple.mpegurl") ∧
      playlistEdge.fitting brokenPage header.2 = (some (strBytes "video/mp4"), [0]) :=
  ⟨⟨by decide, by decide +kernel⟩, by decide +kernel, by decide +kernel, by decide +kernel⟩

end EdgeProxy

end Nozdormu.Proxy
