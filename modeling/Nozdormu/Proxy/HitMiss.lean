import Nozdormu.Proxy.Transform

/-!
# Hits and misses of one request

A miss stores headers and body as they come from the origin, before anything is done to them, and a
hit sends what is stored: it returns from `request_filter` before it is known whether the response
is to be packaged or resized. `hitLikeMiss_iff` says for which responses that makes no difference.
-/

namespace Nozdormu.Proxy

open Rust Bmff Cache Packaging HeaderMap CdnProxy

/-! ## The last value of a header -/

section LastValue

variable {β : Type}

theorem last_concat (l : List (Str × β)) (e : Str × β) (name : Str) :
    (l ++ [e]).reverse.lookup name = if name = e.1 then some e.2 else l.reverse.lookup name := by
  obtain ⟨k, value⟩ := e
  rw [List.reverse_append, List.reverse_singleton, List.singleton_append, List.lookup_cons]
  by_cases hk : name = k
  · simp [hk]
  · rw [if_neg hk, beq_false_of_ne hk]

theorem last_filter_key {p : Str → Bool} {name : Str} (h : p name = true) (l : List (Str × β)) :
    (l.filter fun e => p e.1).reverse.lookup name = l.reverse.lookup name := by
  rw [← List.filter_reverse, lookup_filter_key, if_pos h]

end LastValue

theorem last_collectHeaders (headers : List (Str × Str)) (name : Str) :
    (collectHeaders headers).reverse.lookup name = headers.reverse.lookup name := by
  induction headers using List.reverseRecOn with
  | nil => rfl
  | append_singleton headers e ih =>
    rw [collectHeaders, List.foldl_append]
    show (List.filter (fun h => decide (h.1 ≠ e.1)) (collectHeaders headers) ++ [e]).reverse.lookup
      name = _
    rw [last_concat, last_concat]
    by_cases hname : name = e.1
    · rw [if_pos hname, if_pos hname]
    · rw [if_neg hname, if_neg hname, last_filter_key (p := fun k => decide (k ≠ e.1))
        (by simpa using hname), ih]

namespace HeaderMap

theorem get_insert (headers : HeaderMap) (key value name : Str) :
    get (insert headers key value) name =
      if name.map Char.toLower = key then some (strBytes value) else headers.get name := by
  by_cases hname : name.map Char.toLower = key
  · rw [if_pos hname, get, insert, List.lookup_append, hname,
      lookup_filter_key (fun k => decide (k ≠ key)), if_neg (by simp)]
    simp
  · rw [if_neg hname, get_insert_of_ne hname]

theorem get_remove_of_ne {name key : Str} (h : name.map Char.toLower ≠ key.map Char.toLower)
    (headers : HeaderMap) : get (remove headers key) name = headers.get name := by
  rw [get, remove, lookup_filter_ne h]
  rfl

theorem get_foldl_insert {name : Str} (hname : name.map Char.toLower = name)
    (l : List (Str × Str)) :
    get (l.foldl (fun h e => insert h e.1 e.2) []) name = (l.reverse.lookup name).map strBytes := by
  induction l using List.reverseRecOn with
  | nil => rfl
  | append_singleton l e ih =>
    rw [List.foldl_append, last_concat]
    show get (insert _ e.1 e.2) name = _
    rw [get_insert, hname, ih]
    split <;> rfl

end HeaderMap

namespace CdnProxy

def keptType (headers : HeaderMap) : Option Bytes :=
  ((captured headers).reverse.lookup "content-type".toList).map strBytes

theorem captured_filter (headers : HeaderMap) (key : Str) :
    captured (headers.filter (·.1 ≠ key)) = (captured headers).filter fun h =>
      decide (h.1 ≠ key) := by
  unfold captured
  rw [List.filterMap_filter, List.filter_filterMap]
  congr 1
  funext h
  cases valueStr h.2 with
  | none => simp
  | some value => by_cases hkey : h.1 = key <;> simp [hkey, Option.filter]

theorem keptType_insert {key : Str} (hne : "content-type".toList ≠ key)
    (headers : HeaderMap) (value : Str) :
    keptType (headers.insert key value) = keptType headers := by
  unfold keptType HeaderMap.insert
  have happend : captured (headers.filter (·.1 ≠ key) ++ [(key, strBytes value)]) =
      (captured headers).filter (fun h => decide (h.1 ≠ key)) ++ captured
        [(key, strBytes value)] := by
    rw [← captured_filter, captured, List.filterMap_append]
    rfl
  have hrest : ((captured headers).filter fun h => decide (h.1 ≠ key)).reverse.lookup
      "content-type".toList
      = (captured headers).reverse.lookup "content-type".toList :=
    last_filter_key (p := fun k => decide (k ≠ key)) (decide_eq_true hne) _
  rw [happend]
  cases hvalue : valueStr (strBytes value) with
  | none =>
    have hnone : captured [(key, strBytes value)] = [] := by simp [captured, hvalue]
    rw [hnone, List.append_nil, hrest]
  | some value' =>
    have hone : captured [(key, strBytes value)] = [(key, value')] := by simp [captured, hvalue]
    rw [hone, last_concat, if_neg hne, hrest]

theorem keptType_stampHeaders (request : Request) (ctx : ProxyCtx) (headers : HeaderMap) :
    keptType (stampHeaders request ctx headers) = keptType headers := by
  unfold stampHeaders
  split <;> simp (disch := decide) only [keptType_insert]

/-! ## What a miss stores -/

variable {proxy : CdnProxy}

theorem accumulate_kept (proxy : CdnProxy) (data : Option Bytes) (ctx : ProxyCtx) :
    (proxy.accumulate data ctx).cachedResponseHeaders = ctx.cachedResponseHeaders ∧
      ∀ key, (proxy.accumulate data ctx).cacheKey = some key → ctx.cacheKey = some key := by
  unfold accumulate
  split
  · dsimp only
    split
    · exact ⟨rfl, nofun⟩
    · exact ⟨rfl, fun _ => id⟩
  · exact ⟨rfl, fun _ => id⟩

theorem of_copied {now : Clock} {calls : List (Option Bytes)} {ctx : ProxyCtx} {w : Write}
    (h : proxy.copied now calls ctx = some w) :
    w.siteId = proxy.site.siteId ∧ ctx.cacheKey = some w.cacheKey ∧
      w.headers = ctx.cachedResponseHeaders := by
  induction calls generalizing ctx with
  | nil => cases h
  | cons data calls ih =>
    -- a copy that is given up loses its key, so one that is written has had it all along
    obtain ⟨hheaders, hkey⟩ := proxy.accumulate_kept data ctx
    cases calls with
    | nil =>
      simp only [copied, cacheBody] at h
      split at h
      · simp only [if_true, finishedWrite] at h
        split at h
        next _ key _ _ hkey' _ =>
          cases h
          exact ⟨rfl, hkey _ hkey', hheaders⟩
        next => cases h
      · cases h
    | cons next calls =>
      simp only [copied, cacheBody] at h
      split at h
      · obtain ⟨hsite, hkey', hheaders'⟩ := ih h
        exact ⟨hsite, hkey _ hkey', hheaders'.trans hheaders⟩
      · exact ih h

theorem of_missWrite {request : Request} {now built : Clock} {response : OriginResponse} {w : Write}
    (h : proxy.missWrite request now built response = some w) :
    w.siteId = proxy.site.siteId ∧ w.cacheKey = proxy.cacheKey request ∧ w.body = response.content ∧
      w.headers = captured (stampHeaders request (proxy.missed request 0) response.headers) := by
  have hstorable := storable_of_missWrite h
  obtain ⟨w', -, hw', hbody, -⟩ := missWrite_of_storable now built hstorable
  obtain rfl : w' = w := Option.mem_unique hw' h
  unfold missWrite at h
  split at h
  next decision _ =>
    split at h
    · have hpass := (checkResponseCacheability_iff response.status _ _).2
        ⟨hstorable.status, hstorable.marks⟩
      rw [← marksOf_stampHeaders request (proxy.missed request decision.ttl)] at hpass
      obtain ⟨hsite, hkey, hheaders⟩ := of_copied h
      unfold responseFilter at hkey hheaders
      rw [if_pos ⟨rfl, rfl⟩, if_pos hpass] at hkey hheaders
      exact ⟨hsite, (Option.some.inj hkey).symm, hbody, hheaders⟩
    · cases h
  next => cases h

/-! ## What a hit sends -/

def typeOf (response : ClientResponse) : Option Bytes := get response.headers "content-type"

theorem type_metadata (w : Write) : w.metadata.headers.reverse.lookup "content-type".toList
      = w.headers.reverse.lookup "content-type".toList := by
  show (collectHeaders _).reverse.lookup _ = _
  rw [last_collectHeaders]
  exact last_filter_key (p := fun k => !excludedResponseHeaders.any (eqIgnoreAsciiCase k))
    (by decide) _

theorem of_found {p : Profile} {sys : CacheSystem} {w : Write} {events : List CacheEvent}
    (hnot : CacheSystem.NotOverwritten w events) {cached : CachedResponse} {stale : Bool}
    {last : CacheSystem} (hlast : last = CacheSystem.run p events (sys.step p (.put w)))
    (hfound : ((CacheStorage.full.getWithStale p w.siteId w.cacheKey).run
      Stores.serve last.stores).1
      = .ok (some (cached, stale))) :
    cached.body = w.body ∧ cached.metadata.headers =
      if (last.stores.metaOf (metaKey w.siteId w.cacheKey)).isSome
        then w.metadata.headers else [] := by
  subst hlast
  obtain ⟨path, hpath⟩ := path_of_getWithStale hfound
  obtain ⟨hbody, -, hmeta⟩ := of_getWithStale hpath hfound
  obtain ⟨⟨stop, hstop⟩, -⟩ | ⟨path', s, hpath', hstep, hobjects, hentry, -⟩ :=
    CacheSystem.step_put p w sys
  · rw [show w.path = .ok path from hpath] at hstop
    cases hstop
  obtain rfl : path = path' := ok_unique hpath hpath'
  refine ⟨CacheSystem.body_of_run hpath events _ hnot ?_ _ hbody, ?_⟩
  · intro body hbody
    rw [hstep, hobjects, AList.lookup_insert] at hbody
    exact (Option.some.inj hbody).symm
  -- without metadata the read makes up a 200 with no headers
  rcases hmeta with hmeta | ⟨hmeta, hinvented⟩
  · rw [hmeta, Option.isSome_some, if_pos rfl]
    obtain ⟨deadline, hlookup, -⟩ := lookup_of_metaOf hmeta
    have hwritten := CacheSystem.entry_of_run (w.entry sys.stores.clock) events _ hnot
      (fun e he => by
        rw [hstep, hentry] at he
        exact (Option.some.inj he).symm) _ hlookup
    have hrecord : RedisValue.record cached.metadata = .record w.metadata :=
      congrArg RedisEntry.value hwritten
    rw [RedisValue.record.inj hrecord]
  · rw [hmeta, hinvented]
    rfl

end CdnProxy

/-! ## What is done to a response -/

/-- What comes of the response to a request for packaging or image optimization. -/
inductive Treatment (κ : Type) where
  | packaged (r : PackagingRequest)
  | resized (params : ImageParams) (format : ImageFormat)
  | compressed (encoder : κ)
  | untouched

variable {r : PackagingRequest} {params : ImageParams}

namespace EdgeProxy

variable {κ : Type} (self : EdgeProxy κ)

/-- Packaging or image optimization is asked for, at a site that has it. -/
def Active (request : Request) : Prop := (self.packagingAsked request).isSome ∨
    self.imageAsked.isSome

def ruled (request : Request) (response : OriginResponse) : HeaderMap :=
  self.ruleHeaders request .miss (stampHeaders request (self.missed request 0) response.headers)

/-- Without packaging or an image, a response may be compressed. -/
def encoded (request : Request) (response : OriginResponse) : Treatment κ :=
  match self.encoding request response.status (self.ruled request response) with
  | some (algo, level) => .compressed (self.codecs.newEncoder algo level)
  | none => .untouched

def treatment (request : Request) (response : OriginResponse) : Treatment κ :=
  match self.packagingAsked request, self.imageAsked with
  | some r, _ => if self.isPackageable (self.ruled request response) then .packaged r
      else self.encoded request response
  | none, some params =>
    if request.protocolType = .http then
      match self.imageFormat request params (self.ruled request response) with
      | some (format, _) => .resized params format
      | none => self.encoded request response
    else self.encoded request response
  | none, none => self.encoded request response

def treatedType (headers : HeaderMap) : Treatment κ → Option Bytes
  | .packaged r => some (strBytes (packagedType r))
  | .resized _ format => some (strBytes format.contentType)
  | .compressed _ | .untouched => get headers "content-type"

def treatedBody (calls : List (Option Bytes)) : Treatment κ → Exec Empty Bytes
  | .packaged r => self.packaged r (bytesOf calls)
  | .resized params format => .ok (self.resized params format (bytesOf calls))
  | .compressed encoder => self.compressed encoder calls
  | .untouched => .ok (bytesOf calls)

variable {self} {request : Request} {response : OriginResponse}

theorem imageAsked_of_packagingAsked (h : self.packagingAsked request = some r) :
    self.imageAsked = none := by
  unfold packagingAsked at h
  split at h
  next hasked => exact Option.isNone_iff_eq_none.1 hasked.2.1
  next => cases h

theorem detectRange_miss (request : Request) : ∃ range : Option RangeSpec,
    self.detectRange request .miss {} =
    { rangeRequest := range, rangePassthrough := range.isSome } := by
  unfold detectRange
  split
  · split
    next spec _ => exact ⟨some spec, rfl⟩
    next => exact ⟨none, rfl⟩
  · exact ⟨none, rfl⟩

theorem ctx_of_packaging (h : self.packagingAsked request = some r) :
    upstreamRange (self.detect request .miss) = { packagingRequest := some r } := by
  obtain ⟨range, hrange⟩ := self.detectRange_miss request
  simp only [detect, detectPackaging, h, hrange, imageAsked_of_packagingAsked h]
  rfl

theorem ctx_of_image (h : self.imageAsked = some params) :
    upstreamRange (self.detect request .miss) = { imageParams := some params } := by
  obtain ⟨range, hrange⟩ := self.detectRange_miss request
  cases hr : self.packagingAsked request with
  | none =>
    simp only [detect, detectPackaging, hr, hrange, h]
    cases range <;> rfl
  | some r =>
    rw [imageAsked_of_packagingAsked hr] at h
    cases h

theorem of_encoded {ctx : TransformCtx κ} (h : Plain ctx) (hcompressor : ctx.compressor = none)
    (calls : List (Option Bytes)) :
    let header := self.setupCompression request response.status (self.ruled request response) ctx
    get header.1 "content-type"
        = treatedType (self.ruled request response) (self.encoded request response) ∧
      self.sendBody calls header.2 = self.treatedBody calls (self.encoded request response) := by
  have hopen : ¬ (ctx.imageBuffering = true ∨ ctx.packagingBuffering = true ∨
      ctx.rangeRequest.isSome = true) := by
    simp [h.range, h.packaging, h.image]
  unfold setupCompression encoded
  rw [if_neg hopen]
  cases hencoding : self.encoding request response.status (self.ruled request response) with
  | none => exact ⟨rfl, sendBody_plain h hcompressor calls⟩
  | some choice =>
    obtain ⟨algo, level⟩ := choice
    refine ⟨?_, sendBody_compressor (h.with (some (self.codecs.newEncoder algo level))) rfl calls⟩
    have hencoded : get ((insert (self.ruled request response) "content-encoding"
        algo.encodingToken).remove "content-length") "content-type"
          = get (self.ruled request response) "content-type" := by
      rw [get_remove_of_ne (by decide), get_insert_of_ne (by decide)]
    dsimp only
    split
    · rw [get_insert_of_ne (by decide), hencoded]
      rfl
    · exact hencoded

theorem get_announce (headers : HeaderMap) (type : Str) :
    get (announce headers type) "content-type" = some (strBytes type) := by
  rw [announce, get_remove_of_ne (by decide), get_insert, if_pos (by decide)]

theorem missHeader_of_ctx {ctx : TransformCtx κ}
    (hctx : upstreamRange (self.detect request .miss) = ctx) (hrange : ctx.rangeRequest = none) :
    self.missHeader request response =
      let packaged := self.setupPackaging (self.ruled request response) ctx
      let resized := self.setupImage request packaged.1 packaged.2
      self.setupCompression request response.status resized.1 resized.2 := by
  have hlength : ∀ status headers, noteLength status headers ctx = ctx := by
    intro status headers
    simp [noteLength, hrange]
  unfold missHeader transformHeader
  dsimp only
  rw [hctx, hlength]
  rfl

theorem missHeader_eq (hactive : self.Active request) (hbody : response.body ≠ []) :
    get (self.missHeader request response).1 "content-type"
        = treatedType (self.ruled request response) (self.treatment request response) ∧
      self.sendBody response.body (self.missHeader request response).2
        = self.treatedBody response.body (self.treatment request response) := by
  unfold treatment
  cases hr : self.packagingAsked request with
  | some r =>
    rw [missHeader_of_ctx (ctx_of_packaging hr) rfl]
    unfold setupPackaging
    dsimp only
    split
    · exact ⟨get_announce .., sendBody_packaging rfl rfl rfl hbody⟩
    · exact of_encoded ⟨rfl, rfl, rfl⟩ rfl _
  | none =>
    have himage : self.imageAsked.isSome := by
      rcases hactive with hpackaging | himage
      · rw [hr] at hpackaging
        cases hpackaging
      · exact himage
    obtain ⟨params, hparams⟩ := Option.isSome_iff_exists.1 himage
    rw [missHeader_of_ctx (ctx_of_image hparams) rfl, hparams]
    unfold setupPackaging setupImage
    dsimp only
    split
    next hhttp =>
      cases hformat : self.imageFormat request params (self.ruled request response) with
      | none => exact of_encoded ⟨rfl, rfl, rfl⟩ rfl _
      | some choice =>
        obtain ⟨format, negotiated⟩ := choice
        refine ⟨?_, sendBody_image rfl rfl rfl rfl rfl hbody⟩
        show get (if negotiated = true then _ else _) _ = _
        split
        · rw [get_insert_of_ne (by decide)]
          exact get_announce ..
        · exact get_announce ..
    next => exact of_encoded ⟨rfl, rfl, rfl⟩ rfl _

/-! ## Where hits are like misses -/

/-- The content type of an entry, as long as Redis has its metadata. -/
def storedType (response : OriginResponse) (hasMeta : Bool) : Option Bytes :=
  if hasMeta then keptType response.headers else none

variable (self) in
/-- What is done to the response leaves its body and its type as they are stored, unless the client
gets no answer at all. -/
def Unchanged (request : Request) (response : OriginResponse) (hasMeta : Bool) : Prop :=
  match self.treatment request response with
  | .packaged r =>
    (∃ fault, self.package r response.content = crash fault) ∨
      storedType response hasMeta = some (strBytes (packagedType r)) ∧
        ∀ output, self.package r response.content = .ok output → output = response.content
  | .resized params format =>
    storedType response hasMeta = some (strBytes format.contentType) ∧
      (self.transforms.imageOptimization.maxInputSize.toNat < response.content.length ∨
        ∀ output, self.codecs.processImage response.content params format = some output →
          output = response.content)
  | .compressed encoder =>
    (∃ fault, self.compressed encoder response.body = crash fault) ∨
      storedType response hasMeta = get (self.ruled request response) "content-type" ∧
        self.compressed encoder response.body = .ok response.content
  | .untouched =>
    storedType response hasMeta = get (self.ruled request response) "content-type"

structure SameAnswer (hit miss : ClientResponse) : Prop where
  body : hit.body = miss.body
  type : typeOf hit = typeOf miss

theorem ok_unchanged_iff {P : Prop} (sent body : Bytes) :
    (∀ output, (.ok sent : Exec Empty Bytes) = .ok output → P ∧ output = body) ↔ P ∧
      sent = body := by
  simp

theorem sameAnswer_iff (hactive : self.Active request) (hbody : response.body ≠ [])
    {hit : ClientResponse}
    {type : Option Bytes} (hhit : hit.body = response.content) (htype : typeOf hit = type) :
    (∀ miss, self.missResponse request response = .ok miss → SameAnswer hit miss) ↔
      ∀ output, self.treatedBody response.body (self.treatment request response) = .ok output →
        type = treatedType (self.ruled request response) (self.treatment request response) ∧
          output = response.content := by
  obtain ⟨hheader, hsent⟩ := missHeader_eq hactive hbody
  have hmiss : self.missResponse request response =
      (self.treatedBody response.body (self.treatment request response)).bind fun body =>
        .ok ⟨response.status, (self.missHeader request response).1, body⟩ := by
    rw [← hsent]
    rfl
  rw [hmiss]
  cases self.treatedBody response.body (self.treatment request response) with
  | error stop => exact iff_of_true nofun nofun
  | ok output =>
    rw [ok_unchanged_iff, ← hheader, ← htype, ← hhit]
    constructor
    · intro h
      obtain ⟨hsame, htype'⟩ := h _ rfl
      exact ⟨htype', hsame.symm⟩
    · rintro ⟨htype', hsame⟩ miss hok
      cases hok
      exact ⟨hsame.symm, htype'⟩

theorem unchanged_iff (hactive : self.Active request) (hbody : response.body ≠ []) (hasMeta : Bool)
    {hit : ClientResponse} (hhit : hit.body = response.content)
    (htype : typeOf hit = storedType response hasMeta) :
    (∀ miss, self.missResponse request response = .ok miss → SameAnswer hit miss) ↔
      self.Unchanged request response hasMeta := by
  rw [sameAnswer_iff hactive hbody hhit htype]
  unfold Unchanged
  cases self.treatment request response with
  | packaged r =>
    dsimp only [treatedType]
    show (∀ output, self.packaged r response.content = .ok output → _) ↔ _
    unfold packaged
    cases self.package r response.content with
    | ok output => simp [crash]
    | error stop => cases stop <;> simp [crash]
  | resized params format =>
    refine (ok_unchanged_iff _ _).trans (and_congr_right fun _ => ?_)
    show self.resized params format response.content = _ ↔ _
    unfold resized
    split
    next hlarge => simp [hlarge]
    next hfits =>
      cases self.codecs.processImage response.content params format with
      | none => simp
      | some output => simp [hfits]
  | compressed encoder =>
    dsimp only [treatedType]
    show (∀ output, self.compressed encoder response.body = .ok output → _) ↔ _
    cases self.compressed encoder response.body with
    | ok output => simp [crash]
    | error stop =>
      cases stop with
      | err e => cases e
      | fault f => simp [crash]
  | untouched => exact (ok_unchanged_iff _ _).trans (and_iff_left rfl)

/-- **Hits are like misses** exactly for responses that are stored as they are sent. -/
theorem hitLikeMiss_iff (edge : EdgeProxy κ) (request : Request) (now built : Clock)
    (response : OriginResponse) (w : Write) (sys : CacheSystem) (events : List CacheEvent)
    (status : CacheStatus) (cached : CachedResponse) (stale : Bool) (hactive : edge.Active request)
    (hstored : edge.missWrite request now built response = some w)
    (hnot : CacheSystem.NotOverwritten w events) :
    let last := CacheSystem.run edge.profile events (sys.step edge.profile (.put w))
    ((CacheStorage.full.getWithStale edge.profile edge.site.siteId (edge.cacheKey request)).run
      Stores.serve
        last.stores).1 = .ok (some (cached, stale)) →
      ((∀ miss, edge.missResponse request response = .ok miss →
          SameAnswer (serveCachedResponse last.stores.clock request status cached) miss) ↔
        edge.Unchanged request response
          (last.stores.metaOf (metaKey edge.site.siteId (edge.cacheKey request))).isSome) := by
  intro last hfound
  obtain ⟨hsite, hkey, hbody, hheaders⟩ := of_missWrite hstored
  have hended := (storable_of_missWrite hstored).ended
  rw [← hsite, ← hkey] at hfound ⊢
  obtain ⟨hcached, hmeta⟩ := of_found hnot rfl hfound
  refine unchanged_iff hactive hended _ (hcached.trans hbody) ?_
  unfold typeOf serveCachedResponse
  simp (disch := decide) only [get_insert_of_ne, get_foldl_insert]
  rw [hmeta, storedType]
  split
  · rw [type_metadata, hheaders]
    exact keptType_stampHeaders ..
  · rfl

def noCodecs : Codecs Unit where
  lower := id
  isWord := Char.isAlphanum
  parseF32 := fun _ => none
  processImage := fun _ _ _ => none
  newEncoder := fun _ _ => ()
  writeChunk := fun _ _ => (none, ())
  finish := fun _ => []

def initEdge : EdgeProxy Unit where
  toCdnProxy := { plainSite with query := some "format=hls&segment=init" }
  codecs := noCodecs
  transforms := { packaging := { enabled := true } }
  uri := "/page?format=hls&segment=init"
  scheme := "https"
  clientIp := none

/-- A block of deflate that is stored and not compressed. -/
def storedBlock (final : Bool) (data : Bytes) : Bytes :=
  let size := UInt16.ofNat data.length
  [if final then 1 else 0, size.toUInt8, (size >>> 8).toUInt8, (~~~size).toUInt8,
    ((~~~size) >>> 8).toUInt8] ++ data

/-- An encoder that stores each chunk as a block, and ends with an empty one. -/
def storingEdge : EdgeProxy Unit :=
  { initEdge with
    codecs := { noCodecs with
      writeChunk := fun _ data => (some (storedBlock false data), ())
      finish := fun _ => storedBlock true [] } }

/-- Two chunks of a body, with a call without data between them. -/
theorem filterBody_iff_stored :
    NoFault (storingEdge.filterBody [(some [1, 2, 3], false), (none, false), (some [4, 5], true)]
      { compressor := some () }) ∧
    storingEdge.sendBody [some [1, 2, 3], none, some [4, 5]] { compressor := some () }
      = .ok ([0, 3, 0, 252, 255, 1, 2, 3] ++ [0, 2, 0, 253, 255, 4, 5] ++ [1, 0, 0, 255, 255]) := by
  obtain ⟨hfault, hsent⟩ :=
    filterBody_iff storingEdge { compressor := some () } () ⟨rfl, rfl, rfl⟩ rfl
  have hencodes : storingEdge.Encodes () [some [1, 2, 3], none, some [4, 5]]
      ((some (storedBlock false [1, 2, 3])).getD [] ++ ((none : Option Bytes).getD [] ++
        ((some (storedBlock false [4, 5])).getD [] ++ storedBlock true []))) :=
    .more rfl (.more rfl (.last rfl))
  exact ⟨(hfault _).2 (.inr (.inr (.inl rfl))), hsent _ _ hencodes⟩

/-- The encoder fails at the only chunk, and nothing is left to finish. -/
theorem filterBody_fails : Plain ({ compressor := some () } : TransformCtx Unit) ∧
    initEdge.filterBody [(some [1], true)] { compressor := some () } = crash .unwrap :=
  ⟨⟨rfl, rfl, rfl⟩, rfl⟩

def film : Bytes := movie 10 20 [movieTrak 1 ccVide 10 20 640 480 [(ccStsd, be 8 0)]] []

def filmPage : OriginResponse := ⟨200, [("content-type", strBytes "video/mp4")], [some film]⟩

def filmWrite : Write where
  siteId := "site1"
  cacheKey := "3a37f96e820f2930cf7427a9332f8a66"
  builtAt := epoch
  status := 200
  headers := [("content-type", "video/mp4"), ("server", "CDN"),
    ("x-cache-status", "MISS"), ("x-request-id", []),
    ("accept-ranges", "bytes")]
  ttl := 3600
  staleWhileRevalidate := 0
  tags := []
  body := film

def filmCache : CacheSystem :=
  CacheSystem.run .release [] ((CacheSystem.empty epoch).step .release (.put filmWrite))

theorem active_initEdge : initEdge.Active plainGet := .inl (by decide +kernel)

theorem missWrite_initEdge :
    initEdge.missWrite plainGet epoch epoch filmPage = some filmWrite := by decide +kernel

theorem found_filmCache :
    ((CacheStorage.full.getWithStale .release initEdge.site.siteId (initEdge.cacheKey plainGet)).run
      Stores.serve
      filmCache.stores).1 = .ok (some (⟨filmWrite.metadata, film⟩, false)) := by decide +kernel

theorem hitLikeMiss_iff_film : (∀ miss, initEdge.missResponse plainGet filmPage = .ok miss →
        SameAnswer (CdnProxy.serveCachedResponse filmCache.stores.clock plainGet .hit
          ⟨filmWrite.metadata, film⟩)
          miss) ↔
      initEdge.Unchanged plainGet filmPage
        (filmCache.stores.metaOf
          (metaKey initEdge.site.siteId (initEdge.cacheKey plainGet))).isSome :=
  hitLikeMiss_iff initEdge plainGet epoch epoch filmPage filmWrite (.empty epoch) []
    .hit ⟨filmWrite.metadata, film⟩ false active_initEdge missWrite_initEdge
    (fun _ hput => absurd hput List.not_mem_nil) found_filmCache

/-- The miss gets the initialization segment, the hit the whole film. -/
theorem hitLikeMiss_fails : initEdge.Active plainGet ∧
      initEdge.missWrite plainGet CdnProxy.epoch CdnProxy.epoch filmPage = some filmWrite ∧
      ((CacheStorage.full.getWithStale .release initEdge.site.siteId
        (initEdge.cacheKey plainGet)).run Stores.serve
        filmCache.stores).1 = .ok (some (⟨filmWrite.metadata, film⟩, false)) ∧
      ∃ miss, initEdge.missResponse plainGet filmPage = .ok miss ∧ miss.body.length = 513 ∧
        film.length = 232 ∧
        ¬ SameAnswer
          (CdnProxy.serveCachedResponse filmCache.stores.clock plainGet .hit
            ⟨filmWrite.metadata, film⟩) miss := by
  refine ⟨active_initEdge, missWrite_initEdge, found_filmCache, ?_⟩
  have hmiss : (initEdge.missResponse plainGet filmPage).map
      (fun miss => miss.body.length) = .ok 513 := by
    decide +kernel
  have hfilm : film.length = 232 := by decide +kernel
  cases hresponse : initEdge.missResponse plainGet filmPage with
  | error stop =>
    rw [hresponse] at hmiss
    cases hmiss
  | ok miss =>
    rw [hresponse] at hmiss
    have hlength : miss.body.length = 513 := Except.ok.inj hmiss
    refine ⟨miss, rfl, hlength, hfilm, fun h => ?_⟩
    have hsame : film.length = miss.body.length := congrArg List.length h.body
    omega

end EdgeProxy

end Nozdormu.Proxy
