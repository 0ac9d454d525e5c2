import Nozdormu.Proxy.CacheFilters

/-!
# Inspection of request bodies

`cdn-middleware/src/waf/body.rs` with `request_filter` (the check of `Content-Length`) and
`request_body_filter` of `cdn-proxy/src/proxy.rs`. The filter is called for each chunk of a body:
it counts bytes, keeps the first 8192 and looks at their type once it has them or the stream ends.
-/

namespace Nozdormu.Proxy

open Rust Bmff Cache List

/-! ## `waf/body.rs` -/

structure BodyInspectionConfig where
  enabled : Bool := false
  /-- Bytes; 0 is no limit. -/
  maxBodySize : UInt64 := 26214400
  allowedContentTypes : List Str := []
  blockedContentTypes : List Str := []
  inspectMethods : List Str := ["POST", "PUT", "PATCH"]
deriving DecidableEq, Repr

inductive BodyCheckResult where
  | allow
  | tooLarge (limit : UInt64) (actual : Option UInt64)
  | contentTypeBlocked (detected : Str) (reason : String)
  | contentTypeMismatch (declared detected : Str)
deriving DecidableEq, Repr

/-- `s.split(sep).next()`. -/
def firstPiece (sep : Char) (s : Str) : Str := s.takeWhile (· ≠ sep)

/-- `"*/*"`, `"type/*"` or an exact type. -/
def mimeMatches (pattern mime : Str) : Bool :=
  let pattern := trim pattern
  let mime := trim mime
  if pattern = "*/*" ∨ pattern = "*" then true
  else if eqIgnoreAsciiCase pattern mime then true
  else (stripEnd "/*" pattern).any fun family => eqIgnoreAsciiCase family (firstPiece '/' mime)

def BodyInspectionConfig.inspects (config : BodyInspectionConfig) (method : Str) : Bool :=
  config.inspectMethods.any fun m => eqIgnoreAsciiCase m method

def checkContentLength (contentLength : Option UInt64) (method : Str)
    (config : BodyInspectionConfig) :
    BodyCheckResult :=
  if !config.enabled then .allow
  else if !config.inspects method then .allow
  else
    match contentLength with
    | some length =>
      if 0 < config.maxBodySize ∧ config.maxBodySize < length then
        .tooLarge config.maxBodySize (some length)
      else .allow
    | none => .allow

/-- The declared type is of another family than the detected one. -/
def familyMismatch (declared detected : Str) : Bool :=
  let base := trim (firstPiece ';' declared)
  !base.isEmpty && !mimeMatches base detected && !(firstPiece '/' base).isEmpty &&
    !(firstPiece '/' detected).isEmpty && !eqIgnoreAsciiCase (firstPiece '/' base)
      (firstPiece '/' detected)

/-- `infer` is `infer::get`, the type of a file by its first bytes. -/
def checkMagicBytes (infer : Bytes → Option Str) (firstBytes : Bytes) (declared : Option Str)
    (config : BodyInspectionConfig) : BodyCheckResult :=
  if !config.enabled then .allow
  else if config.allowedContentTypes.isEmpty && config.blockedContentTypes.isEmpty then .allow
  else
    match infer firstBytes with
    | none =>
      if !config.allowedContentTypes.isEmpty then
        .contentTypeBlocked "unknown" "unrecognized file type, allowed list is set"
      else .allow
    | some detected =>
      if !config.allowedContentTypes.isEmpty &&
          !config.allowedContentTypes.any fun pattern => mimeMatches pattern detected then
        .contentTypeBlocked detected "not in allowed content types"
      else if config.blockedContentTypes.any fun pattern => mimeMatches pattern detected then
        .contentTypeBlocked detected "in blocked content types"
      else
        match declared with
        | some declared =>
          if familyMismatch declared detected then
            .contentTypeMismatch (trim (firstPiece ';' declared)) detected
          else .allow
        | none => .allow

/-- A result that the filter answers with 403. -/
def BodyCheckResult.rejects : BodyCheckResult → Bool
  | contentTypeBlocked .. => true
  | contentTypeMismatch .. => true
  | _ => false

/-- What the rules of a site say against bytes of a type, declared as another. -/
def TypeRefused (config : BodyInspectionConfig) (declared detected : Option Str) : Prop :=
  (config.allowedContentTypes ≠ [] ∧
    ∀ mime, detected = some mime → ∀ pattern ∈ config.allowedContentTypes,
      ¬ mimeMatches pattern mime) ∨
  (∃ mime, detected = some mime ∧ ∃ pattern ∈ config.blockedContentTypes,
    mimeMatches pattern mime) ∨
  ((config.allowedContentTypes ≠ [] ∨ config.blockedContentTypes ≠ []) ∧
    ∃ mime name, detected = some mime ∧ declared = some name ∧ familyMismatch name mime)

theorem checkMagicBytes_rejects_iff {config : BodyInspectionConfig} (h : config.enabled = true)
    (infer : Bytes → Option Str) (firstBytes : Bytes) (declared : Option Str) :
    (checkMagicBytes infer firstBytes declared config).rejects = true ↔
      TypeRefused config declared (infer firstBytes) := by
  unfold checkMagicBytes
  rw [h]
  by_cases hrules : config.allowedContentTypes = [] ∧ config.blockedContentTypes = []
  · simp [hrules, TypeRefused, BodyCheckResult.rejects]
  have hsome : ¬ (config.allowedContentTypes.isEmpty && config.blockedContentTypes.isEmpty) =
      true := by
    simpa using hrules
  rw [if_neg (by decide), if_neg hsome]
  cases infer firstBytes with
  | none =>
    by_cases hallowed : config.allowedContentTypes = [] <;>
      simp [hallowed, TypeRefused, BodyCheckResult.rejects]
  | some detected =>
    have hfamily : config.allowedContentTypes ≠ [] ∨ config.blockedContentTypes ≠ [] :=
      not_and_or.1 hrules
    dsimp only
    split_ifs with hallowed hblocked
    · exact iff_of_true rfl (.inl (by simpa using hallowed))
    · exact iff_of_true rfl (.inr (.inl ⟨detected, rfl, by simpa using hblocked⟩))
    have hmismatch : TypeRefused config declared (some detected) ↔
        ∃ name, declared = some name ∧ familyMismatch name detected := by
      unfold TypeRefused
      rw [or_iff_right (by simpa using hallowed), or_iff_right (by simpa using hblocked),
        and_iff_right hfamily]
      simp
    rw [hmismatch]
    cases declared with
    | none => simp [BodyCheckResult.rejects]
    | some name =>
      dsimp only
      split_ifs with hname
      · exact iff_of_true rfl ⟨name, rfl, hname⟩
      · exact iff_of_false nofun (by simpa using hname)

structure BodyCtx where
  bodyInspectionEnabled : Bool := false
  bodyInspectionChecked : Bool := false
  bodyBytesReceived : Nat := 0
  bodyMaxSize : UInt64 := 0
  bodyFirstChunk : Bytes := []
  bodyRejected : Bool := false
deriving DecidableEq, Repr

def Request.contentLength (request : Request) : Option UInt64 :=
  ((HeaderMap.text request.headers "content-length").bind (parseUInt 64)).map UInt64.ofNat

structure Inspector where
  profile : Profile
  /-- `infer::get` -/
  infer : Bytes → Option Str
  config : BodyInspectionConfig

namespace Inspector

variable (self : Inspector) (request : Request)

/-- The bytes that are kept for the type. -/
def magicSize : Nat := 8192

/-- `request_filter`: the context of a request that goes on, or none when it is answered 413. -/
def contentLengthFilter : Option BodyCtx :=
  if !self.config.enabled then some {}
  else
    match checkContentLength request.contentLength request.method self.config with
    | .tooLarge .. => none
    | .allow =>
      if self.config.inspects request.method then
        some { bodyInspectionEnabled := true, bodyMaxSize := self.config.maxBodySize }
      else some {}
    | _ => some {}

def inspectFirstBytes (data : Bytes) (endOfStream : Bool) (ctx : BodyCtx) :
    Option Bytes × BodyCtx :=
  if ctx.bodyInspectionChecked then (some data, ctx)
  else
    let firstChunk := ctx.bodyFirstChunk ++ data.take (magicSize - ctx.bodyFirstChunk.length)
    if magicSize ≤ firstChunk.length ∨ endOfStream then
      let declared := HeaderMap.text request.headers "content-type"
      if (checkMagicBytes self.infer firstChunk declared self.config).rejects then
        (none, { ctx with
          bodyFirstChunk := firstChunk
          bodyInspectionChecked := true
          bodyRejected := true })
      else (some data, { ctx with bodyFirstChunk := firstChunk, bodyInspectionChecked := true })
    else (some data, { ctx with bodyFirstChunk := firstChunk })

def requestBodyFilter (body : Option Bytes) (endOfStream : Bool) (ctx : BodyCtx) :
    Exec Empty (Option Bytes × BodyCtx) :=
  if !ctx.bodyInspectionEnabled || ctx.bodyRejected then return (body, ctx)
  else
    match body with
    | none => return (none, ctx)
    | some data => do
      let received ← self.profile.add 64 ctx.bodyBytesReceived data.length
      let ctx := { ctx with bodyBytesReceived := received }
      if 0 < ctx.bodyMaxSize.toNat ∧ ctx.bodyMaxSize.toNat < received then
        return (none, { ctx with bodyRejected := true })
      else return self.inspectFirstBytes request data endOfStream ctx

/-- The calls for a body, the last of which ends the stream. A panic ends the request. -/
def forward : (calls : List (Option Bytes)) → BodyCtx → List (Option Bytes × BodyCtx)
  | [], _ => []
  | data :: left, ctx =>
    match self.requestBodyFilter request data left.isEmpty ctx with
    | .ok step => step :: forward left step.2
    | .error _ => []

/-- What becomes of a request with a body in such calls. -/
structure Outcome where
  steps : List (Option Bytes × BodyCtx)
  rejected : Bool

def outcome (calls : List (Option Bytes)) : Outcome :=
  match self.contentLengthFilter request with
  | none => ⟨[], true⟩
  | some ctx =>
    let steps := self.forward request calls ctx
    ⟨steps, steps.any fun step => step.2.bodyRejected⟩

def sent (steps : List (Option Bytes × BodyCtx)) : Bytes := bytesOf (steps.map (·.1))

structure Split (body : Bytes) (calls : List (Option Bytes)) : Prop where
  nonempty : calls ≠ []
  bytes : bytesOf calls = body

end Inspector

/-! ## What is to hold -/

variable {step : Option Bytes × BodyCtx}

namespace Inspector

variable (inspector : Inspector) (request : Request)

/-- What a body is to have, however it is cut: at most `max_body_size` bytes reach the origin, none
after a rejection, and it is rejected for all ways or for none. -/
structure Sound (body : Bytes) : Prop where
  bounded : ∀ calls, Split body calls → 0 < inspector.config.maxBodySize →
    (sent (inspector.outcome request calls).steps).length ≤ inspector.config.maxBodySize.toNat
  silent : ∀ calls, Split body calls → ∀ step ∈ (inspector.outcome request calls).steps,
    step.2.bodyRejected = true → step.1.getD [] = []
  uniform : ∀ calls calls', Split body calls → Split body calls' →
    (inspector.outcome request calls).rejected = (inspector.outcome request calls').rejected

def Refused (firstBytes : Bytes) : Prop :=
  TypeRefused inspector.config (HeaderMap.text request.headers "content-type")
    (inspector.infer firstBytes)

def Over (bytes : Bytes) : Prop :=
  0 < inspector.config.maxBodySize.toNat ∧ inspector.config.maxBodySize.toNat <
    bytes.length % 2 ^ 64

/-- The context behind the bytes `seen` that were passed on. -/
def ctxAfter (seen : Bytes) : BodyCtx where
  bodyInspectionEnabled := true
  bodyInspectionChecked := decide (magicSize ≤ seen.length)
  bodyBytesReceived := seen.length % 2 ^ 64
  bodyMaxSize := inspector.config.maxBodySize
  bodyFirstChunk := seen.take magicSize

/-- A chunk is rejected by the number of bytes, or by the type when it completes the first bytes. -/
def RejectsAt (seen data : Bytes) (endOfStream : Bool) : Prop :=
  inspector.Over (seen ++ data) ∨
    (seen.length < magicSize ∧ (magicSize ≤ (seen ++ data).length ∨ endOfStream = true) ∧
      inspector.Refused request ((seen ++ data).take magicSize))

/-- What a call makes of a chunk behind the bytes `seen`. -/
def Judged (seen data : Bytes) (endOfStream : Bool) (step : Option Bytes × BodyCtx) : Prop :=
  (inspector.RejectsAt request seen data endOfStream ∧ step.1 = none ∧ step.2.bodyRejected = true) ∨
    (¬ inspector.RejectsAt request seen data endOfStream ∧ step.1 = some data ∧
      step.2.bodyRejected = false ∧
        (endOfStream = false → step.2 = inspector.ctxAfter (seen ++ data)))

variable {inspector request} {ctx : BodyCtx} {seen data : Bytes}

theorem take_append_take (n : Nat) (a b : Bytes) :
    a.take n ++ b.take (n - (a.take n).length) = (a ++ b).take n := by
  rw [take_append, length_take]
  congr 2
  omega

theorem judged_inspectFirstBytes (henabled : inspector.config.enabled = true) (endOfStream : Bool)
    (hover : ¬ inspector.Over (seen ++ data)) :
    inspector.Judged request seen data endOfStream
    (inspector.inspectFirstBytes request data endOfStream
      { inspector.ctxAfter seen with bodyBytesReceived := (seen ++ data).length % 2 ^ 64 }) := by
  have hlength : (seen ++ data).length = seen.length + data.length := length_append
  have hreject : inspector.RejectsAt request seen data endOfStream ↔ seen.length < magicSize ∧
      (magicSize ≤ (seen ++ data).length ∨ endOfStream = true) ∧
        inspector.Refused request ((seen ++ data).take magicSize) := or_iff_right hover
  have hrefused : (checkMagicBytes inspector.infer ((seen ++ data).take magicSize)
      (HeaderMap.text request.headers "content-type") inspector.config).rejects = true ↔
        inspector.Refused request ((seen ++ data).take magicSize) :=
          checkMagicBytes_rejects_iff henabled _ _ _
  have hlook : (magicSize ≤ ((seen ++ data).take magicSize).length ∨ endOfStream = true) ↔
      (magicSize ≤ (seen ++ data).length ∨ endOfStream = true) := by
    rw [length_take, le_min_iff, and_iff_right (le_refl _)]
  unfold Judged
  rw [hreject]
  generalize hstep : inspector.inspectFirstBytes request data endOfStream
    { inspector.ctxAfter seen with bodyBytesReceived := (seen ++ data).length % 2 ^ 64 } = step
  unfold inspectFirstBytes ctxAfter at hstep
  dsimp only at hstep
  rw [take_append_take] at hstep
  split at hstep
  next hchecked =>
    have hseen := of_decide_eq_true hchecked
    obtain rfl := hstep
    refine .inr ⟨fun h => by omega, rfl, rfl, fun _ => ?_⟩
    rw [ctxAfter, take_append_of_le_length hseen, hchecked, decide_eq_true (by omega)]
  next hchecked =>
    have hseen : ¬ magicSize ≤ seen.length := fun h => hchecked (decide_eq_true h)
    split at hstep
    next hcomplete =>
      rw [hlook] at hcomplete
      split at hstep
      next hbad =>
        obtain rfl := hstep
        exact .inl ⟨⟨by omega, hcomplete, hrefused.1 hbad⟩, rfl, rfl⟩
      next hbad =>
        obtain rfl := hstep
        refine .inr ⟨fun h => hbad (hrefused.2 h.2.2), rfl, rfl, fun hmore => ?_⟩
        rw [hmore, or_iff_left (by decide)] at hcomplete
        rw [ctxAfter, decide_eq_true hcomplete]
    next hcomplete =>
      rw [hlook] at hcomplete
      obtain rfl := hstep
      refine .inr ⟨fun h => hcomplete h.2.1, rfl, rfl, fun _ => ?_⟩
      rw [ctxAfter, decide_eq_false hseen, decide_eq_false (fun hlong => hcomplete (.inl hlong))]

theorem spec_count {p : Profile} {w m n : Nat} (hm : p = .dev → m < 2 ^ w) :
    Spec (p.add w (m % 2 ^ w) n : Exec Empty Nat) (p = .dev → m + n < 2 ^ w) fun c => c =
    (m + n) % 2 ^ w where
  of_noFault h hdev := by
    rw [hdev, Nat.mod_eq_of_lt (hm hdev)] at h
    exact noFault_dev_add.1 h
  returns h := by
    cases p with
    | dev => exact ⟨_, Nat.mod_eq_of_lt (hm rfl) ▸ add_ok .dev (h rfl)⟩
    | release => exact returns_release_add ..
  value _ h := (eq_mod_of_add_eq_ok h).trans (Nat.mod_add_mod ..)

/-- **One call** with data panics, or judges the chunk. -/
theorem spec_requestBodyFilter (request : Request) (henabled : inspector.config.enabled = true)
    {seen : Bytes} (hseen : inspector.profile = .dev → seen.length < 2 ^ 64) (data : Bytes)
    (endOfStream : Bool) :
    Spec (inspector.requestBodyFilter request (some data) endOfStream (inspector.ctxAfter seen))
      (inspector.profile = .dev → (seen ++ data).length < 2 ^ 64)
      (inspector.Judged request seen data endOfStream) := by
  have hcount := length_append ▸ spec_count (n := data.length) hseen
  refine (hcount.bind_eq fun _ => ?_).congr (and_iff_left trivial)
  dsimp only
  split
  next hover => exact .of_ok rfl trivial (.inl ⟨.inl hover, rfl, rfl⟩)
  next hover => exact .of_ok rfl trivial (judged_inspectFirstBytes henabled endOfStream hover)

/-! ## Whole bodies -/

variable (inspector request)

/-- `max_body_size`. -/
def limit : Nat := inspector.config.maxBodySize.toNat

/-- The body is within the limit or one byte above it. -/
def SizeFits (body : Bytes) : Prop :=
  inspector.limit = 0 ∨ body.length ≤ inspector.limit ∨
    (body.length = inspector.limit + 1 ∧ body.length < 2 ^ 64) ∨
    (inspector.profile = .dev ∧ inspector.limit + 1 = 2 ^ 64)

/-- The type rules have nothing against the body, or they look at it when it is complete. -/
def TypeFits (body : Bytes) : Prop :=
  ¬ inspector.Refused request (body.take magicSize) ∨ body.length = magicSize ∨
    (0 < inspector.limit ∧ body.length = inspector.limit + 1 ∧ body.length < magicSize)

/-- The bodies that are rejected, among those that fit. -/
def Unwanted (body : Bytes) : Prop :=
  (0 < inspector.limit ∧ body.length = inspector.limit + 1 ∧ body.length < 2 ^ 64) ∨
    (inspector.Refused request (body.take magicSize) ∧ body.length = magicSize)

variable {inspector request} {body : Bytes}

section

variable (hsize : inspector.SizeFits body)
include hsize

theorem not_rejectsAt_of_more (htype : inspector.TypeFits request body)
    {rest : Bytes} (hbody : seen ++ data ++ rest = body) (hrest : rest ≠ []) :
    ¬ inspector.RejectsAt request seen data false := by
  have hlength : (seen ++ data).length < body.length := by
    have hpos := length_pos_of_ne_nil hrest
    simp only [← hbody, length_append]
    omega
  rintro (⟨hpos, hover⟩ | ⟨-, hlong, hrefused⟩)
  · unfold SizeFits limit at hsize
    omega
  rw [or_iff_left (by decide)] at hlong
  have hfirst : (seen ++ data).take magicSize = body.take magicSize := by
    rw [← hbody, take_append_of_le_length hlong]
  rw [hfirst] at hrefused
  rcases htype with hnot | hsame | ⟨-, -, hshort⟩
  · exact hnot hrefused
  · omega
  · omega

theorem rejectsAt_iff_of_complete (htype : inspector.TypeFits request body)
    (hbody : seen ++ data = body)
    (hnew : inspector.Unwanted request body → seen ≠ body) (endOfStream : Bool) :
    inspector.RejectsAt request seen data endOfStream ↔ inspector.Unwanted request body := by
  have hseen : seen.length + data.length = body.length := by rw [← hbody, length_append]
  constructor
  · rintro (⟨hpos, hover⟩ | ⟨-, -, hrefused⟩)
    · rw [hbody] at hover
      left
      unfold SizeFits limit at hsize
      unfold limit
      omega
    · rw [hbody] at hrefused
      rcases htype with hnot | hsame | ⟨hpos, hone, hshort⟩
      · exact absurd hrefused hnot
      · exact .inr ⟨hrefused, hsame⟩
      · refine .inl ⟨hpos, hone, lt_trans hshort (by decide)⟩
  · intro hunwanted
    have hshort : seen.length < body.length := by
      refine lt_of_le_of_ne (by omega) fun heq => hnew hunwanted ?_
      rw [← hbody, eq_nil_of_length_eq_zero (l := data) (by omega), append_nil]
    unfold RejectsAt
    rw [hbody]
    rcases hunwanted with ⟨hpos, hone, hsmall⟩ | ⟨hrefused, hsame⟩
    · refine .inl ⟨hpos, ?_⟩
      rw [Nat.mod_eq_of_lt hsmall, hone]
      exact Nat.lt_succ_self _
    · exact .inr ⟨by omega, .inl hsame.ge, hrefused⟩

end

theorem forward_of_rejected (h : ctx.bodyRejected = true) (calls : List (Option Bytes)) :
    inspector.forward request calls ctx = calls.map fun data => (data, ctx) := by
  induction calls with
  | nil => rfl
  | cons data left ih =>
    have hstep : inspector.requestBodyFilter request data left.isEmpty ctx = .ok (data, ctx) := by
      unfold requestBodyFilter
      rw [h, Bool.or_true, if_pos rfl]
      rfl
    rw [forward, hstep]
    dsimp only
    rw [ih, map_cons]

/-- What the rest of the calls does behind the bytes `seen`. -/
structure Settled (inspector : Inspector) (request : Request) (body seen : Bytes)
    (steps : List (Option Bytes × BodyCtx)) : Prop where
  silent : ∀ step ∈ steps, step.2.bodyRejected = true → step.1.getD [] = []
  verdict : (∃ step ∈ steps, step.2.bodyRejected = true) ↔ inspector.Unwanted request body
  bounded : 0 < inspector.limit → seen.length ≤ inspector.limit →
    seen.length + (sent steps).length ≤ inspector.limit

theorem Settled.pass {steps : List (Option Bytes × BodyCtx)}
    (h : Settled inspector request body (seen ++ step.1.getD []) steps)
    (hstep : step.2.bodyRejected = false)
    (hlimit : 0 < inspector.limit → seen.length ≤ inspector.limit →
      (seen ++ step.1.getD []).length ≤ inspector.limit) :
    Settled inspector request body seen (step :: steps) where
  silent := by
    intro s hs hrejected
    rcases mem_cons.1 hs with rfl | hs
    · rw [hstep] at hrejected
      cases hrejected
    · exact h.silent s hs hrejected
  verdict := by
    rw [← h.verdict]
    simp [hstep]
  bounded := by
    intro hpos hle
    have hrest := h.bounded hpos (hlimit hpos hle)
    rw [length_append] at hrest
    rw [sent, map_cons, bytesOf_cons, length_append]
    exact Nat.add_assoc .. ▸ hrest

theorem settled_reject {calls : List (Option Bytes)}
    (hunwanted : inspector.Unwanted request body) (hnone : step.1 = none)
    (hstep : step.2.bodyRejected = true) (hrest : bytesOf calls = []) :
    Settled inspector request body seen (step :: inspector.forward request calls step.2) := by
  have hempty : ∀ data ∈ calls, data.getD [] = [] := fun data hdata =>
    flatMap_eq_nil_iff.1 hrest data hdata
  have hsent : sent (step :: inspector.forward request calls step.2) = [] := by
    rw [forward_of_rejected hstep, sent, map_cons, bytesOf_cons, hnone]
    simpa [Function.comp_def] using hrest
  refine ⟨fun s hs _ => ?_, iff_of_true ⟨step, mem_cons_self, hstep⟩ hunwanted, fun _ hle => ?_⟩
  · rw [forward_of_rejected hstep] at hs
    rcases mem_cons.1 hs with rfl | hs
    · rw [hnone]
      rfl
    · obtain ⟨data, hdata, rfl⟩ := mem_map.1 hs
      exact hempty data hdata
  · rw [hsent]
    exact hle

theorem length_le_limit_of_not_over (hsize : inspector.SizeFits body) {rest : Bytes} {q : Bytes}
    (hbody : q ++ rest = body) (hcounted : inspector.profile = .dev → q.length < 2 ^ 64)
    (hover : ¬ inspector.Over q) (hpos : 0 < inspector.limit) : q.length ≤ inspector.limit := by
  have hlength : q.length + rest.length = body.length := by rw [← hbody, length_append]
  have hbound : inspector.limit < 2 ^ 64 := inspector.config.maxBodySize.toNat_lt
  have hsmall : q.length < 2 ^ 64 := by
    rcases hsize with h | h | h | h
    · omega
    · omega
    · omega
    · exact hcounted h.1
  unfold Over at hover
  unfold limit at hpos ⊢
  omega

/-- **The calls for a body that fits**, by induction over the calls: behind the bytes `seen` nothing
has been rejected, and what is rejected is rejected by the call that completes the body. -/
theorem settled_forward (henabled : inspector.config.enabled = true)
    (hsize : inspector.SizeFits body)
    (htype : inspector.TypeFits request body) (calls : List (Option Bytes)) :
    ∀ {seen : Bytes} {ctx : BodyCtx}, (calls ≠ [] → ctx = inspector.ctxAfter seen) →
      (inspector.profile = .dev → seen.length < 2 ^ 64) → seen ++ bytesOf calls = body →
      (inspector.Unwanted request body → seen ≠ body) →
      Settled inspector request body seen (inspector.forward request calls ctx) := by
  induction calls with
  | nil =>
    intro seen ctx _ _ hbody hnew
    rw [bytesOf, flatMap_nil, append_nil] at hbody
    exact ⟨nofun, iff_of_false nofun fun hunwanted => hnew hunwanted hbody, fun _ hle => hle⟩
  | cons data left ih =>
    intro seen ctx hctx hseen hbody hnew
    obtain rfl := hctx (cons_ne_nil _ _)
    rw [bytesOf_cons] at hbody
    cases data with
    | none =>
      have hrest := ih (fun _ => rfl) hseen hbody hnew
      refine Settled.pass ?_ rfl fun _ hle => ?_
      · rw [Option.getD_none, append_nil]
        exact hrest
      · rw [Option.getD_none, append_nil]
        exact hle
    | some data =>
      rw [Option.getD_some, ← append_assoc] at hbody
      rw [forward]
      have hspec := spec_requestBodyFilter request henabled hseen data left.isEmpty
      cases hstep : inspector.requestBodyFilter request (some data) left.isEmpty
        (inspector.ctxAfter seen) with
      | error stop =>
        -- only a body that is too long to be rejected makes the counter panic
        have hwanted : ¬ inspector.Unwanted request body := by
          intro hunwanted
          have hle : (seen ++ data).length ≤ body.length := by
            rw [← hbody]
            exact (prefix_append _ _).length_le
          obtain ⟨_, hok⟩ := hspec.returns fun _ => by unfold Unwanted magicSize at hunwanted; omega
          rw [hstep] at hok
          cases hok
        exact ⟨nofun, iff_of_false nofun hwanted, fun _ hle => hle⟩
      | ok step =>
        have hcounted := hspec.of_noFault (hstep ▸ noFault_ok step)
        have hcomplete : bytesOf left = [] → seen ++ data = body := by
          intro hnil
          rw [hnil, append_nil] at hbody
          exact hbody
        rcases hspec.value step hstep with ⟨hreject, hnone, hrejected⟩ |
          ⟨hpass, hsome, hpassed, hmore⟩
        · have hnil : bytesOf left = [] := by
            by_contra hne
            have hlast : left.isEmpty = false := by
              cases left with
              | nil => exact absurd rfl hne
              | cons _ _ => rfl
            rw [hlast] at hreject
            exact not_rejectsAt_of_more hsize htype hbody hne hreject
          exact settled_reject
            ((rejectsAt_iff_of_complete hsize htype (hcomplete hnil) hnew _).1 hreject)
            hnone hrejected hnil
        · have hover : ¬ inspector.Over (seen ++ data) := fun hover => hpass (.inl hover)
          have hnext : Settled inspector request body (seen ++ data)
              (inspector.forward request left step.2) := by
            refine ih (fun hleft => hmore ?_) hcounted hbody fun hunwanted heq => ?_
            · simpa using hleft
            · exact hpass ((rejectsAt_iff_of_complete hsize htype heq hnew _).2 hunwanted)
          refine Settled.pass ?_ hpassed fun hpos _ => ?_
          · rw [hsome]
            exact hnext
          · rw [hsome]
            exact length_le_limit_of_not_over hsize hbody hcounted hover hpos

variable (inspector request)

/-- The method is one that the site inspects. -/
def Inspects : Prop := inspector.config.enabled = true ∧
    inspector.config.inspects request.method = true

/-- `Content-Length` announces more than the limit. -/
def Announced : Prop :=
  0 < inspector.config.maxBodySize ∧
    ∃ length, request.contentLength = some length ∧ inspector.config.maxBodySize < length

variable {inspector request}

section

variable (h : inspector.Inspects request)
include h

theorem contentLengthFilter_of_announced (hannounced : inspector.Announced request) :
    inspector.contentLengthFilter request = none := by
  obtain ⟨hpos, length, hlength, hlt⟩ := hannounced
  simp [contentLengthFilter, checkContentLength, h.1, h.2, hlength, hpos, hlt]

theorem contentLengthFilter_of_not_announced (hannounced : ¬ inspector.Announced request) :
    inspector.contentLengthFilter request = some (inspector.ctxAfter []) := by
  have hallow : checkContentLength request.contentLength request.method inspector.config = .allow :=
    by
    unfold checkContentLength
    rw [h.1, h.2, if_neg (by decide), if_neg (by decide)]
    cases hlength : request.contentLength with
    | none => rfl
    | some length =>
      dsimp only
      rw [if_neg]
      exact fun hlarge => hannounced ⟨hlarge.1, length, hlength, hlarge.2⟩
  unfold contentLengthFilter
  rw [hallow, h.1, h.2]
  rfl

theorem outcome_of_not_announced (hannounced : ¬ inspector.Announced request)
    (calls : List (Option Bytes)) :
    inspector.outcome request calls = ⟨inspector.forward request calls (inspector.ctxAfter []),
        (inspector.forward request calls (inspector.ctxAfter [])).any fun step =>
          step.2.bodyRejected⟩ := by
  unfold outcome
  rw [contentLengthFilter_of_not_announced h hannounced]

end

theorem judged_first (request : Request) (henabled : inspector.config.enabled = true) {data : Bytes}
    (hcounted : inspector.profile = .dev → data.length < 2 ^ 64) (endOfStream : Bool) :
    ∃ step, inspector.requestBodyFilter request (some data) endOfStream
    (inspector.ctxAfter []) = .ok step ∧
      inspector.Judged request [] data endOfStream step := by
  have hspec := @spec_requestBodyFilter inspector request henabled []
    (fun _ => by decide) data endOfStream
  obtain ⟨step, hstep⟩ := hspec.returns hcounted
  exact ⟨step, hstep, hspec.value step hstep⟩

theorem forward_single (h : inspector.requestBodyFilter request (some data) true ctx = .ok step) :
    inspector.forward request [some data] ctx = [step] := by
  rw [forward, isEmpty_nil, h]
  rfl

theorem not_sound_of_rejectsAt (h : inspector.Inspects request)
    (hannounced : ¬ inspector.Announced request)
    {n : Nat} (hmore : n < body.length) (hcounted : n < 2 ^ 64)
    (hreject : inspector.RejectsAt request [] (body.take n) false) :
      ¬ inspector.Sound request body := by
  intro hsound
  have hbody := take_append_drop n body
  have hshort := Nat.lt_of_le_of_lt (length_take_le n body) hcounted
  have hrest : body.drop n ≠ [] := drop_eq_nil_iff.not.2 (Nat.not_le.2 hmore)
  generalize body.take n = data, body.drop n = rest at *
  have hsplit : Split body [some data, some rest] := by
    refine ⟨cons_ne_nil _ _, ?_⟩
    rw [← hbody, bytesOf_cons, bytesOf_cons, bytesOf, flatMap_nil, append_nil]
    rfl
  have hsilent := hsound.silent _ hsplit
  rw [outcome_of_not_announced h hannounced] at hsilent
  obtain ⟨step, hstep, hjudged⟩ := judged_first request h.1 (fun _ => hshort) false
  rcases hjudged with ⟨-, -, hrejected⟩ | ⟨hpass, -⟩
  · have hsteps : inspector.forward request [some data, some rest] (inspector.ctxAfter []) =
        [step, (some rest, step.2)] := by
      rw [forward, isEmpty_cons, hstep]
      dsimp only
      rw [forward_of_rejected hrejected, map_singleton]
    rw [hsteps] at hsilent
    exact hrest (hsilent (some rest, step.2) (mem_cons_of_mem _ mem_cons_self) hrejected)
  · exact hpass hreject

theorem split_whole (body : Bytes) : Split body [some body] := ⟨cons_ne_nil _ _, append_nil _⟩

section

variable (h : inspector.Inspects request) (hannounced : ¬ inspector.Announced request)
include h hannounced

theorem not_sound_of_refused
    (hrefused : inspector.Refused request (body.take magicSize)) (hlong : magicSize < body.length) :
    ¬ inspector.Sound request body := by
  have hlength : (body.take magicSize).length = magicSize := by
    rw [length_take]
    omega
  refine not_sound_of_rejectsAt h hannounced hlong (by decide) (.inr ?_)
  rw [nil_append, hlength, take_take, min_self]
  exact ⟨by decide, .inl (le_refl _), hrefused⟩

theorem sizeFits_of_sound (hsound : inspector.Sound request body) : inspector.SizeFits body := by
  have hbound : inspector.limit < 2 ^ 64 := inspector.config.maxBodySize.toNat_lt
  by_contra hsize
  unfold SizeFits at hsize
  by_cases hsmall : inspector.limit + 1 < 2 ^ 64
  · -- cut behind the first byte above the limit
    have hlength : (body.take (inspector.limit + 1)).length = inspector.limit + 1 := by
      rw [length_take]
      omega
    refine not_sound_of_rejectsAt h hannounced (by omega) hsmall (.inl ?_) hsound
    rw [nil_append]
    refine ⟨by unfold limit at hsize; omega, ?_⟩
    rw [hlength, Nat.mod_eq_of_lt hsmall]
    exact Nat.lt_succ_self _
  · -- no counter is above the largest limit: the body is passed on as a whole
    have hrelease : inspector.profile = .release := by
      cases hprofile : inspector.profile with
      | release => rfl
      | dev => exact absurd (.inr (.inr (.inr ⟨hprofile, by omega⟩))) hsize
    have hwhole : ¬ inspector.Refused request (body.take magicSize) := fun hrefused =>
      not_sound_of_refused h hannounced hrefused (by unfold magicSize; omega) hsound
    have hpos : 0 < inspector.config.maxBodySize := by
      exact Nat.pos_of_ne_zero fun hzero => hsize (.inl hzero)
    have hsent := hsound.bounded _ (split_whole body) hpos
    rw [outcome_of_not_announced h hannounced] at hsent
    obtain ⟨step, hstep, hjudged⟩ := judged_first request h.1
      (fun hdev => absurd (hrelease.symm.trans hdev) (by decide)) true
    rcases hjudged with ⟨⟨-, hover⟩ | ⟨-, -, hrefused⟩, -⟩ | ⟨-, hsome, -⟩
    · unfold limit at hsmall
      omega
    · exact hwhole hrefused
    · have hbody : sent [step] = body := by
        rw [sent, map_singleton, hsome]
        exact append_nil _
      rw [forward_single hstep, hbody] at hsent
      exact hsize (.inr (.inl hsent))

theorem typeFits_of_sound (hsize : inspector.SizeFits body)
    (hsound : inspector.Sound request body) :
    inspector.TypeFits request body := by
  by_contra htype
  unfold TypeFits at htype
  have hrefused : inspector.Refused request (body.take magicSize) := not_not.1 fun hnot =>
    htype (.inl hnot)
  by_cases hlong : magicSize < body.length
  · exact not_sound_of_refused h hannounced hrefused hlong hsound
  have hsmall : body.length < 2 ^ 64 := by unfold magicSize at hlong; omega
  have hreject : inspector.RejectsAt request [] body true := by
    refine .inr ⟨by decide, .inr rfl, ?_⟩
    exact hrefused
  have hpass : ¬ inspector.RejectsAt request [] body false := by
    rintro (⟨hpos, hover⟩ | ⟨-, hfull, -⟩)
    · rw [nil_append, Nat.mod_eq_of_lt hsmall] at hover
      refine htype (.inr (.inr ⟨hpos, ?_, by omega⟩))
      unfold SizeFits at hsize
      unfold limit at hsize ⊢
      omega
    · rw [nil_append, or_iff_left (by decide)] at hfull
      omega
  have huniform := hsound.uniform _ [some body, none]
    (split_whole body) ⟨cons_ne_nil _ _, append_nil _⟩
  rw [outcome_of_not_announced h hannounced, outcome_of_not_announced h hannounced] at huniform
  obtain ⟨last, hlast, hjudged⟩ := judged_first request h.1 (fun _ => hsmall) true
  obtain ⟨first, hfirst, hjudged'⟩ := judged_first request h.1 (fun _ => hsmall) false
  rcases hjudged with ⟨-, -, hrejected⟩ | ⟨hnot, -⟩
  · rcases hjudged' with ⟨hnot, -⟩ | ⟨-, -, hpassed, hctx⟩
    · exact hpass hnot
    have htrailing : inspector.forward request [some body, none] (inspector.ctxAfter []) =
        [first, (none, inspector.ctxAfter ([] ++ body))] := by
      rw [forward, isEmpty_cons, hfirst]
      dsimp only
      rw [hctx rfl]
      rfl
    rw [forward_single hlast, htrailing] at huniform
    simp [hrejected, hpassed, ctxAfter] at huniform
  · exact hnot hreject

end

/-- **Inspection.** For a method that is inspected, a body keeps the three rules in all its cuts
exactly if `Content-Length` announces it as too large, or it has at most one byte above the limit
and the type rules accept its first bytes, or look at them when the body is complete. -/
theorem inspection_iff (inspector : Inspector) (request : Request) (body : Bytes)
    (h : inspector.Inspects request) :
    inspector.Sound request body ↔
      inspector.Announced request ∨
      (inspector.SizeFits body ∧ inspector.TypeFits request body) := by
  constructor
  · intro hsound
    by_cases hannounced : inspector.Announced request
    · exact .inl hannounced
    · have hsize := sizeFits_of_sound h hannounced hsound
      exact .inr ⟨hsize, typeFits_of_sound h hannounced hsize hsound⟩
  · by_cases hannounced : inspector.Announced request
    · intro _
      have houtcome : ∀ calls, inspector.outcome request calls = ⟨[], true⟩ := by
        intro calls
        rw [outcome, contentLengthFilter_of_announced h hannounced]
      refine ⟨fun calls _ _ => ?_, fun calls _ => ?_, fun calls calls' _ _ => ?_⟩
      · rw [houtcome]
        exact Nat.zero_le _
      · rw [houtcome]
        exact nofun
      · rw [houtcome, houtcome]
    · rintro (habsurd | ⟨hsize, htype⟩)
      · exact absurd habsurd hannounced
      have hsettled : ∀ calls, Split body calls →
          Settled inspector request body []
            (inspector.forward request calls (inspector.ctxAfter [])) := by
        intro calls hsplit
        refine settled_forward h.1 hsize htype calls (fun _ => rfl)
          (fun _ => by decide) hsplit.bytes ?_
        rintro (⟨-, hone, -⟩ | ⟨-, hsame⟩) rfl
        · cases hone
        · cases hsame
      refine ⟨fun calls hsplit hpos => ?_, fun calls hsplit => ?_,
        fun calls calls' hsplit hsplit' => ?_⟩
      · rw [outcome_of_not_announced h hannounced]
        have hbounded := (hsettled calls hsplit).bounded
          (UInt64.lt_iff_toNat_lt.1 hpos) (Nat.zero_le _)
        rw [length_nil, Nat.zero_add] at hbounded
        exact hbounded
      · rw [outcome_of_not_announced h hannounced]
        exact (hsettled calls hsplit).silent
      · rw [outcome_of_not_announced h hannounced, outcome_of_not_announced h hannounced]
        rw [Bool.eq_iff_iff, any_eq_true, any_eq_true, (hsettled calls hsplit).verdict,
          (hsettled calls' hsplit').verdict]

end Inspector

def imageInspector : Inspector where
  profile := .release
  infer := fun bytes => if bytes.take 3 = [0xFF, 0xD8, 0xFF] then some "image/jpeg" else none
  config := { enabled := true, maxBodySize := 4, allowedContentTypes := ["image/*"] }

def upload : Request := { method := "POST", headers := [] }

/-- A file of three bytes is accepted in all its cuts. -/
theorem inspection_iff_jpeg : imageInspector.Inspects upload ∧
    (imageInspector.SizeFits [0xFF, 0xD8, 0xFF] ∧ imageInspector.TypeFits upload [0xFF, 0xD8, 0xFF])
      ∧
    imageInspector.Sound upload [0xFF, 0xD8, 0xFF] := by
  have hinspects : imageInspector.Inspects upload := by
    unfold Inspector.Inspects
    decide
  have hsize : imageInspector.SizeFits [0xFF, 0xD8, 0xFF] := by
    unfold Inspector.SizeFits
    decide
  have htype : imageInspector.TypeFits upload [0xFF, 0xD8, 0xFF] := by
    refine .inl fun hrefused => ?_
    have hrejects := (checkMagicBytes_rejects_iff rfl _ _ _).2 hrefused
    revert hrejects
    decide
  exact ⟨hinspects, ⟨hsize, htype⟩, (Inspector.inspection_iff _ _ _ hinspects).2
    (.inr ⟨hsize, htype⟩)⟩

/-- Eight bytes in chunks of one: the fifth is dropped, the rest reaches the origin behind the
rejection and passes the limit. -/
theorem inspection_cut_fails :
    (∃ step ∈ (imageInspector.outcome upload ((List.range 8).map fun _ => some [0xFF])).steps,
        step.2.bodyRejected = true ∧ step.1 = some [0xFF]) ∧
      (Inspector.sent (imageInspector.outcome upload ((List.range 8).map fun _ =>
        some [0xFF])).steps).length = 7 ∧
      (imageInspector.outcome upload [some [1, 2]]).rejected = true ∧
      (imageInspector.outcome upload [some [1, 2], none]).rejected = false := by
  decide

end Nozdormu.Proxy
