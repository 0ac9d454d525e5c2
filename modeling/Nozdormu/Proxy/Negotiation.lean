import Nozdormu.Proxy.Protocol

/-!
# What a client asks for

`cdn-image/src/params.rs` and `negotiate.rs`, the choice of an encoding in
`cdn-proxy/src/compression.rs`, and `range.rs`: what is read from the query and from `Accept`,
`Accept-Encoding` and `Range`. Lower case and the reading of floats are parameters.
`refusalsKept_iff` says in which headers a refusal (`q=0`) is heeded, `range_exact` which bytes a
range stands for.
-/

namespace Nozdormu.Proxy

open Rust Bmff Cache List

/-! ## Lists of tokens, patterns of types -/

/-- The quality of an item of `Accept`, 1.0 unless it begins with one that can be read. -/
def quality (parseF32 : Str → Option Float32) (params : Str) : Float32 :=
  ((stripStart "q=" (trim params)).bind fun q => parseF32 (trim q)).getD 1.0

def acceptItem (parseF32 : Str → Option Float32) (part : Str) : Option (Str × Float32) :=
  match splitN ';' 2 (trim part) with
  | token :: params :: _ => some (trim token, quality parseF32 params)
  | [token] => if token.isEmpty then none else some (trim token, 1.0)
  | [] => none

def parseAccept (parseF32 : Str → Option Float32) (header : Str) : List (Str × Float32) :=
  (header.splitOn ',').filterMap (acceptItem parseF32)

variable (lower : Str → Str)

def mimeOf (contentType : Str) : Str := lower (trim (contentType.takeWhile (· ≠ ';')))

/-- Whether a type is among the patterns; `text/*` stands for all types that begin with `text/`. -/
def matchesType (patterns : List Str) (contentType : Str) : Bool :=
  patterns.any fun pattern =>
    if (stripEnd "/*" (lower pattern)).isSome then
      (stripStart (lower pattern).dropLast (mimeOf lower contentType)).isSome
    else mimeOf lower contentType = lower pattern

inductive ImageFormat where
  | avif
  | webP
  | jpeg
  | png
deriving DecidableEq, Repr

namespace ImageFormat

def contentType : ImageFormat → Str
  | avif => "image/avif"
  | webP => "image/webp"
  | jpeg => "image/jpeg"
  | png => "image/png"

def acceptToken : ImageFormat → Str
  | avif => "image/avif"
  | webP => "image/webp"
  | jpeg => "image/jpeg"
  | png => "image/png"

def fromToken (token : Str) : Option ImageFormat :=
  let t := trim token
  if eqIgnoreAsciiCase t "avif" then some avif
  else if eqIgnoreAsciiCase t "webp" then some webP
  else if eqIgnoreAsciiCase t "jpeg" || eqIgnoreAsciiCase t "jpg" then some jpeg
  else if eqIgnoreAsciiCase t "png" then some png
  else none

def ofContentType (lower : Str → Str) (contentType : Str) : Option ImageFormat :=
  let mime := mimeOf lower contentType
  if mime = "image/jpeg" ∨ mime = "image/jpg" then some jpeg
  else if mime = "image/png" then some png
  else if mime = "image/webp" then some webP
  else if mime = "image/avif" then some avif
  else none

end ImageFormat

inductive ResizeFit where
  | contain
  | cover
  | fill
  | inside
  | outside
deriving DecidableEq, Repr

def ResizeFit.ofText (text : Str) : ResizeFit :=
  if text = "cover" then cover
  else if text = "fill" then fill
  else if text = "inside" then inside
  else if text = "outside" then outside
  else contain

structure ImageOptimizationConfig where
  enabled : Bool := false
  formats : List ImageFormat := [.avif, .webP]
  defaultQuality : UInt32 := 80
  maxWidth : UInt32 := 4096
  maxHeight : UInt32 := 4096
  maxInputSize : UInt64 := 50 * 1024 * 1024
  optimizableTypes : List Str :=
    ["image/jpeg", "image/png", "image/gif", "image/bmp", "image/tiff"]
deriving DecidableEq, Repr

structure ImageParams where
  width : Option UInt32
  height : Option UInt32
  fit : ResizeFit
  /-- `?fmt=`, none if it is to be negotiated -/
  format : Option ImageFormat
  quality : UInt32
  dpr : Float32
  formatAuto : Bool

structure QueryScan where
  width : Option UInt32 := none
  height : Option UInt32 := none
  fit : ResizeFit := .contain
  format : Option ImageFormat := none
  quality : Option UInt32 := none
  dpr : Option Float32 := none
  formatAuto : Bool := true
  hasImageParam : Bool := false

namespace QueryScan

/-- A width or height of 0 is not one. -/
def dimension (value : Str) : Option UInt32 :=
    ((parseUInt 32 value).filter (0 < ·)).map UInt32.ofNat

def noteFormat (scan : QueryScan) (value : Str) : QueryScan :=
  if value = "auto" then { scan with formatAuto := true, hasImageParam := true }
  else
    match ImageFormat.fromToken value with
    | some f => { scan with format := some f, formatAuto := false, hasImageParam := true }
    | none => { scan with hasImageParam := true }

def note (lower : Str → Str) (parseF32 : Str → Option Float32) (scan : QueryScan)
    (key value : Str) :
    QueryScan :=
  if key = "w" ∨ key = "width" then
    match dimension value with
    | some v => { scan with width := some v, hasImageParam := true }
    | none => scan
  else if key = "h" ∨ key = "height" then
    match dimension value with
    | some v => { scan with height := some v, hasImageParam := true }
    | none => scan
  else if key = "fit" then { scan with fit := .ofText (lower value), hasImageParam := true }
  else if key = "fmt" ∨ key = "format" then scan.noteFormat value
  else if key = "q" ∨ key = "quality" then
    match parseUInt 32 value with
    | some v => { scan with quality := some (.ofNat (max 1 (min v 100))), hasImageParam := true }
    | none => scan
  else if key = "dpr" then
    match parseF32 value with
    | some v =>
      -- `clamp` lets a NaN pass
      { scan with
        dpr := some (if v < 1.0 then 1.0 else if 4.0 < v then 4.0 else v)
        hasImageParam := true }
    | none => scan
  else scan

end QueryScan

namespace ImageParams

def fromQuery (lower : Str → Str) (parseF32 : Str → Option Float32) (query : Option Str)
    (config : ImageOptimizationConfig) : Option ImageParams :=
  query.bind fun qs =>
    let scan := (qs.splitOn '&').foldl (fun (scan : QueryScan) part =>
        match splitOnce "=" part with
        | some (key, value) => scan.note lower parseF32 key value
        | none => scan) {}
    if scan.hasImageParam then
      some
        { width := scan.width
          height := scan.height
          fit := scan.fit
          format := scan.format
          quality := scan.quality.getD config.defaultQuality
          dpr := scan.dpr.getD 1.0
          formatAuto := scan.formatAuto }
    else none

def clamp (params : ImageParams) (config : ImageOptimizationConfig) : ImageParams :=
  { params with
    width := params.width.map fun w => min w (config.maxWidth.toFloat32 / params.dpr).floor.toUInt32
    height := params.height.map fun h =>
      min h (config.maxHeight.toFloat32 / params.dpr).floor.toUInt32 }

end ImageParams

def isOptimizableImage (contentType : Str) (config : ImageOptimizationConfig) : Bool :=
  matchesType lower config.optimizableTypes contentType

def clientAccepts (accepted : List (Str × Float32)) (mime : Str) : Bool :=
  let mimeLower := lower mime
  accepted.any fun item =>
    !(decide (item.2 ≤ 0.0)) &&
      (lower item.1 = mimeLower || lower item.1 = mimeLower.takeWhile (· ≠ '/') ++ "/*" ||
        lower item.1 = "*/*")

/-- The format of the answer, and whether `Accept` has a say in it. -/
def negotiateFormat (parseF32 : Str → Option Float32) (accept : Str)
    (explicitFmt : Option ImageFormat) (config : ImageOptimizationConfig)
      (originalContentType : Str) :
    ImageFormat × Bool :=
  match explicitFmt with
  | some fmt => (fmt, false)
  | none =>
    match config.formats.find? fun f => clientAccepts lower (parseAccept parseF32 accept)
      f.acceptToken with
    | some f => (f, true)
    | none => ((ImageFormat.ofContentType lower originalContentType).getD .jpeg, false)

inductive CompressionAlgorithm where
  | gzip
  | brotli
  | zstd
deriving DecidableEq, Repr

def CompressionAlgorithm.encodingToken : CompressionAlgorithm → Str
  | gzip => "gzip"
  | brotli => "br"
  | zstd => "zstd"

structure CompressionConfig where
  enabled : Bool := false
  algorithms : List CompressionAlgorithm := [.zstd, .brotli, .gzip]
  level : UInt32 := 6
  minSize : UInt64 := 256
  compressibleTypes : List Str :=
    ["text/*", "application/json", "application/javascript", "application/xml",
      "application/xhtml+xml", "application/rss+xml", "application/atom+xml",
      "application/wasm", "image/svg+xml"]
deriving DecidableEq, Repr

/-- The first of the configured algorithms that the client takes. -/
def negotiate (parseF32 : Str → Option Float32) (acceptEncoding : Str)
    (config : CompressionConfig) :
    Option CompressionAlgorithm :=
  config.algorithms.find? fun algo =>
    (parseAccept parseF32 acceptEncoding).any fun item =>
      item.1 = algo.encodingToken && decide (item.2 > 0.0)

def isCompressible (contentType : Str) (config : CompressionConfig) : Bool :=
  matchesType lower config.compressibleTypes contentType

/-! ## Refusals

What a header says by the rules: the quality of an entry is the parameter named `q`, wherever it
stands, and of the ranges that hold a type the narrowest one in the header decides. -/

section Refusals

variable (parseF32 : Str → Option Float32) (header : Str)

def entries : List Str := ((header.splitOn ',').map trim).filter (· ≠ [])

/-- The range of an entry, without its parameters. -/
def rangeOf (entry : Str) : Str := trim (entry.takeWhile (· ≠ ';'))

def hasQualityZero (entry : Str) : Bool :=
  (entry.splitOn ';').tail.any fun param =>
    (splitOnce "=" param).any fun pair =>
      eqIgnoreAsciiCase (trim pair.1) "q" && (parseF32 (trim pair.2)).any (· == 0.0)

/-- The first of the ranges that the header has is refused by an entry. -/
def refuses (ranges : List Str) : Bool :=
  (ranges.find? fun r => (entries header).any fun e => lower (rangeOf e) = r).any fun r =>
    (entries header).any fun e => lower (rangeOf e) = r && hasQualityZero parseF32 e

/-- The ranges that hold a type, the narrowest first. -/
def mediaRanges (mime : Str) : List Str :=
  [lower mime, (lower mime).takeWhile (· ≠ '/') ++ "/*", "*/*"]

def codingRanges (algo : CompressionAlgorithm) : List Str := [algo.encodingToken, "*"]

/-- No format and no coding is selected that the header refuses. -/
def RefusalsKept (accept acceptEncoding : Str) : Prop :=
  (∀ config contentType f, negotiateFormat lower parseF32 accept none config
    contentType = (f, true) →
    refuses lower parseF32 accept (mediaRanges lower f.acceptToken) = false) ∧
  ∀ config algo, negotiate parseF32 acceptEncoding config = some algo →
    refuses lower parseF32 acceptEncoding (codingRanges algo) = false

/-- The quality is all that stands behind the first semicolon. -/
def QualityAlone (P : Float32 → Prop) (entry : Str) : Prop :=
  ∃ v, trim (entry.dropWhile (· ≠ ';')).tail = "q=" ++ v ∧ ∃ q ∈ parseF32 (trim v), P q

variable {parseF32 header} {P : Float32 → Prop} {lower}

theorem quality_iff (h : ¬ P 1.0) {entry : Str} :
    P (quality parseF32 (entry.dropWhile (· ≠ ';')).tail) ↔ QualityAlone parseF32 P entry := by
  simp only [QualityAlone, ← stripStart_eq_some_iff, quality]
  rcases stripStart "q=" (trim (entry.dropWhile (· ≠ ';')).tail) with _ | v
  · simp [h]
  · rcases hq : parseF32 (trim v) with _ | q
    · simp [h, hq]
    · simp [hq]

theorem acceptItem_eq (part : Str) : acceptItem parseF32 part = if trim part = [] then none else
    some (rangeOf (trim part), quality parseF32 ((trim part).dropWhile (· ≠ ';')).tail) := by
  unfold acceptItem rangeOf
  generalize trim part = s
  have happ := @takeWhile_append_dropWhile _ (· ≠ ';') s
  rcases hd : s.dropWhile (· ≠ ';') with _ | ⟨c, rest⟩
  · rw [hd, append_nil] at happ
    rw [splitN, hd, happ]
    by_cases hs : s = [] <;> simp [hs]
    rfl
  · have hs : s ≠ [] := by rintro rfl; cases hd
    rw [splitN, hd, if_neg hs]
    rfl

theorem forall_parseAccept (h : ¬ P 1.0) {A : Str → Prop} :
    (∀ item ∈ parseAccept parseF32 header, A item.1 → P item.2) ↔
      ∀ e ∈ entries header, A (rangeOf e) → QualityAlone parseF32 P e := by
  simp only [← quality_iff h, parseAccept, mem_filterMap, acceptItem_eq, entries,
    mem_filter, mem_map]
  aesop

theorem find?_auto {accept contentType : Str} {config : ImageOptimizationConfig} {f : ImageFormat} :
    negotiateFormat lower parseF32 accept none config contentType = (f, true) ↔
      config.formats.find? (clientAccepts lower (parseAccept parseF32 accept) ·.acceptToken) =
        some f := by
  simp only [negotiateFormat]
  split <;> simp [*]

theorem find?_kept {α : Type} {p refused : α → Bool} :
    (∀ l x, List.find? p l = some x → refused x = false) ↔ ∀ x, refused x = true → p x = false := by
  constructor
  · intro h x hx
    by_contra hp
    exact absurd (h [x] x (by simp_all)) (by simp [hx])
  · intro h l x hfound
    by_contra hx
    have := List.find?_some hfound
    simp_all

/-- Exactly the headers are safe in which every entry that the code matches with something refused
has its quality in the one place where the code reads it. -/
theorem refusalsKept_iff (accept acceptEncoding : Str) :
    RefusalsKept lower parseF32 accept acceptEncoding ↔
    (∀ f : ImageFormat, refuses lower parseF32 accept (mediaRanges lower f.acceptToken) = true →
      ∀ e ∈ entries accept, lower (rangeOf e) ∈ mediaRanges lower f.acceptToken →
        QualityAlone parseF32 (· ≤ 0.0) e) ∧
    ∀ algo, refuses lower parseF32 acceptEncoding (codingRanges algo) = true →
      ∀ e ∈ entries acceptEncoding, rangeOf e = algo.encodingToken →
        QualityAlone parseF32 (¬ · > 0.0) e := by
  have hmedia := fun f => @forall_parseAccept parseF32 accept (· ≤ 0.0) (by decide +kernel)
    (lower · ∈ mediaRanges lower (ImageFormat.acceptToken f))
  have hcoding := fun token => @forall_parseAccept parseF32 acceptEncoding (¬ · > 0.0)
    (by decide +kernel) (· = token)
  refine and_congr ?_ ?_
  · simp only [find?_auto, ← hmedia]
    refine Iff.trans ⟨fun h l => h { formats := l } [], fun h c _ => h c.formats⟩
      (find?_kept.trans ?_)
    simp [clientAccepts, mediaRanges, or_assoc, -not_or, not_imp_not]
  · simp only [← hcoding]
    refine Iff.trans ⟨fun h l => h { algorithms := l }, fun h c => h c.algorithms⟩
      (find?_kept.trans ?_)
    simp

/-- A wildcard behind the refusal, and a parameter before it. -/
theorem refusals_lost :
    ¬ RefusalsKept (·.map Char.toLower) (fun q => if q = "0" then some 0.0 else none)
      "image/avif;q=0, image/*" [] ∧
    ¬ RefusalsKept (·.map Char.toLower) (fun q => if q = "0" then some 0.0 else none)
      [] "gzip;level=1;q=0" := by
  constructor
  · intro h
    exact absurd (h.1 {} [] .avif (by decide +kernel)) (by decide +kernel)
  · intro h
    exact absurd (h.2 {} .gzip (by decide +kernel)) (by decide +kernel)

end Refusals

inductive RangeSpec where
  /-- `bytes=X-Y` -/
  | single (start stop : Nat)
  /-- `bytes=-N` -/
  | suffixLength (n : Nat)
  /-- `bytes=X-` -/
  | openEnded (start : Nat)
deriving DecidableEq, Repr

def parseByteRange (rest : Str) : Option RangeSpec :=
  match stripStart "-" rest with
  | some suffix => ((parseUInt 64 (trim suffix)).filter (· ≠ 0)).map .suffixLength
  | none =>
    match splitOnce "-" rest with
    | none => none
    | some (startStr, endStr) =>
      (parseUInt 64 (trim startStr)).bind fun start =>
        if (trim endStr).isEmpty then some (.openEnded start)
        else (parseUInt 64 (trim endStr)).bind fun stop =>
          if stop < start then none else some (.single start stop)

def parseRangeHeader (value : Str) : Option RangeSpec :=
  (stripStart "bytes=" (trim value)).bind fun rest =>
    if rest.contains ',' ∨ (trim rest).isEmpty then none else parseByteRange (trim rest)

/-- First and last position; none if the range cannot be satisfied. -/
def resolveRange (spec : RangeSpec) (totalSize : Nat) : Option (Nat × Nat) :=
  if totalSize = 0 then none
  else
    match spec with
    | .single start stop => if totalSize ≤ start then none else some
        (start, min stop (totalSize - 1))
    | .suffixLength n => if n = 0 then none else some (totalSize - n, totalSize - 1)
    | .openEnded start => if totalSize ≤ start then none else some (start, totalSize - 1)

def sliceBody (body : Bytes) (start stop : Nat) : Bytes :=
  let stop := min stop (body.length - 1)
  if stop < start ∨ body.length ≤ start then [] else (body.take (stop + 1)).drop start

/-! ### What a range stands for -/

def rangeText (value : Str) : Str := value.filter fun c => c.isDigit || c == '-'

def firstPos (value : Str) : Str := (rangeText value).takeWhile (· ≠ '-')

def lastPos (value : Str) : Str := ((rangeText value).dropWhile (· ≠ '-')).tail

/-- RFC 7233: byte `i` of a body of that length is in the range. -/
def InRange (value : Str) (length i : Nat) : Prop :=
  if firstPos value = [] then length ≤ i + Nat.ofDigitChars 10 (lastPos value) 0
  else Nat.ofDigitChars 10 (firstPos value) 0 ≤ i ∧
    (lastPos value = [] ∨ i ≤ Nat.ofDigitChars 10 (lastPos value) 0)

theorem rangeText_trim (s : Str) : rangeText (trim s) = rangeText s := by
  have hspace : ∀ c, isWhitespace c = true → ¬ (c.isDigit || c == '-') = true := by
    intro c hc hkeep
    have hcode : 45 ≤ c.toNat ∧ c.toNat ≤ 57 := by
      rcases Bool.or_eq_true_iff.1 hkeep with h | h
      · simp only [Char.isDigit, ge_iff_le, Bool.and_eq_true, decide_eq_true_eq] at h
        exact ⟨le_trans (by decide) h.1, h.2⟩
      · rw [beq_iff_eq.1 h]
        decide
    simp [isWhitespace] at hc
    omega
  have hdrop : ∀ s : Str, rangeText (s.dropWhile isWhitespace) = rangeText s := by
    intro s
    conv_rhs => rw [← @takeWhile_append_dropWhile _ isWhitespace s, rangeText, filter_append,
      filter_eq_nil_iff.2 fun c hc => hspace c (all_eq_true.1 all_takeWhile c hc)]
    rfl
  have hreverse : ∀ s : Str, rangeText s.reverse = (rangeText s).reverse := fun s => filter_reverse
  rw [trim, hreverse, hdrop, hreverse, reverse_reverse, hdrop]

theorem of_parseUInt {s : Str} {n : Nat} (h : parseUInt 64 (trim s) = some n) :
    rangeText s ≠ [] ∧ '-' ∉ rangeText s ∧ Nat.ofDigitChars 10 (rangeText s) 0 = n := by
  rw [← rangeText_trim]
  generalize trim s = s at h ⊢
  have hsign : rangeText (if s.head? = some '+' then s.tail else s) = rangeText s := by
    split
    next hhead =>
      obtain ⟨rest, rfl⟩ := List.head?_eq_some_iff.1 hhead
      rfl
    next => rfl
  unfold parseUInt at h
  dsimp only at h
  rw [← hsign]
  generalize (if s.head? = some '+' then s.tail else s) = ds at h
  split at h
  next => cases h
  next hdigits =>
  rw [not_or, not_not, List.isEmpty_iff, List.all_eq_true] at hdigits
  obtain ⟨hne, hall⟩ := hdigits
  have hkept : rangeText ds = ds := List.filter_eq_self.2 fun c hc => by rw [hall c hc]; rfl
  rw [hkept]
  refine ⟨hne, fun hmem => absurd (hall _ hmem) (by decide), ?_⟩
  split at h
  next => exact Option.some.inj h
  next => cases h

theorem pos_of_split {value a b : Str} (h : rangeText value = rangeText a ++ '-' :: rangeText b)
    (ha : '-' ∉ rangeText a) : firstPos value = rangeText a ∧ lastPos value = rangeText b := by
  have hkeep : ∀ c ∈ rangeText a, decide (c ≠ '-') = true :=
    fun c hc => decide_eq_true fun heq => ha (heq ▸ hc)
  rw [firstPos, lastPos, h, takeWhile_append_of_pos hkeep, dropWhile_append_of_pos hkeep,
    takeWhile_cons_of_neg (by simp), dropWhile_cons_of_neg (by simp), append_nil,
    tail_cons]
  exact ⟨rfl, rfl⟩

/-- The bytes of a range that was read, and that it is not empty by itself. -/
def RangeSpec.Covers (length i : Nat) : RangeSpec → Prop
  | single start stop => start ≤ i ∧ i ≤ stop
  | suffixLength n => length ≤ i + n
  | openEnded start => start ≤ i

def RangeSpec.Proper : RangeSpec → Prop
  | single start stop => start ≤ stop
  | suffixLength n => n ≠ 0
  | openEnded _ => True

theorem covers_of_parseRangeHeader {value : Str} {spec : RangeSpec}
    (h : parseRangeHeader value = some spec) :
    spec.Proper ∧ ∀ length i, InRange value length i ↔ spec.Covers length i := by
  obtain ⟨rest, hrest, h⟩ := Option.bind_eq_some_iff.1 h
  have htext : rangeText value = rangeText (trim rest) := by
    rw [← rangeText_trim value, stripStart_eq_some_iff.1 hrest, rangeText_trim]
    rfl
  split at h
  next => cases h
  generalize trim rest = rest at h htext
  unfold parseByteRange at h
  split at h
  next suffix hsuffix =>
    obtain ⟨n, hn, rfl⟩ := Option.map_eq_some_iff.1 h
    obtain ⟨hn, hzero⟩ := Option.filter_eq_some_iff.1 hn
    obtain ⟨-, -, hvalue⟩ := of_parseUInt hn
    rw [stripStart_eq_some_iff.1 hsuffix] at htext
    obtain ⟨hfirst, hlast⟩ := @pos_of_split value [] suffix htext nofun
    refine ⟨show n ≠ 0 from of_decide_eq_true hzero, fun length i => ?_⟩
    rw [InRange, if_pos (show firstPos value = [] from hfirst), hlast, hvalue]
    rfl
  next =>
  split at h
  next => cases h
  next startStr endStr hsplit =>
  obtain ⟨start, hstart, h⟩ := Option.bind_eq_some_iff.1 h
  obtain ⟨hne, hno, hvalue⟩ := of_parseUInt hstart
  rw [eq_append_of_splitOnce hsplit] at htext
  obtain ⟨hfirst, hlast⟩ := @pos_of_split value startStr endStr
    (by simpa [rangeText] using htext) hno
  rw [← hfirst] at hne hvalue
  split at h
  next hempty =>
    cases h
    refine ⟨trivial, fun length i => ?_⟩
    rw [← rangeText_trim, isEmpty_iff.1 hempty] at hlast
    rw [InRange, if_neg hne, hvalue, hlast]
    simp [RangeSpec.Covers, rangeText]
  next =>
    obtain ⟨stop, hstop, h⟩ := Option.bind_eq_some_iff.1 h
    obtain ⟨hne', -, hvalue'⟩ := of_parseUInt hstop
    rw [← hlast] at hne' hvalue'
    split at h
    next => cases h
    next hle =>
    cases h
    refine ⟨not_lt.1 hle, fun length i => ?_⟩
    rw [InRange, if_neg hne, hvalue, hvalue', or_iff_right hne']
    rfl

theorem resolveRange_eq_some {spec : RangeSpec} {n start stop : Nat} (hproper : spec.Proper)
    (h : resolveRange spec n = some (start, stop)) :
    start ≤ stop ∧ stop < n ∧ ∀ i < n, spec.Covers n i ↔ start ≤ i ∧ i ≤ stop := by
  cases spec <;> simp only [resolveRange, RangeSpec.Proper, RangeSpec.Covers] at * <;> grind

theorem resolveRange_eq_none {spec : RangeSpec} {n : Nat} (hproper : spec.Proper) :
    resolveRange spec n = none ↔ ∀ i < n, ¬ spec.Covers n i := by
  constructor
  · intro h
    cases spec <;> simp only [resolveRange, RangeSpec.Proper, RangeSpec.Covers] at * <;> grind
  · intro h
    rw [Option.eq_none_iff_forall_ne_some]
    intro range hrange
    obtain ⟨hle, hlt, hcovers⟩ := resolveRange_eq_some hproper hrange
    exact h range.1 (by omega) ((hcovers _ (by omega)).2 ⟨le_rfl, hle⟩)

/-- What `resolve_range` and `slice_body` make of a range is the bytes that are in it. -/
theorem range_exact {value : Str} {spec : RangeSpec} (h : parseRangeHeader value = some spec)
    (body : Bytes) :
    (∀ start stop, resolveRange spec body.length = some (start, stop) →
      start ≤ stop ∧ stop < body.length ∧
      (∀ i < body.length, InRange value body.length i ↔ start ≤ i ∧ i ≤ stop) ∧
      sliceBody body start stop = (body.drop start).take (stop - start + 1) ∧
      (sliceBody body start stop).length = stop - start + 1) ∧
    (resolveRange spec body.length = none ↔ ∀ i < body.length, ¬ InRange value body.length i) := by
  obtain ⟨hproper, hcovers⟩ := covers_of_parseRangeHeader h
  simp only [hcovers]
  refine ⟨fun start stop hrange => ?_, resolveRange_eq_none hproper⟩
  obtain ⟨hle, hlt, hall⟩ := resolveRange_eq_some hproper hrange
  have hslice : sliceBody body start stop = (body.drop start).take (stop - start + 1) := by
    simp only [sliceBody, min_eq_left (show stop ≤ body.length - 1 by omega)]
    rw [if_neg (by omega), drop_take, Nat.sub_add_comm hle]
  refine ⟨hle, hlt, hall, hslice, ?_⟩
  rw [hslice, length_take, length_drop]
  omega

theorem range_exact_clamped : parseRangeHeader "bytes=2-9" = some (.single 2 9) ∧
    resolveRange (.single 2 9) 5 = some (2, 4) ∧
    ∀ i < 5, InRange "bytes=2-9" 5 i ↔ 2 ≤ i ∧ i ≤ 4 := by
  have h : parseRangeHeader "bytes=2-9" = some (.single 2 9) := by decide +kernel
  exact ⟨h, rfl, ((range_exact h [1, 2, 3, 4, 5]).1 2 4 rfl).2.2.1⟩

end Nozdormu.Proxy
