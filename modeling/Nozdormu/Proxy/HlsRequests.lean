import Nozdormu.Data.Runs
import Nozdormu.Proxy.HitMiss

/-!
# Requests for HLS

Step 12 of `request_filter`, and the requests that a playlist leads to.
-/

namespace Nozdormu.Proxy

open Rust Data Bmff Cache Packaging List

/-! ## `format=hls` -/

namespace QueryScan

variable (lower : Str → Str) (parseF32 : Str → Option Float32)

variable (scan : QueryScan)

def round (part : Str) : QueryScan :=
  match splitOnce "=" part with
  | some (key, value) => scan.note lower parseF32 key value
  | none => scan

theorem hasImageParam_noteFormat (value : Str) : (scan.noteFormat value).hasImageParam = true := by
  unfold noteFormat
  split
  · rfl
  · split <;> rfl

end QueryScan

theorem fromQuery_of_format {q : Str} (h : "format=hls".toList ∈ q.splitOn '&') (lower : Str → Str)
    (parseF32 : Str → Option Float32) (config : ImageOptimizationConfig) :
    (ImageParams.fromQuery lower parseF32 (some q) config).isSome := by
  have hfound : ((q.splitOn '&').foldl (QueryScan.round lower parseF32) {}).hasImageParam = true :=
    by
    obtain ⟨before, after, hparts⟩ := append_of_mem h
    rw [hparts, foldl_append, foldl_cons]
    refine List.foldlRecOn (motive := fun scan : QueryScan => scan.hasImageParam = true) after _ ?_
      fun scan h part _ => ?_
    · have hkey : splitOnce "=".toList "format=hls".toList = some
          ("format".toList, "hls".toList) := by decide
      simp only [QueryScan.round, hkey]
      rw [QueryScan.note, if_neg (by decide), if_neg (by decide), if_neg (by decide),
        if_pos (by decide)]
      exact QueryScan.hasImageParam_noteFormat _ _
    · -- a parameter that was found stays found
      unfold QueryScan.round
      split
      · unfold QueryScan.note
        repeat' split
        all_goals first | exact QueryScan.hasImageParam_noteFormat .. | exact h | rfl
      · exact h
  show (if ((q.splitOn '&').foldl (QueryScan.round lower parseF32) {}).hasImageParam = true
    then some _ else none).isSome
  rw [if_pos hfound]
  rfl

theorem strContains_append (pat a b : Str) : strContains pat (a ++ pat ++ b) = true := by
  unfold strContains
  induction a with
  | nil =>
    cases hs : [] ++ pat ++ b with
    | nil =>
      obtain rfl : pat = [] := by simp_all
      rfl
    | cons c s =>
      have hstrip : stripStart pat (c :: s) = some b := by
        rw [← hs, nil_append, stripStart_append]
      rw [splitOnce, hstrip]
      rfl
  | cons c a ih =>
    rw [cons_append, cons_append, splitOnce]
    split
    · rfl
    · rw [Option.isSome_map, ih]

namespace EdgeProxy

variable {κ : Type} (self : EdgeProxy κ)

theorem packagingAsked_eq (hpackaging : self.transforms.packaging.enabled = true)
    (himage : self.transforms.imageOptimization.enabled = false)
    (hquery : self.query.any (strContains "format=hls") = true) (request : Request) :
    self.packagingAsked request = some self.subResource := by
  have hnone : self.imageAsked = none := by simp [imageAsked, himage]
  rw [packagingAsked, if_pos ⟨hpackaging, by rw [hnone]; rfl, Or.inl hquery⟩]

/-- Where packaging is switched on, `format=hls` leads to it exactly if image optimization is not.
-/
theorem packaging_of_format_iff (hpackaging : self.transforms.packaging.enabled = true) {q : Str}
    (hquery : self.query = some q) (hformat : "format=hls".toList ∈ q.splitOn '&')
    (request : Request) (status : CacheStatus) :
    (self.detect request status).packagingRequest.isSome ↔
      self.transforms.imageOptimization.enabled = false := by
  have hasked : (self.detect request status).packagingRequest = self.packagingAsked request := by
    have hrange : ∀ ctx, (self.detectRange request status ctx).packagingRequest =
        ctx.packagingRequest := by
      intro ctx
      unfold detectRange
      repeat' split
      all_goals rfl
    unfold detect detectPackaging
    cases self.packagingAsked request with
    | some r => rfl
    | none => exact hrange {}
  rw [hasked]
  cases himage : self.transforms.imageOptimization.enabled with
  | false =>
    obtain ⟨a, b, hq⟩ := infix_of_mem_splitOn hformat
    have hcontains : self.query.any (strContains "format=hls".toList) = true := by
      rw [hquery, hq]
      exact strContains_append _ _ _
    rw [self.packagingAsked_eq hpackaging himage hcontains]
    simp
  | true =>
    have hsome : self.imageAsked.isSome := by
      rw [imageAsked, if_pos himage, Option.isSome_map, hquery]
      exact fromQuery_of_format hformat ..
    have hnone : self.packagingAsked request = none := by
      rw [packagingAsked, if_neg]
      intro h
      rw [Option.isNone_iff_eq_none.1 h.2.1] at hsome
      cases hsome
    simp [hnone]

theorem packaging_of_format_initEdge : (initEdge.detect plainGet .miss).packagingRequest.isSome ↔
    initEdge.transforms.imageOptimization.enabled = false :=
  initEdge.packaging_of_format_iff rfl rfl (by decide +kernel) plainGet .miss

def imageEdge : EdgeProxy Unit :=
  { initEdge with
    query := some "format=hls"
    transforms := { packaging := { enabled := true }, imageOptimization := { enabled := true } } }

theorem packaging_of_format_fails : imageEdge.transforms.packaging.enabled = true ∧
    imageEdge.query = some "format=hls" ∧
    ∀ status, (imageEdge.detect plainGet status).packagingRequest = none := by
  refine ⟨rfl, rfl, fun status => ?_⟩
  cases status <;> decide +kernel

end EdgeProxy

/-- `http::Uri`, cut at the query. -/
structure Uri where
  front : Str
  query : Option Str
  front_chars : '?' ∉ front

namespace Uri

/-- The path: in absolute form it comes behind scheme and authority. -/
def path (uri : Uri) : Str :=
  if uri.front.head? = some '/' then uri.front
  else ((splitOnce "://" uri.front).map fun r => r.2.dropWhile (· ≠ '/')).getD uri.front

def text (uri : Uri) : Str := uri.front ++ uri.query.elim [] ('?' :: ·)

theorem eq_of_text {uri : Uri} {front q : Str} (hfront : '?' ∉ front)
    (h : uri.text = front ++ '?' :: q) :
    uri.front = front ∧ uri.query = some q := by
  unfold text at h
  cases hq : uri.query with
  | none =>
    refine absurd ?_ uri.front_chars
    rw [hq, Option.elim_none, append_nil] at h
    rw [h]
    simp
  | some q' =>
    rw [hq] at h
    obtain ⟨hf, hq'⟩ := append_cons_inj uri.front_chars hfront h
    exact ⟨hf, congrArg some hq'⟩

end Uri

/-! ## The URIs of a playlist -/

def subParams : PackagingRequest → String
  | .initSegment => "?format=hls&segment=init"
  | .mediaSegment i => "?format=hls&segment=" ++ toString i.toNat
  | .partialSegment i j => "?format=hls&segment=" ++ toString i.toNat ++ "&part=" ++
      toString j.toNat
  | .manifest | .llHlsManifest => ""

def playlistUri (baseUrl queryBase : String) (r : PackagingRequest) : String :=
  baseUrl ++ subParams r ++ queryBase

section

variable (baseUrl queryBase : String) (i j : UInt32) (duration : Float)

theorem mapLine_eq : mapLine baseUrl queryBase =
    "#EXT-X-MAP:URI=\"" ++ playlistUri baseUrl queryBase .initSegment ++ "\"\n" := by
  unfold mapLine playlistUri subParams
  apply String.toList_inj.1
  simp only [String.toList_append, append_assoc]

theorem segmentLines_eq : segmentLines baseUrl queryBase (i.toNat, duration) =
    "#EXTINF:" ++ formatFixed 6 duration ++ ",\n" ++ playlistUri baseUrl queryBase
    (.mediaSegment i) ++ "\n" := by
  unfold segmentLines playlistUri subParams
  apply String.toList_inj.1
  simp only [String.toList_append, append_assoc]

theorem partLine_eq (independent : Bool) :
    partLine baseUrl queryBase i.toNat ⟨j.toNat, duration, independent⟩ =
      "#EXT-X-PART:DURATION=" ++ formatFixed 6 duration ++ ",URI=\""
        ++ playlistUri baseUrl queryBase (.partialSegment i j) ++ "\""
        ++ (if independent then ",INDEPENDENT=YES" else "") ++ "\n" := by
  unfold partLine playlistUri subParams
  apply String.toList_inj.1
  simp only [String.toList_append, append_assoc]

end

/-! ## How they are read -/

def isPackagingParam (param : Str) : Bool := packagingParams.any fun name =>
    (stripStart name.toList param).isSome

def remaining (q : Str) : List Str := (q.splitOn '&').filter fun param => !isPackagingParam param

/-- What the packager appends first. -/
def mark : Str := "?format=hls"

/-- The manifest's parameters as they stand in the URIs of its playlist. -/
def carried (q : Str) : List Str := (q ++ mark).splitOn '&'

def named : PackagingRequest → List Str
  | .initSegment => ["segment=init"]
  | .mediaSegment i => ["segment=" ++ digits i.toNat]
  | .partialSegment i j => ["segment=" ++ digits i.toNat, "part=" ++ digits j.toNat]
  | .manifest | .llHlsManifest => []

theorem isPrefixOf_eq (name s : Str) : name.isPrefixOf s = (stripStart name s).isSome := by
  rw [Bool.eq_iff_iff, isPrefixOf_iff_prefix, Option.isSome_iff_exists]
  exact ⟨fun ⟨rest, h⟩ => ⟨rest, stripStart_eq_some_iff.2 h.symm⟩,
    fun ⟨rest, h⟩ => ⟨rest, (stripStart_eq_some_iff.1 h).symm⟩⟩

theorem toList_filterQueryParams (q : Str) : (filterQueryParams (some (String.ofList q))).toList =
    if (remaining q).isEmpty then [] else '&' :: ['&'].intercalate (remaining q) := by
  have hfilter : ((String.ofList q).toList.splitOn '&').filter
      (fun param => !packagingParams.any fun name => name.toList.isPrefixOf param) =
        remaining q := by
    simp only [String.toList_ofList, isPrefixOf_eq]
    rfl
  unfold filterQueryParams
  simp only [hfilter]
  split
  · rfl
  · rw [String.toList_ofList]

/-- A name without a question mark is in front of `p?..` exactly if it is in front of `p`. -/
theorem stripStart_append_mark {name : Str} (hname : '?' ∉ name) (p : Str) :
    stripStart name (p ++ mark) = (stripStart name p).map (· ++ mark) := by
  induction name generalizing p with
  | nil => rfl
  | cons a name ih =>
    obtain ⟨ha, hrest⟩ : ¬ '?' = a ∧ '?' ∉ name := by simpa using hname
    cases p with
    | nil =>
      show (if a = '?' then stripStart name "format=hls" else none) = none
      rw [if_neg (Ne.symm ha)]
    | cons b p =>
      rw [cons_append, stripStart, stripStart, ih hrest]
      split <;> rfl

theorem isPackagingParam_append_mark (p : Str) :
    isPackagingParam (p ++ mark) = isPackagingParam p := by
  unfold isPackagingParam packagingParams
  simp only [any_cons, any_nil]
  simp (disch := decide) only [stripStart_append_mark, Option.isSome_map]

theorem carried_cases (q : Str) : ∃ front last, q.splitOn '&' = front ++ [last] ∧
    carried q = front ++ [last ++ mark] := splitOn_append_of_not_mem (by decide) q

theorem forall_carried_iff {P : Str → Prop} (hP : ∀ p, P (p ++ mark) ↔ P p) (q : Str) :
    (∀ p ∈ carried q, P p) ↔ ∀ p ∈ q.splitOn '&', P p := by
  obtain ⟨front, last, hq, hcarried⟩ := carried_cases q
  rw [hq, hcarried, forall_mem_append, forall_mem_append, forall_mem_singleton,
    forall_mem_singleton, hP]

variable {r : PackagingRequest}

theorem subParams_eq (hr : named r ≠ []) :
    (subParams r).toList = mark ++ '&' :: ['&'].intercalate (named r) := by
  have hmark : "?format=hls&segment=" = mark ++ '&' :: "segment=" := by decide
  have hpart : "&part=" = '&' :: "part=" := by decide
  cases r with
  | initSegment => decide +kernel
  | mediaSegment i =>
    unfold subParams named
    rw [String.toList_append, hmark, append_assoc, intercalate_singleton]
    rfl
  | partialSegment i j =>
    unfold subParams named
    rw [String.toList_append, String.toList_append, String.toList_append, hmark,
      hpart, append_assoc,
      append_assoc, intercalate_cons_cons, intercalate_singleton]
    simp only [append_assoc, cons_append, nil_append]
    rfl
  | manifest => exact absurd rfl hr
  | llHlsManifest => exact absurd rfl hr

theorem splitOn_next (q : Str) (hr : named r ≠ []) :
    (q ++ (subParams r).toList ++ (filterQueryParams (some (String.ofList q))).toList).splitOn '&' =
      carried q ++ named r ++ remaining q := by
  have hdigits : ∀ n, '&' ∉ digits n := not_mem_digits (by decide)
  have hnamed : ∀ p ∈ named r, '&' ∉ p := by
    cases r <;> simp [named, hdigits]
  have hhead : (q ++ (subParams r).toList).splitOn '&' = carried q ++ named r := by
    rw [subParams_eq hr, ← append_assoc, splitOn_append_cons_self,
      splitOn_intercalate '&' hnamed hr]
    rfl
  rw [toList_filterQueryParams]
  split
  next hempty => rw [append_nil, hhead, isEmpty_iff.1 hempty, append_nil]
  next hempty =>
    have hparams : ∀ p ∈ remaining q, '&' ∉ p := fun p hp => not_mem_of_mem_splitOn
      (mem_filter.1 hp).1
    rw [splitOn_append_cons_self, hhead, splitOn_intercalate '&' hparams (by simpa using hempty)]

theorem remaining_next {q q' : Str} (hq' : q'.splitOn '&' = carried q ++ named r ++ remaining q) :
    remaining q' = remaining q ↔ ∀ p ∈ q.splitOn '&', isPackagingParam p = true := by
  have hnamed : (named r).filter (fun p => !isPackagingParam p) = [] := by
    have hown : ∀ name ∈ packagingParams, ∀ s, isPackagingParam (name.toList ++ s) = true :=
      fun name hname s => any_eq_true.2 ⟨name, hname, by rw [stripStart_append]; rfl⟩
    have hsegment := hown "segment=" (by decide)
    have hpart := hown "part=" (by decide)
    cases r with
    | initSegment => decide +kernel
    | mediaSegment i => simp only [named, filter_cons, hsegment, filter_nil]; rfl
    | partialSegment i j => simp only [named, filter_cons, hsegment, hpart, filter_nil]; rfl
    | manifest => rfl
    | llHlsManifest => rfl
  have hagain : (remaining q).filter (fun p => !isPackagingParam p) = remaining q := by
    rw [remaining, filter_filter]
    simp
  rw [← forall_carried_iff fun p => by rw [isPackagingParam_append_mark]]
  have hsplit : remaining q' = (carried q).filter (fun p => !isPackagingParam p) ++
      remaining q := by
    rw [remaining, hq', filter_append, filter_append, hnamed, append_nil, hagain]
  rw [hsplit, append_left_eq_self, filter_eq_nil_iff]
  simp

/-- The value of the manifest's own `part=`, if it has one, as it is read from a URI of the
playlist. -/
def carriedPart (q : Str) : Option Str := (carried q).findSome? (stripStart "part=")

/-- The manifest's `part=` comes before the one that names a part. -/
def PartFits (llHlsEnabled : Bool) (q : Str) : PackagingRequest → Prop
  | .mediaSegment _ => llHlsEnabled = true → ∀ v, carriedPart q = some v → parseUInt 32 v = none
  | .partialSegment _ j => ∀ v, carriedPart q = some v → parseUInt 32 v = some j.toNat
  | .initSegment | .manifest | .llHlsManifest => True

/-- What the query of a manifest has to be like for the URI of `r` to be right. -/
structure Survives (llHlsEnabled : Bool) (q : Str) (r : PackagingRequest) : Prop where
  own : ∀ p ∈ q.splitOn '&', isPackagingParam p = true
  segment : ∀ p ∈ q.splitOn '&', stripStart "segment=" p = none
  part : PartFits llHlsEnabled q r

namespace EdgeProxy

variable {κ : Type} (self : EdgeProxy κ)

def forTarget (uri : Uri) : EdgeProxy κ :=
    { self with path := uri.path, query := uri.query, uri := uri.text }

/-- What playlists list; parts only for LL-HLS. -/
def Lists (r : PackagingRequest) : Prop :=
  named r ≠ [] ∧ ∀ i j, r = .partialSegment i j → self.transforms.packaging.llHlsEnabled = true

theorem subResource_of_segment {n : Str} (h : self.param "segment=" = some n) :
    self.subResource = if n = "init" then .initSegment else
      (parseUInt 32 n).elim .manifest fun i => ((self.param "part=").bind (parseUInt 32)).elim
        (.mediaSegment (.ofNat i)) fun j =>
          if self.transforms.packaging.llHlsEnabled then .partialSegment (.ofNat i) (.ofNat j)
          else .mediaSegment (.ofNat i) := by
  unfold subResource
  rw [h]
  dsimp only
  cases parseUInt 32 n with
  | none => rfl
  | some i =>
    cases self.param "part=" with
    | none => rfl
    | some v => cases hv : parseUInt 32 v <;> simp [hv]

theorem unread_of_manifest (h : self.subResource = .manifest ∨ self.subResource = .llHlsManifest)
    {n : Str} (hn : self.param "segment=" = some n) : n ≠ "init" ∧ parseUInt 32 n = none := by
  rw [self.subResource_of_segment hn] at h
  split at h
  next => simp at h
  next hne =>
    refine ⟨hne, ?_⟩
    cases hparse : parseUInt 32 n with
    | none => rfl
    | some i =>
      rw [hparse] at h
      cases hpart : (self.param "part=").bind (parseUInt 32) with
      | none => simp [hpart] at h
      | some j => cases hll : self.transforms.packaging.llHlsEnabled <;> simp [hpart, hll] at h

variable {self}

theorem unread_carried {q v : Str}
    (hread : ∀ n, (q.splitOn '&').findSome? (stripStart "segment=") = some n →
      n ≠ "init" ∧ parseUInt 32 n = none)
    (hv : (carried q).findSome? (stripStart "segment=") = some v) :
    v ≠ "init" ∧ parseUInt 32 v = none := by
  obtain ⟨front, last, hq, hcarried⟩ := carried_cases q
  rw [hq, List.findSome?_append] at hread
  rw [hcarried, List.findSome?_append] at hv
  cases hfront : front.findSome? (stripStart "segment=") with
  | some n =>
    rw [hfront, Option.some_or] at hv hread
    exact hread v hv
  | none =>
    rw [hfront, Option.none_or, List.findSome?_singleton, stripStart_append_mark (by decide)] at hv
    obtain ⟨n, -, rfl⟩ := Option.map_eq_some_iff.1 hv
    have hmark : '?' ∈ n ++ mark := mem_append_right n (by decide)
    exact ⟨fun h => absurd (h ▸ hmark) (by decide), parseUInt_eq_none hmark (by decide) (by decide)⟩

theorem subResource_of_digits {i : UInt32} (h : self.param "segment=" = some (digits i.toNat)) :
    self.subResource = ((self.param "part=").bind (parseUInt 32)).elim (.mediaSegment i) fun j =>
      if self.transforms.packaging.llHlsEnabled then .partialSegment i
      (.ofNat j) else .mediaSegment i := by
  have hinit : digits i.toNat ≠ "init" := by
    intro h
    exact not_mem_digits (c := 'i') (by decide) i.toNat (h ▸ by decide)
  rw [self.subResource_of_segment h, if_neg hinit, parseUInt_digits i.toNat_lt, Option.elim_some,
    UInt32.ofNat_toNat]

theorem subResource_next_iff {q : Str} {r : PackagingRequest} (hr : self.Lists r)
    (hread : ∀ n, (q.splitOn '&').findSome? (stripStart "segment=") = some n →
      n ≠ "init" ∧ parseUInt 32 n = none)
    (hparam : ∀ name, self.param name
      = (carried q ++ named r ++ remaining q).findSome? (stripStart name.toList)) :
    self.subResource = r ↔ (∀ p ∈ q.splitOn '&', stripStart "segment=" p = none) ∧
      PartFits self.transforms.packaging.llHlsEnabled q r := by
  have hnone : (carried q).findSome? (stripStart "segment=") = none ↔
      ∀ p ∈ q.splitOn '&', stripStart "segment=" p = none := by
    rw [List.findSome?_eq_none_iff]
    refine forall_carried_iff (fun p => ?_) q
    rw [stripStart_append_mark (by decide), Option.map_eq_none_iff]
  have hpart : (remaining q).findSome? (stripStart "part=") = none := by
    rw [List.findSome?_eq_none_iff]
    intro p hp
    by_contra hsome
    have hown : isPackagingParam p = true :=
      any_eq_true.2 ⟨"part=", by decide, Option.isSome_iff_ne_none.2 hsome⟩
    simpa [hown] using (mem_filter.1 hp).2
  simp only [List.findSome?_append] at hparam
  cases hcarried : (carried q).findSome? (stripStart "segment=") with
  | some v =>
    obtain ⟨hinit, hparse⟩ := unread_carried hread hcarried
    have hmanifest : self.subResource = .manifest := by
      rw [self.subResource_of_segment (n := v)
        (by rw [hparam, hcarried, Option.some_or, Option.some_or]),
        if_neg hinit, hparse]
      rfl
    rw [hmanifest]
    constructor
    · intro h
      subst h
      exact absurd rfl hr.1
    · intro h
      rw [hnone.2 h.1] at hcarried
      cases hcarried
  | none =>
    rw [and_iff_right (hnone.1 hcarried)]
    have hsegment := hparam "segment="
    have hpart' := hparam "part="
    rw [hcarried, Option.none_or] at hsegment
    rw [hpart, Option.or_none] at hpart'
    have hindex : ∀ {i : UInt32} {rest : List Str}, named r =
        ("segment=" ++ digits i.toNat) :: rest →
        self.param "segment=" = some (digits i.toNat) := by
      intro i rest hnamed
      rw [hsegment, hnamed, List.findSome?_cons, stripStart_append]
      rfl
    cases r with
    | initSegment =>
      rw [self.subResource_of_segment (n := "init") hsegment, if_pos rfl]
      simp [PartFits]
    | mediaSegment i =>
      have hown : (named (.mediaSegment i)).findSome? (stripStart "part=") = none := rfl
      rw [subResource_of_digits (hindex rfl), hpart', hown, Option.or_none, PartFits, ← carriedPart]
      cases carriedPart q with
      | none => simp
      | some v =>
        cases hll : self.transforms.packaging.llHlsEnabled <;> cases hv : parseUInt
          32 v <;> simp [hv]
    | partialSegment i j =>
      have hown : (named (.partialSegment i j)).findSome? (stripStart "part=") = some
          (digits j.toNat) := by
        rw [named, List.findSome?_cons, List.findSome?_cons, stripStart_append]
        rfl
      rw [subResource_of_digits (hindex rfl), hpart', hown, hr.2 i j rfl, PartFits, ← carriedPart]
      cases carriedPart q with
      | none => simp [parseUInt_digits j.toNat_lt]
      | some v =>
        cases hv : parseUInt 32 v with
        | none => simp [hv]
        | some k =>
          have hk : UInt32.ofNat k = j ↔ k = j.toNat := by
            rw [← UInt32.toNat_inj, UInt32.toNat_ofNat', Nat.mod_eq_of_lt (lt_of_parseUInt hv)]
          simp [hv, hk]
    | manifest => exact absurd rfl hr.1
    | llHlsManifest => exact absurd rfl hr.1

/-- The request that a URI of the playlist leads to has the manifest's path, and it is for the
sub-resource that the URI was written for, with the remaining parameters of the manifest, exactly if
the manifest's query has only parameters of the packager, no `segment=`, and no `part=` in the way.
-/
theorem playlistUri_iff (self : EdgeProxy κ) (uri : Uri) {q : Str} (hq : uri.query = some q)
    (hpackaging : self.transforms.packaging.enabled = true)
    (himage : self.transforms.imageOptimization.enabled = false)
    (hmanifest : (self.forTarget uri).subResource = .manifest ∨
      (self.forTarget uri).subResource = .llHlsManifest)
    {r : PackagingRequest} (hr : self.Lists r) (next : Uri)
    (hnext : next.text = (playlistUri (String.ofList uri.text)
      (filterQueryParams (uri.query.map String.ofList)) r).toList)
    (request : Request) :
    next.path = uri.path ∧
      ((self.forTarget next).packagingAsked request = some r ∧ next.query.map remaining =
        some (remaining q) ↔
        Survives self.transforms.packaging.llHlsEnabled q r) := by
  generalize hq' : q ++ (subParams r).toList ++
    (filterQueryParams (some (String.ofList q))).toList = q'
  have htext : next.text = uri.front ++ '?' :: q' := by
    rw [hnext, playlistUri, String.toList_append, String.toList_append, String.toList_ofList, hq,
      Option.map_some,
      Uri.text, hq, ← hq']
    simp
  obtain ⟨hfront, hquery⟩ := Uri.eq_of_text uri.front_chars htext
  have hparams := splitOn_next q hr.1
  rw [hq'] at hparams
  have hcontains : (self.forTarget next).query.any (strContains "format=hls") = true := by
    have hinfix : q' = q ++ "?".toList ++ "format=hls".toList ++ ('&' :: ['&'].intercalate (named r)
        ++ (filterQueryParams (some (String.ofList q))).toList) := by
      rw [← hq', subParams_eq hr.1]
      simp only [append_assoc]
      rfl
    show next.query.any _ = true
    rw [hquery, hinfix]
    exact strContains_append _ _ _
  refine ⟨by rw [Uri.path, Uri.path, hfront], ?_⟩
  have hread : ∀ name, (self.forTarget uri).param name = (q.splitOn '&').findSome?
      (stripStart name.toList) := by
    intro name
    rw [param, show (self.forTarget uri).query = some q from hq, Option.bind_some]
  have hparam : ∀ name, (self.forTarget next).param name
      = (carried q ++ named r ++ remaining q).findSome? (stripStart name.toList) := by
    intro name
    rw [param, show (self.forTarget next).query = some q' from hquery, Option.bind_some, hparams]
  have hsub := subResource_next_iff (show (self.forTarget next).Lists r from hr)
    (fun n hn => (self.forTarget uri).unread_of_manifest hmanifest ((hread _).trans hn)) hparam
  rw [(self.forTarget next).packagingAsked_eq hpackaging himage hcontains, hquery]
  show some _ = some r ∧ some (remaining q') = some (remaining q) ↔ _
  rw [Option.some.injEq, Option.some.injEq, hsub, remaining_next hparams]
  exact ⟨fun h => ⟨h.2, h.1.1, h.1.2⟩, fun h => ⟨⟨h.segment, h.part⟩, h.own⟩⟩

def filmUri (q : String) : Uri :=
  ⟨"/film.mp4", some q.toList, by decide⟩

theorem playlistUri_iff_film :
    (filmUri "format=hls?format=hls&segment=3").path = (filmUri "format=hls").path ∧
    ((initEdge.forTarget (filmUri "format=hls?format=hls&segment=3")).packagingAsked plainGet
        = some (.mediaSegment 3) ∧
      (filmUri "format=hls?format=hls&segment=3").query.map remaining = some
      (remaining "format=hls") ↔
      Survives false "format=hls" (.mediaSegment 3)) :=
  initEdge.playlistUri_iff (filmUri "format=hls") rfl rfl rfl (.inl (by decide +kernel))
    ⟨by decide, by simp⟩ (filmUri "format=hls?format=hls&segment=3") (by decide +kernel) plainGet

/-- The URI of a manifest with a token has the token twice, once with a piece of the packager's
query; that of one with an unreadable `segment=` leads to the manifest again. -/
theorem playlistUri_fails :
    (playlistUri "/film.mp4?format=hls&token=1" (filterQueryParams (some "format=hls&token=1"))
      .initSegment).toList
        = (filmUri "format=hls&token=1?format=hls&segment=init&token=1").text ∧
      remaining "format=hls&token=1?format=hls&segment=init&token=1"
        = ["token=1?format=hls", "token=1"] ∧
      (playlistUri "/film.mp4?segment=x&format=hls"
        (filterQueryParams (some "segment=x&format=hls"))
          .initSegment).toList = (filmUri "segment=x&format=hls?format=hls&segment=init").text ∧
      (initEdge.forTarget (filmUri "segment=x&format=hls?format=hls&segment=init")).packagingAsked
        plainGet
        = some .manifest := by
  decide +kernel

end EdgeProxy

end Nozdormu.Proxy
