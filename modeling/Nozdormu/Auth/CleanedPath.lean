import Nozdormu.Auth.UrlSigning
import Nozdormu.Proxy.CacheWriters

/-!
# Where signed requests go
-/

namespace Nozdormu.Auth

open Rust Data Bmff Proxy Cache CdnProxy

variable {p : Profile} {hmac : Hmac} {config : StreamingAuthConfig} {now : Nat} {path cleaned : Str}

/-- `trigger_background_revalidation` takes the first enabled origin that is no backup, if there is
one, and leaves an empty query out. -/
def revalidationFetch (hasPrimary : Bool) (proxy : CdnProxy) : Option (Str × Option Str) :=
  if hasPrimary then some (proxy.path, proxy.query.filter (· ≠ [])) else none

/-- Path and query that the origin is asked for on behalf of a request: for nothing after a hit, by
a revalidation after a stale answer, and otherwise by the request itself. -/
def originFetch (hasPrimary : Bool) (proxy : CdnProxy) (cleaned : Str) :
    CacheStatus → Option (Str × Option Str)
  | .hit => none
  | .stale => revalidationFetch hasPrimary proxy
  | .miss | .bypass | .expired | .none => some (cleaned, proxy.query)

def askedFor (proxy : CdnProxy) (path : Str) : CdnProxy := { proxy with path }

/-- Two requests share an entry, whatever the digest, and only the cleaned path is fetched for them.
-/
structure Cleaned (hasPrimary : Bool) (proxy : CdnProxy) (cleaned path₁ path₂ : Str)
    (request₁ request₂ : Request) (status₁ status₂ : CacheStatus) : Prop where
  key : ∀ md5, ((askedFor proxy path₁).withMd5 md5).cacheKey request₁
    = ((askedFor proxy path₂).withMd5 md5).cacheKey request₂
  first : ∀ fetch, originFetch hasPrimary (askedFor proxy path₁) cleaned status₁ = some fetch →
    fetch.1 = cleaned
  second : ∀ fetch, originFetch hasPrimary (askedFor proxy path₂) cleaned status₂ = some fetch →
    fetch.1 = cleaned

theorem ne_of_validatePath {order : Str → Str → Str × Str}
    (h : validatePath order p hmac config now path = .ok cleaned) : path ≠ cleaned := by
  obtain ⟨first, second, rest, -, hsplit, -, rfl, -⟩ := validatePath_eq_ok h
  intro heq
  have hlength := congrArg List.length hsplit
  rw [heq, show noSlash ('/' :: rest) = rest from rfl] at hlength
  simp only [List.length_append, List.length_cons] at hlength
  omega

theorem ne_of_validateUrl {query : Option Str} (htype : config.authType ≠ .b)
    (h : validateUrl p hmac config now path query = .ok cleaned) : path ≠ cleaned := by
  unfold validateUrl at h
  split at h
  next => exact ne_of_validatePath h
  next hb => exact absurd hb htype
  next => exact ne_of_validatePath h

theorem originFetch_iff (hasPrimary : Bool) (proxy : CdnProxy) (status : CacheStatus)
    (hne : path ≠ cleaned) :
    (∀ fetch, originFetch hasPrimary (askedFor proxy path) cleaned status = some fetch →
      fetch.1 = cleaned) ↔
      ¬ (hasPrimary = true ∧ status = .stale) := by
  cases status <;> cases hasPrimary <;> simp [originFetch, revalidationFetch, askedFor, hne]

/-- For accepted requests of types A and C with one query and one set of vary headers. -/
theorem cleaned_iff (p : Profile) (hmac : Hmac) (config : StreamingAuthConfig)
    (htype : config.authType ≠ .b)
    (hasPrimary : Bool) (proxy : CdnProxy) (now₁ now₂ : Nat) (path₁ path₂ cleaned : Str)
    (request₁ request₂ : Request) (status₁ status₂ : CacheStatus)
    (h₁ : validateUrl p hmac config now₁ path₁ proxy.query = .ok cleaned)
    (h₂ : validateUrl p hmac config now₂ path₂ proxy.query = .ok cleaned)
    (hvary : proxy.varyValues request₁ = proxy.varyValues request₂) :
    Cleaned hasPrimary proxy cleaned path₁ path₂ request₁ request₂ status₁ status₂ ↔
      path₁ = path₂ ∧ ¬ (hasPrimary = true ∧ (status₁ = .stale ∨ status₂ = .stale)) := by
  have hkey : (∀ md5, ((askedFor proxy path₁).withMd5 md5).cacheKey request₁
      = ((askedFor proxy path₂).withMd5 md5).cacheKey request₂) ↔ path₁ = path₂ := by
    have hparts : ∀ path, (askedFor proxy path).requestParts request₁ =
        (askedFor proxy path).requestParts request₂ :=
      fun path => by simp only [requestParts, varyValues, askedFor] at hvary ⊢; rw [hvary]
    constructor
    · intro h
      have hhashed : ((askedFor proxy path₁).requestParts request₁).hashed
          = ((askedFor proxy path₂).requestParts request₂).hashed := eq_of_forall_md5 h
      rw [hparts] at hhashed
      -- the path can be read off the text that is hashed into the key
      have hrest := (List.cons.inj (List.append_cancel_left hhashed)).2
      exact strBytes_injective
        (List.append_cancel_right (List.cons.inj (List.append_cancel_left hrest)).2)
    · intro h md5
      rw [h]
      exact congrArg (fun a => md5 a.hashed) (hparts path₂)
  have hfetch₁ := originFetch_iff hasPrimary proxy status₁ (ne_of_validateUrl htype h₁)
  have hfetch₂ := originFetch_iff hasPrimary proxy status₂ (ne_of_validateUrl htype h₂)
  constructor
  · intro h
    exact ⟨hkey.1 h.key, fun hstale => hstale.2.elim (fun hs => hfetch₁.1 h.first ⟨hstale.1, hs⟩)
      fun hs => hfetch₂.1 h.second ⟨hstale.1, hs⟩⟩
  · intro h
    exact ⟨hkey.2 h.1, hfetch₁.2 fun hs => h.2 ⟨hs.1, .inl hs.2⟩, hfetch₂.2 fun hs =>
      h.2 ⟨hs.1, .inr hs.2⟩⟩

def typeC : StreamingAuthConfig := ⟨.c, "secret", 1800⟩

def signedFilm (timestamp : Nat) : Str := TypeC.sign polyHmac typeC "/film.mp4" timestamp

/-- One signed URL twice, and two of them. -/
theorem cleaned_iff_film :
    Cleaned true plainSite "/film.mp4" (signedFilm 500) (signedFilm 500) plainGet plainGet
        .miss .hit ∧
      ¬ Cleaned true plainSite "/film.mp4" (signedFilm 500) (signedFilm 501) plainGet plainGet
        .miss .miss := by
  have hvalid : ∀ timestamp ∈ [500, 501], validateUrl .release polyHmac typeC 2000
      (signedFilm timestamp) plainSite.query = .ok "/film.mp4" := by decide +kernel
  constructor
  · refine (cleaned_iff .release polyHmac typeC (by decide) true plainSite 2000 2000 _ _ _ _ _ _ _
      (hvalid 500 (by decide)) (hvalid 500 (by decide)) rfl).2 ⟨rfl, by decide⟩
  · refine fun h => absurd
      ((cleaned_iff .release polyHmac typeC (by decide) true plainSite 2000 2000
      _ _ _ _ _ _ _ (hvalid 500 (by decide)) (hvalid 501 (by decide)) rfl).1 h).1
        (by decide +kernel)

/-- Two signatures of one film have two entries, and after a stale answer the origin is asked for
the signed path. -/
theorem cleaned_fails :
    validateUrl .release polyHmac typeC 2000 (signedFilm 500) plainSite.query = .ok "/film.mp4" ∧
      validateUrl .release polyHmac typeC 2000 (signedFilm 501) plainSite.query = .ok "/film.mp4" ∧
      ((askedFor plainSite (signedFilm 500)).requestParts plainGet).hashed
        ≠ ((askedFor plainSite (signedFilm 501)).requestParts plainGet).hashed ∧
      originFetch true (askedFor plainSite (signedFilm 500)) "/film.mp4" .stale
        = some (signedFilm 500, none) ∧
      signedFilm 500 ≠ "/film.mp4" := by
  decide +kernel

end Nozdormu.Auth
