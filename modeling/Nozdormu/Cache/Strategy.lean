import Nozdormu.Cache.Storage

/-!
# What may be cached, and for how long

`cdn-cache/src/strategy.rs`. Requests are judged before the lookup, by their method, headers and
path; responses are judged by their status and headers alone, without the request they answer
(`checkResponseCacheability_iff`).
-/

namespace Nozdormu.Cache

open Rust Bmff

inductive CacheRuleType where
  | path
  | extension
  | mimetype
  | regex
deriving DecidableEq, Repr

/-- The JSON value `match` of a rule, as far as `as_str` and `as_array` look into it. -/
inductive RuleMatch where
  | text (s : Str)
  | array (items : List (Option Str))
  | other
deriving DecidableEq, Repr

structure CacheRule where
  type : CacheRuleType
  pattern : RuleMatch
  ttl : UInt64 := 0
  ttlUnit : Str := "seconds"
  regexOptions : Option Str := none
deriving DecidableEq, Repr

structure CacheConfig where
  enabled : Bool := true
  defaultTtl : UInt64 := 3600
  /-- Bytes. -/
  maxSize : UInt64 := 104857600
  rules : List CacheRule := []
  sortQueryString : Bool := false
  varyHeaders : List Str := []
  cacheAuthorized : Bool := false
  cacheCookies : Bool := false
deriving DecidableEq, Repr

structure CacheDecision where
  cacheable : Bool
  ttl : UInt64
  reason : String
deriving DecidableEq, Repr

namespace CacheDecision

def skip (reason : String) : CacheDecision := ⟨false, 0, reason⟩

def cache (ttl : UInt64) (reason : String) : CacheDecision := ⟨true, ttl, reason⟩

end CacheDecision

section Rules

variable {ε : Type} (p : Profile)

def inSeconds (ttl : UInt64) (unit : Nat) : Exec ε UInt64 := do
  let seconds ← p.mul 64 ttl.toNat unit
  return UInt64.ofNat seconds

def ruleTtlSeconds (rule : CacheRule) : Exec ε UInt64 :=
  if rule.ttlUnit = "minutes" then inSeconds p rule.ttl 60
  else if rule.ttlUnit = "hours" then inSeconds p rule.ttl 3600
  else if rule.ttlUnit = "days" then inSeconds p rule.ttl 86400
  else return rule.ttl

/-- The best path rule so far, with the length of its prefix. -/
def pathRule (path : Str) (best : Option (Nat × UInt64)) (rule : CacheRule) :
    Exec ε (Option (Nat × UInt64)) :=
  match rule.type, rule.pattern with
  | .path, .text pattern =>
    if (stripStart pattern path).isSome ∧ best.all fun b => b.1 < byteLen pattern then do
      let ttl ← ruleTtlSeconds p rule
      return some (byteLen pattern, ttl)
    else return best
  | _, _ => return best

/-- What follows the last dot of the whole path. -/
def extensionOf (path : Str) : Str :=
  if '.' ∈ path then (path.reverse.takeWhile (· ≠ '.')).reverse else []

def RuleMatch.lists (ext : Str) : RuleMatch → Bool
  | text e => eqIgnoreAsciiCase e ext
  | array items => items.any fun item => item.any fun e => eqIgnoreAsciiCase e ext
  | other => false

def extensionRule (path : Str) (rule : CacheRule) : Bool :=
  rule.type = .extension && rule.pattern.lists (extensionOf path)

/-- `compile` is `Regex::new`, remembered by a cache of compiled patterns. -/
def regexRule (compile : Str → Option (Str → Bool)) (path : Str) (rule : CacheRule) : Bool :=
  match rule.type, rule.pattern with
  | .regex, .text pattern =>
    let pattern := if 'i' ∈ rule.regexOptions.getD [] then "(?i)" ++ pattern else pattern
    (compile pattern).any fun isMatch => isMatch path
  | _, _ => false

/-- Path rules, then extensions, then regular expressions, then the default. -/
def matchRuleTtl (compile : Str → Option (Str → Bool)) (path : Str) (rules : List CacheRule)
    (defaultTtl : UInt64) : Exec ε UInt64 := do
  match ← rules.foldlM (pathRule p path) none with
  | some best => return best.2
  | none =>
    match rules.find? (extensionRule path) with
    | some rule => ruleTtlSeconds p rule
    | none =>
      match rules.find? (regexRule compile path) with
      | some rule => ruleTtlSeconds p rule
      | none => return defaultTtl

end Rules

def mentions (directive : String) (cacheControl : Str) : Bool :=
  strContains directive.toList (cacheControl.map Char.toLower)

def checkRequestCacheability {ε : Type} (p : Profile) (compile : Str → Option (Str → Bool))
    (method path : Str) (cacheControl : Option Str) (hasAuthorization : Bool)
      (config : CacheConfig) :
    Exec ε CacheDecision :=
  if !config.enabled then return .skip "cache disabled"
  else if ¬ (method = "GET" ∨ method = "HEAD") then return .skip "method not cacheable"
  else if cacheControl.any fun cc => mentions "no-cache" cc || mentions "no-store" cc then
    return .skip "request cache-control"
  else if hasAuthorization && !config.cacheAuthorized then return .skip "authorization present"
  else do
    let ttl ← matchRuleTtl p compile path config.rules config.defaultTtl
    return if ttl = 0 then .skip "ttl is zero" else .cache ttl "rule match"

/-- What a request needs to be looked up in the cache, and to be stored. -/
structure RequestAccepted (p : Profile) (compile : Str → Option (Str → Bool)) (method path : Str)
    (cacheControl : Option Str) (hasAuthorization : Bool) (config : CacheConfig) : Prop where
  enabled : config.enabled = true
  method : method = "GET" ∨ method = "HEAD"
  cacheControl : ∀ cc, cacheControl = some cc → ¬ mentions "no-cache" cc ∧ ¬ mentions "no-store" cc
  authorization : hasAuthorization = true → config.cacheAuthorized = true
  ttl : ∃ ttl, (matchRuleTtl p compile path config.rules config.defaultTtl : Exec Empty UInt64) =
    .ok ttl ∧
    ttl ≠ 0

variable {p : Profile} {compile : Str → Option (Str → Bool)} {method path : Str} {cacheControl :
  Option Str} {hasAuthorization : Bool} {config : CacheConfig}

theorem requestAccepted_of_cacheable {d : CacheDecision}
    (h : (checkRequestCacheability p compile method path cacheControl hasAuthorization config
      : Exec Empty CacheDecision) = .ok d)
    (hd : d.cacheable = true) :
    RequestAccepted p compile method path cacheControl hasAuthorization config := by
  -- each of the early returns is a skip
  have hskip : ∀ {reason : String},
      (.ok (CacheDecision.skip reason) : Exec Empty CacheDecision) ≠ .ok d := by
    intro reason heq
    rw [← Except.ok.inj heq] at hd
    cases hd
  unfold checkRequestCacheability at h
  split at h
  next => exact absurd h hskip
  next henabled =>
  split at h
  next => exact absurd h hskip
  next hmethod =>
  split at h
  next => exact absurd h hskip
  next hcontrol =>
  split at h
  next => exact absurd h hskip
  next hauth =>
  obtain ⟨ttl, httl, h⟩ := bind_eq_ok.1 h
  split at h
  next => exact absurd h hskip
  next hzero =>
  refine ⟨by simpa using henabled, not_not.1 hmethod, ?_, by simpa using hauth, ttl, httl, hzero⟩
  intro cc hcc
  rw [hcc] at hcontrol
  simpa using hcontrol

theorem cacheable_of_requestAccepted
    (h : RequestAccepted p compile method path cacheControl hasAuthorization config) :
    ∃ ttl, ttl ≠ 0 ∧ (checkRequestCacheability p compile method path cacheControl
      hasAuthorization config
      : Exec Empty CacheDecision) = .ok (.cache ttl "rule match") := by
  obtain ⟨ttl, httl, hzero⟩ := h.ttl
  have hcontrol : ¬ (cacheControl.any fun cc => mentions "no-cache" cc || mentions "no-store" cc) =
      true := by
    intro hany
    obtain ⟨cc, hcc, hmentions⟩ := (Option.any_eq_true _ _).1 hany
    have hfree := h.cacheControl cc hcc
    rw [Bool.or_eq_true] at hmentions
    exact hmentions.elim hfree.1 hfree.2
  have hauth : ¬ (hasAuthorization && !config.cacheAuthorized) = true := by
    intro hboth
    rw [Bool.and_eq_true, Bool.not_eq_true'] at hboth
    rw [h.authorization hboth.1] at hboth
    exact absurd hboth.2 (by decide)
  refine ⟨ttl, hzero, ?_⟩
  unfold checkRequestCacheability
  rw [if_neg (by rw [h.enabled]; decide), if_neg (not_not.2 h.method), if_neg hcontrol,
    if_neg hauth, httl]
  exact congrArg Except.ok (if_neg hzero)

def cacheableStatuses : List UInt16 := [200, 203, 204, 206, 300, 301, 302, 304, 307, 308, 404, 410]

/-- The headers of a response that `check_response_cacheability` looks at. -/
structure ResponseMarks where
  cacheControl : Option Str
  hasSetCookie : Bool
  vary : Option Str
  contentLength : Option UInt64
deriving DecidableEq, Repr

def checkResponseCacheability (status : UInt16) (marks : ResponseMarks) (config : CacheConfig) :
    CacheDecision :=
  if status ∉ cacheableStatuses then .skip "status not cacheable"
  else if marks.cacheControl.any fun cc =>
      mentions "private" cc || mentions "no-cache" cc || mentions "no-store" cc then
    .skip "response cache-control"
  else if marks.hasSetCookie && !config.cacheCookies then .skip "set-cookie present"
  else if marks.vary.any fun v => trim v = "*" then .skip "vary: *"
  else if marks.contentLength.any fun len => config.maxSize < len then .skip "content too large"
  else .cache 0 "response cacheable"

/-- The response asks not to be cached, or is too large for the site. -/
def ResponseMarks.Refuse (marks : ResponseMarks) (config : CacheConfig) : Prop :=
  (∃ cc, marks.cacheControl = some cc ∧
    (mentions "private" cc ∨ mentions "no-cache" cc ∨ mentions "no-store" cc)) ∨
  (marks.hasSetCookie ∧ ¬ config.cacheCookies) ∨
  (∃ v, marks.vary = some v ∧ trim v = "*") ∨
  ∃ len, marks.contentLength = some len ∧ config.maxSize < len

theorem checkResponseCacheability_iff (status : UInt16) (marks : ResponseMarks)
    (config : CacheConfig) :
    (checkResponseCacheability status marks config).cacheable = true ↔
      status ∈ cacheableStatuses ∧ ¬ marks.Refuse config := by
  have hrefuse : marks.Refuse config ↔
      (marks.cacheControl.any fun cc =>
        mentions "private" cc || mentions "no-cache" cc || mentions "no-store" cc) = true ∨
      (marks.hasSetCookie && !config.cacheCookies) = true ∨
      (marks.vary.any fun v => trim v = "*") = true ∨
      (marks.contentLength.any fun len => config.maxSize < len) = true := by
    simp [ResponseMarks.Refuse, Option.any_eq_true, or_assoc]
  rw [hrefuse]
  unfold checkResponseCacheability
  split_ifs with hstatus hcontrol hcookie hvary hlength
  · exact ⟨nofun, fun h => absurd (.inl hcontrol) h.2⟩
  · exact ⟨nofun, fun h => absurd (.inr (.inl hcookie)) h.2⟩
  · exact ⟨nofun, fun h => absurd (.inr (.inr (.inl hvary))) h.2⟩
  · exact ⟨nofun, fun h => absurd (.inr (.inr (.inr hlength))) h.2⟩
  · refine ⟨fun _ => ⟨hstatus, ?_⟩, fun _ => rfl⟩
    rintro (h | h | h | h)
    · exact hcontrol h
    · exact hcookie h
    · exact hvary h
    · exact hlength h
  · exact ⟨nofun, fun h => absurd h.1 hstatus⟩

def parseDirective (cacheControl directive : Str) : Option UInt64 :=
  (cacheControl.splitOn ',').findSome? fun part =>
    (stripStart (directive ++ "=") (trim part)).bind fun value =>
      (parseUInt 64 (trim value)).map UInt64.ofNat

def directiveTtl (cacheControl : Str) : Option UInt64 :=
  (parseDirective (cacheControl.map Char.toLower) "s-maxage").or
    (parseDirective (cacheControl.map Char.toLower) "max-age")

variable (parseDate : Str → Option Int) (now : Clock)

/-- The directives go before `Expires`; neither makes the time longer than configured. -/
def adjustTtl (configTtl : UInt64) (cacheControl expires : Option Str) : UInt64 :=
  match cacheControl.bind directiveTtl with
  | some ttl => min ttl configTtl
  | none =>
    match expires.bind parseDate with
    | some time =>
      let diff := (1000 * time - now.millis).tdiv 1000
      if 0 < diff then min (UInt64.ofNat diff.toNat) configTtl else 0
    | none => configTtl

def secondsLeft (now : Clock) (time : Int) : UInt64 :=
  let diff := (1000 * time - now.millis).tdiv 1000
  if 0 < diff then UInt64.ofNat diff.toNat else 0

/-- By its own headers a response is good for no time at all. -/
def Expired (cacheControl expires : Option Str) : Prop :=
  cacheControl.bind directiveTtl = some 0 ∨
  cacheControl.bind directiveTtl = none ∧
    ∃ time, expires.bind parseDate = some time ∧ secondsLeft now time = 0

theorem min_pos_iff (a b : UInt64) : 0 < min a b ↔ 0 < a ∧ 0 < b := by
  change 0 < (if a ≤ b then a else b).toNat ↔ 0 < a.toNat ∧ 0 < b.toNat
  split
  next h => rw [UInt64.le_iff_toNat_le] at h; omega
  next h => rw [UInt64.le_iff_toNat_le] at h; omega

theorem adjustTtl_pos_iff (configTtl : UInt64) (cacheControl expires : Option Str) :
    0 < adjustTtl parseDate now configTtl cacheControl expires ↔
      0 < configTtl ∧ ¬ Expired parseDate now cacheControl expires := by
  have hpos : ∀ {ttl : UInt64}, 0 < ttl ↔ ttl ≠ 0 := fun {ttl} => UInt64.pos_iff_ne_zero
  unfold adjustTtl Expired
  cases hdirective : cacheControl.bind directiveTtl with
  | some ttl =>
    simp only [Option.some.injEq, reduceCtorEq, false_and, or_false]
    rw [min_pos_iff, hpos]
    exact and_comm
  | none =>
    cases hdate : expires.bind parseDate with
    | none => simp
    | some time =>
      simp only [reduceCtorEq, false_or, true_and, Option.some.injEq, exists_eq_left']
      unfold secondsLeft
      dsimp only
      split
      · rw [min_pos_iff, hpos, hpos]; exact and_comm
      · simp

def parseStaleWhileRevalidate (cacheControl : Option Str) : UInt64 :=
  (cacheControl.bind fun cc =>
    parseDirective (cc.map Char.toLower) "stale-while-revalidate").getD 0

example : adjustTtl (fun _ => none) ⟨0, by decide⟩ 3600
      (some "public, Max-Age=60, s-maxage= 30") none = 30 ∧
    parseStaleWhileRevalidate (some "max-age=60, stale-while-revalidate=120") = 120 := by
  decide +kernel

end Nozdormu.Cache
