import Mathlib.Data.List.TakeWhile
import Nozdormu.Cache.Storage

/-!
# Chains of redirects

`cdn-middleware/src/redirect`, the tiers for domains and for HTTPS, and a client that goes where it
is sent. The protocol tier speaks once. The domain tier compares the host without its port with the
whole target, so a target with a port, a path or a user name is never reached: the client is sent to
it again and again (`twoRedirects_fails`).
-/

namespace Nozdormu.Proxy

open Rust Cache List

structure DomainRedirectConfig where
  enabled : Bool := false
  targetDomain : Str
  sourceDomains : List Str := []
deriving DecidableEq, Repr

structure ForceHttpsConfig where
  enable : Bool := false
  httpsPort : Option UInt16 := none
  excludePaths : List Str := []
deriving DecidableEq, Repr

inductive Scheme where
  | http
  | https
deriving DecidableEq, Repr

def Scheme.text : Scheme → Str
  | http => "http"
  | https => "https"

/-- The characters of a host and its port; others end the authority or follow a user name. -/
def isHostChar (c : Char) : Bool := c ∉ "/?#@".toList

/-- What a client asks for, in origin form. -/
structure Visit where
  scheme : Scheme
  host : Str
  uri : Str
  host_chars : host.all isHostChar = true
  uri_slash : uri.head? = some '/'

def hostNoPort (host : Str) : Str := host.takeWhile (· ≠ ':')

/-- `*.old.com` stands for all hosts that end in `.old.com`. -/
def matchesSource (hostNoPort src : Str) : Bool :=
  match stripStart "*." src with
  | some suffix => (stripEnd ('.' :: suffix.map Char.toLower) (hostNoPort.map Char.toLower)).isSome
  | none => eqIgnoreAsciiCase hostNoPort src

/-- The host is to be left for the target. -/
def DomainRedirectConfig.leaves (config : DomainRedirectConfig) (host : Str) : Bool :=
  config.enabled && !eqIgnoreAsciiCase (hostNoPort host) config.targetDomain &&
    (config.sourceDomains.isEmpty || config.sourceDomains.any (matchesSource (hostNoPort host)))

def checkDomainRedirect (config : DomainRedirectConfig) (scheme : Scheme) (host uri : Str) :
    Option Str :=
  if config.leaves host then some (scheme.text ++ "://" ++ (config.targetDomain ++ uri)) else none

def ForceHttpsConfig.portText (config : ForceHttpsConfig) : Str :=
  (config.httpsPort.filter (· ≠ 443)).elim [] fun port => ':' :: digits port.toNat

/-- No exclusion holds for the path: none for the challenges of ACME, none of the site. -/
def ForceHttpsConfig.Applies (config : ForceHttpsConfig) (path : Str) : Prop :=
  (stripStart "/.well-known/acme-challenge/" path).isNone ∧
    config.excludePaths.all fun exclude => (stripStart exclude path).isNone

instance (config : ForceHttpsConfig) (path : Str) : Decidable (config.Applies path) :=
  inferInstanceAs (Decidable (_ ∧ _))

def checkProtocolRedirect (config : ForceHttpsConfig) (scheme : Scheme) (host uri : Str) :
    Option Str :=
  if config.enable ∧ scheme ≠ .https ∧ config.Applies (uri.takeWhile (· ≠ '?')) then
    some ("https://" ++ (hostNoPort host ++ config.portText ++ uri))
  else none

/-- `check_redirect` without URL rules: the `Location`. -/
def checkRedirect (domain : Option DomainRedirectConfig) (force : ForceHttpsConfig) (v : Visit) :
    Option Str :=
  (domain.bind (checkDomainRedirect · v.scheme v.host v.uri)).or
    (checkProtocolRedirect force v.scheme v.host v.uri)

variable (rest : Str)

/-- The host, with its port, of what follows `://`: a user name is not sent. -/
def hostOf : Str :=
  ((rest.takeWhile (· ∉ "/?#".toList)).reverse.takeWhile (· ≠ '@')).reverse

/-- Path and query of what follows `://`. -/
def uriOf : Str :=
  let after := (rest.dropWhile (· ∉ "/?#".toList)).takeWhile (· ≠ '#')
  if after.head? = some '/' then after else '/' :: after

theorem hostOf_chars : (hostOf rest).all isHostChar = true := by
  refine all_eq_true.2 fun c hc => ?_
  have hback := mem_reverse.1 hc
  have hat := mem_takeWhile_imp hback
  have hfront := mem_takeWhile_imp (mem_reverse.1 (( takeWhile_prefix _).subset hback))
  simp_all [isHostChar]

theorem uriOf_slash : (uriOf rest).head? = some '/' := by
  unfold uriOf
  dsimp only
  split
  next h => exact h
  next => rfl

/-- A URL without a host cannot be followed. -/
def visit (scheme : Scheme) (rest : Str) : Option Visit :=
  if hostOf rest = [] then none else some ⟨scheme, hostOf rest, uriOf rest, hostOf_chars rest,
    uriOf_slash rest⟩

def follow (location : Str) : Option Visit :=
  match stripStart "https://" location with
  | some rest => visit .https rest
  | none => (stripStart "http://" location).bind (visit .http)

variable (domain : Option DomainRedirectConfig) (force : ForceHttpsConfig)

def next (v : Visit) : Option Visit := (checkRedirect domain force v).bind follow

def visitAfter : Nat → Visit → Option Visit
  | 0, v => some v
  | n + 1, v => (next domain force v).bind (visitAfter n)

variable {domain} {force} {v w : Visit} {config : DomainRedirectConfig}

theorem takeWhile_append_stop {p : Char → Bool} {c : Char} (hc : p c = false) (l r : Str) :
    (l ++ c :: r).takeWhile p = l.takeWhile p := by
  induction l with
  | nil => simp [hc]
  | cons a l ih => rw [cons_append, takeWhile_cons, takeWhile_cons, ih]

theorem hostOf_append {uri : Str} (huri : uri.head? = some '/') (target : Str) :
    hostOf (target ++ uri) = hostOf target := by
  obtain ⟨rest, rfl⟩ := List.head?_eq_some_iff.1 huri
  rw [hostOf, takeWhile_append_stop (by decide)]
  rfl

theorem hostOf_of_chars {s : Str} (h : s.all isHostChar = true) : hostOf s = s := by
  have hchars := all_eq_true.1 h
  have hfront : s.takeWhile (· ∉ "/?#".toList) = s :=
    takeWhile_eq_self_iff.2 fun c hc => by have := hchars c hc; simp_all [isHostChar]
  have hback : s.reverse.takeWhile (· ≠ '@') = s.reverse :=
    takeWhile_eq_self_iff.2 fun c hc => by
      have := hchars c (mem_reverse.1 hc)
      simp_all [isHostChar]
  rw [hostOf, hfront, hback, reverse_reverse]

theorem hostNoPort_append {host : Str} (force : ForceHttpsConfig) :
    hostNoPort (hostNoPort host ++ force.portText) = hostNoPort host := by
  have hself : hostNoPort (hostNoPort host) = hostNoPort host :=
    takeWhile_eq_self_iff.2 fun c hc => mem_takeWhile_imp (p := (· ≠ ':')) hc
  unfold ForceHttpsConfig.portText
  cases force.httpsPort.filter (· ≠ 443) with
  | none => rw [Option.elim_none, append_nil, hself]
  | some port => exact (takeWhile_append_stop (by decide) _ _).trans hself

theorem chars_portless (v : Visit) (force : ForceHttpsConfig) :
    (hostNoPort v.host ++ force.portText).all isHostChar = true := by
  rw [all_append, Bool.and_eq_true]
  refine ⟨all_eq_true.2 fun c hc => all_eq_true.1 v.host_chars c (( takeWhile_prefix _).subset hc),
    ?_⟩
  unfold ForceHttpsConfig.portText
  cases force.httpsPort.filter (· ≠ 443) with
  | none => rfl
  | some port =>
    refine all_eq_true.2 fun c hc => ?_
    rcases mem_cons.1 hc with rfl | hc
    · decide
    · have hdigit := isDigit_of_mem_digits hc
      refine decide_eq_true fun hmem => ?_
      have hother : ∀ x ∈ "/?#@".toList, x.isDigit = false := by simp
      rw [hother c hmem] at hdigit
      cases hdigit

theorem visit_eq_some {scheme : Scheme} {rest : Str} (h : visit scheme rest = some w) :
    w.scheme = scheme ∧ w.host = hostOf rest ∧ hostOf rest ≠ [] := by
  unfold visit at h
  split at h
  next => cases h
  next hne =>
    cases h
    exact ⟨rfl, rfl, hne⟩

variable (force) in
theorem next_of_leaves (h : config.leaves v.host = true) :
    next (some config) force v = visit v.scheme (config.targetDomain ++ v.uri) := by
  rw [next, checkRedirect, Option.bind_some, checkDomainRedirect, if_pos h]
  cases v.scheme <;> rfl

variable (domain) in
def Stays (host : Str) : Prop := ∀ config ∈ domain, config.leaves host = false

theorem domainTier_of_stays (h : Stays domain v.host) :
    domain.bind (checkDomainRedirect · v.scheme v.host v.uri) = none := by
  cases domain with
  | none => rfl
  | some config => rw [Option.bind_some, checkDomainRedirect, h config rfl]; rfl

theorem next_of_stays (h : Stays domain v.host) (hw : next domain force v = some w) :
    v.scheme ≠ .https ∧ w.scheme = .https ∧ hostNoPort w.host = hostNoPort v.host := by
  rw [next, checkRedirect, domainTier_of_stays h, Option.none_or, checkProtocolRedirect] at hw
  split at hw
  next hcond =>
    rw [Option.bind_some, follow, stripStart_append] at hw
    obtain ⟨hscheme, hhost, -⟩ := visit_eq_some hw
    refine ⟨hcond.2.1, hscheme, ?_⟩
    rw [hhost, hostOf_append v.uri_slash, hostOf_of_chars (chars_portless v force),
      hostNoPort_append]
  next => cases hw

theorem Stays.congr {a b : Str} (h : Stays domain a) (hport : hostNoPort b = hostNoPort a) :
    Stays domain b := by
  unfold Stays DomainRedirectConfig.leaves
  rw [hport]
  exact h

theorem checkRedirect_eq_none (h : Stays domain v.host) (hhttps : v.scheme = .https) :
    checkRedirect domain force v = none := by
  rw [checkRedirect, domainTier_of_stays h, Option.none_or, checkProtocolRedirect, if_neg]
  exact fun hcond => hcond.2.1 hhttps

/-- **At most two redirects**, exactly if a host that is sent to the target has arrived there: the
target is not left again for itself. -/
theorem twoRedirects_iff (domain : Option DomainRedirectConfig)
    (force : ForceHttpsConfig) (v : Visit) :
    (∀ w, visitAfter domain force 2 v = some w → checkRedirect domain force w = none) ↔
      ∀ config ∈ domain, config.leaves v.host = true → hostOf config.targetDomain ≠ [] →
        config.leaves (hostOf config.targetDomain) = false := by
  constructor
  · intro h config hconfig hleaves hhost
    obtain rfl : domain = some config := hconfig
    by_contra hagain
    rw [Bool.not_eq_false] at hagain
    -- every visit from the first on is to the target, and is sent there again
    have hnext : ∀ v : Visit, config.leaves v.host = true →
        ∃ w, next (some config) force v = some w ∧ w.host = hostOf config.targetDomain := by
      intro v hv
      have hne : hostOf (config.targetDomain ++ v.uri) ≠ [] := by rwa [hostOf_append v.uri_slash]
      refine ⟨_, (next_of_leaves force hv).trans (if_neg hne), hostOf_append v.uri_slash _⟩
    obtain ⟨u, hu, huhost⟩ := hnext v hleaves
    obtain ⟨w, hw, hwhost⟩ := hnext u (huhost ▸ hagain)
    have hnone := h w (by simp only [visitAfter, hu, hw, Option.bind_some])
    obtain ⟨x, hx, -⟩ := hnext w (hwhost ▸ hagain)
    rw [next, hnone] at hx
    cases hx
  · intro h w hw
    obtain ⟨u, hu, hrest⟩ : ∃ u, next domain force v = some u ∧
        visitAfter domain force 1 u = some w :=
      Option.bind_eq_some_iff.1 hw
    have hw : next domain force u = some w := by simpa [visitAfter] using hrest
    by_cases hstays : Stays domain v.host
    · -- the second redirect would have to be of the protocol tier again
      obtain ⟨-, hhttps, hport⟩ := next_of_stays hstays hu
      exact absurd hhttps (next_of_stays (hstays.congr hport) hw).1
    unfold Stays at hstays
    push Not at hstays
    obtain ⟨config, hconfig, hleaves⟩ := hstays
    obtain rfl : domain = some config := hconfig
    rw [Bool.ne_false_iff] at hleaves
    rw [next_of_leaves force hleaves] at hu
    obtain ⟨-, hhost, hne⟩ := visit_eq_some hu
    rw [hostOf_append v.uri_slash] at hhost hne
    have harrived : Stays (some config) u.host := by
      intro config' hconfig'
      cases hconfig'
      rw [hhost]
      exact h _ rfl hleaves hne
    obtain ⟨-, hhttps, hport⟩ := next_of_stays harrived hw
    exact checkRedirect_eq_none (harrived.congr hport) hhttps

def oldVisit : Visit := ⟨.http, "old.com".toList, "/page".toList, by decide, by decide⟩

/-- The target has a port: the host `new.com:8080` is compared without it. -/
def portedSite : DomainRedirectConfig := { enabled := true, targetDomain := "new.com:8080" }

def newVisit : Visit := { oldVisit with host := "new.com:8080".toList, host_chars := by decide }

/-- However often the client follows, it is sent to the target again. -/
theorem twoRedirects_fails :
    checkRedirect (some portedSite) {} newVisit = some "http://new.com:8080/page".toList ∧
    ∀ n, visitAfter (some portedSite) {} (n + 1) oldVisit = some newVisit := by
  have hfirst : next (some portedSite) {} oldVisit = some newVisit := rfl
  have hagain : next (some portedSite) {} newVisit = some newVisit := rfl
  refine ⟨by decide +kernel, fun n => ?_⟩
  rw [visitAfter, hfirst, Option.bind_some]
  induction n with
  | zero => rfl
  | succ n ih => rw [visitAfter, hagain, Option.bind_some, ih]

/-! ## Targets in both forms -/

/-- A request as the tiers get it: `uri` is the target as it came, and the host of an absolute
target is its authority. -/
structure Target where
  scheme : Scheme
  /-- a name, an IPv4 address, or an IPv6 address in brackets -/
  name : Str
  port : Option Str := none
  absolute : Bool := false
  pathQuery : Str

namespace Target

variable (r : Target)

def host : Str := r.name ++ r.port.elim [] (':' :: ·)

def uri : Str := if r.absolute then r.scheme.text ++ "://" ++
    (r.host ++ r.pathQuery) else r.pathQuery

def onDomain (config : DomainRedirectConfig) : Str :=
  r.scheme.text ++ "://" ++ (config.targetDomain ++ r.pathQuery)

def onHttps (config : ForceHttpsConfig) : Str :=
  "https://" ++ (r.name ++ config.portText ++ r.pathQuery)

variable {r}

theorem hostNoPort_eq_iff : hostNoPort r.host = r.name ↔ ':' ∉ r.name := by
  have hhost : hostNoPort r.host = r.name.takeWhile (· ≠ ':') := by
    unfold host
    cases r.port with
    | none => rw [Option.elim_none, append_nil, hostNoPort]
    | some port => exact takeWhile_append_stop (by decide) _ _
  rw [hhost, takeWhile_eq_self_iff]
  simp [forall_mem_ne']

theorem length_uri (h : r.absolute = true) : r.name.length + r.pathQuery.length < r.uri.length := by
  rw [uri, if_pos h, host]
  simp only [length_append]
  have hscheme : 0 < r.scheme.text.length := by cases r.scheme <;> decide
  omega

end Target

/-- **What a redirect keeps.** Each tier sends a request to the scheme and authority that it is for,
followed by its path and query, and spares the excluded paths, exactly if it is silent or the target
is in origin form and, for the protocol tier, the host is no address in brackets. -/
theorem location_iff (domain : DomainRedirectConfig) (force : ForceHttpsConfig) (r : Target) :
    ((∀ location ∈ checkDomainRedirect domain r.scheme r.host r.uri, location = r.onDomain domain) ∧
      ∀ location ∈ checkProtocolRedirect force r.scheme r.host r.uri,
        location = r.onHttps force ∧ force.Applies (r.pathQuery.takeWhile (· ≠ '?'))) ↔
    (domain.leaves r.host = true → r.absolute = false) ∧
      (force.enable = true ∧ r.scheme ≠ .https ∧ force.Applies (r.uri.takeWhile (· ≠ '?')) →
        r.absolute = false ∧ ':' ∉ r.name) := by
  have horigin : r.absolute = false → r.uri = r.pathQuery := fun h => if_neg (by rw [h]; decide)
  refine and_congr ?_ ?_
  · unfold checkDomainRedirect Target.onDomain
    split
    next hleaves =>
      simp only [Option.mem_def, Option.some.injEq, forall_eq', hleaves, forall_const]
      refine ⟨fun h => ?_, fun h => by rw [horigin h]⟩
      have hlength := congrArg List.length (append_cancel_left (append_cancel_left h))
      rw [Bool.eq_false_iff]
      exact fun habsolute => by have := Target.length_uri habsolute; omega
    next hstays => exact iff_of_true nofun fun hleaves => absurd hleaves hstays
  · unfold checkProtocolRedirect Target.onHttps
    split
    next hcond =>
      rw [imp_iff_right hcond]
      simp only [Option.mem_def, Option.some.injEq, forall_eq']
      constructor
      · rintro ⟨h, -⟩
        have hsame := append_cancel_left h
        cases habsolute : r.absolute with
        | true =>
          have hlength := congrArg List.length hsame
          have := Target.length_uri habsolute
          simp only [length_append] at hlength
          omega
        | false =>
          rw [horigin habsolute] at hsame
          exact ⟨rfl, Target.hostNoPort_eq_iff.1 (append_cancel_right (append_cancel_right hsame))⟩
      · rintro ⟨habsolute, hname⟩
        rw [horigin habsolute] at hcond ⊢
        exact ⟨by rw [Target.hostNoPort_eq_iff.2 hname], hcond.2.2⟩
    next hsilent => exact iff_of_true nofun fun hcond => absurd hcond hsilent

/-- An absolute target is appended as a whole, and is redirected although it is a challenge; of an
address in brackets only the bracket is left. -/
theorem location_fails :
    checkProtocolRedirect { enable := true } .http "a.com"
        (Target.uri ⟨.http, "a.com", none, true, "/.well-known/acme-challenge/x"⟩) =
      some "https://a.comhttp://a.com/.well-known/acme-challenge/x" ∧
    checkProtocolRedirect { enable := true } .http (Target.host ⟨.http, "[::1]", none, false, "/"⟩)
      "/" = some "https://[/" := by
  decide +kernel

end Nozdormu.Proxy
