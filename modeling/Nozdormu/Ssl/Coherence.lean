import Nozdormu.Data.Runs
import Nozdormu.Ssl.Lookup

/-!
# Lookups, renewals and the cache
-/

namespace Nozdormu.Ssl

open Rust Data

inductive CertEvent where
  | lookup (domain : Str)
  /-- `storage.put` and `invalidate`, as `check_and_renew` calls them -/
  | renew (domain : Str) (cert : CertData) (written : Nat)
  | advance (secs : Nat)
  /-- the cache has no room for the answer -/
  | evict (domain : Str)

variable {env : CertEnv}

theorem firstCert_later {certOf : Str → Option CertData} {now now' : Int} (hle : now ≤ now')
    {names : List Str} (hvalid : ∀ r ∈ firstCert certOf now names, r.2.isExpired now' = false) :
    firstCert certOf now' names = firstCert certOf now names := by
  induction names with
  | nil => rfl
  | cons name names ih =>
    rw [firstCert_cons] at hvalid
    rw [firstCert_cons, firstCert_cons]
    cases hcert : certOf name with
    | none =>
      rw [hcert] at hvalid
      exact ih hvalid
    | some cert =>
      rw [hcert] at hvalid
      cases hexpired : cert.isExpired now with
      | true =>
        have hlater : cert.isExpired now' = true :=
          decide_eq_true (Int.le_trans (of_decide_eq_true hexpired) hle)
        simp only [Option.filter, hexpired, hlater] at hvalid ⊢
        exact ih hvalid
      | false =>
        have hlater : cert.isExpired now' = false := by
          refine hvalid (name, cert) ?_
          simp [Option.filter, hexpired]
        simp [Option.filter, hexpired, hlater]

variable {name : Str} {cert : CertData}

namespace CertManager

def step (env : CertEnv) (s : CertManager) : CertEvent → CertManager
  | .lookup domain => (s.getCert env domain).2
  | .renew domain cert written =>
    invalidate { s with storage := s.storage.put env domain cert written } domain
  | .advance secs => { s with now := s.now + secs }
  | .evict domain => s.invalidate domain

def run (env : CertEnv) (s : CertManager) (events : List CertEvent) : CertManager :=
  events.foldl (step env) s

def uncached (env : CertEnv) (s : CertManager) (domain : Str) : Option CertData :=
  (resolution env s.storage s.now domain).map (·.2)

/-- The cache answers as the storage does. -/
def Coherent (env : CertEnv) (s : CertManager) : Prop :=
  ∀ domain, (s.getCert env domain).1 = s.uncached env (lowerName domain)

/-- The clock, and when the name was looked up: the first of the lookups that share an answer
counts, and a renewal of the name makes the next one the first again. -/
def noteLookup (name : Str) (note : Int × Option Int) : CertEvent → Int × Option Int
  | .lookup domain =>
    if lowerName domain = name ∧ ∀ at' ∈ note.2,
      at' + timeToLive ≤ note.1 then (note.1, some note.1)
    else note
  | .renew domain _ _ => (note.1, if name = domain then none else note.2)
  | .advance secs => (note.1 + secs, note.2)
  | .evict domain => (note.1, if name = domain then none else note.2)

/-- The name was looked up in the last 300 seconds. -/
def LookedUp (now : Int) (events : List CertEvent) (name : Str) : Prop :=
  let note := events.foldl (noteLookup name) (now, none)
  ∃ at' ∈ note.2, note.1 < at' + timeToLive

/-- Of the names that were looked up, none has a certificate that expires when the clock advances,
and none another one after a renewal. -/
def Keeps (env : CertEnv) (s : CertManager) (start : Int) (events : List CertEvent) :
    CertEvent → Prop
  | .advance secs => ∀ domain cert, LookedUp start (events ++ [.advance secs]) (lowerName domain) →
      s.uncached env (lowerName domain) = some cert → cert.isExpired (s.now + secs) = false
  | .renew renewed cert written => ∀ domain, lowerName domain ≠ renewed →
      LookedUp start events (lowerName domain) →
      uncached env { s with storage := s.storage.put env renewed cert written } (lowerName domain)
        = s.uncached env (lowerName domain)
  | _ => True

variable {s : CertManager}

/-! ## The names in the cache -/

/-- What the events say about a name: when the cache took its answer. -/
def noted (s : CertManager) (name : Str) : Int × Option Int := (s.now, (s.cache name).map (·.2))

theorem noted_invalidate (domain name : Str) :
    (s.invalidate domain).noted name =
    (s.now, if name = domain then none else (s.cache name).map (·.2)) := by
  unfold noted invalidate
  dsimp only
  split
  next heq => rw [heq, Function.update_self, Option.map_none]
  next hne => rw [Function.update_of_ne hne]

theorem cached_eq_none_iff : s.cached name = none ↔
    ∀ at' ∈ (s.noted name).2, at' + timeToLive ≤ (s.noted name).1 := by
  unfold cached noted
  cases s.cache name with
  | none => simp
  | some entry => simp

theorem noted_step (name : Str) (e : CertEvent) :
    (s.step env e).noted name = noteLookup name (s.noted name) e := by
  cases e with
  | renew domain cert written => exact noted_invalidate domain name
  | evict domain => exact noted_invalidate domain name
  | advance secs => rfl
  | lookup domain =>
    simp only [step, noteLookup]
    obtain ⟨answer, hcached, hget⟩ | ⟨hcached, storage, -, -, hget⟩ := s.getCert_cases env domain
    · rw [hget, if_neg]
      rintro ⟨rfl, hold⟩
      rw [cached_eq_none_iff.2 hold] at hcached
      cases hcached
    · rw [hget]
      unfold noted
      by_cases hname : lowerName domain = name
      · subst hname
        rw [if_pos ⟨rfl, cached_eq_none_iff.1 hcached⟩]
        dsimp only
        rw [Function.update_self, Option.map_some]
      · rw [if_neg fun h => hname h.1]
        dsimp only
        rw [Function.update_of_ne (Ne.symm hname)]

variable (env) in
theorem lookedUp_iff (storage : CertStorage) (now : Int) (events : List CertEvent) (name : Str) :
    LookedUp now events name ↔ ∃ answer, (run env { storage, now } events).cached name =
      some answer := by
  have hnoted : events.foldl (noteLookup name) (noted { storage, now } name)
      = (run env { storage, now } events).noted name :=
    List.foldl_hom (noted · name) fun s e => (noted_step (s := s) name e).symm
  rw [← Option.ne_none_iff_exists', Ne, cached_eq_none_iff, ← hnoted]
  simp only [not_forall, Int.not_le, exists_prop]
  rfl

/-! ## Which steps keep the cache coherent -/

theorem coherent_iff_cached : Coherent env s ↔ ∀ domain answer,
    s.cached (lowerName domain) = some answer → s.uncached env (lowerName domain) = answer := by
  refine forall_congr' fun domain => ?_
  obtain ⟨answer, hcached, hget⟩ | ⟨hcached, storage, -, -, hget⟩ := s.getCert_cases env domain
  · rw [hget, hcached]
    refine ⟨?_, fun h => (h answer rfl).symm⟩
    rintro h _ ⟨rfl⟩
    exact h.symm
  · rw [hget, hcached]
    exact iff_of_true rfl nofun

theorem uncached_valid {domain : Str} (h : s.uncached env domain = some cert) :
    cert.isExpired s.now = false := by
  obtain ⟨⟨name, cert⟩, hfound, rfl⟩ := Option.map_eq_some_iff.1 h
  exact (firstCert_some hfound).2

theorem cached_invalidate (domain name : Str) :
    (s.invalidate domain).cached name = if name = domain then none else s.cached name := by
  unfold cached invalidate
  dsimp only
  split
  next heq => rw [heq, Function.update_self, Option.bind_none]
  next hne => rw [Function.update_of_ne hne]

theorem uncached_later {secs : Nat}
    (h : ∀ cert, s.uncached env name = some cert → cert.isExpired (s.now + secs) = false) :
    (s.step env (.advance secs)).uncached env name = s.uncached env name := by
  have hle : s.now ≤ s.now + secs := Int.le_add_of_nonneg_right (Int.natCast_nonneg secs)
  have hvalid : ∀ r ∈ firstCert (s.storage.certOf env) s.now (candidates name),
      r.2.isExpired (s.now + secs) = false :=
    fun r hr => h r.2 (Option.map_eq_some_iff.2 ⟨r, hr, rfl⟩)
  exact congrArg (Option.map (·.2)) (firstCert_later hle hvalid)

theorem coherent_lookup (h : Coherent env s) (domain : Str) :
    Coherent env (s.step env (.lookup domain)) := by
  rw [coherent_iff_cached] at *
  simp only [step]
  obtain ⟨answer, -, hget⟩ | ⟨-, storage, -, hcertOf, hget⟩ := s.getCert_cases env domain
  · rw [hget]
    exact h
  rw [hget]
  intro name answer hcached
  have hsame : uncached env { s with storage } = uncached env s := by
    funext name
    rw [uncached, uncached, resolution, resolution, hcertOf]
  refine (congrFun hsame (lowerName name)).trans ?_
  unfold cached at hcached
  dsimp only at hcached
  by_cases heq : lowerName name = lowerName domain
  · have hlive : s.now < s.now + timeToLive := Int.lt_add_of_pos_right _ (by decide)
    rw [heq, Function.update_self, Option.bind_some, if_pos hlive] at hcached
    rw [heq]
    exact Option.some.inj hcached
  · rw [Function.update_of_ne heq] at hcached
    exact h name answer hcached

theorem coherent_evict (h : Coherent env s) (domain : Str) :
    Coherent env (s.step env (.evict domain)) := by
  rw [coherent_iff_cached] at *
  intro name answer hcached
  rw [step, cached_invalidate, Option.ite_none_left_eq_some] at hcached
  exact h name answer hcached.2

theorem coherent_advance_iff (h : Coherent env s) (secs : Nat) :
    Coherent env (s.step env (.advance secs)) ↔ ∀ domain cert,
      (∃ answer, (s.step env (.advance secs)).cached (lowerName domain) = some answer) →
      s.uncached env (lowerName domain) = some cert → cert.isExpired (s.now + secs) = false := by
  rw [coherent_iff_cached] at *
  -- an answer that the cache still has later, it has now
  have hbefore : ∀ domain answer,
      (s.step env (.advance secs)).cached (lowerName domain) = some answer →
      s.uncached env (lowerName domain) = answer := by
    intro domain answer hcached
    obtain ⟨⟨answer, since⟩, hentry, hlive⟩ := Option.bind_eq_some_iff.1 hcached
    obtain ⟨hlater, hanswer⟩ := Option.ite_none_right_eq_some.1 hlive
    cases hanswer
    have hnow : s.now < since + timeToLive := by
      dsimp only [step] at hlater
      omega
    exact h domain _ (Option.bind_eq_some_iff.2 ⟨(answer, since), hentry, if_pos hnow⟩)
  constructor
  · rintro hlater domain cert ⟨answer, hcached⟩ hcert
    have hanswer := hlater domain answer hcached
    rw [← hbefore domain answer hcached, hcert] at hanswer
    exact uncached_valid hanswer
  · intro hkeeps domain answer hcached
    rw [← hbefore domain answer hcached]
    exact uncached_later fun cert => hkeeps domain cert ⟨answer, hcached⟩

theorem coherent_renew_iff (h : Coherent env s) (renewed : Str) (cert : CertData) (written : Nat) :
    Coherent env (s.step env (.renew renewed cert written)) ↔ ∀ domain, lowerName domain ≠ renewed →
      (∃ answer, s.cached (lowerName domain) = some answer) →
      uncached env { s with storage := s.storage.put env renewed cert written } (lowerName domain)
        = s.uncached env (lowerName domain) := by
  rw [coherent_iff_cached] at *
  refine forall_congr' fun domain => ?_
  rw [show (s.step env (.renew renewed cert written)).cached (lowerName domain) =
    if lowerName domain = renewed then none else s.cached (lowerName domain) from
    cached_invalidate renewed (lowerName domain)]
  constructor
  · rintro hlater hne ⟨answer, hcached⟩
    exact (hlater answer ((if_neg hne).trans hcached)).trans (h domain answer hcached).symm
  · intro hkeeps answer hcached
    obtain ⟨hne, hcached⟩ := Option.ite_none_left_eq_some.1 hcached
    exact (hkeeps hne ⟨answer, hcached⟩).trans (h domain answer hcached)

/-- A step out of a coherent state leads to a coherent one exactly if it keeps the answers. -/
theorem coherent_step_iff {storage : CertStorage} {now : Int} {events : List CertEvent}
    (h : Coherent env (run env { storage, now } events)) (e : CertEvent) :
    Coherent env (run env { storage, now } (events ++ [e])) ↔
      Keeps env (run env { storage, now } events) now events e := by
  have hrun : run env { storage, now } (events ++ [e]) =
      (run env { storage, now } events).step env e :=
    List.foldl_concat ..
  cases e with
  | lookup domain => exact iff_of_true (hrun ▸ coherent_lookup h domain) trivial
  | evict domain => exact iff_of_true (hrun ▸ coherent_evict h domain) trivial
  | advance secs =>
    rw [hrun, coherent_advance_iff h]
    simp only [Keeps, lookedUp_iff env storage now, hrun]
  | renew domain cert written =>
    rw [hrun, coherent_renew_iff h]
    simp only [Keeps, lookedUp_iff env storage now]

/-! ## Renewed certificates -/

theorem lookup_step (h : s.storage.memory.lookup name = some cert)
    {e : CertEvent} (he : ∀ cert written, e ≠ .renew name cert written) :
    (s.step env e).storage.memory.lookup name = some cert := by
  cases e with
  | lookup domain =>
    simp only [step]
    obtain ⟨answer, -, hget⟩ | ⟨-, storage, rfl, -, hget⟩ := s.getCert_cases env domain
    · rw [hget]
      exact h
    · rw [hget]
      exact lookup_firstValid h _ _
  | evict | advance => exact h
  | renew domain cert' written =>
    have hne : name ≠ domain := by
      rintro rfl
      exact he cert' written rfl
    exact (s.storage.lookup_put env domain cert' written name).trans ((if_neg hne).trans h)

theorem lookup_run {events : List CertEvent} (h : s.storage.memory.lookup name = some cert)
    (he : ∀ cert written, .renew name cert written ∉ events) :
    (s.run env events).storage.memory.lookup name = some cert := by
  refine List.foldlRecOn (motive := fun s : CertManager => s.storage.memory.lookup name = some cert)
    events _ h ?_
  exact fun s h e hmem => lookup_step h fun cert written heq => he cert written (heq ▸ hmem)

/-- A manager that starts with an empty cache answers as its storage does throughout a run exactly
if every step keeps it so. -/
theorem getCert_coherent (env : CertEnv) (storage : CertStorage) (now : Int)
    (events : List CertEvent) :
    ((∀ pre, pre <+: events → Coherent env (run env { storage, now } pre)) ↔
      ∀ pre e, pre ++ [e] <+: events → Keeps env (run env { storage, now } pre) now pre e) ∧
    (Coherent env (run env { storage, now } events) →
      (∀ domain cert, ((run env { storage, now } events).getCert env domain).1 = some cert →
        cert.isExpired (run env { storage, now } events).now = false) ∧
      ∀ a b renewed cert written, events = a ++ .renew renewed cert written :: b →
        (∀ cert written, .renew renewed cert written ∉ b) → ∀ domain cert',
        resolution env (run env { storage, now } events).storage
        (run env { storage, now } events).now
          (lowerName domain) = some (renewed, cert') →
        ((run env { storage, now } events).getCert env domain).1 = some cert) := by
  constructor
  · exact forall_prefix_concat_iff (P := fun pre => Coherent env (run env { storage, now } pre))
      (coherent_iff_cached.2 nofun) (fun _ e h => coherent_step_iff h e) events
  intro hcoherent
  constructor
  · intro domain cert hget
    rw [hcoherent] at hget
    exact uncached_valid hget
  rintro a b renewed cert written rfl hlast domain cert' hresolution
  have hput : ((run env { storage, now } a).step env
      (.renew renewed cert written)).storage.memory.lookup renewed = some cert :=
    ((run env { storage, now } a).storage.lookup_put env renewed cert written renewed).trans
      (if_pos rfl)
  have hmemory : (run env { storage, now }
      (a ++ .renew renewed cert written :: b)).storage.memory.lookup
      renewed = some cert := by
    rw [run, List.foldl_append, List.foldl_cons]
    exact lookup_run hput hlast
  have hcert := (firstCert_some hresolution).1
  rw [CertStorage.certOf, hmemory, Option.some_or] at hcert
  rw [hcoherent, uncached, hresolution, Option.map_some, hcert]

def wildcardCert (key : Str) (expiresAt : Int) : CertData where
  certPem := []
  keyPem := key
  chainPem := none
  expiresAt := expiresAt
  provider := none
  domains := []

def wildcardStorage : CertStorage :=
  { memory := AList.insert "*.e.test" (wildcardCert "K1" 100) ∅ }

/-- The wildcard is renewed, and a lookup still gets the old certificate, before it expires and
after. -/
theorem getCert_coherent_fails :
    let env : CertEnv := ⟨"certs".toList, [], nofun, fun _ => none⟩
    let renewal := CertEvent.renew "*.e.test".toList (wildcardCert "K2".toList 9000) 2
    let s := run env { storage := wildcardStorage, now := 0 } [.lookup "a.e.test".toList, renewal]
    let later := s.step env (.advance 200)
    resolution env s.storage s.now "a.e.test".toList = some
    ("*.e.test".toList, wildcardCert "K2".toList 9000) ∧
      (s.getCert env "a.e.test".toList).1 = some (wildcardCert "K1".toList 100) ∧
      (later.getCert env "a.e.test".toList).1 = some (wildcardCert "K1".toList 100) ∧
      (wildcardCert "K1".toList 100).isExpired later.now = true := by
  decide +kernel

end CertManager

end Nozdormu.Ssl
