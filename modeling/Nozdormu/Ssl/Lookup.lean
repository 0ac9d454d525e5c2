import Nozdormu.Ssl.Storage

/-!
# Looking up a certificate
-/

namespace Nozdormu.Ssl

open Rust

structure CertManager where
  storage : CertStorage
  /-- the answer, and when it was given -/
  cache : Str → Option (Option CertData × Int) := fun _ => none
  now : Int

def lowerName (domain : Str) : Str := domain.map Char.toLower

def firstValid (now : Int) : (lookups : List (CertStorage → Option CertData × CertStorage)) →
    (storage : CertStorage) → Option CertData × CertStorage
  | [], storage => (none, storage)
  | look :: lookups, storage =>
    match look storage with
    | (some cert, storage) =>
      if !cert.isExpired now then (some cert, storage) else firstValid now lookups storage
    | (none, storage) => firstValid now lookups storage

namespace CertManager

variable (env : CertEnv)

/-- How long the cache keeps an answer, in seconds. -/
def timeToLive : Int := 300

variable (s : CertManager) (domain : Str)

def cached : Option (Option CertData) :=
  (s.cache domain).bind fun entry => if s.now < entry.2 + timeToLive then some entry.1 else none

def getCert : Option CertData × CertManager :=
  let domain := lowerName domain
  match s.cached domain with
  | some answer => (answer, s)
  | none =>
    let (answer, storage) := firstValid s.now
      [fun st => st.get env domain, fun st => st.getWildcard env domain, fun st =>
        st.getDefault env]
      s.storage
    (answer, { s with storage, cache := Function.update s.cache domain (some (answer, s.now)) })

def invalidate : CertManager :=
  { s with cache := Function.update s.cache domain none }

end CertManager

/-- The name that `certificate_callback` looks up. -/
def sniName (serverName : Option Str) : Str := serverName.getD CertStorage.defaultName

def candidates (domain : Str) : List Str :=
  domain :: ((CertStorage.wildcardName domain).toList ++ [CertStorage.defaultName])

def firstCert (certOf : Str → Option CertData) (now : Int) (names : List Str) :
    Option (Str × CertData) :=
  names.findSome? fun name =>
    ((certOf name).filter fun cert => !cert.isExpired now).map fun cert => (name, cert)

def resolution (env : CertEnv) (storage : CertStorage) (now : Int) (domain : Str) :
    Option (Str × CertData) :=
  firstCert (storage.certOf env) now (candidates domain)

variable {env : CertEnv} {now : Int}

theorem firstCert_cons (certOf : Str → Option CertData) (name : Str) (names : List Str) :
    firstCert certOf now (name :: names) =
      (((certOf name).filter fun cert => !cert.isExpired now).map fun cert => (name, cert)).or
        (firstCert certOf now names) := by
  unfold firstCert
  rw [List.findSome?_cons]
  cases ((certOf name).filter fun cert => !cert.isExpired now) <;> rfl

theorem firstCert_some {certOf : Str → Option CertData} {names : List Str} {name : Str}
    {cert : CertData} (h : firstCert certOf now names = some (name, cert)) :
    certOf name = some cert ∧ cert.isExpired now = false := by
  obtain ⟨name', -, hname⟩ := List.exists_of_findSome?_eq_some h
  obtain ⟨cert', hfilter, heq⟩ := Option.map_eq_some_iff.1 hname
  cases heq
  obtain ⟨hcert, hvalid⟩ := Option.filter_eq_some_iff.1 hfilter
  exact ⟨hcert, by simpa using hvalid⟩

theorem firstValid_gets (env : CertEnv) (now : Int) (names : List Str) (storage : CertStorage) :
    (firstValid now (names.map fun name st => st.get env name) storage).1 =
        (firstCert (storage.certOf env) now names).map (·.2) ∧
      (firstValid now (names.map fun name st => st.get env name) storage).2.certOf env =
        storage.certOf env := by
  induction names generalizing storage with
  | nil => exact ⟨rfl, rfl⟩
  | cons name names ih =>
    have hkept : (storage.get env name).2.certOf env = storage.certOf env :=
      funext (storage.certOf_get env name)
    have hfound := storage.get_fst env name
    rw [List.map_cons, firstValid, firstCert_cons, ← hfound]
    generalize storage.get env name = found at hkept ⊢
    obtain ⟨found, storage'⟩ := found
    obtain ⟨ihfirst, ihkept⟩ := ih storage'
    rw [hkept] at ihfirst ihkept
    cases found with
    | none => exact ⟨ihfirst, ihkept⟩
    | some cert =>
      cases hexpired : cert.isExpired now with
      | false => simpa [Option.filter, hexpired] using hkept
      | true => simpa [Option.filter, hexpired] using ⟨ihfirst, ihkept⟩

theorem lookup_firstValid {name : Str} {cert : CertData} {storage : CertStorage}
    (h : storage.memory.lookup name = some cert) (now : Int) (names : List Str) :
    (firstValid now (names.map fun name st => st.get env name) storage).2.memory.lookup name =
      some cert := by
  induction names generalizing storage with
  | nil => exact h
  | cons first names ih =>
    have hkept := (storage.grows_get env first).2 name cert h
    rw [List.map_cons, firstValid]
    generalize storage.get env first = found at hkept ⊢
    obtain ⟨found, storage'⟩ := found
    cases found with
    | none => exact ih hkept
    | some cert' =>
      dsimp only
      split
      · exact hkept
      · exact ih hkept

namespace CertManager

variable (env : CertEnv) (s : CertManager) (domain : Str)

theorem getCert_cases :
    (∃ answer, s.cached (lowerName domain) = some answer ∧ s.getCert env domain = (answer, s)) ∨
    s.cached (lowerName domain) = none ∧ ∃ storage : CertStorage,
      storage = (firstValid s.now ((candidates (lowerName domain)).map fun name st =>
        st.get env name)
        s.storage).2 ∧
      storage.certOf env = s.storage.certOf env ∧
      s.getCert env domain = ((resolution env s.storage s.now (lowerName domain)).map (·.2),
        { s with
          storage
          cache := Function.update s.cache (lowerName domain)
            (some ((resolution env s.storage s.now (lowerName domain)).map (·.2), s.now)) }) := by
  unfold getCert
  dsimp only
  cases s.cached (lowerName domain) with
  | some answer => exact .inl ⟨answer, rfl, rfl⟩
  | none =>
    have hgets := firstValid_gets env s.now (candidates (lowerName domain)) s.storage
    refine .inr ⟨rfl, _, rfl, hgets.2, ?_⟩
    rw [resolution, ← hgets.1]
    -- the wildcard is tried where there is one
    unfold candidates CertStorage.getWildcard
    cases CertStorage.wildcardName (lowerName domain) with
    | none | some => rfl

end CertManager

end Nozdormu.Ssl
