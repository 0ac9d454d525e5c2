import Mathlib.Data.List.AList
import Nozdormu.Rust.Path

/-!
# Stored certificates

`cdn-proxy/src/ssl/storage.rs`: certificates in memory, under their names, and in files below the
certificate directory. What is not in memory is looked for in the files and then kept in memory, so
from then on changes of the files go unnoticed.
-/

namespace Nozdormu.Ssl

open Rust

structure CertData where
  certPem : Str
  keyPem : Str
  chainPem : Option Str
  /-- seconds since the epoch, `i64` -/
  expiresAt : Int
  provider : Option Str
  domains : List Str
deriving DecidableEq

/-- `i64` arithmetic in a release build. -/
def wrapI64 (v : Int) : Int := Int.bmod v (2 ^ 64)

namespace CertData

def isExpired (now : Int) (cert : CertData) : Bool := decide (cert.expiresAt ≤ now)

/-- In a release build; with overflow checks a number of days beyond the range is a panic. -/
def needsRenewal (now : Int) (days : Nat) (cert : CertData) : Bool :=
  let threshold := wrapI64 (cert.expiresAt - wrapI64 (wrapI64 days * 86400))
  decide (threshold ≤ now)

def fullchainPem (cert : CertData) : Str :=
  match cert.chainPem with
  | some chain => trim cert.certPem ++ '\n' :: trim chain
  | none => cert.certPem

theorem needsRenewal_mono {now now' : Int} (hle : now ≤ now') {days : Nat} {cert : CertData}
    (h : cert.needsRenewal now days = true) : cert.needsRenewal now' days = true := by
  rw [needsRenewal, decide_eq_true_iff] at h ⊢
  exact Int.le_trans h hle

end CertData

structure CertEnv where
  certsDir : Str
  /-- the directory that relative paths start from -/
  cwd : List Str
  cwd_names : ∀ name ∈ cwd, '/' ∉ name
  /-- `parse_expiry` -/
  parseExpiry : Str → Option Int

theorem root_names : ∀ name ∈ ([] : List Str), '/' ∉ name := nofun

/-- The texts of the files, by the names on the way to them. -/
abbrev Files := List Str → Option Str

structure CertStorage where
  memory : AList fun _ : Str => CertData := ∅
  files : Files := fun _ => none
  opened : List (Str × List Str) := []

namespace CertEnv

variable (env : CertEnv)

def certDir (domain : Str) : Str := joinPath (joinPath env.certsDir "acme") domain

def fullchainPath (domain : Str) : List Str :=
  resolve env.cwd (joinPath (env.certDir domain) "fullchain.pem")

def privkeyPath (domain : Str) : List Str :=
  resolve env.cwd (joinPath (env.certDir domain) "privkey.pem")

def certOfFiles (certPem keyPem : Str) : CertData where
  certPem := certPem
  keyPem := keyPem
  chainPem := none
  expiresAt := (env.parseExpiry certPem).getD 0
  provider := none
  domains := []

end CertEnv

namespace CertStorage

variable (env : CertEnv)

def read (s : CertStorage) (domain : Str) (path : List Str) : Option Str × CertStorage :=
  (s.files path, { s with opened := s.opened ++ [(domain, path)] })

def loadFromFile (s : CertStorage) (domain : Str) : Option CertData × CertStorage :=
  match s.read domain (env.fullchainPath domain) with
  | (none, s) => (none, s)
  | (some certPem, s) =>
    match s.read domain (env.privkeyPath domain) with
    | (none, s) => (none, s)
    | (some keyPem, s) => (some (env.certOfFiles certPem keyPem), s)

def get (s : CertStorage) (domain : Str) : Option CertData × CertStorage :=
  match s.memory.lookup domain with
  | some cert => (some cert, s)
  | none =>
    match s.loadFromFile env domain with
    | (some cert, s) => (some cert, { s with memory := s.memory.insert domain cert })
    | (none, s) => (none, s)

/-- `save_to_file`; an error may keep it from the first file, or from the second. -/
def saveToFile (s : CertStorage) (domain : Str) (cert : CertData) (written : Nat) : CertStorage :=
  let s :=
    if 1 ≤ written then
      { s with
        files := Function.update s.files (env.fullchainPath domain) (some cert.fullchainPem) }
    else s
  if 2 ≤ written then
    { s with files := Function.update s.files (env.privkeyPath domain) (some cert.keyPem) }
  else s

def put (s : CertStorage) (domain : Str) (cert : CertData) (written : Nat) : CertStorage :=
  let s := s.saveToFile env domain cert written
  { s with memory := s.memory.insert domain cert }

def listDomains (s : CertStorage) : List Str := s.memory.keys

def defaultName : Str := "_default"

def wildcardName (domain : Str) : Option Str :=
  (splitOnce "." domain).map fun r => "*." ++ r.2

def getDefault (s : CertStorage) : Option CertData × CertStorage := s.get env defaultName

def getWildcard (s : CertStorage) (domain : Str) : Option CertData × CertStorage :=
  match wildcardName domain with
  | some wildcard => s.get env wildcard
  | none => (none, s)

/-! ## What is stored under a name -/

/-- What the files hold. -/
def fileCert (s : CertStorage) (domain : Str) : Option CertData :=
  (s.files (env.fullchainPath domain)).bind fun certPem =>
    (s.files (env.privkeyPath domain)).map (env.certOfFiles certPem)

def certOf (s : CertStorage) (domain : Str) : Option CertData :=
  (s.memory.lookup domain).or (s.fileCert env domain)

variable (s : CertStorage) (domain : Str)

theorem loadFromFile_fst : (s.loadFromFile env domain).1 = s.fileCert env domain := by
  unfold loadFromFile fileCert read
  cases s.files (env.fullchainPath domain) with
  | none => rfl
  | some certPem =>
    dsimp only
    cases s.files (env.privkeyPath domain) <;> rfl

theorem loadFromFile_snd : (s.loadFromFile env domain).2.memory = s.memory ∧
    (s.loadFromFile env domain).2.files = s.files := by
  unfold loadFromFile read
  cases s.files (env.fullchainPath domain) with
  | none => exact ⟨rfl, rfl⟩
  | some certPem =>
    dsimp only
    cases s.files (env.privkeyPath domain) <;> exact ⟨rfl, rfl⟩

/-- The files that a lookup of a name may open. -/
def IsRead (o : Str × List Str) : Prop := o.2 = env.fullchainPath o.1 ∨ o.2 = env.privkeyPath o.1

theorem opened_loadFromFile : ∃ reads, (s.loadFromFile env domain).2.opened = s.opened ++ reads ∧
    (domain, env.fullchainPath domain) ∈ reads ∧ ∀ o ∈ reads, o.1 = domain ∧ IsRead env o := by
  unfold loadFromFile read IsRead
  cases s.files (env.fullchainPath domain) with
  | none => exact ⟨[(domain, env.fullchainPath domain)], rfl, by simp, by simp⟩
  | some certPem =>
    refine ⟨[(domain, env.fullchainPath domain), (domain, env.privkeyPath domain)], ?_,
      by simp, by simp⟩
    dsimp only
    cases s.files (env.privkeyPath domain) <;> simp

theorem get_cases :
    (∃ cert, s.memory.lookup domain = some cert ∧ s.get env domain = (some cert, s)) ∨
    (s.memory.lookup domain = none ∧ s.fileCert env domain = none ∧
      s.get env domain = (none, (s.loadFromFile env domain).2)) ∨
    (s.memory.lookup domain = none ∧ ∃ cert, s.fileCert env domain = some cert ∧
      s.get env domain = (some cert,
        { (s.loadFromFile env domain).2 with memory := s.memory.insert domain cert })) := by
  have hsource := s.loadFromFile_fst env domain
  have hkept := (s.loadFromFile_snd env domain).1
  unfold get
  cases s.memory.lookup domain with
  | some cert => exact .inl ⟨cert, rfl, rfl⟩
  | none =>
    refine .inr ?_
    generalize s.loadFromFile env domain = loaded at hsource hkept ⊢
    obtain ⟨found, s'⟩ := loaded
    cases found with
    | none => exact .inl ⟨rfl, hsource.symm, rfl⟩
    | some cert =>
      refine .inr ⟨rfl, cert, hsource.symm, ?_⟩
      rw [← hkept]

theorem get_fst : (s.get env domain).1 = s.certOf env domain := by
  unfold certOf
  obtain ⟨cert, hmemory, hget⟩ | ⟨hmemory, hfile, hget⟩ | ⟨hmemory, cert, hfile, hget⟩ :=
    s.get_cases env domain
  · rw [hget, hmemory, Option.some_or]
  · rw [hget, hmemory, hfile, Option.none_or]
  · rw [hget, hmemory, hfile, Option.none_or]

theorem opened_get : ∃ reads, (s.get env domain).2.opened = s.opened ++ reads ∧
    (s.memory.lookup domain = none → (domain, env.fullchainPath domain) ∈ reads) ∧
    ∀ o ∈ reads, o.1 = domain ∧ IsRead env o := by
  obtain ⟨reads, hopened, hfirst, hreads⟩ := s.opened_loadFromFile env domain
  obtain ⟨cert, hmemory, hget⟩ | ⟨-, -, hget⟩ | ⟨-, cert, -, hget⟩ := s.get_cases env domain
  · rw [hget, hmemory]
    exact ⟨[], (List.append_nil _).symm, nofun, nofun⟩
  · rw [hget]
    exact ⟨reads, hopened, fun _ => hfirst, hreads⟩
  · rw [hget]
    exact ⟨reads, hopened, fun _ => hfirst, hreads⟩

theorem files_get : (s.get env domain).2.files = s.files := by
  obtain ⟨cert, -, hget⟩ | ⟨-, -, hget⟩ | ⟨-, cert, -, hget⟩ := s.get_cases env domain
  · rw [hget]
  · rw [hget, (s.loadFromFile_snd env domain).2]
  · rw [hget]
    exact (s.loadFromFile_snd env domain).2

theorem lookup_get (name : Str) : (s.get env domain).2.memory.lookup name =
    if name = domain then s.certOf env domain else s.memory.lookup name := by
  unfold certOf
  obtain ⟨cert, hmemory, hget⟩ | ⟨hmemory, hfile, hget⟩ | ⟨hmemory, cert, hfile, hget⟩ :=
    s.get_cases env domain
  · rw [hget, hmemory, Option.some_or]
    split
    next heq => rw [heq, hmemory]
    next => rfl
  · rw [hget, hmemory, hfile, (s.loadFromFile_snd env domain).1]
    split
    next heq => rw [heq, hmemory, Option.none_or]
    next => rfl
  · rw [hget, hmemory, hfile]
    split
    next heq => rw [heq, AList.lookup_insert, Option.none_or]
    next hne => exact AList.lookup_insert_ne hne

theorem lookup_get_self : (s.get env domain).2.memory.lookup domain = (s.get env domain).1 := by
  rw [lookup_get, if_pos rfl, get_fst]

/-- Nothing is lost from memory, and the files are the same. -/
def Grows (s s' : CertStorage) : Prop :=
  s'.files = s.files ∧
    ∀ name cert, s.memory.lookup name = some cert → s'.memory.lookup name = some cert

theorem Grows.refl : s.Grows s := ⟨rfl, fun _ _ h => h⟩

theorem grows_get : s.Grows (s.get env domain).2 := by
  refine ⟨s.files_get env domain, ?_⟩
  intro name cert hcert
  rw [lookup_get, certOf]
  split
  next heq => rw [← heq, hcert, Option.some_or]
  next => exact hcert

theorem certOf_get (name : Str) : (s.get env domain).2.certOf env name = s.certOf env name := by
  have hfile : (s.get env domain).2.fileCert env name = s.fileCert env name := by
    rw [fileCert, fileCert, files_get]
  rw [certOf, hfile, lookup_get]
  split
  next heq => rw [heq, certOf, Option.or_assoc, Option.or_self]
  next => rfl

theorem lookup_put (cert : CertData) (written : Nat) (name : Str) :
    (s.put env domain cert written).memory.lookup name =
      if name = domain then some cert else s.memory.lookup name := by
  have hmemory : (s.saveToFile env domain cert written).memory = s.memory := by
    unfold saveToFile
    split <;> split <;> rfl
  unfold put
  dsimp only
  rw [hmemory]
  split
  next heq => rw [heq, AList.lookup_insert]
  next hne => rw [AList.lookup_insert_ne hne]

end CertStorage

end Nozdormu.Ssl
