import Nozdormu.Ssl.Lookup

/-!
# The files that a lookup reads

The name in a ClientHello becomes part of a path. Every file that a lookup reads lies in the
directory of the name it is read for exactly if the name is the name of one directory: not empty,
not `.` or `..`, and without a `/`. Wildcard and default never leave their directories on their own
(`plain_of_mem_candidates`).
-/

namespace Nozdormu.Ssl

open Rust List

variable {env : CertEnv}

def OwnFile (env : CertEnv) (o : Str × List Str) : Prop :=
  o.2.dropLast = resolve env.cwd env.certsDir ++ ["acme".toList, o.1]

instance (env : CertEnv) (o : Str × List Str) : Decidable (OwnFile env o) :=
  inferInstanceAs (Decidable (_ = _))

theorem ownFile_iff {name file : Str} (hfile : PlainName file) :
    OwnFile env (name, resolve env.cwd (joinPath (env.certDir name) file)) ↔ PlainName name := by
  have hacme : PlainName "acme" := by decide
  unfold OwnFile CertEnv.certDir
  rw [resolve_join_plain hfile, dropLast_concat, ← resolve_join_iff env.cwd_names,
    resolve_join_plain hacme, append_assoc, singleton_append]

theorem ownFile_of_isRead {o : Str × List Str} (h : CertStorage.IsRead env o)
    (hplain : PlainName o.1) :
    OwnFile env o := by
  obtain ⟨name, path⟩ := o
  rcases h with hpath | hpath <;> dsimp only at hpath <;> rw [hpath]
  · exact (ownFile_iff (by decide)).2 hplain
  · exact (ownFile_iff (by decide)).2 hplain

theorem plain_of_mem_candidates {domain : Str} (h : PlainName domain) :
    ∀ name ∈ candidates domain, PlainName name := by
  intro name hmem
  rw [candidates, mem_cons, mem_append, Option.mem_toList, mem_singleton] at hmem
  rcases hmem with rfl | hwildcard | rfl
  · exact h
  · obtain ⟨⟨label, rest⟩, hsplit, rfl⟩ := Option.map_eq_some_iff.1 hwildcard
    have hrest : '/' ∉ rest := by
      intro hsep
      rw [eq_append_of_splitOnce hsplit] at h
      exact h.2.2.2 (mem_append_right _ hsep)
    refine ⟨nofun, ?_, ?_, ?_⟩ <;> simp [hrest]
  · decide

theorem opened_firstValid (env : CertEnv) (now : Int) (names : List Str) (storage : CertStorage) :
    ∃ reads,
    (firstValid now (names.map fun name st => st.get env name) storage).2.opened =
        storage.opened ++ reads ∧
      (∀ name ∈ names.head?, storage.memory.lookup name = none →
        (name, env.fullchainPath name) ∈ reads) ∧
      ∀ o ∈ reads, o.1 ∈ names ∧ CertStorage.IsRead env o := by
  induction names generalizing storage with
  | nil => exact ⟨[], (append_nil _).symm, nofun, nofun⟩
  | cons name names ih =>
    obtain ⟨reads, hopened, hfirst, hreads⟩ := storage.opened_get env name
    have hown : ∀ o ∈ reads, o.1 ∈ name :: names ∧ CertStorage.IsRead env o := by
      intro o hmem
      obtain ⟨rfl, hread⟩ := hreads o hmem
      exact ⟨mem_cons_self, hread⟩
    rw [map_cons, firstValid]
    generalize storage.get env name = found at hopened ⊢
    obtain ⟨found, storage'⟩ := found
    obtain ⟨later, hlater, -, hlaterReads⟩ := ih storage'
    -- where the next candidate is tried, its reads come after those made for this one
    have hnext : ∃ reads,
        (firstValid now (names.map fun name st => st.get env name) storage').2.opened =
          storage.opened ++ reads ∧
        (∀ first ∈ (name :: names).head?, storage.memory.lookup first = none →
          (first, env.fullchainPath first) ∈ reads) ∧
        ∀ o ∈ reads, o.1 ∈ name :: names ∧ CertStorage.IsRead env o := by
      refine ⟨reads ++ later, ?_, ?_, ?_⟩
      · rw [hlater, hopened, append_assoc]
      · rintro first ⟨rfl⟩ hmemory
        exact mem_append_left _ (hfirst hmemory)
      · intro o hmem
        rcases mem_append.1 hmem with hin | hin
        · exact hown o hin
        · exact ⟨mem_cons_of_mem _ (hlaterReads o hin).1, (hlaterReads o hin).2⟩
    cases found with
    | none => exact hnext
    | some cert =>
      dsimp only
      split
      · refine ⟨reads, hopened, ?_, hown⟩
        rintro first ⟨rfl⟩ hmemory
        exact hfirst hmemory
      · exact hnext

/-- Every read of every lookup for a server name, made for the name, its wildcard or the default,
stays in the directory it is made for, exactly if the name is plain. -/
theorem getCert_confined_iff (env : CertEnv) (serverName : Option Str) :
    (∀ s : CertManager, ∃ reads,
      (s.getCert env (sniName serverName)).2.storage.opened = s.storage.opened ++ reads ∧
      ∀ o ∈ reads, o.1 ∈ candidates (lowerName (sniName serverName)) ∧ OwnFile env o) ↔
    PlainName (lowerName (sniName serverName)) := by
  constructor
  · intro h
    -- a manager that has nothing yet opens a file for the name itself
    have hread : (lowerName (sniName serverName),
        env.fullchainPath (lowerName (sniName serverName))) ∈
        (CertManager.getCert env { storage := {}, now := 0 }
          (sniName serverName)).2.storage.opened := by
      obtain ⟨reads, hopened, hfirst, -⟩ := opened_firstValid env 0
        (candidates (lowerName (sniName serverName))) {}
      obtain ⟨_, hcached, -⟩ | ⟨-, storage, rfl, -, hget⟩ :=
        CertManager.getCert_cases env { storage := {}, now := 0 } (sniName serverName)
      · exact absurd hcached nofun
      · rw [hget]
        rw [hopened]
        exact mem_append_right _ (hfirst _ rfl rfl)
    obtain ⟨reads, hopened, hreads⟩ := h { storage := {}, now := 0 }
    rw [hopened] at hread
    exact (ownFile_iff (by decide)).1 (hreads _ hread).2
  · intro hplain s
    obtain ⟨answer, -, hget⟩ | ⟨-, storage, rfl, -, hget⟩ := s.getCert_cases env
      (sniName serverName)
    · rw [hget]
      exact ⟨[], (append_nil _).symm, nofun⟩
    rw [hget]
    obtain ⟨reads, hopened, -, hreads⟩ := opened_firstValid env s.now
      (candidates (lowerName (sniName serverName))) s.storage
    refine ⟨reads, hopened, ?_⟩
    intro o hmem
    obtain ⟨hname, hread⟩ := hreads o hmem
    exact ⟨hname, ownFile_of_isRead hread (plain_of_mem_candidates hplain o.1 hname)⟩

def srvEnv : CertEnv where
  certsDir := "/srv/certs"
  cwd := []
  cwd_names := root_names
  parseExpiry := fun _ => some 2000000000

def otherPair : Files := fun path =>
  if path = ["srv", "other", "site", "fullchain.pem"] then some "C"
  else if path = ["srv", "other", "site", "privkey.pem"] then some "K"
  else none

/-- The name `../../other/site` is answered with a key pair from outside of the directory. -/
theorem getCert_confined_fails :
    let s : CertManager := { storage := { files := otherPair }, now := 1700000000 }
    let name := "../../other/site".toList
    let r := s.getCert srvEnv (sniName (some name))
    (name, ["srv".toList, "other".toList, "site".toList, "privkey.pem".toList]) ∈
      r.2.storage.opened ∧
      (∀ o ∈ r.2.storage.opened, ¬ OwnFile srvEnv o) ∧
      r.1.map (·.keyPem) = some "K".toList := by
  decide +kernel

end Nozdormu.Ssl
