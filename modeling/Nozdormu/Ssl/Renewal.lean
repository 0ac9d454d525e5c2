import Nozdormu.Data.Runs
import Nozdormu.Ssl.Storage

/-!
# Renewal scans
-/

namespace Nozdormu.Ssl

open Rust Data

variable {ι : Type} [DecidableEq ι]

/-- The owner of each lock key. -/
abbrev Locks (ι : Type) := Str → Option ι

namespace Locks

variable (locks : Locks ι) (redis : Bool) (key : Str) (owner : ι)

/-- `acquire`: `set_nx_ex`, which without Redis gets nothing. -/
def acquire : Bool × Locks ι :=
  if redis && (locks key).isNone then (true, Function.update locks key (some owner))
    else (false, locks)

/-- `release`: the script deletes the key of its owner. -/
def release : Locks ι :=
  if redis && decide (locks key = some owner) then Function.update locks key none else locks

omit [DecidableEq ι] in
theorem acquire_cases : (locks key = none ∧ redis = true ∧
      locks.acquire redis key owner = (true, Function.update locks key (some owner))) ∨
    locks.acquire redis key owner = (false, locks) := by
  unfold acquire
  split
  next h =>
    rw [Bool.and_eq_true, Option.isNone_iff_eq_none] at h
    exact .inl ⟨h.2, h.1, rfl⟩
  next => exact .inr rfl

end Locks

def lockKey (name : Str) : Str := "nozdormu:lock:" ++ name

def renewalScan : Str := "renewal:scan"

def renewalDomain (domain : Str) : Str := "renewal:" ++ domain

structure IssuedCert where
  certPem : Str
  keyPem : Str
  chainPem : Option Str
  provider : Str

structure RenewalEnv extends CertEnv where
  renewalDays : Nat
  /-- whether Redis is configured -/
  redis : Bool

inductive Phase where
  | idle
  /-- before the next name -/
  | scanning (todo : List Str)
  /-- has the lock of the name, before it asks again -/
  | checking (domain : Str) (cert : CertData) (todo : List Str)
  /-- waits for the issuer -/
  | issuing (domain : Str) (domains : List Str) (todo : List Str)
  /-- before it gives the lock of the name back -/
  | releasing (domain : Str) (todo : List Str)

def Phase.renewing : Phase → Option Str
  | .checking domain _ _ => some domain
  | .issuing domain _ _ => some domain
  | _ => none

structure RenewalNode where
  memory : AList fun _ : Str => CertData
  phase : Phase := .idle

structure Cluster (ι : Type) where
  nodes : ι → RenewalNode
  files : Files
  now : Int
  locks : Locks ι := fun _ => none
  attempts : List (ι × Str) := []
  issued : List (ι × Str) := []

inductive RenewalEvent (ι : Type) where
  /-- a call of `check_and_renew` -/
  | start (i : ι)
  /-- the next step of the node, with the answer of the issuer if it waits for one -/
  | proceed (i : ι) (reply : Option IssuedCert) (written : Nat)
  /-- a lookup of the storage, for a handshake -/
  | lookup (i : ι) (domain : Str)
  | advance (secs : Nat)

def IssuedCert.newCert (env : RenewalEnv) (now : Int) (issued : IssuedCert) (domains : List Str) :
    CertData where
  certPem := issued.certPem
  keyPem := issued.keyPem
  chainPem := issued.chainPem
  expiresAt := (env.parseExpiry issued.certPem).getD (now + 86400 * 90)
  provider := some issued.provider
  domains := domains

namespace Cluster

/-- Nodes that are not scanning, with what they have loaded. -/
def atRest (memory : ι → AList fun _ : Str => CertData) (files : Files) (now : Int) : Cluster ι :=
  { nodes := fun i => { memory := memory i }, files, now }

def storage (s : Cluster ι) (i : ι) : CertStorage :=
    { memory := (s.nodes i).memory, files := s.files }

def move (s : Cluster ι) (i : ι) (storage : CertStorage) (phase : Phase) : Cluster ι :=
  { s with
    nodes := Function.update s.nodes i { memory := storage.memory, phase }
    files := storage.files }

section Steps

variable (env : RenewalEnv)

def start (s : Cluster ι) (i : ι) : Cluster ι :=
  match s.locks.acquire env.redis (lockKey renewalScan) i with
  | (true, locks) => { s with locks }.move i (s.storage i) (.scanning (s.storage i).listDomains)
  | (false, _) => s

/-- One name of the list, up to its lock. -/
def visit (s : Cluster ι) (i : ι) (domain : Str) (todo : List Str) : Cluster ι :=
  if domain = CertStorage.defaultName then s.move i (s.storage i) (.scanning todo)
  else
    match (s.storage i).get env.toCertEnv domain with
    | (none, storage) => s.move i storage (.scanning todo)
    | (some cert, storage) =>
      if !cert.needsRenewal s.now env.renewalDays then s.move i storage (.scanning todo)
      else
        match s.locks.acquire env.redis (lockKey (renewalDomain domain)) i with
        | (true, locks) => { s with locks }.move i storage (.checking domain cert todo)
        | (false, _) => s.move i storage (.scanning todo)

def domainsToRenew (domain : Str) (cert : CertData) : List Str :=
  if cert.domains.isEmpty then [domain] else cert.domains

def attempt (s : Cluster ι) (i : ι) (storage : CertStorage) (domain : Str) (cert : CertData)
    (todo : List Str) : Cluster ι :=
  { s with attempts := s.attempts ++ [(i, domain)] }.move i storage
    (.issuing domain (domainsToRenew domain cert) todo)

def recheck (s : Cluster ι) (i : ι) (domain : Str) (cert : CertData) (todo : List Str) :
    Cluster ι :=
  match (s.storage i).get env.toCertEnv domain with
  | (some fresh, storage) =>
    if !fresh.needsRenewal s.now env.renewalDays then
      { s with locks := s.locks.release env.redis (lockKey (renewalDomain domain)) i }.move i
        storage
        (.scanning todo)
    else s.attempt i storage domain cert todo
  | (none, storage) => s.attempt i storage domain cert todo

def takeReply (s : Cluster ι) (i : ι) (domain : Str) (domains todo : List Str)
    (reply : Option IssuedCert) (written : Nat) : Cluster ι :=
  match reply with
  | some issued =>
    { s with issued := s.issued ++ [(i, domain)] }.move i
      ((s.storage i).put env.toCertEnv domain (issued.newCert env s.now domains) written)
      (.releasing domain todo)
  | none => s.move i (s.storage i) (.releasing domain todo)

def proceed (s : Cluster ι) (i : ι) (reply : Option IssuedCert) (written : Nat) : Cluster ι :=
  match (s.nodes i).phase with
  | .idle => s
  | .scanning [] =>
    { s with locks := s.locks.release env.redis (lockKey renewalScan) i }.move i (s.storage i) .idle
  | .scanning (domain :: todo) => s.visit env i domain todo
  | .checking domain cert todo => s.recheck env i domain cert todo
  | .issuing domain domains todo => s.takeReply env i domain domains todo reply written
  | .releasing domain todo =>
    { s with locks := s.locks.release env.redis (lockKey (renewalDomain domain)) i }.move i
      (s.storage i)
      (.scanning todo)

def step (s : Cluster ι) : RenewalEvent ι → Cluster ι
  | .start i =>
    match (s.nodes i).phase with
    | .idle => s.start env i
    | _ => s
  | .proceed i reply written => s.proceed env i reply written
  | .lookup i domain =>
    s.move i ((s.storage i).get env.toCertEnv domain).2 (s.nodes i).phase
  | .advance secs => { s with now := s.now + secs }

def run (s : Cluster ι) (events : List (RenewalEvent ι)) : Cluster ι := events.foldl (step env) s

end Steps

/-- The node has a certificate in memory that needs renewal. -/
def Outdated (env : RenewalEnv) (s : Cluster ι) (i : ι) (domain : Str) : Prop :=
  ∃ cert, (s.nodes i).memory.lookup domain = some cert ∧
    cert.needsRenewal s.now env.renewalDays = true

/-! ## What a step does -/

variable {env : RenewalEnv} {s : Cluster ι} {i j : ι}

@[simp] theorem nodes_move_self (storage : CertStorage) (phase : Phase) :
    (s.move i storage phase).nodes i = { memory := storage.memory, phase } :=
      Function.update_self ..

@[simp] theorem nodes_move_ne (h : j ≠ i) (storage : CertStorage) (phase : Phase) :
    (s.move i storage phase).nodes j = s.nodes j := Function.update_of_ne h ..

inductive Moves (env : RenewalEnv) (s : Cluster ι) (i : ι) (reply : Option IssuedCert) :
    Cluster ι → Prop
  | rest (hphase : (s.nodes i).phase = .idle) : Moves env s i reply s
  | finish (hphase : (s.nodes i).phase = .scanning []) : Moves env s i reply
        ({ s with locks := s.locks.release env.redis (lockKey renewalScan) i }.move i
          (s.storage i) .idle)
  | skip (domain : Str) (todo : List Str) (storage : CertStorage)
      (hphase : (s.nodes i).phase = .scanning (domain :: todo))
        (hgrows : (s.storage i).Grows storage)
      (hreason : domain = CertStorage.defaultName ∨
        (∀ cert, (s.nodes i).memory.lookup domain = some cert →
          cert.needsRenewal s.now env.renewalDays = false) ∨
        (s.locks.acquire env.redis (lockKey (renewalDomain domain)) i).1 = false) :
      Moves env s i reply (s.move i storage (.scanning todo))
  | lock (domain : Str) (cert : CertData) (todo : List Str) (storage : CertStorage)
      (hphase : (s.nodes i).phase = .scanning (domain :: todo))
        (hgrows : (s.storage i).Grows storage)
      (hcert : storage.memory.lookup domain = some cert)
      (hneeds : cert.needsRenewal s.now env.renewalDays = true)
      (hfree : s.locks (lockKey (renewalDomain domain)) = none) :
      Moves env s i reply
        ({ s with locks := Function.update s.locks (lockKey (renewalDomain domain)) (some i) }.move
          i
          storage (.checking domain cert todo))
  | drop (domain : Str) (cert fresh : CertData) (todo : List Str) (storage : CertStorage)
      (hphase : (s.nodes i).phase = .checking domain cert todo)
        (hgrows : (s.storage i).Grows storage)
      (hfresh : storage.memory.lookup domain = some fresh)
      (hneeds : fresh.needsRenewal s.now env.renewalDays = false) :
      Moves env s i reply
        ({ s with locks := s.locks.release env.redis (lockKey (renewalDomain domain)) i }.move i
          storage
          (.scanning todo))
  | attempt (domain : Str) (cert : CertData) (todo : List Str) (storage : CertStorage)
      (hphase : (s.nodes i).phase = .checking domain cert todo)
        (hgrows : (s.storage i).Grows storage) :
      Moves env s i reply ({ s with attempts := s.attempts ++ [(i, domain)] }.move i storage
          (.issuing domain (domainsToRenew domain cert) todo))
  | fail (domain : Str) (domains todo : List Str)
      (hphase : (s.nodes i).phase = .issuing domain domains todo) (hreply : reply = none) :
      Moves env s i reply (s.move i (s.storage i) (.releasing domain todo))
  | store (domain : Str) (domains todo : List Str) (issued : IssuedCert) (written : Nat)
      (hphase : (s.nodes i).phase = .issuing domain domains todo) (hreply : reply = some issued) :
      Moves env s i reply ({ s with issued := s.issued ++ [(i, domain)] }.move i
          ((s.storage i).put env.toCertEnv domain (issued.newCert env s.now domains) written)
          (.releasing domain todo))
  | release (domain : Str) (todo : List Str) (hphase : (s.nodes i).phase = .releasing domain todo) :
      Moves env s i reply
        ({ s with locks := s.locks.release env.redis (lockKey (renewalDomain domain)) i }.move i
          (s.storage i) (.scanning todo))

theorem visit_moves {domain : Str} {todo : List Str}
    (hphase : (s.nodes i).phase = .scanning (domain :: todo)) (reply : Option IssuedCert) :
    Moves env s i reply (s.visit env i domain todo) := by
  unfold visit
  split
  next hdefault => exact .skip domain todo _ hphase (.refl _) (.inl hdefault)
  have hgrows := (s.storage i).grows_get env.toCertEnv domain
  have hself := (s.storage i).lookup_get_self env.toCertEnv domain
  generalize (s.storage i).get env.toCertEnv domain = found at hgrows hself ⊢
  obtain ⟨found, storage⟩ := found
  have hfound : ∀ cert, (s.nodes i).memory.lookup domain = some cert → found = some cert :=
    fun cert hcert => hself.symm.trans (hgrows.2 domain cert hcert)
  cases found with
  | none =>
    exact .skip domain todo storage hphase hgrows
      (.inr (.inl fun cert hcert => nomatch hfound cert hcert))
  | some cert =>
    dsimp only
    cases hneeds : cert.needsRenewal s.now env.renewalDays with
    | false =>
      refine .skip domain todo storage hphase hgrows (.inr (.inl fun cert' hcert => ?_))
      rw [← Option.some.inj (hfound cert' hcert), hneeds]
    | true =>
      obtain ⟨hfree, -, hlocks⟩ | hlocks :=
        s.locks.acquire_cases env.redis (lockKey (renewalDomain domain)) i
      · rw [hlocks]
        exact .lock domain cert todo storage hphase hgrows hself hneeds hfree
      · rw [hlocks]
        exact .skip domain todo storage hphase hgrows (.inr (.inr (by rw [hlocks])))

theorem recheck_moves {domain : Str} {cert : CertData} {todo : List Str}
    (hphase : (s.nodes i).phase = .checking domain cert todo) (reply : Option IssuedCert) :
    Moves env s i reply (s.recheck env i domain cert todo) := by
  have hgrows := (s.storage i).grows_get env.toCertEnv domain
  have hself := (s.storage i).lookup_get_self env.toCertEnv domain
  unfold recheck
  generalize (s.storage i).get env.toCertEnv domain = found at hgrows hself ⊢
  obtain ⟨found, storage⟩ := found
  cases found with
  | none => exact .attempt domain cert todo storage hphase hgrows
  | some fresh =>
    dsimp only
    cases hneeds : fresh.needsRenewal s.now env.renewalDays with
    | false => exact .drop domain cert fresh todo storage hphase hgrows hself hneeds
    | true => exact .attempt domain cert todo storage hphase hgrows

theorem proceed_moves (env : RenewalEnv) (s : Cluster ι) (i : ι) (reply : Option IssuedCert)
    (written : Nat) : Moves env s i reply (s.proceed env i reply written) := by
  unfold proceed
  split
  next hphase => exact .rest hphase
  next hphase => exact .finish hphase
  next domain todo hphase => exact visit_moves hphase reply
  next domain cert todo hphase => exact recheck_moves hphase reply
  next domain domains todo hphase =>
    cases reply with
    | none => exact .fail domain domains todo hphase rfl
    | some issued => exact .store domain domains todo issued written hphase rfl
  next domain todo hphase => exact .release domain todo hphase

theorem start_cases (env : RenewalEnv) (s : Cluster ι) (i : ι) :
    ((s.nodes i).phase = .idle ∧ s.locks (lockKey renewalScan) = none ∧ env.redis = true ∧
      s.step env (.start i) =
        { s with locks := Function.update s.locks (lockKey renewalScan) (some i) }.move i
        (s.storage i)
          (.scanning (s.storage i).listDomains)) ∨
    s.step env (.start i) = s := by
  simp only [step]
  split
  next hidle =>
    unfold start
    obtain ⟨hfree, hredis, hlocks⟩ | hlocks := s.locks.acquire_cases env.redis
      (lockKey renewalScan) i
    · exact .inl ⟨hidle, hfree, hredis, by rw [hlocks]⟩
    · exact .inr (by rw [hlocks])
  next => exact .inr rfl

variable {s' : Cluster ι} {reply : Option IssuedCert} {name : Str}

section

variable (h : Moves env s i reply s')
include h

theorem Moves.now_eq : s'.now = s.now := by
  cases h <;> rfl

theorem Moves.nodes_ne (hne : j ≠ i) : s'.nodes j = s.nodes j := by
  cases h with
  | rest => rfl
  | _ => exact nodes_move_ne hne _ _

theorem Moves.attempts_ne (hne : j ≠ i) (name : Str) :
    (j, name) ∈ s'.attempts ↔ (j, name) ∈ s.attempts := by
  cases h with
  | attempt =>
    refine List.mem_append.trans (or_iff_left ?_)
    rw [List.mem_singleton]
    exact fun h => hne (Prod.mk.inj h).1
  | _ => exact Iff.rfl

theorem Moves.issued_ne (hne : j ≠ i) (name : Str) :
    s'.issued.count (j, name) = s.issued.count (j, name) := by
  cases h with
  | store domain =>
    have hpair : ((i, domain) : ι × Str) ≠ (j, name) := fun h => hne (Prod.mk.inj h).1.symm
    exact (List.count_append ..).trans (by simp [hpair])
  | _ => rfl

theorem Moves.lookup_cases (name : Str) :
    ((∀ cert, (s.nodes i).memory.lookup name = some cert →
      (s'.nodes i).memory.lookup name = some cert) ∧
      s'.issued.count (i, name) = s.issued.count (i, name)) ∨
    ∃ issued domains todo, reply = some issued ∧ (s.nodes i).phase = .issuing name domains todo ∧
      (s'.nodes i).memory.lookup name = some (issued.newCert env s.now domains) ∧
      s'.issued = s.issued ++ [(i, name)] := by
  cases h with
  | rest => exact .inl ⟨fun _ h => h, rfl⟩
  | finish | fail | release =>
    refine .inl ⟨fun cert hcert => ?_, rfl⟩
    rw [nodes_move_self]
    exact hcert
  | skip _ _ _ _ hgrows | lock _ _ _ _ _ hgrows | drop _ _ _ _ _ _ hgrows
  | attempt _ _ _ _ _ hgrows =>
    refine .inl ⟨fun cert hcert => ?_, rfl⟩
    rw [nodes_move_self]
    exact hgrows.2 name cert hcert
  | store domain domains todo issued written hphase hreply =>
    have hput := (s.storage i).lookup_put env.toCertEnv domain
      (issued.newCert env s.now domains) written name
    by_cases heq : name = domain
    · subst heq
      refine .inr ⟨issued, domains, todo, hreply, hphase, ?_, rfl⟩
      rw [nodes_move_self]
      exact hput.trans (if_pos rfl)
    · refine .inl ⟨fun cert hcert => ?_, ?_⟩
      · rw [nodes_move_self]
        exact hput.trans ((if_neg heq).trans hcert)
      · have hne : ((i, domain) : ι × Str) ≠ (i, name) := fun h => heq (Prod.mk.inj h).2.symm
        exact (List.count_append ..).trans (by simp [hne])

end

theorem now_le_step (e : RenewalEvent ι) : s.now ≤ (s.step env e).now := by
  cases e with
  | start i =>
    obtain ⟨-, -, -, hstart⟩ | hstart := s.start_cases env i
    · rw [hstart]
      exact Int.le_refl _
    · exact Int.le_of_eq (by rw [hstart])
  | proceed i reply written => exact Int.le_of_eq (proceed_moves env s i reply written).now_eq.symm
  | lookup i domain => exact Int.le_refl _
  | advance secs => exact Int.le_add_of_nonneg_right (Int.natCast_nonneg secs)

theorem lookup_step_cases (env : RenewalEnv) (s : Cluster ι) (e : RenewalEvent ι)
    (i : ι) (name : Str) :
    ((∀ cert, (s.nodes i).memory.lookup name = some cert →
        ((s.step env e).nodes i).memory.lookup name = some cert) ∧
      (s.step env e).issued.count (i, name) = s.issued.count (i, name)) ∨
    ∃ issued written domains, e = .proceed i (some issued) written ∧
      name ∈ (s.nodes i).phase.renewing ∧
      ((s.step env e).nodes i).memory.lookup name = some (issued.newCert env s.now domains) ∧
      (s.step env e).issued = s.issued ++ [(i, name)] := by
  have hmove : ∀ j storage phase, (s.storage j).Grows storage → ∀ cert,
      (s.nodes i).memory.lookup name = some cert →
      ((s.move j storage phase).nodes i).memory.lookup name = some cert := by
    intro j storage phase hgrows cert hcert
    by_cases heq : i = j
    · subst heq
      rw [nodes_move_self]
      exact hgrows.2 name cert hcert
    · rw [nodes_move_ne heq]
      exact hcert
  cases e with
  | start j =>
    obtain ⟨-, -, -, hstart⟩ | hstart := s.start_cases env j
    · rw [hstart]
      exact .inl ⟨hmove j _ _ (.refl _), rfl⟩
    · rw [hstart]
      exact .inl ⟨fun _ h => h, rfl⟩
  | proceed j reply written =>
    have hmoves := proceed_moves env s j reply written
    by_cases heq : i = j
    · subst heq
      obtain hkept | ⟨issued, domains, todo, rfl, hphase, hstored, hissued⟩ :=
        hmoves.lookup_cases name
      · exact .inl hkept
      · exact .inr ⟨issued, written, domains, rfl, by rw [hphase]; rfl, hstored, hissued⟩
    · refine .inl ⟨fun cert hcert => ?_, hmoves.issued_ne heq name⟩
      rw [step, hmoves.nodes_ne heq]
      exact hcert
  | lookup j domain => exact .inl ⟨hmove j _ _ ((s.storage j).grows_get env.toCertEnv domain), rfl⟩
  | advance secs => exact .inl ⟨fun _ h => h, rfl⟩

variable {e : RenewalEvent ι}

theorem attempts_step (hproceed : ∀ reply written, e ≠ .proceed i reply written)
    (name : Str) : (i, name) ∈ (s.step env e).attempts ↔ (i, name) ∈ s.attempts := by
  cases e with
  | start j =>
    obtain ⟨-, -, -, hstart⟩ | hstart := s.start_cases env j
    · rw [hstart]
      exact Iff.rfl
    · rw [hstart]
  | proceed j reply written =>
    have hne : i ≠ j := fun heq => hproceed reply written (heq ▸ rfl)
    exact (proceed_moves env s j reply written).attempts_ne hne name
  | lookup | advance => exact Iff.rfl

/-- A node renews what needs renewal: its own memory has not changed since it looked. -/
def Busy (env : RenewalEnv) (s : Cluster ι) : Prop :=
  ∀ i, ∀ name ∈ (s.nodes i).phase.renewing, Outdated env s i name

theorem Moves.busy (h : Moves env s i reply s')
    (hbusy : ∀ name ∈ (s.nodes i).phase.renewing, Outdated env s i name) :
    ∀ name ∈ (s'.nodes i).phase.renewing, Outdated env s' i name := by
  cases h with
  | rest => exact hbusy
  | lock domain cert todo storage hphase hgrows hcert hneeds =>
    rw [nodes_move_self]
    rintro _ ⟨rfl⟩
    exact ⟨cert, by rw [nodes_move_self]; exact hcert, hneeds⟩
  | attempt domain cert todo storage hphase hgrows =>
    obtain ⟨held, hheld, hneeds⟩ := hbusy domain (by rw [hphase]; rfl)
    rw [nodes_move_self]
    rintro _ ⟨rfl⟩
    exact ⟨held, by rw [nodes_move_self]; exact hgrows.2 domain held hheld, hneeds⟩
  | _ =>
    rw [nodes_move_self]
    exact nofun

theorem phase_step (env : RenewalEnv) (s : Cluster ι)
    (hproceed : ∀ reply written, e ≠ .proceed i reply written) :
    ((s.step env e).nodes i).phase = (s.nodes i).phase ∨
      e = .start i ∧ ∃ todo, ((s.step env e).nodes i).phase = .scanning todo := by
  cases e with
  | start j =>
    obtain ⟨-, -, -, hstart⟩ | hstart := s.start_cases env j
    · rw [hstart]
      by_cases heq : i = j
      · subst heq
        exact .inr ⟨rfl, _, by rw [nodes_move_self]⟩
      · exact .inl (by rw [nodes_move_ne heq])
    · exact .inl (by rw [hstart])
  | proceed j reply written =>
    have hne : i ≠ j := fun h => hproceed reply written (h ▸ rfl)
    exact .inl (congrArg RenewalNode.phase ((proceed_moves env s j reply written).nodes_ne hne))
  | lookup j domain =>
    refine .inl ?_
    rw [step]
    by_cases heq : i = j
    · subst heq
      rw [nodes_move_self]
    · rw [nodes_move_ne heq]
  | advance secs => exact .inl rfl

theorem outdated_of_not_proceed (h : Outdated env s i name)
    (hproceed : ∀ reply written, e ≠ .proceed i reply written) :
      Outdated env (s.step env e) i name := by
  obtain ⟨cert, hcert, hneeds⟩ := h
  obtain ⟨hkept, -⟩ | ⟨issued, written, -, he, -⟩ := lookup_step_cases env s e i name
  · exact ⟨cert, hkept cert hcert, CertData.needsRenewal_mono (now_le_step e) hneeds⟩
  · exact absurd he (hproceed (some issued) written)

theorem busy_step (h : Busy env s) (e : RenewalEvent ι) : Busy env (s.step env e) := by
  intro i name hname
  by_cases hproceed : ∃ reply written, e = .proceed i reply written
  · obtain ⟨reply, written, rfl⟩ := hproceed
    exact (proceed_moves env s i reply written).busy (h i) name hname
  push Not at hproceed
  obtain hphase | ⟨-, todo, hphase⟩ := phase_step env s hproceed
  · rw [hphase] at hname
    exact outdated_of_not_proceed (h i name hname) hproceed
  · rw [hphase] at hname
    cases hname

def oldCert : CertData where
  certPem := []
  keyPem := "K1"
  chainPem := none
  expiresAt := 86400
  provider := none
  domains := []

def newPair : IssuedCert where
  certPem := []
  keyPem := "K2"
  chainPem := none
  provider := []

def thirtyDays : RenewalEnv where
  certsDir := "certs"
  cwd := []
  cwd_names := root_names
  parseExpiry := fun _ => some 9000000
  renewalDays := 30
  redis := true

def renewOne (i : Bool) : List (RenewalEvent Bool) := List.replicate 5 (.proceed i (some newPair) 2)

def oneCert (name : Str) : AList fun _ : Str => CertData := AList.insert name oldCert ∅

end Cluster

end Nozdormu.Ssl
