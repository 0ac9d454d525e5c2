import Nozdormu.Ssl.Renewal

/-!
# What a scan attempts
-/

namespace Nozdormu.Ssl

open Rust Data List

variable {ι : Type} [DecidableEq ι] {env : RenewalEnv}

def scanName : Str := "scan"

variable {domain : Str}

theorem lockKey_domain_eq_scan_iff :
    lockKey (renewalDomain domain) = lockKey renewalScan ↔ domain = scanName := by
  have hscan : renewalScan = renewalDomain scanName := by decide
  rw [hscan]
  refine ⟨fun h => ?_, fun h => by rw [h]⟩
  exact append_cancel_left (append_cancel_left h)

namespace Phase

def ahead : Phase → List Str
  | .idle => []
  | .scanning todo => todo
  | .checking domain _ todo => domain :: todo
  | .issuing _ _ todo => todo
  | .releasing _ todo => todo

def locked : Phase → Option Str
  | .checking domain _ _ => some domain
  | .issuing domain _ _ => some domain
  | .releasing domain _ => some domain
  | _ => none

/-- How many steps are left at most. -/
def rank : Phase → Nat
  | .idle => 0
  | .scanning todo => 4 * todo.length + 1
  | .checking _ _ todo => 4 * todo.length + 4
  | .issuing _ _ todo => 4 * todo.length + 3
  | .releasing _ todo => 4 * todo.length + 2

theorem rank_eq_zero {phase : Phase} (h : phase.rank = 0) : phase = .idle := by
  cases phase with
  | idle => rfl
  | _ => cases h

end Phase

def RenewalEvent.isStepOf (i : ι) : RenewalEvent ι → Bool
  | .proceed j _ _ => decide (j = i)
  | _ => false

namespace Cluster

variable {s s' : Cluster ι} {i : ι} {reply : Option IssuedCert}

/-! ## The scan ends -/

theorem Moves.rank_lt (h : Moves env s i reply s') :
    (s'.nodes i).phase.rank ≤ (s.nodes i).phase.rank - 1 := by
  cases h with
  | rest hphase => rw [hphase]; exact Nat.zero_le _
  | finish hphase => rw [nodes_move_self, hphase]; exact Nat.le_refl _
  | skip _ todo _ hphase | lock _ _ todo _ hphase | drop _ _ _ todo _ hphase
  | attempt _ _ todo _ hphase
  | fail _ _ todo hphase | store _ _ todo _ _ hphase | release _ todo hphase =>
    rw [nodes_move_self, hphase]
    simp only [Phase.rank, length_cons]
    omega

variable {e : RenewalEvent ι}

theorem rank_step (env : RenewalEnv) (s : Cluster ι) (hstart : e ≠ .start i) :
    ((s.step env e).nodes i).phase.rank ≤
      (s.nodes i).phase.rank - if e.isStepOf i then 1 else 0 := by
  by_cases hproceed : ∃ reply written, e = .proceed i reply written
  · obtain ⟨reply, written, rfl⟩ := hproceed
    rw [RenewalEvent.isStepOf, decide_eq_true rfl, if_pos rfl]
    exact (proceed_moves env s i reply written).rank_lt
  push Not at hproceed
  have hphase := (phase_step env s hproceed).resolve_right fun h => hstart h.1
  have hnot : e.isStepOf i = false := by
    cases e with
    | proceed j reply written =>
      refine decide_eq_false ?_
      rintro rfl
      exact hproceed reply written rfl
    | _ => rfl
  rw [hphase, hnot]
  exact Nat.le_refl _

theorem rank_run {events : List (RenewalEvent ι)} (hstart : .start i ∉ events) :
    ((s.run env events).nodes i).phase.rank ≤
      (s.nodes i).phase.rank - events.countP (RenewalEvent.isStepOf i) := by
  induction events generalizing s with
  | nil => exact Nat.le_refl _
  | cons e events ih =>
    rw [mem_cons, not_or] at hstart
    have hfirst := rank_step env s (Ne.symm hstart.1)
    have hrest := ih (s := s.step env e) hstart.2
    rw [countP_cons]
    exact Nat.le_trans hrest (by omega)

/-! ## What holds during the scan -/

/-- The scan of the node is over, and the names of `due` were attempted. -/
structure Done (i : ι) (due : Str → Prop) (s : Cluster ι) : Prop where
  idle : (s.nodes i).phase = .idle
  covered : ∀ name, due name → name ≠ scanName → (i, name) ∈ s.attempts
  unscanned : (i, scanName) ∉ s.attempts

/-- The node is the only one that scans, and has the locks it needs and no others. -/
structure Scanning (env : RenewalEnv) (i : ι) (due : Str → Prop) (s : Cluster ι) : Prop where
  active : (s.nodes i).phase ≠ .idle
  alone : ∀ j, j ≠ i → (s.nodes j).phase = .idle
  locks : ∀ key, s.locks key =
    if key = lockKey renewalScan ∨ key ∈ (s.nodes i).phase.locked.map
      (lockKey ∘ renewalDomain) then some i
    else none
  busy : ∀ name ∈ (s.nodes i).phase.renewing, Outdated env s i name
  attempted : ∀ domain domains todo, (s.nodes i).phase = .issuing domain domains todo →
    (i, domain) ∈ s.attempts
  covered : ∀ name, due name → name ≠ scanName → (i, name) ∈ s.attempts ∨
    name ∈ (s.nodes i).phase.ahead ∧ Outdated env s i name
  unscanned : (i, scanName) ∉ s.attempts
  unlocked : scanName ∉ (s.nodes i).phase.locked

variable {due : Str → Prop}

theorem Done.step (h : Done i due s) (hstart : e ≠ .start i) : Done i due (s.step env e) := by
  have hattempts : ∀ name, (i, name) ∈ (s.step env e).attempts ↔ (i, name) ∈ s.attempts := by
    intro name
    by_cases hproceed : ∃ reply written, e = .proceed i reply written
    · obtain ⟨reply, written, rfl⟩ := hproceed
      rw [Cluster.step, proceed, h.idle]
    · push Not at hproceed
      exact attempts_step hproceed name
  refine ⟨?_, ?_, ?_⟩
  · have hrank := rank_step env s hstart
    rw [h.idle] at hrank
    exact Phase.rank_eq_zero (Nat.le_zero.1 (Nat.le_trans hrank (Nat.sub_le _ _)))
  · intro name hdue hne
    exact (hattempts name).2 (h.covered name hdue hne)
  · exact fun hmem => h.unscanned ((hattempts scanName).1 hmem)

namespace Scanning

section

variable (h : Scanning env i due s)
include h

omit [DecidableEq ι] in
theorem locked_scan : s.locks (lockKey renewalScan) = some i := by
  rw [h.locks, if_pos (.inl rfl)]

omit [DecidableEq ι] in
theorem of_same (hphases : ∀ j, (s'.nodes j).phase = (s.nodes j).phase)
    (hlocks : s'.locks = s.locks) (hattempts : s'.attempts = s.attempts)
    (houtdated : ∀ name, Outdated env s i name → Outdated env s' i name) :
      Scanning env i due s' where
  active := by rw [hphases]; exact h.active
  alone j hne := by rw [hphases]; exact h.alone j hne
  locks key := by rw [hlocks, hphases]; exact h.locks key
  busy name hname := by rw [hphases] at hname; exact houtdated name (h.busy name hname)
  attempted domain domains todo hphase := by
    rw [hphases] at hphase
    rw [hattempts]
    exact h.attempted domain domains todo hphase
  covered name hdue hne := by
    rw [hphases, hattempts]
    exact (h.covered name hdue hne).imp_right fun ⟨hahead, hold⟩ => ⟨hahead, houtdated name hold⟩
  unscanned := by rw [hattempts]; exact h.unscanned
  unlocked := by rw [hphases]; exact h.unlocked

theorem step_ne
    (hproceed : ∀ reply written, e ≠ .proceed i reply written) :
      Scanning env i due (s.step env e) := by
  have houtdated : ∀ name, Outdated env s i name → Outdated env (s.step env e) i name :=
    fun name hold => outdated_of_not_proceed hold hproceed
  cases e with
  | start j =>
    obtain ⟨-, hfree, -⟩ | hstart := s.start_cases env j
    · rw [h.locked_scan] at hfree
      cases hfree
    · rw [hstart]
      exact h
  | proceed j reply written =>
    have hne : j ≠ i := fun heq => hproceed reply written (heq ▸ rfl)
    rw [Cluster.step, proceed, h.alone j hne]
    exact h
  | lookup j domain =>
    refine h.of_same (fun k => (phase_step env s ?_).resolve_right ?_) rfl rfl houtdated
    · intro reply written he
      cases he
    · intro he
      cases he.1
  | advance secs => exact h.of_same (fun _ => rfl) rfl rfl houtdated

end

section

variable (h : Scanning env i due s)
include h

theorem covered_moves (hredis : env.redis = true)
    (hmoves : Moves env s i reply s') {name : Str} (hdue : due name)
    (hdefault : name ≠ CertStorage.defaultName) (hne : name ≠ scanName) :
    (i, name) ∈ s'.attempts ∨ name ∈ (s'.nodes i).phase.ahead ∧ Outdated env s' i name := by
  have hmono : ∀ p ∈ s.attempts, p ∈ s'.attempts := by
    cases hmoves with
    | attempt => exact fun p hp => mem_append_left _ hp
    | _ => exact fun p hp => hp
  obtain hattempted | ⟨hahead, hold⟩ := h.covered name hdue hne
  · exact .inl (hmono _ hattempted)
  by_cases hstore : ∃ domains todo, (s.nodes i).phase = .issuing name domains todo
  · obtain ⟨domains, todo, hphase⟩ := hstore
    exact .inl (hmono _ (h.attempted name domains todo hphase))
  push Not at hstore
  -- it was not stored in this step
  have hstill : Outdated env s' i name := by
    obtain ⟨cert, hcert, hneeds⟩ := hold
    obtain ⟨hkept, -⟩ | ⟨-, domains, todo, -, hphase, -⟩ := hmoves.lookup_cases name
    · exact ⟨cert, hkept cert hcert, by rw [hmoves.now_eq]; exact hneeds⟩
    · exact absurd hphase (hstore domains todo)
  cases hmoves with
  | rest hphase => exact absurd hphase h.active
  | finish hphase =>
    rw [hphase] at hahead
    cases hahead
  | skip domain todo storage hphase hgrows hreason =>
    rw [hphase] at hahead
    rcases mem_cons.1 hahead with rfl | htodo
    · -- it is not the default, it needs renewal and its lock is free
      obtain ⟨cert, hcert, hneeds⟩ := hold
      rcases hreason with hreason | hreason | hreason
      · exact absurd hreason hdefault
      · rw [hreason cert hcert] at hneeds
        cases hneeds
      · have hfree : s.locks (lockKey (renewalDomain name)) = none := by
          rw [h.locks, hphase, if_neg]
          rintro (hscan | hlocked)
          · exact hne (lockKey_domain_eq_scan_iff.1 hscan)
          · cases hlocked
        rw [Locks.acquire, hredis, hfree] at hreason
        cases hreason
    · exact .inr ⟨by rw [nodes_move_self]; exact htodo, hstill⟩
  | lock domain cert todo storage hphase =>
    rw [hphase] at hahead
    exact .inr ⟨by rw [nodes_move_self]; exact hahead, hstill⟩
  | drop domain cert fresh todo storage hphase hgrows hfresh hneeds =>
    rw [hphase] at hahead
    rcases mem_cons.1 hahead with rfl | htodo
    · obtain ⟨cert', hcert', hneeds'⟩ := hold
      rw [hgrows.2 name cert' hcert'] at hfresh
      rw [Option.some.inj hfresh, hneeds] at hneeds'
      cases hneeds'
    · exact .inr ⟨by rw [nodes_move_self]; exact htodo, hstill⟩
  | attempt domain cert todo storage hphase =>
    rw [hphase] at hahead
    rcases mem_cons.1 hahead with rfl | htodo
    · exact .inl (mem_append_cons_self)
    · exact .inr ⟨by rw [nodes_move_self]; exact htodo, hstill⟩
  | fail domain domains todo hphase | store domain domains todo _ _ hphase
  | release domain todo hphase =>
    rw [hphase] at hahead
    exact .inr ⟨by rw [nodes_move_self]; exact hahead, hstill⟩

theorem locks_release (hredis : env.redis = true)
    (hlocked : (s.nodes i).phase.locked = some domain) (key : Str) :
    s.locks.release env.redis (lockKey (renewalDomain domain)) i key =
      if key = lockKey renewalScan then some i else none := by
  have hown : s.locks (lockKey (renewalDomain domain)) = some i := by
    rw [h.locks, hlocked, if_pos (.inr rfl)]
  have hscan : lockKey renewalScan ≠ lockKey (renewalDomain domain) := by
    intro heq
    refine h.unlocked ?_
    rw [hlocked, lockKey_domain_eq_scan_iff.1 heq.symm]
    rfl
  rw [Locks.release, hredis, hown, Bool.true_and, decide_eq_true rfl, if_pos rfl]
  by_cases heq : key = lockKey (renewalDomain domain)
  · rw [heq, Function.update_self, if_neg hscan.symm]
  · rw [Function.update_of_ne heq, h.locks, hlocked]
    have hother : ¬ (key ∈ (some domain).map (lockKey ∘ renewalDomain)) :=
      fun hmem => heq (Option.some.inj hmem).symm
    exact if_congr (or_iff_left hother) rfl rfl

theorem locks_moves (hredis : env.redis = true)
    (hmoves : Moves env s i reply s') (hactive : (s'.nodes i).phase ≠ .idle) (key : Str) :
    s'.locks key =
      if key = lockKey renewalScan ∨ key ∈ (s'.nodes i).phase.locked.map
      (lockKey ∘ renewalDomain) then some i
      else none := by
  cases hmoves with
  | rest hphase => exact absurd hphase h.active
  | finish =>
    rw [nodes_move_self] at hactive
    exact absurd rfl hactive
  | skip _ _ _ hphase | attempt _ _ _ _ hphase | fail _ _ _ hphase | store _ _ _ _ _ hphase =>
    have hlocks := h.locks key
    rw [hphase] at hlocks
    rw [nodes_move_self]
    exact hlocks
  | lock domain _ _ _ hphase =>
    have hlocks := h.locks key
    rw [hphase] at hlocks
    rw [nodes_move_self]
    refine (Function.update_apply ..).trans ?_
    by_cases heq : key = lockKey (renewalDomain domain)
    · rw [if_pos heq, if_pos (.inr (congrArg some heq.symm))]
    · have hother : ¬ (key ∈ (some domain).map (lockKey ∘ renewalDomain)) :=
        fun hmem => heq (Option.some.inj hmem).symm
      rw [if_neg heq, hlocks]
      refine if_congr (or_congr_right ?_) rfl rfl
      exact iff_of_false nofun hother
  | drop domain _ _ _ _ hphase | release domain _ hphase =>
    rw [nodes_move_self]
    refine (h.locks_release hredis (by rw [hphase]; rfl) key).trans ?_
    refine if_congr (Iff.symm (or_iff_left nofun)) rfl rfl

theorem unlocked_moves (hmoves : Moves env s i reply s') :
    scanName ∉ (s'.nodes i).phase.locked := by
  have hbefore := h.unlocked
  cases hmoves with
  | rest => exact h.unlocked
  | finish | skip | drop | release =>
    rw [nodes_move_self]
    exact nofun
  | lock domain cert todo storage hphase hgrows hcert hneeds hfree =>
    rw [nodes_move_self]
    intro hscan
    rw [Option.some.inj hscan] at hfree
    have hheld := h.locked_scan
    rw [← lockKey_domain_eq_scan_iff.2 rfl, hfree] at hheld
    cases hheld
  | attempt _ _ _ _ hphase | fail _ _ _ hphase | store _ _ _ _ _ hphase =>
    rw [hphase] at hbefore
    rw [nodes_move_self]
    exact hbefore

theorem unscanned_moves (hmoves : Moves env s i reply s') : (i, scanName) ∉ s'.attempts := by
  cases hmoves with
  | attempt domain cert todo storage hphase =>
    intro hmem
    rcases mem_append.1 hmem with hbefore | hnew
    · exact h.unscanned hbefore
    · refine h.unlocked ?_
      rw [hphase, (Prod.mk.inj (mem_singleton.1 hnew)).2]
      rfl
  | _ => exact h.unscanned

theorem attempted_moves (hmoves : Moves env s i reply s')
    {domains todo : List Str} (hphase : (s'.nodes i).phase = .issuing domain domains todo) :
    (i, domain) ∈ s'.attempts := by
  cases hmoves with
  | rest => exact h.attempted domain domains todo hphase
  | attempt =>
    rw [nodes_move_self] at hphase
    cases hphase
    exact mem_append_cons_self
  | _ =>
    rw [nodes_move_self] at hphase
    cases hphase

theorem step_own (hredis : env.redis = true)
    (hdue : ∀ name, due name → name ≠ CertStorage.defaultName) (hmoves : Moves env s i reply s') :
    Scanning env i due s' ∨ Done i due s' := by
  have hcovered : ∀ name, due name → name ≠ scanName → (i, name) ∈ s'.attempts ∨
      name ∈ (s'.nodes i).phase.ahead ∧ Outdated env s' i name :=
    fun name hname hne => h.covered_moves hredis hmoves hname (hdue name hname) hne
  by_cases hidle : (s'.nodes i).phase = .idle
  · refine .inr ⟨hidle, fun name hname hne => ?_, h.unscanned_moves hmoves⟩
    refine (hcovered name hname hne).resolve_right fun hahead => ?_
    rw [hidle] at hahead
    exact absurd hahead.1 not_mem_nil
  refine .inl ⟨hidle, ?_, h.locks_moves hredis hmoves hidle, hmoves.busy h.busy, ?_, hcovered,
    h.unscanned_moves hmoves, h.unlocked_moves hmoves⟩
  · intro j hne
    rw [hmoves.nodes_ne hne]
    exact h.alone j hne
  · exact fun domain domains todo hphase => h.attempted_moves hmoves hphase

end

end Scanning

theorem scanning_or_done_run (hredis : env.redis = true)
    (hdue : ∀ name, due name → name ≠ CertStorage.defaultName) {events : List (RenewalEvent ι)}
    (hstart : .start i ∉ events) (h : Scanning env i due s ∨ Done i due s) :
    Scanning env i due (s.run env events) ∨ Done i due (s.run env events) := by
  refine List.foldlRecOn (motive := fun s => Scanning env i due s ∨ Done i due s) events _ h ?_
  rintro s (h | h) e he
  · by_cases hproceed : ∃ reply written, e = .proceed i reply written
    · obtain ⟨reply, written, rfl⟩ := hproceed
      exact h.step_own hredis hdue (proceed_moves env s i reply written)
    · push Not at hproceed
      exact .inl (h.step_ne hproceed)
  · exact .inr (h.step (ne_of_mem_of_not_mem he hstart))

variable {memory : ι → AList fun _ : Str => CertData} {files : Files} {now : Int}

/-- A stored certificate, other than the default, that needs renewal. -/
def Due (env : RenewalEnv) (s : Cluster ι) (i : ι) (name : Str) : Prop :=
  name ≠ CertStorage.defaultName ∧ Outdated env s i name

theorem step_start (hredis : env.redis = true) (i : ι) :
    (atRest memory files now).step env (.start i) =
    { atRest memory files now with
      locks := Function.update (atRest memory files now).locks (lockKey renewalScan) (some i) }.move
        i
      ((atRest memory files now).storage i) (.scanning (memory i).keys) := by
  simp [step, start, atRest, Locks.acquire, hredis, storage, CertStorage.listDomains]

theorem scanning_start (hredis : env.redis = true) :
    Scanning env i (Due env (atRest memory files now) i)
    ((atRest memory files now).step env (.start i)) := by
  rw [step_start hredis]
  constructor
  · rw [nodes_move_self]
    exact nofun
  · intro j hne
    rw [nodes_move_ne hne]
    rfl
  · intro key
    rw [nodes_move_self]
    refine (Function.update_apply ..).trans ?_
    exact if_congr (Iff.symm (or_iff_left nofun)) rfl rfl
  · rw [nodes_move_self]
    exact nofun
  · rw [nodes_move_self]
    exact nofun
  · intro name hdue _
    obtain ⟨-, cert, hcert, hneeds⟩ := hdue
    refine .inr ⟨?_, cert, ?_, hneeds⟩
    · rw [nodes_move_self]
      exact AList.mem_keys.1 (AList.lookup_isSome.1 (Option.isSome_iff_exists.2 ⟨cert, hcert⟩))
    · rw [nodes_move_self]
      exact hcert
  · exact not_mem_nil
  · rw [nodes_move_self]
    exact nofun

theorem attempts_of_no_redis (hredis : env.redis = false) (events : List (RenewalEvent ι)) :
    ((atRest memory files now).run env events).attempts = [] := by
  refine (List.foldlRecOn (motive := fun s : Cluster ι => (∀ j, (s.nodes j).phase = .idle) ∧
    s.attempts = [])
    events _ ⟨fun _ => rfl, rfl⟩ ?_).2
  rintro s ⟨hidle, hattempts⟩ e -
  cases e with
  | start j =>
    obtain ⟨-, -, hconfigured, -⟩ | hstart := s.start_cases env j
    · rw [hredis] at hconfigured
      cases hconfigured
    · rw [hstart]
      exact ⟨hidle, hattempts⟩
  | proceed j reply written =>
    rw [step, proceed, hidle j]
    exact ⟨hidle, hattempts⟩
  | lookup j domain =>
    refine ⟨fun k => ?_, hattempts⟩
    refine ((phase_step env s ?_).resolve_right ?_).trans (hidle k)
    · intro reply written he
      cases he
    · intro he
      cases he.1
  | advance secs => exact ⟨hidle, hattempts⟩

/-- A scan that starts while nobody holds a lock, and is given the steps it needs among whatever
else happens, attempts every certificate that is due exactly if there is none, or Redis is
configured and there is no due certificate with the name `scan`. -/
theorem attempts_iff (env : RenewalEnv) (memory : ι → AList fun _ : Str => CertData) (files : Files)
    (now : Int) (i : ι) (events : List (RenewalEvent ι)) (hstart : .start i ∉ events)
    (hsteps : 4 * (memory i).keys.length + 1 ≤ events.countP (RenewalEvent.isStepOf i)) :
    (∀ name, Due env (atRest memory files now) i name →
      (i, name) ∈ ((atRest memory files now).run env (.start i :: events)).attempts) ↔
    (∀ name, ¬ Due env (atRest memory files now) i name) ∨
      env.redis = true ∧ ¬ Due env (atRest memory files now) i scanName := by
  cases hredis : env.redis with
  | false =>
    rw [attempts_of_no_redis hredis]
    simp
  | true =>
    have hscanning : Scanning env i (Due env (atRest memory files now) i)
        ((atRest memory files now).step env (.start i)) := scanning_start hredis
    have hidle : (((atRest memory files now).run env (.start i :: events)).nodes i).phase = .idle :=
      by
      have hrank : (((atRest memory files now).run env (.start i :: events)).nodes i).phase.rank ≤
          (((atRest memory files now).step env (.start i)).nodes i).phase.rank -
            events.countP (RenewalEvent.isStepOf i) := rank_run hstart
      rw [step_start hredis, nodes_move_self] at hrank
      exact Phase.rank_eq_zero
        (Nat.le_zero.1 (Nat.le_trans hrank (Nat.le_of_eq (Nat.sub_eq_zero_of_le hsteps))))
    have hdone : Done i (Due env (atRest memory files now) i)
        ((atRest memory files now).run env (.start i :: events)) :=
      (scanning_or_done_run hredis (fun _ h => h.1) hstart (.inl hscanning)).resolve_left
        fun h => h.active hidle
    constructor
    · intro h
      exact .inr ⟨rfl, fun hscan => hdone.unscanned (h scanName hscan)⟩
    · rintro (hnone | ⟨-, hscan⟩) name hdue
      · exact absurd hdue (hnone name)
      · refine hdone.covered name hdue ?_
        rintro rfl
        exact hscan hdue

theorem attempts_iff_renewOne :
    (true, "e.test".toList) ∈
    ((atRest (fun _ => oneCert "e.test".toList) (fun _ => none) 0).run thirtyDays
      (.start true :: renewOne true)).attempts := by
  have hscan : ¬ Due thirtyDays (atRest (fun _ => oneCert "e.test".toList) (fun _ => none) 0) true
      scanName := by
    rintro ⟨-, cert, hcert, -⟩
    cases hcert
  refine (attempts_iff thirtyDays (fun _ => oneCert "e.test".toList) (fun _ => none) 0
    true (renewOne true)
    (fun hmem => nomatch eq_of_mem_replicate hmem) (by decide +kernel)).2 (.inr ⟨rfl, hscan⟩)
      "e.test".toList ?_
  exact ⟨by decide, oldCert, rfl, rfl⟩

/-- Without Redis nothing is attempted, in any run; with Redis a certificate with the name `scan` is
not. -/
theorem attempts_fails :
    let s (name : Str) : Cluster Bool := atRest (fun _ => oneCert name) (fun _ => none) 0
    let noRedis : RenewalEnv := { thirtyDays with redis := false }
    (Due noRedis (s "e.test") true "e.test" ∧
      ∀ events, ((s "e.test").run noRedis events).attempts = []) ∧
    Due thirtyDays (s scanName) true scanName ∧
      ((s scanName).run thirtyDays (.start true :: renewOne true)).attempts = [] := by
  refine ⟨⟨⟨by decide, oldCert, rfl, rfl⟩, attempts_of_no_redis rfl⟩,
    ⟨by decide, oldCert, rfl, rfl⟩, by decide +kernel⟩

end Cluster

end Nozdormu.Ssl
