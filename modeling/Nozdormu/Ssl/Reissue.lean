import Nozdormu.Ssl.Renewal

/-!
# How often a certificate is reissued
-/

namespace Nozdormu.Ssl.Cluster

open Rust Data List

variable {ι : Type} [DecidableEq ι] {env : RenewalEnv}

/-- At some time in the run the node had an outdated certificate. -/
def WasOutdated (env : RenewalEnv) (s : Cluster ι) (events : List (RenewalEvent ι))
    (i : ι) (name : Str) :
    Prop :=
  ∃ pre, pre <+: events ∧ Outdated env (s.run env pre) i name

/-- No certificate that the issuer gives needs renewal at the time `last`. -/
def IssuesFresh (env : RenewalEnv) (s : Cluster ι) (last : Int) : RenewalEvent ι → Prop
  | .proceed _ (some issued) _ =>
    ∀ domains, (issued.newCert env s.now domains).needsRenewal last env.renewalDays = false
  | _ => True

/-- What a node has renewed is not outdated, and it has renewed it once. -/
structure Renewed (env : RenewalEnv) (last : Int) (s : Cluster ι) : Prop where
  busy : Busy env s
  fresh : ∀ i name, (i, name) ∈ s.issued → ∃ cert, (s.nodes i).memory.lookup name = some cert ∧
    cert.needsRenewal last env.renewalDays = false
  once : ∀ i name, s.issued.count (i, name) ≤ 1

theorem Renewed.step {last : Int} {s : Cluster ι} {e : RenewalEvent ι} (h : Renewed env last s)
    (hfresh : IssuesFresh env s last e) (hlast : s.now ≤ last) :
      Renewed env last (s.step env e) := by
  have hstep : ∀ i name, _ := fun i name => lookup_step_cases env s e i name
  refine ⟨busy_step h.busy e, ?_, ?_⟩
  · intro i name hissued
    obtain ⟨hkept, hcount⟩ | ⟨issued, written, domains, rfl, -, hstored, -⟩ := hstep i name
    · rw [← count_pos_iff, hcount, count_pos_iff] at hissued
      obtain ⟨cert, hcert, hneeds⟩ := h.fresh i name hissued
      exact ⟨cert, hkept cert hcert, hneeds⟩
    · exact ⟨_, hstored, hfresh domains⟩
  · intro i name
    obtain ⟨-, hcount⟩ | ⟨issued, written, domains, rfl, hrenewing, -, hissued⟩ := hstep i name
    · rw [hcount]
      exact h.once i name
    -- what is being renewed is outdated, so it has not been renewed before
    have hnew : (i, name) ∉ s.issued := by
      intro hmem
      obtain ⟨cert, hcert, hneeds⟩ := h.fresh i name hmem
      obtain ⟨cert', hcert', hneeds'⟩ := h.busy i name hrenewing
      rw [hcert] at hcert'
      cases hcert'
      rw [CertData.needsRenewal_mono hlast hneeds'] at hneeds
      cases hneeds
    rw [hissued, count_append, count_eq_zero_of_not_mem hnew, count_singleton_self]

variable {s : Cluster ι} {i : ι} {name : Str}

theorem now_le_run (s : Cluster ι) (events : List (RenewalEvent ι)) :
    s.now ≤ (s.run env events).now := by
  induction events generalizing s with
  | nil => exact Int.le_refl _
  | cons e events ih => exact Int.le_trans (now_le_step e) (ih (s.step env e))

theorem mem_issued_step (h : (i, name) ∈ s.issued) (e : RenewalEvent ι) :
    (i, name) ∈ (s.step env e).issued := by
  obtain ⟨-, hcount⟩ | ⟨-, -, -, -, -, -, hissued⟩ := lookup_step_cases env s e i name
  · rw [← count_pos_iff, hcount, count_pos_iff]
    exact h
  · rw [hissued]
    exact mem_append_left _ h

theorem wasOutdated_of_mem_issued (hstart : s.issued = []) (hbusy : Busy env s)
    (events : List (RenewalEvent ι)) (h : (i, name) ∈ (s.run env events).issued) :
    WasOutdated env s events i name := by
  induction events using List.reverseRecOn with
  | nil =>
    rw [run, foldl_nil, hstart] at h
    cases h
  | append_singleton events e ih =>
    have hlater : WasOutdated env s events i name → WasOutdated env s (events ++ [e]) i name :=
      fun ⟨pre, hpre, houtdated⟩ => ⟨pre, hpre.trans (prefix_append events [e]), houtdated⟩
    have hstep : s.run env (events ++ [e]) = (s.run env events).step env e := foldl_append ..
    rw [hstep] at h
    obtain ⟨-, hcount⟩ | ⟨-, -, -, -, hrenewing, -, -⟩ :=
      lookup_step_cases env (s.run env events) e i name
    · rw [← count_pos_iff, hcount, count_pos_iff] at h
      exact hlater (ih h)
    · have hbusy : Busy env (s.run env events) :=
        List.foldlRecOn events _ hbusy fun _ h e _ => busy_step h e
      exact hlater ⟨events, prefix_refl events, hbusy i name hrenewing⟩

theorem renewed_run (hstart : s.issued = []) (hbusy : Busy env s) {events : List (RenewalEvent ι)}
    (hfresh : ∀ pre e, pre ++ [e] <+: events →
      IssuesFresh env (s.run env pre) (s.run env events).now e) :
    Renewed env (s.run env events).now (s.run env events) := by
  have hstep : ∀ (s' : Cluster ι) e, Renewed env (s.run env events).now s' →
      (IssuesFresh env s' (s.run env events).now e ∧ s'.now ≤ (s.run env events).now) →
      Renewed env (s.run env events).now (s'.step env e) :=
    fun s' e h hok => h.step hok.1 hok.2
  have hinit : Renewed env (s.run env events).now s := by
    refine ⟨hbusy, ?_, ?_⟩ <;> rw [hstart]
    · exact nofun
    · exact fun _ _ => Nat.zero_le 1
  refine forall_prefix_of_allowed hstep hinit ?_ events (prefix_refl events)
  intro pre e hpre
  refine ⟨hfresh pre e hpre, ?_⟩
  obtain ⟨post, rfl⟩ := (prefix_append pre [e]).trans hpre
  rw [run, foldl_append]
  exact now_le_run _ post

/-- In every run in which the issuer gives certificates that do not need renewal, a node has
reissued a certificate exactly if its own copy has been outdated and no longer is, and only once. -/
theorem reissued_iff (env : RenewalEnv) (memory : ι → AList fun _ : Str => CertData) (files : Files)
    (now : Int) (events : List (RenewalEvent ι)) (hfresh : ∀ pre e, pre ++ [e] <+: events →
      IssuesFresh env ((atRest memory files now).run env pre)
      ((atRest memory files now).run env events).now e)
    (name : Str) :
    (∀ i, ((i, name) ∈ ((atRest memory files now).run env events).issued ↔
        WasOutdated env (atRest memory files now) events i name ∧
          ¬ Outdated env ((atRest memory files now).run env events) i name) ∧
      ((atRest memory files now).run env events).issued.count (i, name) ≤ 1) ∧
    ((∀ i, ¬ Outdated env ((atRest memory files now).run env events) i name) →
      ((∃! i, (i, name) ∈ ((atRest memory files now).run env events).issued) ↔
        ∃! i, WasOutdated env (atRest memory files now) events i name)) := by
  have hrenewed := renewed_run rfl nofun hfresh
  have hiff : ∀ i, (i, name) ∈ ((atRest memory files now).run env events).issued ↔
      WasOutdated env (atRest memory files now) events i name ∧
        ¬ Outdated env ((atRest memory files now).run env events) i name := by
    intro i
    constructor
    · intro hissued
      refine ⟨wasOutdated_of_mem_issued rfl nofun events hissued, ?_⟩
      rintro ⟨cert, hcert, hneeds⟩
      obtain ⟨cert', hcert', hneeds'⟩ := hrenewed.fresh i name hissued
      rw [hcert] at hcert'
      cases hcert'
      rw [hneeds] at hneeds'
      cases hneeds'
    · rintro ⟨⟨pre, ⟨post, rfl⟩, houtdated⟩, hnow⟩
      rw [run, foldl_append] at hnow ⊢
      refine (List.foldlRecOn (motive := fun s => Outdated env s i name ∨
        (i, name) ∈ s.issued) post _
        (.inl houtdated) ?_).resolve_left hnow
      -- a certificate that needs renewal needs it until one is stored
      rintro s (⟨cert, hcert, hneeds⟩ | hissued) e -
      · obtain ⟨hkept, -⟩ | ⟨issued, -, -, -, -, -, hissued⟩ := lookup_step_cases env s e i name
        · exact .inl ⟨cert, hkept cert hcert, CertData.needsRenewal_mono (now_le_step e) hneeds⟩
        · exact .inr (hissued ▸ mem_append_cons_self)
      · exact .inr (mem_issued_step hissued e)
  refine ⟨fun i => ⟨hiff i, hrenewed.once i name⟩, fun hnone => ?_⟩
  refine existsUnique_congr fun i => ?_
  rw [hiff i]
  exact and_iff_left (hnone i)

def twoCopies : Cluster Bool := atRest (fun _ => oneCert "e.test") (fun _ => none) 0

theorem reissued_iff_twoCopies :
    WasOutdated thirtyDays twoCopies (.start true :: renewOne true) true "e.test" ∧
      ¬ Outdated thirtyDays (twoCopies.run thirtyDays (.start true :: renewOne true)) true
        "e.test" := by
  have hfresh : ∀ pre e, pre ++ [e] <+: .start true :: renewOne true →
      IssuesFresh thirtyDays (twoCopies.run thirtyDays pre)
        (twoCopies.run thirtyDays (.start true :: renewOne true)).now e := by
    intro pre e _
    rcases e with _ | ⟨i, _ | issued, written⟩ | _ | _
    case proceed.some => exact fun domains => rfl
    all_goals trivial
  exact ((reissued_iff thirtyDays _ _ _ _ hfresh "e.test").1 true).1.1 (by decide +kernel)

/-- One scan after the other: both nodes reissue the certificate. -/
theorem reissued_fails :
    let first := twoCopies.run thirtyDays (.start true :: renewOne true)
    first.issued = [(true, "e.test".toList)] ∧ first.locks (lockKey renewalScan) = none ∧
      (first.run thirtyDays (.start false :: renewOne false)).issued =
        [(true, "e.test".toList), (false, "e.test".toList)] := by
  decide +kernel

end Nozdormu.Ssl.Cluster
