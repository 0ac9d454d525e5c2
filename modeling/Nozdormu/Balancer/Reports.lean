import Nozdormu.Balancer.Traffic
import Nozdormu.Data.Runs

/-!
# Passive health events

Each attempt of a request should tell the health checker once how the origin did. `ReportedOnce`
says so of a request that is over; `reportedOnce_iff` says in which runs it holds for all of them.
-/

namespace Nozdormu.Balancer

open Rust Data List

namespace Flight

variable {p : Profile} {f : Flight} {b : DynamicBalancer} {o : OriginConfig}

/-- Each attempt was reported once, and as it was. -/
def ReportedOnce (f : Flight) : Prop := f.phase = .finished → f.due.Perm f.reported

/-- While the request is under way, the lost attempts are those not reported. -/
structure Kept (f : Flight) : Prop where
  due : f.phase ≠ .finished → f.due.Perm (f.reported ++ f.lost)
  attempting : f.phase = .attempting → f.selectedOrigin.isSome
  lost : f.selectedOrigin = none → f.lost = []

theorem reportedOnce_of_live (h : f.phase ≠ .finished) :
    f.ReportedOnce := fun hover => absurd hover h

theorem report_of_some (ho : f.selectedOrigin = some o) (success : Bool) :
    f.report success = [⟨f.attempts, o.id, success⟩] := by
  rw [report, ho]
  rfl

/-! ## What is left after the last report -/

variable {due reported lost : List Report} {r r' : Report}

section

variable (h : due.Perm (reported ++ lost))
include h

theorem perm_iff_of_kept : due.Perm reported ↔ lost = [] := by
  constructor
  · intro hperm
    have hlength := (hperm.symm.trans h).length_eq
    rw [length_append] at hlength
    exact eq_nil_of_length_eq_zero (by omega)
  · rintro rfl
    rwa [append_nil] at h

theorem perm_concat_iff_of_kept : due.Perm (reported ++ [r]) ↔ lost = [r] :=
  calc due.Perm (reported ++ [r])
    _ ↔ (reported ++ lost).Perm (reported ++ [r]) := ⟨h.symm.trans, h.trans⟩
    _ ↔ lost.Perm [r] := perm_append_left_iff reported
    _ ↔ lost = [r] := perm_singleton

theorem concat_perm_concat_iff_of_kept :
    (due ++ [r]).Perm (reported ++ [r']) ↔ lost = [] ∧ r = r' := by
  have h' : (due ++ [r]).Perm (reported ++ (lost ++ [r])) := by
    rw [← append_assoc]
    exact h.append_right [r]
  rw [perm_concat_iff_of_kept h']
  constructor
  · intro heq
    have hlength := congrArg List.length heq
    simp only [length_append, length_singleton] at hlength
    obtain rfl := eq_nil_of_length_eq_zero (l := lost) (by omega)
    exact ⟨rfl, singleton_inj.1 heq⟩
  · rintro ⟨rfl, rfl⟩
    rfl

theorem not_concat_perm_of_kept : ¬ (due ++ [r]).Perm reported := by
  intro hperm
  have hlength := h.length_eq
  have hlength' := hperm.length_eq
  simp only [length_append, length_singleton] at hlength hlength'
  omega

end

theorem reportedOnce_upstreamPeer_iff {world : Surroundings} (hkept : f.Kept)
    (honce : f.ReportedOnce) :
    (f.upstreamPeer p world b).2.ReportedOnce ↔
      (f.phase = .ready → f.lost ≠ [] → ∃ r, b.selectPeer p world f.site = .ok r) := by
  unfold upstreamPeer
  by_cases hphase : f.phase = .ready
  · rw [if_pos hphase]
    cases hselect : b.selectPeer p world f.site with
    | ok r =>
      obtain ⟨selected, b'⟩ := r
      refine iff_of_true ?_ fun _ _ => ⟨_, rfl⟩
      cases selected with
      | none | some => exact reportedOnce_of_live nofun
    | error stop =>
      have hlive : f.phase ≠ .finished := by
        rw [hphase]
        nofun
      have hdead : f.die.ReportedOnce ↔ f.lost = [] :=
        ⟨fun h => (perm_iff_of_kept (hkept.due hlive)).1 (h rfl),
          fun h _ => (perm_iff_of_kept (hkept.due hlive)).2 h⟩
      refine hdead.trans ?_
      simp [hphase]
  · rw [if_neg hphase]
    exact iff_of_true honce fun h => absurd h hphase

theorem reportedOnce_failToConnect_iff (hkept : f.Kept) (honce : f.ReportedOnce) :
    (f.failToConnect p b).2.ReportedOnce ↔
      ∀ o, f.phase = .attempting → f.selectedOrigin = some o →
        Countable p (f.health o b).consecutiveFailures := by
  by_cases hphase : f.phase = .attempting
  · obtain ⟨o, ho⟩ := Option.isSome_iff_exists.1 (hkept.attempting hphase)
    have hlive : f.phase ≠ .finished := by
      rw [hphase]
      nofun
    rw [failToConnect_of_some hphase ho]
    split_ifs with hcount
    · refine iff_of_true (reportedOnce_of_live retry_live) ?_
      rintro o' - ho'
      obtain rfl := Option.mem_unique ho ho'
      exact hcount
    · refine iff_of_false ?_ fun h => hcount (h o hphase ho)
      intro hdead
      have hperm : (f.due ++ f.report false).Perm f.reported := hdead rfl
      rw [report_of_some ho] at hperm
      exact not_concat_perm_of_kept (hkept.due hlive) hperm
  · rw [failToConnect_of_not hphase]
    exact iff_of_true honce fun _ h => absurd h hphase

/-- How a request may end: in the middle of an attempt that `logging` reports for what it is, or
after one that was lost. -/
def EndsWell (p : Profile) (status : Nat) (conduct : Conduct) (f : Flight) (o : OriginConfig)
    (b : DynamicBalancer) : Prop :=
  let countable := Countable p ((f.health o b).counter (!failed status))
  if f.phase = .attempting then f.lost = [] ∧ conduct.success = !failed status ∧ countable
  else if countable then f.lost = [⟨f.attempts, o.id, false⟩]
  else f.lost = []

variable {status now : Nat} {conduct : Conduct} {latencyMs : Float}

theorem settle_of_attempting (hphase : f.phase = .attempting) :
    f.settle conduct = { f with due := f.due ++ f.report conduct.success } := if_pos hphase

theorem settle_of_not_attempting (hphase : f.phase ≠ .attempting) :
    f.settle conduct = f := if_neg hphase

theorem reportedOnce_logging_of_some (hkept : f.Kept) (hfinish : f.mayFinish status = true)
    (ho : f.selectedOrigin = some o) :
    (f.logging p status conduct now latencyMs b).2.ReportedOnce ↔
      f.EndsWell p status conduct o b := by
  have hdue := hkept.due (live_of_mayFinish hfinish)
  unfold EndsWell
  rw [logging_of_some hfinish ho]
  by_cases hcount : Countable p ((f.health o b).counter (!failed status))
  · rw [if_pos hcount]
    by_cases hphase : f.phase = .attempting
    · rw [if_pos hphase, settle_of_attempting hphase]
      have hperm : (f.due ++ f.report conduct.success).Perm
          (f.reported ++ f.report (!failed status)) ↔
          f.lost = [] ∧ conduct.success = !failed status := by
        rw [report_of_some ho, report_of_some ho, concat_perm_concat_iff_of_kept hdue]
        simp
      calc _ ↔ (f.due ++ f.report conduct.success).Perm (f.reported ++ f.report (!failed status)) :=
            ⟨fun h => h rfl, fun h _ => h⟩
        _ ↔ _ := by simp only [hperm, hcount, and_true]
    · have hfailed := failed_of_mayFinish hfinish hphase ho
      rw [if_neg hphase, if_pos hcount, settle_of_not_attempting hphase, hfailed]
      calc _ ↔ f.due.Perm (f.reported ++ f.report false) := ⟨fun h => h rfl, fun h _ => h⟩
        _ ↔ _ := by rw [report_of_some ho, perm_concat_iff_of_kept hdue]
  · rw [if_neg hcount]
    by_cases hphase : f.phase = .attempting
    · rw [if_pos hphase, settle_of_attempting hphase]
      refine iff_of_false ?_ fun h => hcount h.2.2
      intro hdead
      have hperm : (f.due ++ f.report conduct.success).Perm f.reported := hdead rfl
      rw [report_of_some ho] at hperm
      exact not_concat_perm_of_kept hdue hperm
    · rw [if_neg hphase, if_neg hcount, settle_of_not_attempting hphase]
      calc _ ↔ f.due.Perm f.reported := ⟨fun h => h rfl, fun h _ => h⟩
        _ ↔ _ := perm_iff_of_kept hdue

theorem reportedOnce_logging_iff (hkept : f.Kept) (honce : f.ReportedOnce) :
    (f.logging p status conduct now latencyMs b).2.ReportedOnce ↔
      (f.mayFinish status = true → ∀ o, f.selectedOrigin = some o →
        f.EndsWell p status conduct o b) := by
  by_cases hfinish : f.mayFinish status = true
  · cases ho : f.selectedOrigin with
    | none =>
      have hphase : f.phase ≠ .attempting := by
        intro hphase
        have hsome := hkept.attempting hphase
        rw [ho] at hsome
        cases hsome
      rw [logging_of_none hfinish ho, settle_of_not_attempting hphase]
      refine iff_of_true (fun _ => ?_) fun _ _ h => nomatch h
      exact (perm_iff_of_kept (hkept.due (live_of_mayFinish hfinish))).2 (hkept.lost ho)
    | some o =>
      rw [reportedOnce_logging_of_some hkept hfinish ho]
      constructor
      · rintro h - o' ho'
        cases ho'
        exact h
      · intro h
        exact h hfinish o rfl
  · rw [logging_of_not hfinish]
    exact iff_of_true honce fun h => absurd h hfinish

/-! ## What the callbacks keep -/

theorem Kept.of_over (h : f.phase = .finished) (hlost : f.selectedOrigin = none → f.lost = []) :
    f.Kept where
  due := fun hlive => absurd h hlive
  attempting := by
    rw [h]
    nofun
  lost := hlost

theorem Kept.upstreamPeer (world : Surroundings) (h : f.Kept) :
    (f.upstreamPeer p world b).2.Kept := by
  unfold Flight.upstreamPeer
  split
  next hphase =>
    have hdue := h.due (by rw [hphase]; nofun)
    split
    · exact ⟨fun _ => hdue, nofun, h.lost⟩
    · exact ⟨fun _ => hdue, nofun, h.lost⟩
    · exact .of_over rfl h.lost
  next => exact h

theorem Kept.resolved (found : Bool) (h : f.Kept) : (f.resolved found b).2.Kept := by
  unfold Flight.resolved
  split
  next o hphase =>
    have hdue := h.due (by rw [hphase]; nofun)
    split
    · exact ⟨fun _ => hdue, fun _ => rfl, nofun⟩
    · exact ⟨fun _ => hdue, nofun, h.lost⟩
  next => exact h

theorem Kept.failToConnect (h : f.Kept) : (f.failToConnect p b).2.Kept := by
  by_cases hphase : f.phase = .attempting
  · obtain ⟨o, ho⟩ := Option.isSome_iff_exists.1 (h.attempting hphase)
    have hdue := h.due (by rw [hphase]; nofun)
    rw [failToConnect_of_some hphase ho]
    split
    · refine ⟨fun _ => ?_, fun hattempting => absurd hattempting retry_ne_attempting, h.lost⟩
      show (f.due ++ f.report false).Perm (f.reported ++ f.report false ++ f.lost)
      rw [append_assoc]
      refine (hdue.append_right _).trans ?_
      rw [append_assoc]
      exact perm_append_comm.append_left f.reported
    · exact .of_over rfl h.lost
  · rw [failToConnect_of_not hphase]
    exact h

theorem Kept.lostReused (h : f.Kept) : (f.lostReused b).2.Kept := by
  unfold Flight.lostReused
  split
  next hphase =>
    have hdue := h.due (by rw [hphase]; nofun)
    refine ⟨fun _ => ?_, nofun, fun ho => ?_⟩
    · rw [← append_assoc]
      exact hdue.append_right _
    · have hsome := h.attempting hphase
      rw [show f.selectedOrigin = none from ho] at hsome
      cases hsome
  next => exact h

theorem Kept.logging (h : f.Kept) : (f.logging p status conduct now latencyMs b).2.Kept := by
  have hsettle : (f.settle conduct).selectedOrigin = none → (f.settle conduct).lost = [] := by
    unfold settle
    split <;> exact h.lost
  by_cases hfinish : f.mayFinish status = true
  · cases ho : f.selectedOrigin with
    | none =>
      rw [logging_of_none hfinish ho]
      exact .of_over rfl hsettle
    | some o =>
      rw [logging_of_some hfinish ho]
      split <;> exact .of_over rfl hsettle
  · rw [logging_of_not hfinish]
    exact h

end Flight

namespace Traffic

variable {s : Traffic} {i : Nat} {p : Profile}

def ReportedOnce (s : Traffic) : Prop := ∀ f ∈ s.flights, f.ReportedOnce

def Kept (s : Traffic) : Prop := ∀ f ∈ s.flights, f.Kept

/-- The steps after which no report is missing, double or wrong for good. -/
def Truthful (p : Profile) (s : Traffic) : TrafficEvent → Prop
  | .select i world => ∀ f, s.flights[i]? = some f → f.phase = .ready → f.lost ≠ [] →
    ∃ r, s.balancer.selectPeer p world f.site = .ok r
  | .connectFailed i => ∀ f, s.flights[i]? = some f → ∀ o, f.phase = .attempting →
    f.selectedOrigin = some o → Countable p (f.health o s.balancer).consecutiveFailures
  | .finish i status conduct _ _ => ∀ f, s.flights[i]? = some f → f.mayFinish status = true →
    ∀ o, f.selectedOrigin = some o → f.EndsWell p status conduct o s.balancer
  | _ => True

theorem reportedOnce_update_iff {callback : Flight → DynamicBalancer → DynamicBalancer × Flight}
    {C : Flight → Prop} (honce : s.ReportedOnce)
    (h : ∀ f ∈ s.flights, (callback f s.balancer).2.ReportedOnce ↔ C f) :
    (s.update i callback).ReportedOnce ↔ ∀ f, s.flights[i]? = some f → C f := by
  constructor
  · intro hupdate f hf
    obtain ⟨hi, -⟩ := List.getElem?_eq_some_iff.1 hf
    rw [update_eq hf] at hupdate
    refine (h f (mem_of_getElem? hf)).1 (hupdate _ ?_)
    exact mem_set hi _
  · intro hC
    exact forall_update honce fun f hf _ => (h f (mem_of_getElem? hf)).2 (hC f hf)

theorem reportedOnce_step_iff (hkept : s.Kept) (honce : s.ReportedOnce) (e : TrafficEvent) :
    (s.step p e).ReportedOnce ↔ s.Truthful p e := by
  cases e with
  | arrive site =>
    refine iff_of_true ?_ trivial
    intro f hf
    rcases mem_append.1 hf with hf | hf
    · exact honce f hf
    · rw [mem_singleton.1 hf]
      exact Flight.reportedOnce_of_live nofun
  | select i world =>
    exact reportedOnce_update_iff honce fun f hf =>
      Flight.reportedOnce_upstreamPeer_iff (hkept f hf) (honce f hf)
  | resolved i found =>
    refine iff_of_true (forall_update honce fun f hf => ?_) trivial
    unfold Flight.resolved
    split
    · split <;> exact fun _ => Flight.reportedOnce_of_live nofun
    · exact id
  | connectFailed i =>
    exact reportedOnce_update_iff honce fun f hf =>
      Flight.reportedOnce_failToConnect_iff (hkept f hf) (honce f hf)
  | lostReused i =>
    refine iff_of_true (forall_update honce fun f hf => ?_) trivial
    unfold Flight.lostReused
    split
    · exact fun _ => Flight.reportedOnce_of_live nofun
    · exact id
  | finish i status conduct now latencyMs =>
    exact reportedOnce_update_iff honce fun f hf =>
      Flight.reportedOnce_logging_iff (hkept f hf) (honce f hf)
  | setStatus siteId originId healthy => exact iff_of_true honce trivial

theorem kept_step (hkept : s.Kept) (e : TrafficEvent) : (s.step p e).Kept := by
  cases e with
  | arrive site =>
    intro f hf
    rcases mem_append.1 hf with hf | hf
    · exact hkept f hf
    · rw [mem_singleton.1 hf]
      exact ⟨fun _ => List.Perm.nil, nofun, fun _ => rfl⟩
  | select i world => exact forall_update hkept fun f _ h => h.upstreamPeer world
  | resolved i found => exact forall_update hkept fun f _ h => h.resolved found
  | connectFailed i => exact forall_update hkept fun f _ h => h.failToConnect
  | lostReused i => exact forall_update hkept fun f _ h => h.lostReused
  | finish i status conduct now latencyMs => exact forall_update hkept fun f _ h => h.logging
  | setStatus siteId originId healthy => exact hkept

/-- All along a run each attempt of a finished request was reported once and as it was, exactly if
no request ends after a failed attempt that was reported already, with a lost attempt that was not,
or with a status that tells something else than the origin did. -/
theorem reportedOnce_iff (p : Profile) (health : HealthChecker) (events : List TrafficEvent) :
    (∀ pre, pre <+: events → (run p pre (start health)).ReportedOnce) ↔
      ∀ pre e, pre ++ [e] <+: events → (run p pre (start health)).Truthful p e := by
  have hnone : ∀ {Q : Flight → Prop}, ∀ f ∈ (start health).flights, Q f :=
    fun f hf => absurd hf not_mem_nil
  exact forall_prefix_iff (I := Kept) (fun _ e hkept honce => reportedOnce_step_iff hkept honce e)
    (fun _ e hkept _ _ => kept_step hkept e) events hnone hnone

def unreachable : List TrafficEvent :=
  [.arrive { pairedSite with origins := pairedSite.origins.take 1 }, .select 0 quietWorld,
    .resolved 0 true, .connectFailed 0, .select 0 quietWorld, .resolved 0 true, .connectFailed 0,
    .finish 0 502 .pending 0 0]

/-- Two failed attempts are three failures, which is enough to take the origin out. -/
theorem reportedOnce_fails :
    let s := run .release unreachable (start (.new 3 2))
    s.flights.map (fun f => f.due.length) = [2] ∧ s.flights.map (fun f => f.reported.length) = [3] ∧
      s.balancer.health.isHealthy "s" "a" = false ∧ ¬ s.ReportedOnce := by
  refine ⟨by decide +kernel, by decide +kernel, by decide +kernel, ?_⟩
  intro honce
  have hperm : ∀ f ∈ (run .release unreachable (start (.new 3 2))).flights,
      f.phase = .finished → f.due.length = f.reported.length :=
    fun f hf hover => (honce f hf hover).length_eq
  revert hperm
  decide +kernel

end Traffic

end Nozdormu.Balancer
