import Nozdormu.Balancer.Traffic
import Nozdormu.Data.Runs

/-!
# Probes and the table they write to

`cdn-proxy/src/health_probe.rs`: a task per origin probes it and keeps its own counts, and its own
view of whether the origin is healthy. Only when that view changes does it write to the health
checker, which the requests and the administrator write to as well (`converges_iff`).
-/

namespace Nozdormu.Balancer

open Rust Data HealthChecker Function List

structure ProbeTarget where
  siteId : Str
  originId : Str
  host : Str
  port : UInt16
  protocol : OriginProtocol
  sni : Option Str
  verifySsl : Bool
  checkType : HealthCheckType
  path : Str
  /-- Seconds. -/
  interval : UInt64
  timeout : UInt64
  healthyThreshold : UInt32
  unhealthyThreshold : UInt32
  expectedCodes : Option (List UInt16)
  hostHeader : Option Str
deriving DecidableEq, Repr

structure ProbeState where
  /-- Counters of 32 bits. -/
  consecutiveSuccesses : Nat := 0
  consecutiveFailures : Nat := 0
  currentlyHealthy : Bool := true
deriving DecidableEq, Repr

/-- The health checker afterwards, and the state of the task with the transition, unless it
panics. -/
def updateProbeState (p : Profile) (target : ProbeTarget) (health : HealthChecker)
    (state : ProbeState) (success : Bool) : HealthChecker × Exec Empty (ProbeState × Option Bool) :=
  let health := health.recordActiveCheck target.siteId target.originId success
  if success then
    match p.add 32 state.consecutiveSuccesses 1 with
    | .error stop => (health, .error stop)
    | .ok successes =>
      let state := { state with consecutiveFailures := 0, consecutiveSuccesses := successes }
      if !state.currentlyHealthy ∧ target.healthyThreshold.toNat ≤ successes then
        (health.setStatus target.siteId target.originId true,
          .ok ({ state with currentlyHealthy := true }, some true))
      else (health, .ok (state, none))
  else
    match p.add 32 state.consecutiveFailures 1 with
    | .error stop => (health, .error stop)
    | .ok failures =>
      let state := { state with consecutiveSuccesses := 0, consecutiveFailures := failures }
      if state.currentlyHealthy ∧ target.unhealthyThreshold.toNat ≤ failures then
        (health.setStatus target.siteId target.originId false,
          .ok ({ state with currentlyHealthy := false }, some false))
      else (health, .ok (state, none))

/-! ## One result after the other -/

def ProbeTarget.threshold (target : ProbeTarget) (success : Bool) : Nat :=
  if success then target.healthyThreshold.toNat else target.unhealthyThreshold.toNat

theorem ProbeTarget.threshold_lt (target : ProbeTarget) (success : Bool) :
    target.threshold success < 2 ^ 32 := by
  cases success with
  | true => exact target.healthyThreshold.toNat_lt
  | false => exact target.unhealthyThreshold.toNat_lt

variable (state : ProbeState)

namespace ProbeState

def counter (state : ProbeState) (success : Bool) : Nat :=
  if success then state.consecutiveSuccesses else state.consecutiveFailures

def counted (state : ProbeState) (success : Bool) : ProbeState :=
  if success then
    { state with
      consecutiveFailures := 0
      consecutiveSuccesses := countUp state.consecutiveSuccesses }
  else
    { state with
      consecutiveSuccesses := 0
      consecutiveFailures := countUp state.consecutiveFailures }

@[simp] theorem counter_counted (success : Bool) :
    (state.counted success).counter success = countUp (state.counter success) := by
  cases success <;> rfl

@[simp] theorem counter_counted_not (success : Bool) :
    (state.counted success).counter (!success) = 0 := by
  cases success <;> rfl

@[simp] theorem currentlyHealthy_counted (success : Bool) :
    (state.counted success).currentlyHealthy = state.currentlyHealthy := by
  cases success <;> rfl

/-- The row is long enough to change the view of the task. -/
def Turns (state : ProbeState) (target : ProbeTarget) (success : Bool) : Prop :=
  state.currentlyHealthy ≠ success ∧ target.threshold success ≤ countUp (state.counter success)

instance (state : ProbeState) (target : ProbeTarget) (success : Bool) :
    Decidable (state.Turns target success) := inferInstanceAs (Decidable (_ ∧ _))

end ProbeState

variable {p : Profile} {target : ProbeTarget} {health : HealthChecker} {state : ProbeState}
  {success : Bool}

theorem updateProbeState_eq : updateProbeState p target health state success =
      let health := health.recordActiveCheck target.siteId target.originId success
      if Countable p (state.counter success) then
        if state.Turns target success then
          (health.setStatus target.siteId target.originId success,
            .ok ({ state.counted success with currentlyHealthy := success }, some success))
        else (health, .ok (state.counted success, none))
      else (health, crash .overflow) := by
  unfold updateProbeState
  cases success with
  | true =>
    simp only [add_one_eq, ProbeState.counter, if_true]
    by_cases hcount : Countable p state.consecutiveSuccesses
    · rw [if_pos hcount, if_pos hcount]
      exact if_congr (and_congr_left' (by simp)) rfl rfl
    · rw [if_neg hcount, if_neg hcount]
      rfl
  | false =>
    simp only [add_one_eq, ProbeState.counter, Bool.false_eq_true, if_false]
    by_cases hcount : Countable p state.consecutiveFailures
    · rw [if_pos hcount, if_pos hcount]
      exact if_congr (and_congr_left' (by simp)) rfl rfl
    · rw [if_neg hcount, if_neg hcount]
      rfl

/-! ## Tasks, requests and the administrator -/

structure ProbeTask where
  target : ProbeTarget
  state : ProbeState := {}
deriving DecidableEq, Repr

structure ProbeSystem where
  health : HealthChecker
  /-- The tasks that run, each under the key of its origin. -/
  tasks : Str → Option ProbeTask

inductive ProbeEvent where
  /-- a request at the origin ends -/
  | passive (siteId originId : Str) (success : Bool)
  /-- the administrator -/
  | setStatus (siteId originId : Str) (healthy : Bool)
  | probe (siteId originId : Str) (success : Bool)
  /-- a task is spawned, for the first time or again -/
  | spawn (target : ProbeTarget)
  | abort (siteId originId : Str)

def ProbeEvent.origin : ProbeEvent → Str × Str
  | .passive siteId originId _ | .setStatus siteId originId _ | .probe siteId originId _ |
    .abort siteId originId => (siteId, originId)
  | .spawn target => (target.siteId, target.originId)

variable {more : List ProbeEvent}

namespace ProbeSystem

def start (health : HealthChecker) : ProbeSystem := ⟨health, fun _ => none⟩

def taskOf (s : ProbeSystem) (siteId originId : Str) : Option ProbeTask :=
  (s.tasks (makeKey siteId originId)).filter fun task =>
    task.target.siteId = siteId ∧ task.target.originId = originId

def probed (p : Profile) (s : ProbeSystem) (task : ProbeTask) (success : Bool) : ProbeSystem :=
  let key := makeKey task.target.siteId task.target.originId
  let result := updateProbeState p task.target s.health task.state success
  match result.2 with
  | .ok (state, _) => ⟨result.1, update s.tasks key (some { task with state })⟩
  | .error _ => ⟨result.1, update s.tasks key none⟩

/-- A count of the health checker that overflows changes nothing: the other count is 0 then. -/
def step (p : Profile) (s : ProbeSystem) : ProbeEvent → ProbeSystem
  | .passive siteId originId success =>
    match (s.health.record p siteId originId success : Exec Empty HealthChecker) with
    | .ok health => { s with health }
    | .error _ => s
  | .setStatus siteId originId healthy =>
      { s with health := s.health.setStatus siteId originId healthy }
  | .probe siteId originId success =>
    match s.taskOf siteId originId with
    | some task => s.probed p task success
    | none => s
  | .spawn target =>
    { s with tasks := update s.tasks (makeKey target.siteId target.originId) (some { target }) }
  | .abort siteId originId =>
    { s with tasks := update s.tasks (makeKey siteId originId) none }

def run (p : Profile) (events : List ProbeEvent) (s : ProbeSystem) : ProbeSystem :=
  events.foldl (step p) s

/-- A row of equal probes, with no other event at the origin and as long as the threshold, settles
its status. -/
def Converges (p : Profile) (s : ProbeSystem) (siteId originId : Str) (target : ProbeTarget) :
    Prop :=
  ∀ success k more, more.filter (·.origin = (siteId, originId)) =
      List.replicate k (.probe siteId originId success) →
    target.threshold success ≤ k → (run p more s).health.isHealthy siteId originId = success

variable {s : ProbeSystem} {siteId originId key : Str} {task : ProbeTask}

theorem of_taskOf (h : s.taskOf siteId originId = some task) :
    s.tasks (makeKey siteId originId) = some task ∧ task.target.siteId = siteId ∧
      task.target.originId = originId := by
  obtain ⟨htask, horigin⟩ := Option.filter_eq_some_iff.1 h
  exact ⟨htask, of_decide_eq_true horigin⟩

theorem probed_cases (p : Profile) (s : ProbeSystem) (task : ProbeTask) (success : Bool) :
    let key := makeKey task.target.siteId task.target.originId
    let s' := s.probed p task success
    ((s'.health.entry key).healthy = (s.health.entry key).healthy ∧ s'.tasks key = none ∧
        ¬ Countable p (task.state.counter success)) ∨
      ((s'.health.entry key).healthy = success ∧
        s'.tasks key = some { task with
          state := { task.state.counted success with currentlyHealthy := success } } ∧
        task.state.Turns task.target success) ∨
      ((s'.health.entry key).healthy = (s.health.entry key).healthy ∧
        s'.tasks key = some { task with state := task.state.counted success } ∧
        ¬ task.state.Turns task.target success) := by
  intro key s'
  have hactive : (entry (s.health.recordActiveCheck task.target.siteId
      task.target.originId success) key).healthy = (s.health.entry key).healthy := by
    rw [recordActiveCheck, entry_put_self]
  by_cases hcount : Countable p (task.state.counter success)
  · by_cases hturns : task.state.Turns task.target success
    · refine .inr (.inl ?_)
      simp only [s', probed, updateProbeState_eq, if_pos hcount, if_pos hturns]
      refine ⟨?_, update_self .., hturns⟩
      rw [setStatus, entry_put_self]
    · refine .inr (.inr ?_)
      simp only [s', probed, updateProbeState_eq, if_pos hcount, if_neg hturns]
      exact ⟨hactive, update_self .., hturns⟩
  · refine .inl ?_
    simp only [s', probed, updateProbeState_eq, if_neg hcount]
    exact ⟨hactive, update_self .., hcount⟩

theorem probed_of_ne (hkey : key ≠ makeKey task.target.siteId task.target.originId)
    (success : Bool) :
    (s.probed p task success).health.entry key = s.health.entry key ∧
      (s.probed p task success).tasks key = s.tasks key := by
  have hactive : entry (s.health.recordActiveCheck task.target.siteId
      task.target.originId success) key = s.health.entry key := entry_put_of_ne _ _ hkey
  simp only [probed, updateProbeState_eq]
  split_ifs
  · refine ⟨?_, update_of_ne hkey ..⟩
    rw [setStatus, entry_put_of_ne _ _ hkey, hactive]
  · exact ⟨hactive, update_of_ne hkey ..⟩
  · exact ⟨hactive, update_of_ne hkey ..⟩

theorem step_passive_tasks (p : Profile) (s : ProbeSystem) (siteId originId : Str)
    (success : Bool) :
    (s.step p (.passive siteId originId success)).tasks = s.tasks := by
  unfold step
  dsimp only
  split <;> rfl

theorem step_probe (h : s.taskOf siteId originId = some task) (success : Bool) :
    s.step p (.probe siteId originId success) = s.probed p task success := by
  simp only [step, h]

theorem step_probe_none (h : s.taskOf siteId originId = none) (success : Bool) :
    s.step p (.probe siteId originId success) = s := by
  simp only [step, h]

theorem step_of_ne {e : ProbeEvent} (h : key ≠ makeKey e.origin.1 e.origin.2) :
    (s.step p e).health.entry key = s.health.entry key ∧ (s.step p e).tasks key = s.tasks key := by
  cases e with
  | passive siteId originId success =>
    refine ⟨?_, congrFun (step_passive_tasks ..) key⟩
    simp only [step, record_eq]
    split_ifs
    · exact entry_put_of_ne _ _ h
    · rfl
  | setStatus siteId originId healthy => exact ⟨entry_put_of_ne _ _ h, rfl⟩
  | probe siteId originId success =>
    cases htask : s.taskOf siteId originId with
    | none =>
      rw [step_probe_none htask]
      exact ⟨rfl, rfl⟩
    | some task =>
      obtain ⟨-, hsite, horigin⟩ := of_taskOf htask
      rw [step_probe htask]
      refine probed_of_ne ?_ success
      rw [hsite, horigin]
      exact h
  | spawn | abort => exact ⟨rfl, update_of_ne h _ _⟩

/-! ## A row of equal probes -/

section

variable (hnul : '\x00' ∉ siteId ∧ '\x00' ∉ originId)
include hnul

/-- To follow a row of `k` equal probes at an origin, it is enough to follow one of them; `M` may
count those still to come. -/
theorem row_induction {success : Bool} {M : Nat → OriginHealth → Option ProbeTask → Prop}
    (hstep : ∀ (s : ProbeSystem) k,
      M (k + 1) (s.health.entry (makeKey siteId originId)) (s.tasks (makeKey siteId originId)) →
      M k ((s.step p (.probe siteId originId success)).health.entry (makeKey siteId originId))
        ((s.step p (.probe siteId originId success)).tasks (makeKey siteId originId)))
    {k : Nat} (hmore : more.filter (·.origin = (siteId, originId)) =
      List.replicate k (.probe siteId originId success))
    (h : M k (s.health.entry (makeKey siteId originId)) (s.tasks (makeKey siteId originId))) :
    M 0 ((run p more s).health.entry (makeKey siteId originId))
      ((run p more s).tasks (makeKey siteId originId)) := by
  induction more generalizing s k with
  | nil =>
    cases k with
    | zero => exact h
    | succ k => cases hmore
  | cons e more ih =>
    by_cases howner : e.origin = (siteId, originId)
    · rw [filter_cons_of_pos (by simpa using howner)] at hmore
      cases k with
      | zero => cases hmore
      | succ k =>
        obtain ⟨rfl, hrest⟩ := List.cons.inj hmore
        exact ih hrest (hstep s k h)
    · rw [filter_cons_of_neg (by simpa using howner)] at hmore
      have hkey : makeKey siteId originId ≠ makeKey e.origin.1 e.origin.2 := by
        intro hkey
        obtain ⟨hsite, horigin⟩ := makeKey_inj hnul.1 hnul.2 hkey.symm
        exact howner (Prod.ext hsite horigin)
      refine ih hmore ?_
      obtain ⟨hentry, htask⟩ := step_of_ne hkey
      rw [hentry, htask]
      exact h

variable {k : Nat} (hmore : more.filter (·.origin = (siteId, originId)) =
  List.replicate k (.probe siteId originId success))
include hmore

theorem row_stays (h : (s.health.entry (makeKey siteId originId)).healthy = success) :
    ((run p more s).health.entry (makeKey siteId originId)).healthy = success := by
  refine row_induction (M := fun _ h _ => h.healthy = success) hnul ?_ hmore h
  intro s k h
  cases htask : s.taskOf siteId originId with
  | none => rwa [step_probe_none htask]
  | some task =>
    obtain ⟨-, rfl, rfl⟩ := of_taskOf htask
    rw [step_probe htask]
    rcases probed_cases p s task success with ⟨hsame, -, -⟩ | ⟨hnew, -, -⟩ | ⟨hsame, -, -⟩
    · exact hsame.trans h
    · exact hnew
    · exact hsame.trans h

theorem row_ignored (htask : s.taskOf siteId originId = some task)
    (hview : task.state.currentlyHealthy = success)
    (h : (s.health.entry (makeKey siteId originId)).healthy ≠ success) :
    ((run p more s).health.entry (makeKey siteId originId)).healthy ≠ success := by
  have hrow := row_induction (s := s) (p := p) (M := fun _ h task? => h.healthy ≠ success ∧
      ∀ task, task? = some task → task.state.currentlyHealthy = success) hnul ?_ hmore ?_
  · exact hrow.1
  · rintro s k ⟨h, hviews⟩
    cases htask : s.taskOf siteId originId with
    | none =>
      rw [step_probe_none htask]
      exact ⟨h, hviews⟩
    | some task =>
      obtain ⟨hat, rfl, rfl⟩ := of_taskOf htask
      have hview := hviews task hat
      rw [step_probe htask]
      rcases probed_cases p s task success with ⟨hsame, hgone, -⟩ | ⟨-, -, hturns⟩ |
        ⟨hsame, hnew, -⟩
      · refine ⟨hsame ▸ h, fun task' htask' => ?_⟩
        rw [hgone] at htask'
        cases htask'
      · exact absurd hview hturns.1
      · refine ⟨hsame ▸ h, fun task' htask' => ?_⟩
        rw [hnew] at htask'
        cases htask'
        exact (ProbeState.currentlyHealthy_counted ..).trans hview
  · obtain ⟨hat, -, -⟩ := of_taskOf htask
    refine ⟨h, fun task' htask' => ?_⟩
    rw [hat] at htask'
    cases htask'
    exact hview

theorem row_turns (htask : s.taskOf siteId originId = some task)
    (hview : task.state.currentlyHealthy ≠ success)
    (hbelow : task.state.counter success < task.target.threshold success)
    (hlong : task.target.threshold success ≤ k) :
    ((run p more s).health.entry (makeKey siteId originId)).healthy = success := by
  have hrow := row_induction (s := s) (p := p)
    (M := fun k h task? => h.healthy = success ∨ ∃ task, task? = some task ∧
      (task.target.siteId = siteId ∧ task.target.originId = originId) ∧
      task.state.currentlyHealthy ≠ success ∧
      task.state.counter success < task.target.threshold success ∧
      task.target.threshold success ≤ task.state.counter success + k) hnul ?_ hmore ?_
  · rcases hrow with hdone | ⟨task, -, -, -, hbelow, hlong⟩
    · exact hdone
    · omega
  · rintro s k (hdone | ⟨task, hat, ⟨rfl, rfl⟩, hview, hbelow, hlong⟩)
    · refine .inl ?_
      have hone : [ProbeEvent.probe siteId originId success].filter
          (·.origin = (siteId, originId)) =
          List.replicate 1 (.probe siteId originId success) := by
        simp [ProbeEvent.origin]
      exact row_stays hnul hone hdone
    · rw [step_probe (Option.filter_eq_some_iff.2 ⟨hat, decide_eq_true ⟨rfl, rfl⟩⟩)]
      have hroom := task.target.threshold_lt success
      have hcount : countUp (task.state.counter success) = task.state.counter success + 1 :=
        Nat.mod_eq_of_lt (by omega)
      rcases probed_cases p s task success with ⟨-, -, hfull⟩ | ⟨hnew, -, -⟩ | ⟨-, hnew, hstays⟩
      · exact absurd (.inr (by omega)) hfull
      · exact .inl hnew
      refine .inr ⟨_, hnew, ⟨rfl, rfl⟩, ?_, ?_, ?_⟩
      · rw [ProbeState.currentlyHealthy_counted]
        exact hview
      · rw [ProbeState.counter_counted, hcount]
        have hshort : ¬ task.target.threshold success ≤ countUp (task.state.counter success) :=
          fun hrow => hstays ⟨hview, hrow⟩
        show _ < task.target.threshold success
        omega
      · rw [ProbeState.counter_counted, hcount]
        show task.target.threshold success ≤ _
        omega
  · obtain ⟨hat, hsite, horigin⟩ := of_taskOf htask
    exact .inr ⟨task, hat, ⟨hsite, horigin⟩, hview, hbelow, by omega⟩

end

/-! ## The tasks of a run -/

/-- The rows that would turn a task have not been long enough. -/
def Fresh (s : ProbeSystem) : Prop :=
  ∀ key task, s.tasks key = some task → ∀ success, task.state.currentlyHealthy ≠ success →
    task.state.counter success = 0 ∨ task.state.counter success < task.target.threshold success

theorem Fresh.of_tasks {s' : ProbeSystem} {changed : Str} (h : s.Fresh)
    (htasks : ∀ key, key ≠ changed → s'.tasks key = s.tasks key)
    (hchanged : ∀ task, s'.tasks changed = some task → ∀ success,
      task.state.currentlyHealthy ≠ success →
      task.state.counter success = 0 ∨ task.state.counter success < task.target.threshold success) :
    s'.Fresh := by
  intro key task htask
  by_cases hkey : key = changed
  · obtain rfl := hkey
    exact hchanged task htask
  · rw [htasks key hkey] at htask
    exact h key task htask

theorem Fresh.probed (h : s.Fresh) (task : ProbeTask) (success : Bool) :
    (s.probed p task success).Fresh := by
  refine h.of_tasks (fun key hkey => (probed_of_ne hkey success).2) ?_
  intro task' htask' other hview
  rcases probed_cases p s task success with ⟨-, hgone, -⟩ | ⟨-, hnew, -⟩ | ⟨-, hnew, hstays⟩
  · rw [hgone] at htask'
    cases htask'
  · -- the task has just turned, and the row of the other kind is empty
    rw [hnew] at htask'
    cases htask'
    obtain rfl : other = !success := Bool.eq_not_of_ne (Ne.symm hview)
    exact .inl (ProbeState.counter_counted_not task.state success)
  · rw [hnew] at htask'
    cases htask'
    have hstill : task.state.currentlyHealthy ≠ other := by
      rwa [ProbeState.currentlyHealthy_counted] at hview
    by_cases hother : other = success
    · obtain rfl := hother
      refine .inr ?_
      rw [ProbeState.counter_counted]
      exact Nat.lt_of_not_le fun hrow => hstays ⟨hstill, hrow⟩
    · obtain rfl : other = !success := Bool.eq_not_of_ne hother
      exact .inl (ProbeState.counter_counted_not task.state success)

theorem Fresh.step (h : s.Fresh) (e : ProbeEvent) : (s.step p e).Fresh := by
  cases e with
  | passive siteId originId success =>
    intro key task htask
    rw [step_passive_tasks] at htask
    exact h key task htask
  | setStatus siteId originId healthy => exact h
  | probe siteId originId success =>
    cases htask : s.taskOf siteId originId with
    | none => rwa [step_probe_none htask]
    | some task =>
      rw [step_probe htask]
      exact h.probed task success
  | spawn target =>
    refine h.of_tasks (fun key hkey => update_of_ne hkey ..) ?_
    intro task htask success _
    obtain rfl := Option.mem_unique htask (update_self ..)
    exact .inl (by cases success <;> rfl)
  | abort siteId originId =>
    refine h.of_tasks (fun key hkey => update_of_ne hkey ..) ?_
    intro task htask
    cases htask.symm.trans (update_self ..)

/-- In every state that is reached, rows of probes settle the status of a probed origin exactly if,
for both results, the table says so already or the task does not think so (and the threshold is
not 0). -/
theorem converges_iff (p : Profile) (health : HealthChecker) (events : List ProbeEvent)
    (siteId originId : Str) (task : ProbeTask)
    (htask : (run p events (start health)).taskOf siteId originId = some task) :
    (run p events (start health)).Converges p siteId originId task.target ↔
      ('\x00' ∉ siteId ∧ '\x00' ∉ originId) ∧
        ∀ success, (run p events (start health)).health.isHealthy siteId originId = success ∨
          task.state.currentlyHealthy ≠ success ∧ 0 < task.target.threshold success := by
  have hfresh : (run p events (start health)).Fresh :=
    List.foldlRecOn (motive := Fresh) events _ (fun _ _ htask => by cases htask)
      fun _ h e _ => h.step e
  revert htask hfresh
  generalize run p events (start health) = s
  intro htask hfresh
  obtain ⟨hat, -, -⟩ := of_taskOf htask
  have hrow : ∀ k success, (List.replicate k (ProbeEvent.probe siteId originId success)).filter
      (·.origin = (siteId, originId)) = List.replicate k (.probe siteId originId success) := by
    intro k success
    exact filter_eq_self.2 fun e he => by simp [eq_of_mem_replicate he, ProbeEvent.origin]
  constructor
  · intro hconverges
    have hnul : '\x00' ∉ siteId ∧ '\x00' ∉ originId := by
      by_contra hnul
      -- the administrator sets the other origin with this key
      obtain ⟨siteId', originId', hne, hkey⟩ := exists_same_key hnul
      have hhealthy := hconverges true (task.target.threshold true)
        (List.replicate (task.target.threshold true) (.probe siteId originId true) ++
          [.setStatus siteId' originId' false])
        (by rw [filter_append, hrow]; simp [ProbeEvent.origin, hne]) (Nat.le_refl _)
      rw [run, foldl_append, isHealthy, ← hkey] at hhealthy
      have hset : (entry (setStatus _ siteId' originId' false)
          (makeKey siteId' originId')).healthy = true := hhealthy
      rw [setStatus, entry_put_self] at hset
      cases hset
    refine ⟨hnul, fun success => ?_⟩
    by_contra hfails
    rw [not_or, not_and_or, not_not, Nat.pos_iff_ne_zero, not_not] at hfails
    obtain ⟨hstatus, hview | hzero⟩ := hfails
    · exact row_ignored hnul (hrow _ success) htask hview hstatus
        (hconverges success (task.target.threshold success) _ (hrow _ success) (Nat.le_refl _))
    · exact hstatus (hconverges success 0 [] rfl (Nat.le_of_eq hzero))
  · rintro ⟨hnul, hagree⟩ success k more hmore hlong
    rcases hagree success with hstatus | ⟨hview, hpos⟩
    · exact row_stays hnul hmore hstatus
    · have hbelow : task.state.counter success < task.target.threshold success := by
        rcases hfresh _ task hat success hview with hzero | hbelow
        · omega
        · exact hbelow
      exact row_turns hnul hmore htask hview hbelow hlong

def sampleTarget : ProbeTarget where
  siteId := "s"
  originId := "a"
  host := "a.test"
  port := 80
  protocol := .http
  sni := none
  verifySsl := false
  checkType := .tcp
  path := "/health"
  interval := 10
  timeout := 5
  healthyThreshold := 2
  unhealthyThreshold := 3
  expectedCodes := none
  hostHeader := none

theorem converges_iff_spawned :
    (run .release [.spawn sampleTarget] (start (.new 3 2))).Converges .release "s" "a"
      sampleTarget :=
  (converges_iff .release (.new 3 2) [.spawn sampleTarget] "s" "a" { target := sampleTarget }
    (by decide +kernel)).2 ⟨by decide, by decide +kernel⟩

def failedRequests : List ProbeEvent :=
  .spawn sampleTarget :: List.replicate 3 (.passive "s" "a" false)

/-- The probes succeed, and the origin stays out of service. -/
theorem converges_fails :
    ¬ (run .release failedRequests (start (.new 3 2))).Converges .release "s" "a"
      sampleTarget := by
  intro hconverges
  have hhealthy := hconverges true 2 (List.replicate 2 (.probe "s" "a" true)) (by rfl)
    (by decide)
  revert hhealthy
  decide +kernel

end ProbeSystem

end Nozdormu.Balancer
