import Nozdormu.Config.Reload

/-!
# The watch loop and compaction
-/

namespace Nozdormu.Config

open Rust Data List

variable {ρ ω : Type}

/-- A node with its loop, and the etcd it watches. -/
structure Loop (ρ ω : Type) where
  node : Node ρ ω := {}
  /-- events below this revision are gone -/
  compacted : Nat := 0
  /-- whether a watch is open -/
  watching : Bool := false
  backoffSecs : Nat := 5
  /-- the greatest revision that a cancellation has reported as compacted -/
  reported : Nat := 0

inductive LoopEvent (ρ ω : Type) where
  /-- a change in etcd, a step of a reload, or the work on a response -/
  | node (e : NodeEvent ρ ω)
  | compact (revision : Nat)
  | connect
  /-- a response with up to `n` events -/
  | receive (n : Nat)
  /-- a response that cancels the watch, and says so if it was because of a compaction -/
  | cancel
  /-- the end of the stream, or a cancellation for another reason -/
  | streamEnd
  /-- an error, of the stream or of the connection -/
  | fail

/-- Whether the event belongs to a reload that has read. -/
def LoopEvent.ofReload : LoopEvent ρ ω → Bool
  | .node (.revise _) => true
  | .node (.store _ _) => true
  | _ => false

namespace Loop

def startRevision (s : Loop ρ ω) : Nat := s.node.lastRevision + 1

def waits (s : Loop ρ ω) : Bool :=
  s.watching &&
    match s.node.phase with
    | .idle => true
    | _ => false

variable (m : Manager ρ ω)

def step (s : Loop ρ ω) : LoopEvent ρ ω → Loop ρ ω
  -- these two come from the loop itself
  | .node .connect => s
  | .node (.receive _) => s
  | .node e => { s with node := s.node.step m e }
  | .compact revision => { s with compacted := max s.compacted (min revision s.node.log.length) }
  | .connect =>
    if s.watching then s else { s with watching := true, node := s.node.step m .connect }
  | .receive n =>
    if s.waits && decide (s.compacted ≤ s.node.cursor + 1) then
      { s with node := s.node.step m (.receive n) }
    else s
  | .cancel =>
    if s.waits then
      { s with
        watching := false
        backoffSecs := 5
        reported := if s.node.cursor + 1 < s.compacted then max s.reported s.compacted
          else s.reported }
    else s
  | .streamEnd => if s.waits then { s with watching := false, backoffSecs := 5 } else s
  | .fail =>
    if s.waits || !s.watching then
      { s with watching := false, backoffSecs := min (s.backoffSecs * 2) 60 }
    else s

def run (events : List (LoopEvent ρ ω)) (s : Loop ρ ω) : Loop ρ ω := events.foldl (step m) s

/-- The next watch starts at a revision that has been reported compacted. -/
def Repeats (s : Loop ρ ω) : Prop := s.startRevision < s.reported

/-- The open watch is behind the compacted revision, and so is the next one. -/
def Refused (s : Loop ρ ω) : Prop :=
  s.waits = true ∧ s.node.cursor + 1 < s.compacted ∧ s.startRevision < s.compacted

/-- The event lets a reload that has got past the revision `c` move `last_revision`. -/
def Lifts (c : Nat) (s : Loop ρ ω) : LoopEvent ρ ω → Prop
  | .node (.revise i) => ∃ r, s.node.reloads[i]? = some r ∧ c ≤ r.revision + 1
  | _ => False

/-! ## Left behind -/

/-- The node is behind the compacted revision `c`, and no watch gets it any further. -/
structure Stranded (c : Nat) (s : Loop ρ ω) : Prop where
  idle : s.node.phase = .idle
  behind : s.startRevision < c
  compacted : c ≤ s.compacted
  cursor : s.watching = true → s.node.cursor + 1 < c

variable {m : Manager ρ ω} {s : Loop ρ ω} {c : Nat}

theorem waits_iff : s.waits = true ↔ s.watching = true ∧ s.node.phase = .idle := by
  unfold waits
  cases s.node.phase <;> simp

theorem Stranded.node_step (h : Stranded c s) {e : NodeEvent ρ ω}
    (hlifts : ¬ Lifts c s (.node e)) : Stranded c (s.step m (.node e)) ∧
      ((LoopEvent.node e : LoopEvent ρ ω).ofReload = false →
        (s.step m (.node e)).node.live = s.node.live) := by
  obtain ⟨hidle, hbehind, hcompacted, hcursor⟩ := h
  cases e with
  | change | read | connect | receive => exact ⟨⟨hidle, hbehind, hcompacted, hcursor⟩, fun _ => rfl⟩
  | revise i =>
    refine ⟨?_, nofun⟩
    cases hr : s.node.reloads[i]? with
    | none =>
      have hsame : s.step m (.node (.revise i)) = s := by simp only [step, Node.step, hr]
      rw [hsame]
      exact ⟨hidle, hbehind, hcompacted, hcursor⟩
    | some r =>
      have hstale : r.revision + 1 < c := Nat.lt_of_not_le fun hle => hlifts ⟨r, hr, hle⟩
      have hnext : s.step m (.node (.revise i)) = { s with node := { s.node with
          lastRevision := max s.node.lastRevision r.revision
          reloads := s.node.reloads.set i { r with revised := true } } } := by
        simp only [step, Node.step, hr]
      rw [hnext]
      refine ⟨hidle, ?_, hcompacted, hcursor⟩
      show max s.node.lastRevision r.revision + 1 < c
      have hlast : s.node.lastRevision + 1 < c := hbehind
      omega
  | store i order =>
    refine ⟨?_, nofun⟩
    have hkept : (s.node.step m (.store i order)).phase = s.node.phase ∧
        (s.node.step m (.store i order)).lastRevision = s.node.lastRevision ∧
        (s.node.step m (.store i order)).cursor = s.node.cursor := by
      simp only [Node.step]
      split
      · split <;> exact ⟨rfl, rfl, rfl⟩
      · exact ⟨rfl, rfl, rfl⟩
    obtain ⟨hphase, hlast, hcursor'⟩ := hkept
    refine ⟨hphase.trans hidle, ?_, hcompacted, fun hwatching => ?_⟩
    · show (s.node.step m (.store i order)).lastRevision + 1 < c
      rw [hlast]
      exact hbehind
    · show (s.node.step m (.store i order)).cursor + 1 < c
      rw [hcursor']
      exact hcursor hwatching
  | apply order =>
    have hsame : s.step m (.node (.apply order)) = s := by simp only [step, Node.step, hidle]
    rw [hsame]
    exact ⟨⟨hidle, hbehind, hcompacted, hcursor⟩, fun _ => rfl⟩
  | note =>
    have hsame : s.step m (.node .note) = s := by simp only [step, Node.step, hidle]
    rw [hsame]
    exact ⟨⟨hidle, hbehind, hcompacted, hcursor⟩, fun _ => rfl⟩

theorem Stranded.close (h : Stranded c s) (backoffSecs reported : Nat) :
    Stranded c { s with watching := false, backoffSecs, reported } :=
  ⟨h.idle, h.behind, h.compacted, nofun⟩

theorem Stranded.step (h : Stranded c s) {e : LoopEvent ρ ω} (hlifts : ¬ Lifts c s e) :
    Stranded c (s.step m e) ∧ (e.ofReload = false → (s.step m e).node.live = s.node.live) := by
  cases e with
  | node e => exact h.node_step hlifts
  | compact revision =>
    exact ⟨⟨h.idle, h.behind, Nat.le_trans h.compacted (Nat.le_max_left ..), h.cursor⟩, fun _ =>
      rfl⟩
  | connect =>
    simp only [Loop.step]
    split
    · exact ⟨h, fun _ => rfl⟩
    -- the new watch starts where the node is, which is too early
    have hnode : s.node.step m .connect = { s.node with cursor := s.node.lastRevision } := by
      simp only [Node.step, h.idle]
    rw [hnode]
    exact ⟨⟨h.idle, h.behind, h.compacted, fun _ => h.behind⟩, fun _ => rfl⟩
  | receive n =>
    have hrefused : (s.waits && decide (s.compacted ≤ s.node.cursor + 1)) = false := by
      rw [Bool.and_eq_false_iff]
      cases hwaits : s.waits with
      | false => exact .inl rfl
      | true =>
        have hcursor := h.cursor (waits_iff.1 hwaits).1
        have hcompacted := h.compacted
        exact .inr (decide_eq_false (by omega))
    simp only [Loop.step, hrefused]
    exact ⟨h, fun _ => rfl⟩
  | cancel | streamEnd | fail =>
    simp only [Loop.step]
    split
    · exact ⟨h.close .., fun _ => rfl⟩
    · exact ⟨h, fun _ => rfl⟩

theorem Refused.stranded (h : s.Refused) : Stranded s.compacted (s.step m .cancel) := by
  obtain ⟨hwaits, -, hbehind⟩ := h
  rw [Loop.step, if_pos hwaits]
  exact ⟨(waits_iff.1 hwaits).2, hbehind, Nat.le_refl _, nofun⟩

theorem live_run_of_stranded (h : Stranded c s) {events : List (LoopEvent ρ ω)}
    (hreload : ∀ e ∈ events, e.ofReload = false) : (run m events s).node.live = s.node.live := by
  induction events generalizing s with
  | nil => rfl
  | cons e events ih =>
    have hquiet := hreload e mem_cons_self
    have hnot : ¬ Lifts c s e := by
      intro hlifts
      unfold Lifts at hlifts
      split at hlifts
      · cases hquiet
      · exact hlifts
    obtain ⟨hstranded, hlive⟩ := h.step hnot
    exact (ih hstranded fun e' he' => hreload e' (mem_cons_of_mem e he')).trans (hlive hquiet)

/-! ## What has been reported -/

theorem lastRevision_le_step (s : Loop ρ ω) (e : LoopEvent ρ ω) :
    s.node.lastRevision ≤ (s.step m e).node.lastRevision := by
  have hnode : ∀ e', s.node.lastRevision ≤ (s.node.step m e').lastRevision := by
    intro e'
    cases e' with
    | change | read => exact Nat.le_refl _
    | revise | note =>
      simp only [Node.step]
      split
      · exact Nat.le_max_left ..
      · exact Nat.le_refl _
    | store i order =>
      simp only [Node.step]
      split
      · split <;> exact Nat.le_refl _
      · exact Nat.le_refl _
    | connect | receive | apply => simp only [Node.step]; split <;> exact Nat.le_refl _
  cases e with
  | node e =>
    cases e with
    | connect | receive => exact Nat.le_refl _
    | _ => exact hnode _
  | compact => exact Nat.le_refl _
  | connect =>
    simp only [step]
    split
    · exact Nat.le_refl _
    · exact hnode .connect
  | receive n =>
    simp only [step]
    split
    · exact hnode (.receive n)
    · exact Nat.le_refl _
  | cancel | streamEnd | fail => simp only [step]; split <;> exact Nat.le_refl _

theorem lastRevision_le_run (s : Loop ρ ω) (events : List (LoopEvent ρ ω)) :
    s.node.lastRevision ≤ (run m events s).node.lastRevision :=
  List.foldlRecOn (motive := fun s' => s.node.lastRevision ≤ s'.node.lastRevision) events
    _ (Nat.le_refl _)
    fun s' h e _ => Nat.le_trans h (lastRevision_le_step s' e)

theorem run_append (a b : List (LoopEvent ρ ω)) (s : Loop ρ ω) :
    run m (a ++ b) s = run m b (run m a s) := foldl_append

theorem reported_step (hle : s.reported ≤ s.compacted) (e : LoopEvent ρ ω) :
    (s.step m e).reported ≤ (s.step m e).compacted ∧
      ((s.step m e).reported = s.reported ∨ e = .cancel ∧ s.waits = true ∧
        s.node.cursor + 1 < s.compacted ∧ (s.step m e).reported = s.compacted) := by
  cases e with
  | node e => cases e <;> exact ⟨hle, .inl rfl⟩
  | compact revision => exact ⟨Nat.le_trans hle (Nat.le_max_left ..), .inl rfl⟩
  | connect | receive | streamEnd | fail => simp only [step]; split <;> exact ⟨hle, .inl rfl⟩
  | cancel =>
    simp only [step]
    split
    next hwaits =>
      split
      next hbehind =>
        rw [Nat.max_eq_right hle]
        exact ⟨Nat.le_refl _, .inr ⟨trivial, hwaits, hbehind, rfl⟩⟩
      next => exact ⟨hle, .inl rfl⟩
    next => exact ⟨hle, .inl rfl⟩

theorem reported_le_run (hle : s.reported ≤ s.compacted) (events : List (LoopEvent ρ ω)) :
    s.reported ≤ (run m events s).reported := by
  refine (List.foldlRecOn (motive := fun s' : Loop ρ ω => s.reported ≤ s'.reported ∧
    s'.reported ≤ s'.compacted)
    events _ ⟨Nat.le_refl _, hle⟩ ?_).1
  rintro s' ⟨hsofar, hle'⟩ e -
  obtain ⟨hnext, hsame | ⟨-, -, -, hnew⟩⟩ := reported_step hle' e
  · exact ⟨by rwa [hsame], hnext⟩
  · exact ⟨by rw [hnew]; exact Nat.le_trans hsofar hle', hnext⟩

theorem reported_run (events : List (LoopEvent ρ ω)) :
    (run m events {}).reported ≤ (run m events {}).compacted ∧
      ((run m events {}).reported = 0 ∨ ∃ a b, events = a ++ .cancel :: b ∧
        (run m a {}).waits = true ∧ (run m a {}).node.cursor + 1 < (run m a {}).compacted ∧
        (run m a {}).compacted = (run m events {}).reported) := by
  induction events using List.reverseRecOn with
  | nil => exact ⟨Nat.le_refl _, .inl rfl⟩
  | append_singleton events e ih =>
    obtain ⟨hle, hsource⟩ := ih
    obtain ⟨hle', hreported⟩ := reported_step hle e
    rw [run_append]
    refine ⟨hle', ?_⟩
    show (step m (run m events {}) e).reported = 0 ∨ ∃ a b, _ ∧ _ ∧ _ ∧ _ = (step m _ e).reported
    rcases hreported with hsame | ⟨rfl, hwaits, hbehind, hnew⟩
    · rw [hsame]
      rcases hsource with hzero | ⟨a, b, rfl, hwaits, hbehind, heq⟩
      · exact .inl hzero
      · exact .inr ⟨a, b ++ [e], by simp, hwaits, hbehind, heq⟩
    · exact .inr ⟨events, [], rfl, hwaits, hbehind, hnew.symm⟩

/-- The watch is issued at a revision that was reported compacted, exactly if one was refused before
and no reload has got past the compaction since. -/
theorem repeats_iff (events : List (LoopEvent ρ ω)) :
    (run m events {}).Repeats ↔ ∃ a b, events = a ++ .cancel :: b ∧ (run m a {}).Refused ∧
      ∀ pre e, pre ++ [e] <+: b → ¬ Lifts (run m a {}).compacted
      (run m (a ++ .cancel :: pre) {}) e := by
  constructor
  · intro hrepeats
    obtain ⟨-, hzero | ⟨a, b, rfl, hwaits, hbehind, heq⟩⟩ := reported_run (m := m) events
    · unfold Repeats at hrepeats
      rw [hzero] at hrepeats
      exact absurd hrepeats (Nat.not_lt_zero _)
    have hend : (run m (a ++ .cancel :: b) {}).startRevision < (run m a {}).compacted := by
      rw [heq]
      exact hrepeats
    have hstart : (run m a {}).startRevision < (run m a {}).compacted := by
      refine Nat.lt_of_le_of_lt ?_ hend
      rw [run_append]
      exact Nat.succ_le_succ (lastRevision_le_run _ _)
    refine ⟨a, b, rfl, ⟨hwaits, hbehind, hstart⟩, ?_⟩
    intro pre e hpre hlifts
    -- the reload would have moved the next watch past the compaction
    unfold Lifts at hlifts
    split at hlifts
    next i =>
      obtain ⟨r, hr, hpast⟩ := hlifts
      obtain ⟨rest, rfl⟩ := hpre
      have hmoved : r.revision ≤
          (run m (a ++ .cancel :: (pre ++ [.node (.revise i)])) {}).node.lastRevision := by
        rw [← cons_append, ← append_assoc, run_append]
        show r.revision ≤ (step m (run m (a ++ .cancel :: pre) {})
          (.node (.revise i))).node.lastRevision
        simp only [step, Node.step, hr]
        exact Nat.le_max_right ..
      have hlater := lastRevision_le_run (m := m)
        (run m (a ++ .cancel :: (pre ++ [.node (.revise i)])) {}) rest
      rw [← run_append, append_assoc, cons_append] at hlater
      unfold startRevision at hend
      omega
    next => exact hlifts
  · rintro ⟨a, b, rfl, hrefused, hlifts⟩
    have hcancelled : Stranded (run m a {}).compacted (step m (run m a {}) .cancel) :=
      hrefused.stranded
    have hstranded : Stranded (run m a {}).compacted (run m (a ++ .cancel :: b) {}) := by
      rw [run_append]
      -- only a reload gets the node past the compaction
      refine forall_prefix_of_allowed (I := Stranded _)
        (fun _ _ hs hnot => (hs.step hnot).1) hcancelled ?_ b
        (prefix_refl b)
      intro pre e hpre
      have hnot := hlifts pre e hpre
      rwa [run_append] at hnot
    have hreported : (run m a {}).compacted ≤ (run m (a ++ .cancel :: b) {}).reported := by
      obtain ⟨hwaits, hbehind, -⟩ := hrefused
      have hle := (reported_run (m := m) a).1
      have hcancel : (step m (run m a {}) .cancel).reported = (run m a {}).compacted := by
        simp only [step, hwaits, hbehind, if_true]
        exact Nat.max_eq_right hle
      rw [run_append, ← hcancel]
      exact reported_le_run (reported_step hle .cancel).1 b
    exact Nat.lt_of_lt_of_le hstranded.behind hreported

/-- A run issues no watch at a revision that was reported compacted, exactly if after each refusal a
reload that has got past the compaction moves `last_revision` before the next watch is issued. -/
theorem watches_iff (m : Manager ρ ω) (events : List (LoopEvent ρ ω)) :
    ((∀ pre, pre ++ [.connect] <+: events → (run m pre {}).watching = false →
        ¬ (run m pre {}).Repeats) ↔
      ∀ a b, a ++ .cancel :: b ++ [.connect] <+: events →
        (run m (a ++ .cancel :: b) {}).watching = false → (run m a {}).Refused →
        ∃ pre e, pre ++ [e] <+: b ∧ Lifts (run m a {}).compacted (run m (a ++ .cancel :: pre) {}) e)
          ∧
    ∀ a b, events = a ++ .cancel :: b → (run m a {}).Refused → (∀ e ∈ b, e.ofReload = false) →
      (run m events {}).node.live = (run m a {}).node.live := by
  constructor
  · constructor
    · intro h a b hpre hclosed hrefused
      by_contra hnone
      push Not at hnone
      exact h _ hpre hclosed ((repeats_iff _).2 ⟨a, b, rfl, hrefused, hnone⟩)
    · intro h pre hpre hclosed hrepeats
      obtain ⟨a, b, rfl, hrefused, hnone⟩ := (repeats_iff pre).1 hrepeats
      obtain ⟨pre, e, hb, hlifts⟩ := h a b hpre hclosed hrefused
      exact hnone pre e hb hlifts
  · rintro a b rfl hrefused hreload
    have hcancel : (step m (run m a {}) .cancel).node = (run m a {}).node := by
      rw [step, if_pos hrefused.1]
    rw [run_append, ← hcancel]
    exact live_run_of_stranded hrefused.stranded hreload

/-- etcd gets two changes and is compacted; the loop watches from revision 1, is refused and watches
from revision 1 again. -/
theorem watches_fails :
    let start := run Manager.plainNode [.node (Node.changed Manager.plainSite),
      .node (Node.changed Node.disabledSite), .compact 2, .connect] {}
    let s := run Manager.plainNode [.cancel] start
    start.Refused ∧ s.watching = false ∧ s.reported = 2 ∧ s.startRevision = 1 ∧ s.Repeats ∧
      s.node.reloads = [] := by
  intro start s
  have hreported : s.reported = 2 := by decide +kernel
  have hstart : s.startRevision = 1 := by decide +kernel
  have hrepeats : s.Repeats := by
    exact Nat.one_lt_two
  have hrefused : start.Refused := ⟨by decide +kernel, by decide +kernel, by decide +kernel⟩
  exact ⟨hrefused, rfl, hreported, hstart, hrepeats, rfl⟩

end Loop

end Nozdormu.Config
