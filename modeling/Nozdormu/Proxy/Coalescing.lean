import Nozdormu.Proxy.CompleteAnswers

/-!
# Request coalescing
-/

namespace Nozdormu.Proxy

open Rust Bmff Cache Function CdnProxy

/-- Where a request is. An entry is named by the request that inserted it. -/
inductive Phase where
  | idle
  /-- not found in the cache -/
  | missed (ctx : ProxyCtx)
  /-- has the entry of a leader, but has not asked to be woken -/
  | observed (ctx : ProxyCtx) (entry : Nat)
  /-- `notified().await` -/
  | waiting (ctx : ProxyCtx) (entry : Nat)
  | woken (ctx : ProxyCtx)
  /-- on the way to the origin -/
  | forwarded (ctx : ProxyCtx)
  | receiving (ctx : ProxyCtx) (left : List (Option Bytes))
  /-- has removed an entry and is about to wake its waiters -/
  | releasing (entry : Nat) (next : Phase)
  | over
deriving DecidableEq, Repr

namespace Phase

def ctx : Phase → Option ProxyCtx
  | forwarded ctx => some ctx
  | receiving ctx _ => some ctx
  | _ => none

/-- The request is not over: its `logging` is to come, or in progress. -/
def inFlight : Phase → Bool
  | forwarded _ => true
  | receiving .. => true
  | releasing .. => true
  | _ => false

/-- `notify_waiters`. -/
def wake (entry : Nat) : Phase → Phase
  | waiting ctx e => if e = entry then woken ctx else waiting ctx e
  | f => f

end Phase

structure Coalescing where
  phases : Nat → Phase
  /-- `coalescing_map` -/
  map : Str → Option Nat

namespace Coalescing

def empty : Coalescing := ⟨fun _ => .idle, fun _ => none⟩

def set (sys : Coalescing) (i : Nat) (f : Phase) : Coalescing :=
  { sys with phases := update sys.phases i f }

/-- A leader lets go of its key and goes on to `next`. -/
def letGo (sys : Coalescing) (i : Nat) (ctx : ProxyCtx) (next : Phase) : Coalescing :=
  match (releaseLeader ctx).2 with
  | none => sys.set i next
  | some key =>
    match sys.map key with
    | none => sys.set i next
    | some entry => { sys.set i (.releasing entry next) with map := update sys.map key none }

end Coalescing

/-- What happens next. `found` is what a lookup in the cache says. -/
inductive CoalescingEvent where
  | arrive (i : Nat) (found : Bool)
  /-- `coalescing_map.entry(key)` -/
  | enter (i : Nat)
  /-- `notify.notified()` -/
  | register (i : Nat)
  | timeout (i : Nat)
  /-- the second lookup of a follower that was woken -/
  | resume (i : Nat) (found : Bool)
  /-- `fail_to_connect` without a retry -/
  | connectFailed (i : Nat)
  /-- `response_filter` -/
  | header (i : Nat) (now : Clock)
  /-- one call of `response_body_filter` -/
  | body (i : Nat) (now : Clock)
  /-- `logging`, whatever became of the request -/
  | finish (i : Nat)
  /-- `notify_waiters` of an entry that was removed -/
  | notify (i : Nat)
deriving Repr

variable {ctx : ProxyCtx} {i : Nat} {f : Phase} {data : Option Bytes}

namespace Coalescing

variable (proxy : CdnProxy) (exchange : Nat → Exchange)

def arrive (sys : Coalescing) (i : Nat) (found : Bool) : Coalescing :=
  match proxy.decision (exchange i).request with
  | .error _ => sys.set i .over
  | .ok d =>
    if d.cacheable then
      sys.set i (if found then .over else .missed (proxy.missed (exchange i).request d.ttl))
    else sys.set i (.forwarded (detected (exchange i).request))

def enter (sys : Coalescing) (i : Nat) (ctx : ProxyCtx) : Coalescing :=
  match ctx.cacheKey with
  | none => sys
  | some key =>
    match sys.map key with
    | some entry => sys.set i (.observed ctx entry)
    | none =>
      { sys.set i (.forwarded { ctx with isCoalescingLeader := true }) with
        map := update sys.map key (some i) }

def receive (sys : Coalescing) (i : Nat) (now : Clock) (ctx : ProxyCtx) (data : Option Bytes)
    (left : List (Option Bytes)) : Coalescing :=
  let received := (proxy.cacheBody now data left.isEmpty ctx).1
  if left.isEmpty then sys.letGo i received (.receiving (releaseLeader received).1 left)
  else sys.set i (.receiving received left)

/-- An event for a request that is not in the phase for it does nothing. -/
def step (sys : Coalescing) : CoalescingEvent → Coalescing
  | .arrive i found =>
    match sys.phases i with
    | .idle => sys.arrive proxy exchange i found
    | _ => sys
  | .enter i =>
    match sys.phases i with
    | .missed ctx => sys.enter i ctx
    | _ => sys
  | .register i =>
    match sys.phases i with
    | .observed ctx entry => sys.set i (.waiting ctx entry)
    | _ => sys
  | .timeout i =>
    match sys.phases i with
    | .waiting ctx _ => sys.set i (.forwarded ctx)
    | _ => sys
  | .resume i found =>
    match sys.phases i with
    | .woken ctx => sys.set i (if found then .over else .forwarded ctx)
    | _ => sys
  | .connectFailed i =>
    match sys.phases i with
    | .forwarded ctx => sys.letGo i ctx (.forwarded (releaseLeader ctx).1)
    | _ => sys
  | .header i now =>
    match sys.phases i with
    | .forwarded ctx =>
      sys.set i (.receiving
        (proxy.responseFilter now (exchange i).request (exchange i).response ctx)
        (exchange i).response.body)
    | _ => sys
  | .body i now =>
    match sys.phases i with
    | .receiving ctx (data :: left) => sys.receive proxy i now ctx data left
    | _ => sys
  | .finish i =>
    match (sys.phases i).ctx with
    | some ctx => sys.letGo i ctx .over
    | none => sys
  | .notify i =>
    match sys.phases i with
    | .releasing entry next =>
      { sys with phases := fun j => ((sys.set i next).phases j).wake entry }
    | _ => sys

def run (events : List CoalescingEvent) (sys : Coalescing) : Coalescing :=
  events.foldl (step proxy exchange) sys

/-! ## What is to hold -/

/-- Entries belong to requests in flight, and so does every entry that somebody has found or waits
for. -/
structure Released (sys : Coalescing) : Prop where
  map : ∀ key entry, sys.map key = some entry → (sys.phases entry).inFlight = true
  observed : ∀ i ctx entry, sys.phases i = .observed ctx entry → (sys.phases entry).inFlight = true
  waiting : ∀ i ctx entry, sys.phases i = .waiting ctx entry → (sys.phases entry).inFlight = true

/-- The step does not clear the key of a leader, and wakes the waiters of an entry when no follower
is still about to ask. -/
def Orderly (sys : Coalescing) : CoalescingEvent → Prop
  | .header i _ => ∀ ctx, sys.phases i = .forwarded ctx → ctx.isCoalescingLeader = true →
      (exchange i).response.status ∈ cacheableStatuses ∧
        ¬ (marksOf (exchange i).response.headers).Refuse proxy.site.cache
  | .body i _ => ∀ ctx data left, sys.phases i = .receiving ctx (data :: left) →
      ctx.isCoalescingLeader = true →
      ctx.responseBodySize + (data.getD []).length ≤ proxy.site.cache.maxSize.toNat
  | .notify i => ∀ entry next, sys.phases i = .releasing entry next →
      ∀ j ctx, sys.phases j ≠ .observed ctx entry
  | _ => True

def OrderlyRun : List CoalescingEvent → Coalescing → Prop
  | [], _ => True
  | e :: events, sys => sys.Orderly proxy exchange e ∧ OrderlyRun events (sys.step proxy exchange e)

/-! ## The invariant -/

def Leads (f : Phase) : Prop := ∃ ctx, f.ctx = some ctx ∧ ctx.isCoalescingLeader = true

/-- The entry of request `i` is in the map, or its waiters are about to be woken. -/
def Holds (i : Nat) (f : Phase) : Prop := Leads f ∨ ∃ next, f = .releasing i next

/-- A request behind its leadership: over, or still at the origin. -/
def Plain (f : Phase) : Prop := f = .over ∨ ∃ ctx, f.ctx = some ctx ∧ ctx.isCoalescingLeader = false

/-- What the phase of request `i` goes with. -/
def Fits (sys : Coalescing) (i : Nat) : Phase → Prop
  | .missed ctx => ctx.isCoalescingLeader = false
  | .observed ctx entry => ctx.isCoalescingLeader = false ∧ Holds entry (sys.phases entry)
  | .waiting ctx entry => ctx.isCoalescingLeader = false ∧ Holds entry (sys.phases entry)
  | .woken ctx => ctx.isCoalescingLeader = false
  | .forwarded ctx => ctx.isCoalescingLeader = true → ∃ key, ctx.cacheKey = some key ∧
      sys.map key = some i
  | .receiving ctx _ => ctx.isCoalescingLeader = true → ∃ key, ctx.cacheKey = some key ∧
      sys.map key = some i
  | .releasing entry next => entry = i ∧ Plain next
  | _ => True

structure Inv (sys : Coalescing) : Prop where
  map : ∀ {key entry}, sys.map key = some entry →
    ∃ ctx, (sys.phases entry).ctx = some ctx ∧ ctx.isCoalescingLeader = true ∧
      ctx.cacheKey = some key
  fits : ∀ i, sys.Fits i (sys.phases i)

theorem inv_empty : empty.Inv where
  map := nofun
  fits := fun _ => trivial

variable {proxy exchange} {sys : Coalescing}

theorem inFlight_of_ctx (h : f.ctx = some ctx) : f.inFlight = true := by
  cases f with
  | forwarded | receiving => rfl
  | _ => cases h

theorem inFlight_of_holds (h : Holds i f) : f.inFlight = true := by
  rcases h with ⟨ctx, hctx, -⟩ | ⟨next, rfl⟩
  · exact inFlight_of_ctx hctx
  · rfl

theorem Inv.released (h : sys.Inv) : sys.Released where
  map := by
    intro key entry hentry
    obtain ⟨ctx, hctx, -⟩ := h.map hentry
    exact inFlight_of_ctx hctx
  observed := by
    intro i ctx entry hi
    have hfits := h.fits i
    rw [hi] at hfits
    exact inFlight_of_holds hfits.2
  waiting := by
    intro i ctx entry hi
    have hfits := h.fits i
    rw [hi] at hfits
    exact inFlight_of_holds hfits.2

theorem Inv.key (h : sys.Inv) (hctx : (sys.phases i).ctx = some ctx)
    (hleader : ctx.isCoalescingLeader = true) :
      ∃ key, ctx.cacheKey = some key ∧ sys.map key = some i := by
  have hfits := h.fits i
  cases hphase : sys.phases i with
  | forwarded | receiving =>
    rw [hphase] at hctx hfits
    cases hctx
    exact hfits hleader
  | _ => rw [hphase] at hctx; cases hctx

theorem Fits.mono {sys' : Coalescing} (h : sys.Fits i f)
    (hmap : ∀ key, sys.map key = some i → sys'.map key = some i)
    (hholds : ∀ entry ctx, f = .observed ctx entry ∨ f = .waiting ctx entry →
      Holds entry (sys.phases entry) → Holds entry (sys'.phases entry)) : sys'.Fits i f := by
  cases f with
  | observed ctx entry => exact ⟨h.1, hholds entry ctx (.inl rfl) h.2⟩
  | waiting ctx entry => exact ⟨h.1, hholds entry ctx (.inr rfl) h.2⟩
  | forwarded | receiving =>
    intro hleader
    obtain ⟨key, hkey, hentry⟩ := h hleader
    exact ⟨key, hkey, hmap key hentry⟩
  | _ => exact h

theorem Inv.change (h : sys.Inv) {map' : Str → Option Nat}
    (hmap : ∀ key j, j ≠ i → (map' key = some j ↔ sys.map key = some j))
    (hown : ∀ key, map' key = some i →
      ∃ ctx, f.ctx = some ctx ∧ ctx.isCoalescingLeader = true ∧ ctx.cacheKey = some key)
    (hholds : Holds i (sys.phases i) → Holds i f) (hfits : Fits { sys with map := map' } i f) :
    Inv { sys.set i f with map := map' } := by
  have hkeep : ∀ entry, Holds entry (sys.phases entry) →
      Holds entry (update sys.phases i f entry) :=
    (forall_update_iff _ fun entry f' => Holds entry (sys.phases entry) → Holds entry f').2
      ⟨hholds, fun _ _ hentry => hentry⟩
  refine ⟨fun {key entry} hentry => ?_, (forall_update_iff _ fun j f' => Fits _ j f').2
    ⟨hfits.mono (fun _ hkey => hkey) fun entry _ _ => hkeep entry,
      fun j hj => (h.fits j).mono (fun key => (hmap key j hj).2) fun entry _ _ => hkeep entry⟩⟩
  show ∃ c, (update sys.phases i f entry).ctx = some c ∧ _
  by_cases heq : entry = i
  · subst heq
    rw [update_self]
    exact hown key hentry
  · rw [update_of_ne heq]
    exact h.map ((hmap key entry heq).1 hentry)

theorem Inv.set (h : sys.Inv) (hfits : sys.Fits i f) (hholds : Holds i (sys.phases i) → Holds i f)
    (hmap : ∀ key, sys.map key = some i →
      ∃ ctx, f.ctx = some ctx ∧ ctx.isCoalescingLeader = true ∧ ctx.cacheKey = some key) :
    (sys.set i f).Inv := h.change (fun _ _ _ => Iff.rfl) hmap hholds hfits

theorem Inv.set_of_free (h : sys.Inv) (hfree : ¬ Holds i (sys.phases i))
    (hfits : sys.Fits i f) : (sys.set i f).Inv := by
  refine h.set hfits (fun hholds => absurd hholds hfree) fun key hkey => ?_
  obtain ⟨ctx, hctx, hleader, -⟩ := h.map hkey
  exact absurd (.inl ⟨ctx, hctx, hleader⟩) hfree

theorem Plain.fits (h : Plain f) (sys : Coalescing) (i : Nat) : sys.Fits i f := by
  rcases h with rfl | ⟨ctx, hctx, hfalse⟩
  · trivial
  have hnot : ¬ ctx.isCoalescingLeader = true := Bool.eq_false_iff.1 hfalse
  cases f with
  | forwarded | receiving =>
    cases hctx
    exact fun htrue => absurd htrue hnot
  | _ => cases hctx

theorem Plain.wake (h : Plain f) (entry : Nat) : f.wake entry = f := by
  rcases h with rfl | ⟨ctx, hctx, -⟩
  · rfl
  · cases f with
    | waiting => cases hctx
    | _ => rfl

theorem Inv.lead (h : sys.Inv) {key : Str} (hfree : ¬ Holds i (sys.phases i))
    (hkey : ctx.cacheKey = some key) (hvacant : sys.map key = none) :
    Inv { sys.set i (.forwarded { ctx with isCoalescingLeader := true }) with
      map := update sys.map key (some i) } := by
  have hnone : ∀ key', sys.map key' ≠ some i := by
    intro key' hentry
    obtain ⟨c, hc, hleader, -⟩ := h.map hentry
    exact hfree (.inl ⟨c, hc, hleader⟩)
  refine h.change (fun key' j hj => ?_) (fun key' hentry => ⟨_, rfl, rfl, ?_⟩)
    (fun hholds => absurd hholds hfree) fun _ => ⟨key, hkey, update_self ..⟩
  · by_cases heq : key' = key
    · rw [heq, update_self, hvacant]
      exact iff_of_false (fun hi => hj (Option.some.inj hi).symm) nofun
    · rw [update_of_ne heq]
  · by_cases heq : key' = key
    · exact heq ▸ hkey
    · rw [update_of_ne heq] at hentry
      exact absurd hentry (hnone key')

theorem Inv.letGo (h : sys.Inv) {old : ProxyCtx} {next : Phase}
    (hold : (sys.phases i).ctx = some old)
    (hleader : ctx.isCoalescingLeader = old.isCoalescingLeader)
    (hkey : old.isCoalescingLeader = true → ctx.cacheKey = old.cacheKey)
    (hnext : Plain next) : (sys.letGo i ctx next).Inv := by
  unfold Coalescing.letGo releaseLeader
  by_cases hlead : old.isCoalescingLeader = true
  · obtain ⟨key, holdKey, hentry⟩ := h.key hold hlead
    rw [if_pos (hleader.trans hlead)]
    rw [hkey hlead, holdKey]
    dsimp only
    rw [hentry]
    have hothers : ∀ key' j, update sys.map key none key' = some j ↔ key' ≠ key ∧
        sys.map key' = some j := by
      intro key' j
      by_cases heq : key' = key
      · rw [heq, update_self]
        exact iff_of_false nofun fun hne => hne.1 rfl
      · rw [update_of_ne heq, and_iff_right heq]
    refine h.change (fun key' j hj => ?_) (fun key' hentry' => ?_)
      (fun _ => .inr ⟨next, rfl⟩) ⟨rfl, hnext⟩
    · rw [hothers, and_iff_right_iff_imp]
      rintro hentry' rfl
      exact hj (Option.mem_unique hentry' hentry)
    · obtain ⟨hne, hentry'⟩ := (hothers key' i).1 hentry'
      obtain ⟨c, hc, -, hck⟩ := h.map hentry'
      obtain rfl := Option.mem_unique hc hold
      exact absurd (Option.mem_unique hck holdKey) hne
  · have hfree : ¬ Holds i (sys.phases i) := by
      rintro (⟨c, hc, hcl⟩ | ⟨after, hafter⟩)
      · obtain rfl := Option.mem_unique hc hold
        exact hlead hcl
      · rw [hafter] at hold
        cases hold
    rw [if_neg (fun htrue => hlead (hleader ▸ htrue))]
    exact h.set_of_free hfree (hnext.fits sys i)

theorem ctx_wake (entry : Nat) (f : Phase) : (f.wake entry).ctx = f.ctx := by
  cases f with
  | waiting ctx e =>
    show Phase.ctx (if e = entry then .woken ctx else .waiting ctx e) = none
    split <;> rfl
  | _ => rfl

theorem Holds.wake {entry : Nat} (h : Holds i f) : Holds i (f.wake entry) := by
  rcases h with ⟨ctx, hctx, hleader⟩ | ⟨next, rfl⟩
  · exact .inl ⟨ctx, (ctx_wake entry f).trans hctx, hleader⟩
  · exact .inr ⟨next, rfl⟩

theorem Inv.notify (h : sys.Inv) {entry : Nat} {next : Phase}
    (hi : sys.phases i = .releasing entry next)
    (hnone : ∀ j ctx, sys.phases j ≠ .observed ctx entry) :
    Inv { sys with phases := fun j => ((sys.set i next).phases j).wake entry } := by
  have hfits := h.fits i
  rw [hi] at hfits
  obtain ⟨rfl, hnext⟩ := hfits
  refine ⟨fun {key e} hentry => ?_, fun j => ?_⟩
  · obtain ⟨c, hc, hleader, hkey⟩ := h.map hentry
    have hne : e ≠ entry := by
      rintro rfl
      rw [hi] at hc
      cases hc
    refine ⟨c, ?_, hleader, hkey⟩
    show (Phase.wake entry (update sys.phases entry next e)).ctx = some c
    rw [ctx_wake, update_of_ne hne]
    exact hc
  · have hkeep : ∀ e, e ≠ entry → Holds e (sys.phases e) →
        Holds e (Phase.wake entry (update sys.phases entry next e)) := by
      intro e hne hholds
      rw [update_of_ne hne]
      exact hholds.wake
    show Fits _ j (Phase.wake entry (update sys.phases entry next j))
    by_cases heq : j = entry
    · subst heq
      rw [update_self, hnext.wake]
      exact hnext.fits _ j
    rw [update_of_ne heq]
    have hj := h.fits j
    cases hphase : sys.phases j with
    | waiting ctx e =>
      rw [hphase] at hj
      show Fits _ j (if e = entry then .woken ctx else .waiting ctx e)
      split
      next => exact hj.1
      next hne => exact ⟨hj.1, hkeep e hne hj.2⟩
    | observed ctx e =>
      rw [hphase] at hj
      exact ⟨hj.1, hkeep e (fun he => hnone j ctx (he ▸ hphase)) hj.2⟩
    | _ =>
      rw [hphase] at hj
      exact hj

/-- A context keeps its leadership, and under `P` its key. -/
def KeptIf (P : Prop) (old ctx : ProxyCtx) : Prop :=
  ctx.isCoalescingLeader = old.isCoalescingLeader ∧ (P → ctx.cacheKey = old.cacheKey)

theorem keptIf_responseFilter (proxy : CdnProxy) (now : Clock) (request : Request)
    (response : OriginResponse) (ctx : ProxyCtx) : KeptIf
    (response.status ∈ cacheableStatuses ∧ ¬ (marksOf response.headers).Refuse proxy.site.cache)
      ctx (proxy.responseFilter now request response ctx) := by
  unfold responseFilter
  dsimp only
  split
  · split
    next => exact ⟨rfl, fun _ => rfl⟩
    next hfails =>
      rw [checkResponseCacheability_iff, marksOf_stampHeaders] at hfails
      exact ⟨rfl, fun hpass => absurd hpass hfails⟩
  · exact ⟨rfl, fun _ => rfl⟩

theorem keptIf_cacheBody (proxy : CdnProxy) (now : Clock) (data : Option Bytes) (endOfStream : Bool)
    (ctx : ProxyCtx) :
    KeptIf (ctx.responseBodySize + (data.getD []).length ≤ proxy.site.cache.maxSize.toNat) ctx
      (proxy.cacheBody now data endOfStream ctx).1 := by
  have haccumulate : KeptIf
      (ctx.responseBodySize + (data.getD []).length ≤ proxy.site.cache.maxSize.toNat) ctx
      (proxy.accumulate data ctx) := by
    unfold accumulate
    split
    · dsimp only
      split
      next hlarge => exact ⟨rfl, fun hsize => absurd hlarge (Nat.not_lt.2 hsize)⟩
      next => exact ⟨rfl, fun _ => rfl⟩
    · exact ⟨rfl, fun _ => rfl⟩
  unfold cacheBody
  split
  · split <;> exact haccumulate
  · exact ⟨rfl, fun _ => rfl⟩

theorem Inv.update (h : sys.Inv) {old : ProxyCtx}
    (hold : (sys.phases i).ctx = some old) (hf : f.ctx = some ctx)
    (hfits : (ctx.isCoalescingLeader = true → ∃ key, ctx.cacheKey = some key ∧
      sys.map key = some i) →
      sys.Fits i f)
    (hleader : ctx.isCoalescingLeader = old.isCoalescingLeader)
    (hkey : old.isCoalescingLeader = true → ctx.cacheKey = old.cacheKey) : (sys.set i f).Inv := by
  refine h.set (hfits fun htrue => ?_) (fun hholds => ?_) fun key hentry => ?_
  · obtain ⟨key, holdKey, hentry⟩ := h.key hold (hleader ▸ htrue)
    exact ⟨key, (hkey (hleader ▸ htrue)).trans holdKey, hentry⟩
  · rcases hholds with ⟨c, hc, hcl⟩ | ⟨next, hnext⟩
    · obtain rfl := Option.mem_unique hc hold
      exact .inl ⟨ctx, hf, hleader.trans hcl⟩
    · rw [hnext] at hold
      cases hold
  · obtain ⟨c, hc, hcl, hck⟩ := h.map hentry
    obtain rfl := Option.mem_unique hc hold
    exact ⟨ctx, hf, hleader.trans hcl, (hkey hcl).trans hck⟩

theorem plain_releaseLeader (h : f.ctx = some (releaseLeader ctx).1) : Plain f := by
  refine .inr ⟨_, h, ?_⟩
  rw [releaseLeader_fst]

theorem Inv.receive (h : sys.Inv) {now : Clock}
    {left : List (Option Bytes)} (hphase : sys.phases i = .receiving ctx (data :: left))
    (hsize : ctx.isCoalescingLeader = true →
      ctx.responseBodySize + (data.getD []).length ≤ proxy.site.cache.maxSize.toNat) :
    (sys.receive proxy i now ctx data left).Inv := by
  have hctx : (sys.phases i).ctx = some ctx := by rw [hphase]; rfl
  obtain ⟨hleader, hkey⟩ := keptIf_cacheBody proxy now data left.isEmpty ctx
  unfold Coalescing.receive
  split
  · exact h.letGo hctx hleader (hkey ∘ hsize) (plain_releaseLeader rfl)
  · exact h.update hctx rfl id hleader (hkey ∘ hsize)

theorem free_of_phase (hphase : sys.phases i = f) (h : f.ctx = none)
    (hnot : ∀ next, f ≠ .releasing i next) : ¬ Holds i (sys.phases i) := by
  rw [hphase]
  rintro (⟨ctx, hctx, -⟩ | ⟨next, hnext⟩)
  · rw [h] at hctx
    cases hctx
  · exact hnot next hnext

theorem Inv.arrive (h : sys.Inv) (hphase : sys.phases i = .idle) (found : Bool) :
    (sys.arrive proxy exchange i found).Inv := by
  have hfree := free_of_phase hphase rfl nofun
  unfold Coalescing.arrive
  split
  · exact h.set_of_free hfree trivial
  split
  · cases found <;> exact h.set_of_free hfree (by trivial)
  · exact h.set_of_free hfree fun hlead => by cases hlead

theorem Inv.enter (h : sys.Inv) (hphase : sys.phases i = .missed ctx) : (sys.enter i ctx).Inv := by
  have hfree := free_of_phase hphase rfl nofun
  have hfits := h.fits i
  rw [hphase] at hfits
  unfold Coalescing.enter
  split
  next => exact h
  next key hkey =>
    split
    next entry hentry =>
      obtain ⟨c, hc, hleader, -⟩ := h.map hentry
      exact h.set_of_free hfree ⟨hfits, .inl ⟨c, hc, hleader⟩⟩
    next hvacant => exact h.lead hfree hkey hvacant

theorem Inv.forward (h : sys.Inv) (hfree : ¬ Holds i (sys.phases i))
    (hleader : ctx.isCoalescingLeader = false) : (sys.set i (.forwarded ctx)).Inv := by
  refine h.set_of_free hfree fun hlead => ?_
  rw [hleader] at hlead
  cases hlead

/-- **One step** keeps the invariant, if it is orderly. -/
theorem Inv.step (h : sys.Inv) {e : CoalescingEvent} (he : sys.Orderly proxy exchange e) :
    (sys.step proxy exchange e).Inv := by
  unfold Coalescing.step
  cases e with
  | arrive i found =>
    dsimp only
    split
    next hphase => exact h.arrive hphase found
    next => exact h
  | enter i =>
    dsimp only
    split
    next ctx hphase => exact h.enter hphase
    next => exact h
  | register i =>
    dsimp only
    have hfits := h.fits i
    split
    next ctx entry hphase =>
      rw [hphase] at hfits
      exact h.set_of_free (free_of_phase hphase rfl nofun) hfits
    next => exact h
  | timeout i =>
    dsimp only
    have hfits := h.fits i
    split
    next ctx entry hphase =>
      rw [hphase] at hfits
      exact h.forward (free_of_phase hphase rfl nofun) hfits.1
    next => exact h
  | resume i found =>
    dsimp only
    have hfits := h.fits i
    split
    next ctx hphase =>
      rw [hphase] at hfits
      cases found with
      | true => exact h.set_of_free (free_of_phase hphase rfl nofun) trivial
      | false => exact h.forward (free_of_phase hphase rfl nofun) hfits
    next => exact h
  | connectFailed i =>
    dsimp only
    split
    next ctx hphase =>
      exact h.letGo (by rw [hphase]; rfl) rfl (fun _ => rfl) (plain_releaseLeader rfl)
    next => exact h
  | header i now =>
    dsimp only
    split
    next ctx hphase =>
      obtain ⟨hleader, hkey⟩ := keptIf_responseFilter proxy now (exchange i).request
        (exchange i).response ctx
      exact h.update (by rw [hphase]; rfl) rfl id hleader fun hlead => hkey (he ctx hphase hlead)
    next => exact h
  | body i now =>
    dsimp only
    split
    next ctx data left hphase => exact h.receive hphase (he ctx data left hphase)
    next => exact h
  | finish i =>
    dsimp only
    split
    next ctx hctx => exact h.letGo hctx rfl (fun _ => rfl) (.inl rfl)
    next => exact h
  | notify i =>
    dsimp only
    split
    next entry next hphase => exact h.notify hphase (he entry next hphase)
    next => exact h

theorem inv_run {events : List CoalescingEvent} :
    ∀ {sys : Coalescing}, OrderlyRun proxy exchange events sys →
    sys.Inv → (run proxy exchange events sys).Inv := by
  induction events with
  | nil => intro sys _ h; exact h
  | cons e events ih => intro sys horderly h; exact ih horderly.2 (h.step horderly.1)

/-- **Coalescing.** In every run in which no leader's response is refused or too large, and no
follower is between finding an entry and asking to be woken when the waiters of the entry are woken,
an entry in the map belongs to a request in flight, and so does an entry that somebody has found or
waits for. -/
theorem coalescing_of_orderly (proxy : CdnProxy) (exchange : Nat → Exchange)
    (events : List CoalescingEvent) (horderly : OrderlyRun proxy exchange events empty) :
    (run proxy exchange events empty).Released :=
  (inv_run horderly inv_empty).released

def samePage (response : OriginResponse) : Nat → Exchange := fun _ => ⟨plainGet, response⟩

def midnight : Clock := ⟨0, Clock.zero_bound⟩

/-- The second request finds the entry of the first and asks to be woken. -/
def followed : List CoalescingEvent :=
    [.arrive 0 false, .enter 0, .arrive 1 false, .enter 1, .register 1]

/-- The response of the first arrives, and its waiters are woken. -/
def answered : List CoalescingEvent := [.header 0 midnight, .body 0 midnight, .notify 0]

def leaderCtx : ProxyCtx :=
  plainSite.responseFilter midnight plainGet wholePage
    { plainSite.missed plainGet 3600 with isCoalescingLeader := true }

theorem orderly_answered :
    OrderlyRun plainSite (samePage wholePage) (followed ++ answered ++ [.finish 0]) empty := by
  refine ⟨trivial, trivial, trivial, trivial, trivial, ?_, ?_, ?_, trivial, trivial⟩
  · intro ctx _ _
    refine ⟨by decide, ?_⟩
    rintro (⟨cc, hcc, -⟩ | ⟨hcookie, -⟩ | ⟨v, hv, -⟩ | ⟨n, hn, -⟩)
    · cases hcc
    · cases hcookie
    · cases hv
    · cases hn
  · intro ctx data left hphase _
    have hleader : (run plainSite (samePage wholePage) (followed ++ [.header 0 midnight])
        empty).phases 0 =
        .receiving leaderCtx wholePage.body := by decide +kernel
    obtain ⟨rfl, hbody⟩ := Phase.receiving.inj (hleader.symm.trans hphase)
    cases hbody
    decide +kernel
  · intro entry next _ j ctx hj
    have hleader : ((run plainSite (samePage wholePage)
        (followed ++ [.header 0 midnight, .body 0 midnight]) empty).phases 0).inFlight = true := by
      decide +kernel
    have hfollower : (run plainSite (samePage wholePage)
        (followed ++ [.header 0 midnight, .body 0 midnight]) empty).phases 1 =
          .waiting (plainSite.missed plainGet 3600) 0 := by decide +kernel
    have hidle : ∀ n, (run plainSite (samePage wholePage)
        (followed ++ [.header 0 midnight, .body 0 midnight]) empty).phases (n + 2) = .idle := by
      intro n
      rfl
    rcases j with _ | _ | j
    · cases hleader.symm.trans (congrArg Phase.inFlight hj)
    · cases hfollower.symm.trans hj
    · cases (hidle j).symm.trans hj

/-- The follower has been woken before the leader is over. -/
theorem coalescing_of_orderly_page :
    OrderlyRun plainSite (samePage wholePage) (followed ++ answered ++ [.finish 0]) empty ∧
      (run plainSite (samePage wholePage) (followed ++ answered ++ [.finish 0]) empty).phases 1 =
        .woken (plainSite.missed plainGet 3600) ∧
      (run plainSite (samePage wholePage) (followed ++ answered ++ [.finish 0]) empty).Released :=
  ⟨orderly_answered, by decide +kernel, coalescing_of_orderly _ _ _ orderly_answered⟩

def unstoredPage : OriginResponse :=
  { wholePage with headers := [("cache-control", strBytes "no-store")] }

/-- The response of the leader is refused: when the leader is over, its entry is still in the map
and the follower still waits. -/
theorem coalescing_fails : (run plainSite (samePage unstoredPage)
        (followed ++ [.header 0 midnight, .body 0 midnight, .finish 0]) empty).map
        (plainSite.cacheKey plainGet) = some 0 ∧
      (run plainSite (samePage unstoredPage)
        (followed ++ [.header 0 midnight, .body 0 midnight, .finish 0]) empty).phases 0 = .over ∧
      (run plainSite (samePage unstoredPage)
        (followed ++ [.header 0 midnight, .body 0 midnight, .finish 0]) empty).phases 1 =
          .waiting (plainSite.missed plainGet 3600) 0 ∧
      (run plainSite (samePage wholePage)
        (followed.dropLast ++ answered ++ [.finish 0, .register 1]) empty).phases 0 = .over ∧
      (run plainSite (samePage wholePage)
        (followed.dropLast ++ answered ++ [.finish 0, .register 1]) empty).phases 1 =
          .waiting (plainSite.missed plainGet 3600) 0 := by
  decide +kernel

end Coalescing

end Nozdormu.Proxy
