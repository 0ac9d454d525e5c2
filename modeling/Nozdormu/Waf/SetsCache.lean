import Mathlib.Data.Finset.Insert
import Mathlib.Data.List.Sort
import Mathlib.Tactic.Common

/-!
# The cache of compiled IP sets

`get_compiled_waf_sets` (`cdn-proxy/src/proxy.rs`): every thread keeps the IP sets that it has
compiled, under the address of the configuration and a version. The version is in the key, but no
lookup compares it, so a configuration that is put where another one was gets the sets of the other
(`answersRight_fails`).
-/

namespace Nozdormu.Waf

open List

/-- A network of `w`-bit addresses. -/
structure Network (w : Nat) where
  bits : BitVec w
  len : Fin (w + 1)
  truncated : (bits >>> (w - len)) <<< (w - len) = bits
deriving DecidableEq

/-- An entry of a list as it is configured; bits behind the prefix are allowed. -/
inductive IpNet where
  | v4 (addr : BitVec 32) (len : Fin 33)
  | v6 (addr : BitVec 128) (len : Fin 129)
deriving DecidableEq, Repr

def Network.trunc {w : Nat} (addr : BitVec w) (len : Fin (w + 1)) : Network w where
  bits := (addr >>> (w - len)) <<< (w - len)
  len := len
  truncated := by
    apply BitVec.eq_of_getLsbD_eq
    intro i hi
    simp only [BitVec.getLsbD_shiftLeft, BitVec.getLsbD_ushiftRight]
    grind

/-- A trie for each family. What a lookup finds depends only on which networks are in it. -/
structure IpCidrSet where
  v4 : Finset (Network 32)
  v6 : Finset (Network 128)
deriving DecidableEq

def IpCidrSet.insert (set : IpCidrSet) : IpNet → IpCidrSet
  | .v4 addr len => { set with v4 := Insert.insert (Network.trunc addr len) set.v4 }
  | .v6 addr len => { set with v6 := Insert.insert (Network.trunc addr len) set.v6 }

def IpCidrSet.new (cidrs : List IpNet) : IpCidrSet := cidrs.foldl IpCidrSet.insert ⟨∅, ∅⟩

/-- The part of `SiteConfig` that the sets are compiled from. -/
structure WafRules where
  ipWhitelist : List IpNet := []
  ipBlacklist : List IpNet := []
deriving DecidableEq, Repr

structure CompiledWafSets where
  whitelist : IpCidrSet
  blacklist : IpCidrSet
deriving DecidableEq

def CompiledWafSets.build (waf : WafRules) : CompiledWafSets :=
  ⟨.new waf.ipWhitelist, .new waf.ipBlacklist⟩

/-! ## `get_compiled_waf_sets` -/

/-- An entry: address and version, and the sets. -/
abbrev Entry := (Nat × UInt64) × CompiledWafSets

/-- What stays of a cache with more than 64 entries: those of the address that is asked for, and of
these the newer half if they are still too many. -/
def evict (ptr : Nat) (cache : List Entry) : List Entry :=
  if 64 < cache.length then
    let kept := cache.filter (·.1.1 = ptr)
    if 64 < kept.length then
      let keys := (kept.map (·.1)).insertionSort fun a b => a.2 ≤ b.2
      kept.filter fun e => !(keys.take (keys.length / 2)).contains e.1
    else kept
  else cache

/-- The sets for a configuration at an address, the cache of the thread and the global version. -/
def getCompiledWafSets (ptr : Nat) (waf : WafRules) (cache : List Entry) (version : UInt64) :
    CompiledWafSets × List Entry × UInt64 :=
  match cache.find? (·.1.1 = ptr) with
  | some entry => (entry.2, cache, version)
  | none =>
    let sets := CompiledWafSets.build waf
    (sets, evict ptr cache ++ [((ptr, version), sets)], version + 1)

theorem mem_of_mem_evict {ptr : Nat} {cache : List Entry} {e : Entry} (h : e ∈ evict ptr cache) :
    e ∈ cache := by
  unfold evict at h
  split at h
  · dsimp only at h
    split at h
    · exact mem_of_mem_filter (mem_of_mem_filter h)
    · exact mem_of_mem_filter h
  · exact h

theorem getCompiledWafSets_spec (ptr : Nat) (waf : WafRules) (cache : List Entry)
    (version : UInt64) :
    ((∃ e ∈ cache, e.1.1 = ptr ∧ (getCompiledWafSets ptr waf cache version).1 = e.2) ∨
        (getCompiledWafSets ptr waf cache version).1 = .build waf) ∧
      ∀ e ∈ (getCompiledWafSets ptr waf cache version).2.1,
        e ∈ cache ∨ e.1.1 = ptr ∧ e.2 = .build waf := by
  unfold getCompiledWafSets
  split
  next entry hfind =>
    have hptr : entry.1.1 = ptr := by simpa using List.find?_some hfind
    exact ⟨.inl ⟨entry, mem_of_find?_eq_some hfind, hptr, rfl⟩, fun e he => .inl he⟩
  refine ⟨.inr rfl, ?_⟩
  intro e he
  rcases mem_append.1 he with hold | hnew
  · exact .inl (mem_of_mem_evict hold)
  · rw [mem_singleton.1 hnew]
    exact .inr ⟨rfl, rfl⟩

/-! ## Loads, frees and requests -/

/-- Addresses that are in use, and what lies there. -/
abbrev Heap := Nat → Option WafRules

inductive HeapEvent where
  | load (addr : Nat) (waf : WafRules)
  | free (addr : Nat)

/-- The allocator gives out any address that is not in use. -/
def HeapEvent.apply (heap : Heap) : HeapEvent → Heap
  | .load addr waf => if (heap addr).isNone then Function.update heap addr (some waf) else heap
  | .free addr => Function.update heap addr none

variable (history : List HeapEvent)

def heapAfter : Heap := history.foldl HeapEvent.apply fun _ => none

inductive WafEvent where
  | config (e : HeapEvent)
  | request (thread addr : Nat)

structure WafSystem where
  heap : Heap
  caches : Nat → List Entry
  version : UInt64
  /-- The configuration that each request passed, and the sets that it got. -/
  answers : List (WafRules × CompiledWafSets)

namespace WafSystem

def empty : WafSystem := ⟨fun _ => none, fun _ => [], 0, []⟩

def request (sys : WafSystem) (thread addr : Nat) (waf : WafRules) : WafSystem :=
  let found := getCompiledWafSets addr waf (sys.caches thread) sys.version
  { sys with
    caches := Function.update sys.caches thread found.2.1
    version := found.2.2
    answers := sys.answers ++ [(waf, found.1)] }

def step (sys : WafSystem) : WafEvent → WafSystem
  | .config e => { sys with heap := e.apply sys.heap }
  | .request thread addr =>
    match sys.heap addr with
    | some waf => sys.request thread addr waf
    | none => sys

def run (events : List WafEvent) (sys : WafSystem) : WafSystem := events.foldl step sys

/-- Every request got what `build` makes of its configuration. -/
def AnswersRight (sys : WafSystem) : Prop := ∀ a ∈ sys.answers, a.2 = CompiledWafSets.build a.1

end WafSystem

def configPart (events : List WafEvent) : List HeapEvent :=
  events.filterMap fun
    | .config e => some e
    | .request _ _ => none

/-- At some time of the history the configuration lies at the address. -/
def Holds (addr : Nat) (waf : WafRules) : Prop :=
  ∃ past, past <+: history ∧ heapAfter past addr = some waf

/-! ## What is cached once lay at its address -/

theorem configPart_append (events later : List WafEvent) :
    configPart (events ++ later) = configPart events ++ configPart later := filterMap_append

theorem configPart_config : configPart (history.map .config) = history := by
  induction history with
  | nil => rfl
  | cons e history ih =>
    show e :: configPart (history.map .config) = e :: history
    rw [ih]

variable {addr : Nat} {sys : WafSystem}

namespace WafSystem

theorem run_append (events later : List WafEvent) (sys : WafSystem) :
    run (events ++ later) sys = run later (run events sys) := foldl_append

theorem run_config : ∀ (history : List HeapEvent) (sys : WafSystem),
    run (history.map .config) sys = { sys with heap := history.foldl HeapEvent.apply sys.heap } :=
      by
  intro history
  induction history with
  | nil => intro sys; rfl
  | cons e history ih => intro sys; exact ih _

theorem run_request {waf : WafRules} (h : sys.heap addr = some waf)
    (thread : Nat) : run [.request thread addr] sys = sys.request thread addr waf := by
  show step sys (.request thread addr) = _
  simp only [step, h]

/-- Entries and answers come from configurations that lay at the address of the request. -/
structure Backed (history : List HeapEvent) (sys : WafSystem) : Prop where
  caches : ∀ thread, ∀ e ∈ sys.caches thread, ∃ waf, Holds history e.1.1 waf ∧ e.2 = .build waf
  answers : ∀ a ∈ sys.answers, ∃ addr waf, Holds history addr a.1 ∧ Holds history addr waf ∧
    a.2 = .build waf

theorem Backed.request {history : List HeapEvent} (h : Backed history sys)
    (thread : Nat) {waf : WafRules} (hwaf : Holds history addr waf) :
    Backed history (sys.request thread addr waf) := by
  obtain ⟨hanswer, hcache⟩ := getCompiledWafSets_spec addr waf (sys.caches thread) sys.version
  constructor
  · intro thread' e he
    change e ∈ Function.update sys.caches thread _ thread' at he
    by_cases hthread : thread' = thread
    · rw [hthread, Function.update_self] at he
      rcases hcache e he with hold | ⟨hptr, hnew⟩
      · exact h.caches thread e hold
      · exact ⟨waf, hptr ▸ hwaf, hnew⟩
    · rw [Function.update_of_ne hthread] at he
      exact h.caches thread' e he
  · intro a ha
    rcases mem_append.1 ha with hold | hnew
    · exact h.answers a hold
    rw [mem_singleton.1 hnew]
    refine ⟨addr, ?_⟩
    rcases hanswer with ⟨e, he, hptr, hsets⟩ | hbuilt
    · -- an entry of the address answers, for whatever it was made
      obtain ⟨waf', hold, hentry⟩ := h.caches thread e he
      exact ⟨waf', hwaf, hptr ▸ hold, hsets.trans hentry⟩
    · exact ⟨waf, hwaf, hwaf, hbuilt⟩

theorem backed_run {history : List HeapEvent} (events : List WafEvent)
    (hpast : configPart events <+: history) :
    (run events empty).heap = heapAfter (configPart events) ∧ Backed history
    (run events empty) := by
  induction events using List.reverseRecOn with
  | nil => exact ⟨rfl, nofun, nofun⟩
  | append_singleton events e ih =>
    rw [configPart_append] at hpast
    obtain ⟨hheap, hbacked⟩ := ih ((prefix_append _ _).trans hpast)
    rw [run_append, configPart_append]
    cases e with
    | config e =>
      refine ⟨?_, hbacked.caches, hbacked.answers⟩
      show e.apply (run events empty).heap = (configPart events ++ [e]).foldl HeapEvent.apply _
      rw [foldl_append, hheap]
      rfl
    | request thread addr =>
      have hnone : configPart [WafEvent.request thread addr] = [] := rfl
      rw [hnone, append_nil]
      cases hfound : (run events empty).heap addr with
      | none =>
        have hsame : run [.request thread addr] (run events empty) = run events empty := by
          show step _ (.request thread addr) = _
          simp only [step, hfound]
        rw [hsame]
        exact ⟨hheap, hbacked⟩
      | some waf =>
        rw [run_request hfound]
        rw [hnone, append_nil] at hpast
        exact ⟨hheap, hbacked.request thread ⟨_, hpast, hheap ▸ hfound⟩⟩

/-! ## When the answers are right -/

theorem answer_of_reuse {past between : List HeapEvent} (rest : List HeapEvent)
    {waf waf' : WafRules}
    (hwaf : heapAfter past addr = some waf) (hwaf' : heapAfter (past ++ between) addr = some waf') :
    ∃ events, configPart events = past ++ between ++ rest ∧
      (waf', CompiledWafSets.build waf) ∈ (run events empty).answers := by
  -- the first request fills the cache of the thread
  let first := WafSystem.request { empty with heap := heapAfter past } 0 addr waf
  have hfirst : run (past.map .config ++ [.request 0 addr]) empty = first := by
    rw [run_append, run_config]
    exact run_request hwaf 0
  have hcache : first.caches 0 = [((addr, 0), .build waf)] := by rfl
  -- the second one finds the entry
  let second := { first with heap := heapAfter (past ++ between) }
  have hsecond : run (between.map .config) first = second := by
    rw [run_config]
    show { first with heap := between.foldl HeapEvent.apply (heapAfter past) } = second
    rw [heapAfter, ← foldl_append]
    rfl
  have hfound : (getCompiledWafSets addr waf' (second.caches 0) second.version).1 = .build waf := by
    have hentry : (second.caches 0).find? (·.1.1 = addr) = some ((addr, 0), .build waf) := by
      rw [show second.caches 0 = _ from hcache]
      simp
    rw [getCompiledWafSets, hentry]
  refine ⟨past.map .config ++ [.request 0 addr] ++ between.map .config ++ [.request 0 addr] ++
    rest.map .config, ?_, ?_⟩
  · have hnone : configPart [WafEvent.request 0 addr] = [] := rfl
    simp only [configPart_append, configPart_config, hnone, append_nil]
  · rw [run_append, run_append, run_append, hfirst, hsecond, run_request hwaf', run_config]
    show _ ∈ second.answers ++
      [(waf', (getCompiledWafSets addr waf' (second.caches 0) second.version).1)]
    rw [hfound]
    exact mem_append_right _ (mem_singleton.2 rfl)

/-- The requests between the loads and frees of a history are all answered right, whatever they are,
exactly if no two configurations with different sets lie at one address in turn. -/
theorem answersRight_iff (history : List HeapEvent) :
    (∀ events, configPart events = history → AnswersRight (run events empty)) ↔
      ∀ addr waf waf', Holds history addr waf → Holds history addr waf' →
        CompiledWafSets.build waf = CompiledWafSets.build waf' := by
  constructor
  · intro h addr
    -- of two times, one is the earlier
    have hordered : ∀ {past now : List HeapEvent} {waf waf' : WafRules}, past <+: now →
        now <+: history → heapAfter past addr = some waf → heapAfter now addr = some waf' →
        CompiledWafSets.build waf = CompiledWafSets.build waf' := by
      rintro past _ waf waf' ⟨between, rfl⟩ ⟨rest, hrest⟩ hwaf hwaf'
      obtain ⟨events, hevents, hanswer⟩ := answer_of_reuse rest hwaf hwaf'
      exact h events (hevents.trans hrest) _ hanswer
    rintro waf waf' ⟨past, hpast, hwaf⟩ ⟨past', hpast', hwaf'⟩
    rcases prefix_or_prefix_of_prefix hpast hpast' with hle | hle
    · exact hordered hle hpast' hwaf hwaf'
    · exact (hordered hle hpast hwaf' hwaf).symm
  · intro h events hevents a ha
    have hpast : configPart events <+: history := hevents ▸ prefix_refl _
    obtain ⟨-, hbacked⟩ := backed_run events hpast
    obtain ⟨addr, waf, hpassed, hbuilt, hanswer⟩ := hbacked.answers a ha
    exact hanswer.trans (h addr waf a.1 hbuilt hpassed)

def openSite : WafRules := {}

def blockingSite : WafRules := { ipBlacklist := [.v4 0xC0000200 ⟨24, by decide⟩] }

/-- Loaded, asked for, freed, and replaced at the same address. -/
def reusedAddress : List WafEvent :=
  [.config (.load 4096 openSite), .request 0 4096, .config (.free 4096),
    .config (.load 4096 blockingSite), .request 0 4096]

/-- The site that blocks a network is answered with the sets of the one that blocks nothing. -/
theorem answersRight_fails : (run reusedAddress empty).answers =
        [(openSite, .build openSite), (blockingSite, .build openSite)] ∧
      CompiledWafSets.build openSite ≠ .build blockingSite ∧
      ¬ AnswersRight (run reusedAddress empty) := by
  have hne : CompiledWafSets.build openSite ≠ .build blockingSite := by decide +kernel
  refine ⟨by rfl, hne, fun h => hne (h (blockingSite, .build openSite) ?_)⟩
  exact mem_cons_of_mem _ (mem_singleton.2 rfl)

end WafSystem

end Nozdormu.Waf
