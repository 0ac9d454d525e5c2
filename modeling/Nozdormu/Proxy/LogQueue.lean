import Mathlib.Data.List.AList

/-!
# The log queue

Requests send log messages into a bounded channel. One consumer (`cdn-log/src/queue.rs`) takes up to
128 at a time, groups them by destination and hands each batch to the sink. In every interleaving
the sink gets what the channel has accepted, each message once and those of a destination in order
(`handedOver`).
-/

namespace Nozdormu.Proxy

open List

variable {δ μ : Type} [DecidableEq δ]

/-- The channel and its consumer, with what has gone in and out. -/
structure LogQueue (δ μ : Type) where
  channel : List (δ × μ) := []
  /-- taken from the channel in this round -/
  raw : List (δ × μ) := []
  /-- grouped, and not handed over yet -/
  batches : AList (fun _ : δ => List μ) := ∅
  accepted : List (δ × μ) := []
  handed : List (δ × List μ) := []

inductive LogEvent (δ μ : Type) where
  /-- a message of `push_log` -/
  | trySend (message : δ × μ)
  /-- the consumer goes on; `pick` is the batch that the map comes to next -/
  | consume (pick : Nat)

namespace LogQueue

def group (batches : AList fun _ : δ => List μ) (message : δ × μ) : AList fun _ : δ => List μ :=
  batches.insert message.1 ((batches.lookup message.1).getD [] ++ [message.2])

def step (s : LogQueue δ μ) : LogEvent δ μ → LogQueue δ μ
  | .trySend message =>
    if s.channel.length < 8192 then
      { s with channel := s.channel ++ [message], accepted := s.accepted ++ [message] }
    else s
  | .consume pick =>
    match s.batches.keys[pick % s.batches.keys.length]? with
    | some dest =>
      -- a batch that the sink cannot send is logged, and not sent again
      { s with
        batches := s.batches.erase dest
        handed := s.handed ++ [(dest, (s.batches.lookup dest).getD [])] }
    | none =>
      -- `recv` and `try_recv`, until there are 128 messages or no more
      if s.raw.length < 128 ∧ 0 < s.channel.length then
        { s with channel := s.channel.drop 1, raw := s.raw ++ s.channel.take 1 }
      else { s with raw := [], batches := s.raw.foldl group ∅ }

def only (dest : δ) (messages : List (δ × μ)) : List μ := (messages.filter (·.1 = dest)).map (·.2)

def handedTo (s : LogQueue δ μ) (dest : δ) : List μ := (s.handed.filter (·.1 = dest)).flatMap (·.2)

/-- What a destination is still to get. -/
def pending (s : LogQueue δ μ) (dest : δ) : List μ :=
  (s.batches.lookup dest).getD [] ++ only dest (s.raw ++ s.channel)

/-- Steps of the consumer until all is handed over. -/
def rank (s : LogQueue δ μ) : Nat := 3 * s.channel.length + 2 * s.raw.length + s.batches.keys.length

theorem only_append (dest : δ) (l r : List (δ × μ)) :
    only dest (l ++ r) = only dest l ++ only dest r := by
  rw [only, filter_append, map_append]
  rfl

theorem group_spec (messages : List (δ × μ)) (batches : AList fun _ : δ => List μ) :
    (∀ dest, ((messages.foldl group batches).lookup dest).getD [] =
      (batches.lookup dest).getD [] ++ only dest messages) ∧
    (messages.foldl group batches).keys.length ≤ batches.keys.length + messages.length := by
  induction messages generalizing batches with
  | nil => exact ⟨fun _ => (append_nil _).symm, Nat.le_refl _⟩
  | cons m messages ih =>
    obtain ⟨hlookup, hkeys⟩ := ih (group batches m)
    rw [foldl_cons]
    constructor
    · intro dest
      rw [hlookup, ← singleton_append, only_append, ← append_assoc, group]
      congr 1
      by_cases hdest : m.1 = dest
      · subst hdest
        simp [only]
      · simp [only, hdest, AList.lookup_insert_ne (Ne.symm hdest)]
    · have hone : (group batches m).keys.length ≤ batches.keys.length + 1 := by
        rw [group, AList.keys_insert, length_cons]
        exact Nat.succ_le_succ length_erase_le
      rw [length_cons]
      omega

theorem lookup_of_keys_nil {batches : AList fun _ : δ => List μ}
    (h : batches.keys = []) (dest : δ) :
    batches.lookup dest = none :=
  AList.lookup_eq_none.2 fun hmem => not_mem_nil (h ▸ AList.mem_keys.1 hmem)

/-- Nothing is lost, doubled or overtaken, and no batch is too large. -/
structure Orderly (s : LogQueue δ μ) : Prop where
  order : ∀ dest, s.handedTo dest ++ s.pending dest = only dest s.accepted
  raw_le : s.raw.length ≤ 128
  batch_le : ∀ dest, ((s.batches.lookup dest).getD []).length ≤ 128
  handed_le : ∀ b ∈ s.handed, b.2.length ≤ 128

variable {s : LogQueue δ μ} (h : s.Orderly)
include h

theorem Orderly.trySend (message : δ × μ) : (s.step (.trySend message)).Orderly := by
  rw [step]
  split
  · refine ⟨fun dest => ?_, h.raw_le, h.batch_le, h.handed_le⟩
    rw [only_append, ← h.order dest]
    simp only [pending, only_append, append_assoc]
    rfl
  · exact h

theorem Orderly.consume (pick : Nat) : (s.step (.consume pick)).Orderly ∧
    (s.step (.consume pick)).rank ≤ s.rank - 1 ∧
    (s.step (.consume pick)).accepted = s.accepted := by
  rw [step]
  split
  next dest hdest =>
    have hmem : dest ∈ s.batches.keys := mem_of_getElem? hdest
    refine ⟨⟨fun d => ?_, h.raw_le, fun d => ?_, fun b hb => ?_⟩, ?_, rfl⟩
    · rw [← h.order d, handedTo, handedTo, pending, pending, filter_append]
      by_cases heq : dest = d
      · subst heq
        simp [AList.lookup_erase]
      · simp [AList.lookup_erase_ne (Ne.symm heq), heq]
    · by_cases heq : d = dest
      · rw [heq, AList.lookup_erase]
        exact Nat.zero_le _
      · rw [AList.lookup_erase_ne heq]
        exact h.batch_le d
    · rcases mem_append.1 hb with hb | hb
      · exact h.handed_le b hb
      · rw [mem_singleton.1 hb]
        exact h.batch_le dest
    · have hkeys := length_erase_of_mem hmem
      have hpos := length_pos_of_mem hmem
      simp only [rank, AList.keys_erase]
      omega
  next hnone =>
    have hkeys : s.batches.keys = [] := by
      by_contra hne
      have hlt := Nat.mod_lt pick (length_pos_of_ne_nil hne)
      exact Nat.not_le.2 hlt (List.getElem?_eq_none_iff.1 hnone)
    split
    next htake =>
      refine ⟨⟨fun dest => ?_, ?_, h.batch_le, h.handed_le⟩, ?_, rfl⟩
      · rw [← h.order dest, pending, pending, append_assoc, take_append_drop]
        rfl
      · rw [length_append, length_take]
        omega
      · simp only [rank, length_append, length_take, length_drop]
        omega
    next hstop =>
      obtain ⟨hlookup, hcount⟩ := group_spec s.raw ∅
      refine ⟨⟨fun dest => ?_, Nat.zero_le _, fun dest => ?_, h.handed_le⟩, ?_, rfl⟩
      · rw [← h.order dest]
        simp only [pending, hlookup, lookup_of_keys_nil hkeys, only_append]
        rfl
      · rw [hlookup]
        exact Nat.le_trans (Nat.le_of_eq (length_map _))
          (Nat.le_trans (length_filter_le ..) h.raw_le)
      · simp only [rank, hkeys, length_nil]
        change _ ≤ 0 + _ at hcount
        omega

omit h

/-- **Every interleaving.** What was accepted for a destination has been handed over up to what is
pending, in batches of at most 128, and all of it is when the consumer goes on. -/
theorem handedOver (events : List (LogEvent δ μ)) :
    let s := events.foldl step {}
    (∀ dest, s.handedTo dest ++ s.pending dest = only dest s.accepted) ∧
    (∀ b ∈ s.handed, b.2.length ≤ 128) ∧
    ∀ picks : List Nat, s.rank ≤ picks.length → ∀ dest,
      (picks.foldl (fun s pick => s.step (.consume pick)) s).handedTo dest =
        only dest s.accepted := by
  intro s
  have hs : s.Orderly := by
    refine List.foldlRecOn events step ⟨fun _ => rfl, Nat.zero_le _, fun _ =>
      Nat.zero_le _, nofun⟩ ?_
    intro s hs e _
    cases e with
    | trySend message => exact hs.trySend message
    | consume pick => exact (hs.consume pick).1
  refine ⟨hs.order, hs.handed_le, fun picks hpicks dest => ?_⟩
  clear_value s
  induction picks generalizing s with
  | nil =>
    have hzero : s.rank = 0 := Nat.le_zero.1 hpicks
    unfold rank at hzero
    have hchannel : s.channel = [] := eq_nil_of_length_eq_zero (by omega)
    have hraw : s.raw = [] := eq_nil_of_length_eq_zero (by omega)
    have hkeys : s.batches.keys = [] := eq_nil_of_length_eq_zero (by omega)
    rw [← hs.order dest, pending, lookup_of_keys_nil hkeys, hchannel, hraw]
    exact (append_nil _).symm
  | cons pick picks ih =>
    obtain ⟨hnext, hrank, haccepted⟩ := hs.consume pick
    rw [foldl_cons, ← haccepted]
    exact ih _ hnext (by rw [length_cons] at hpicks; omega)

end LogQueue

end Nozdormu.Proxy
