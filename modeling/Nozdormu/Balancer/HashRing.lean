import Nozdormu.Balancer.Select
import Nozdormu.Data.Circle

/-!
# What a hash ring hands over
-/

namespace Nozdormu.Balancer

open Rust Data Nozdormu.Circle List

variable {ε : Type} (p : Profile) (hash : Str → UInt64)

/-! ## The nodes of the ring -/

def vnodes (c : OriginConfig × UInt32) : Nat := c.2.toNat * vnodesPerWeight

/-- Weights that give every candidate a node and no more than a `u32` of them. -/
def Weighted (candidates : List (OriginConfig × UInt32)) : Prop :=
  ∀ c ∈ candidates, 0 < c.2 ∧ vnodes c < 2 ^ 32

/-- Different keys of virtual nodes have different hashes. -/
def CollisionFree (candidates : List (OriginConfig × UInt32)) : Prop :=
  ∀ c ∈ candidates, ∀ c' ∈ candidates, ∀ i < vnodes c, ∀ i' < vnodes c',
    hash (vnodeKey c.1.id i) = hash (vnodeKey c'.1.id i') → vnodeKey c.1.id i = vnodeKey c'.1.id i'

def points (candidates : List (OriginConfig × UInt32)) : Set Nat :=
  fun x => ∃ c ∈ candidates, ∃ i < vnodes c, (hash (vnodeKey c.1.id i)).toNat = x

/-- The name can be read off the key: the last dash separates it from the number. -/
theorem vnodeKey_inj {id id' : Str} {i i' : Nat} (h : vnodeKey id i = vnodeKey id' i') :
    id = id' := by
  have hdash : ∀ n, '-' ∉ (digits n).reverse := by
    intro n hmem
    exact not_mem_digits (by rfl) n (mem_reverse.1 hmem)
  have hreverse := congrArg List.reverse h
  simp only [vnodeKey, reverse_append, reverse_cons, append_assoc,
    singleton_append] at hreverse
  exact reverse_injective (append_cons_inj (hdash i) (hdash i') hreverse).2

theorem ringNodes_ok : ∀ (candidates : List (OriginConfig × UInt32)) (idx : Nat),
    Weighted candidates →
    ∃ nodes, (ringNodes p hash idx candidates : Exec ε (List (UInt64 × Nat))) = .ok nodes ∧
      ∀ node, node ∈ nodes ↔ ∃ j c, candidates[j]? = some c ∧ node.2 = idx + j ∧
        ∃ i < vnodes c, hash (vnodeKey c.1.id i) = node.1 := by
  intro candidates
  induction candidates with
  | nil =>
    intro idx _
    refine ⟨[], rfl, fun node => ⟨nofun, ?_⟩⟩
    rintro ⟨j, c, hc, -⟩
    cases hc
  | cons first candidates ih =>
    intro idx h
    obtain ⟨origin, weight⟩ := first
    obtain ⟨nodes, hnodes, hmem⟩ := ih (idx + 1) fun c hc => h c (mem_cons_of_mem _ hc)
    have hrange : weight.toNat * vnodesPerWeight < 2 ^ 32 := (h _ mem_cons_self).2
    refine ⟨(List.range (weight.toNat * vnodesPerWeight)).map
      (fun i => (hash (vnodeKey origin.id i), idx)) ++ nodes, ?_, ?_⟩
    · rw [ringNodes, mul_ok p hrange, ok_bind, hnodes]
      rfl
    intro node
    rw [mem_append, hmem]
    constructor
    · rintro (hown | ⟨j, c, hc, hj, hnode⟩)
      · obtain ⟨i, hi, rfl⟩ := mem_map.1 hown
        exact ⟨0, (origin, weight), rfl, rfl, i, mem_range.1 hi, rfl⟩
      · exact ⟨j + 1, c, hc, by omega, hnode⟩
    rintro ⟨j, c, hc, hj, i, hi, hpoint⟩
    cases j with
    | zero =>
      cases hc
      left
      exact mem_map.2 ⟨i, mem_range.2 hi, Prod.ext hpoint hj.symm⟩
    | succ j =>
      right
      exact ⟨j, c, hc, by omega, i, hi, hpoint⟩

def Chosen (order : RingSort) (candidates : List (OriginConfig × UInt32)) (ip : Str)
    (c : OriginConfig × UInt32) : Prop :=
  ∃ j, (selectIpHash p hash order candidates ip : Exec Empty Nat) = .ok j ∧ candidates[j]? = some c

variable {p hash} {order : RingSort} {candidates : List (OriginConfig × UInt32)} {ip : Str}

theorem chosen_of_weighted (p : Profile) (hash : Str → UInt64) (order : RingSort) (ip : Str)
    (hweighted : Weighted candidates) (hne : candidates ≠ []) :
    ∃ c, Chosen p hash order candidates ip c ∧ c ∈ candidates ∧
      ∃ i < vnodes c, IsNext (points hash candidates) (hash ip).toNat
      (hash (vnodeKey c.1.id i)).toNat := by
  obtain ⟨nodes, hnodes, hmem⟩ := ringNodes_ok (ε := Empty) p hash candidates 0 hweighted
  have hperm := order.perm nodes
  -- the first candidate has a node, so there is a ring
  have hring : order.sort nodes ≠ [] := by
    obtain ⟨first, others, rfl⟩ := List.exists_cons_of_ne_nil hne
    have hpos : 0 < vnodes first :=
      Nat.mul_pos (UInt32.lt_iff_toNat_lt.1 (hweighted first List.mem_cons_self).1) (by decide)
    intro hnil
    have hnode := (hmem (hash (vnodeKey first.1.id 0), 0)).2 ⟨0, first, rfl, rfl, 0, hpos, rfl⟩
    rw [← hperm.mem_iff, hnil] at hnode
    cases hnode
  have hkeys : keys (fun node : UInt64 × Nat => node.1.toNat) (order.sort nodes) =
      points hash candidates := by
    funext x
    apply propext
    constructor
    · rintro ⟨node, hnode, rfl⟩
      obtain ⟨j, c, hc, -, i, hi, hpoint⟩ := (hmem node).1 (hperm.mem_iff.1 hnode)
      exact ⟨c, List.mem_of_getElem? hc, i, hi, congrArg UInt64.toNat hpoint⟩
    · rintro ⟨c, hc, i, hi, rfl⟩
      obtain ⟨j, hj, rfl⟩ := List.mem_iff_getElem.1 hc
      refine ⟨(hash (vnodeKey candidates[j].1.id i), j), hperm.mem_iff.2 ((hmem _).2 ?_), rfl⟩
      exact ⟨j, _, List.getElem?_eq_getElem hj, (Nat.zero_add j).symm, i, hi, rfl⟩
  obtain ⟨node, hget, hnext⟩ := isNext_position (order.sorted nodes) hring (hash ip).toNat
  obtain ⟨j, c, hc, hj, i, hi, hpoint⟩ :=
    (hmem node).1 (hperm.mem_iff.1 (List.mem_of_getElem? hget))
  refine ⟨c, ⟨node.2, ?_, ?_⟩, List.mem_of_getElem? hc, i, hi, ?_⟩
  · have hfound : (index (order.sort nodes) (ringPosition (order.sort nodes) (hash ip))
        : Exec Empty (UInt64 × Nat)) = .ok node := by
      unfold index
      rw [show (order.sort nodes)[ringPosition (order.sort nodes) (hash ip)]? = some node from hget]
    unfold selectIpHash buildHashRingWeighted
    rw [hnodes]
    simp only [ok_bind, pure_bind]
    rw [if_neg (by rw [List.isEmpty_iff]; exact hring), hfound]
    rfl
  · rw [hj, Nat.zero_add]
    exact hc
  · rw [hpoint, ← hkeys]
    exact hnext

theorem Chosen.unique {c c' : OriginConfig × UInt32} (h : Chosen p hash order candidates ip c)
    (h' : Chosen p hash order candidates ip c') : c = c' := by
  obtain ⟨j, hj, hc⟩ := h
  obtain ⟨j', hj', hc'⟩ := h'
  obtain rfl := ok_unique hj hj'
  exact Option.mem_unique hc hc'

/-- **Minimal remapping.** Of two choices, with a candidate and without it, one differs from the
other only for the clients that are sent to this candidate when it is there. -/
theorem ipHash_remap (p : Profile) (hash : Str → UInt64) (order : RingSort)
    (front back : List (OriginConfig × UInt32)) (o : OriginConfig × UInt32) (ip : Str)
    (hweighted : Weighted (front ++ o :: back)) (hfree : CollisionFree hash (front ++ o :: back)) :
    (∃ c, Chosen p hash order (front ++ o :: back) ip c) ∧
    (front ++ back ≠ [] → ∃ c, Chosen p hash order (front ++ back) ip c) ∧
    ∀ c c', Chosen p hash order (front ++ o :: back) ip c → Chosen p hash order
    (front ++ back) ip c' →
      (c'.1.id ≠ c.1.id → c.1.id = o.1.id) ∧
      (((front ++ o :: back).map (·.1.id)).Nodup → c' ≠ c → c = o) := by
  have hkept : ∀ {c}, c ∈ front ++ back → c ∈ front ++ o :: back := by
    intro c hc
    rcases mem_append.1 hc with hc | hc
    · exact mem_append_left _ hc
    · exact mem_append_right _ (mem_cons_of_mem _ hc)
  have hweighted' : Weighted (front ++ back) := fun c hc => hweighted c (hkept hc)
  obtain ⟨c, hchosen, hmem, i, hi, hnext⟩ := chosen_of_weighted p hash order ip hweighted (by simp)
  refine ⟨⟨c, hchosen⟩, fun hne => ?_, ?_⟩
  · obtain ⟨c', hchosen', -⟩ := chosen_of_weighted p hash order ip hweighted' hne
    exact ⟨c', hchosen'⟩
  intro c₁ c' hc₁ hc'
  obtain rfl := hc₁.unique hchosen
  have hne : front ++ back ≠ [] := by
    rintro hnil
    obtain ⟨j, -, hget⟩ := hc'
    rw [hnil] at hget
    cases hget
  obtain ⟨c₂, hchosen', hmem', i', hi', hnext'⟩ := chosen_of_weighted p hash order ip hweighted' hne
  obtain rfl := hc'.unique hchosen'
  -- a candidate that is still there still owns the next point
  have hsame : c₁ ∈ front ++ back → c'.1.id = c₁.1.id := by
    intro hstays
    have hpoint : (hash (vnodeKey c₁.1.id i)).toNat = (hash (vnodeKey c'.1.id i')).toNat := by
      have hsub : points hash (front ++ back) ⊆ points hash (front ++ o :: back) := by
        rintro x ⟨c, hc, hx⟩
        exact ⟨c, hkept hc, hx⟩
      exact (hnext.mono hsub ⟨c₁, hstays, i, hi, rfl⟩).unique hnext'
    have hkey := hfree c₁ hmem c' (hkept hmem') i hi i' hi' (UInt64.toNat_inj.1 hpoint)
    exact (vnodeKey_inj hkey).symm
  have hcases : c₁ ∈ front ++ back ∨ c₁ = o := by
    rcases mem_append.1 hmem with hfront | hback
    · exact .inl (mem_append_left _ hfront)
    · rcases mem_cons.1 hback with ho | hback
      · exact .inr ho
      · exact .inl (mem_append_right _ hback)
  constructor
  · intro hids
    rcases hcases with hstays | rfl
    · exact absurd (hsame hstays) hids
    · rfl
  · intro hnodup hchanged
    rcases hcases with hstays | rfl
    · exact absurd (inj_on_of_nodup_map hnodup (hkept hmem') hmem (hsame hstays)) hchanged
    · rfl

def twoOrigins : List (OriginConfig × UInt32) :=
  [({ id := "a", host := "a.example" }, 1), ({ id := "b", host := "b.example" }, 1)]

def plainHash (key : Str) : UInt64 :=
  UInt64.ofNat (2 * ((parseUInt 64 (key.drop 2)).getD 40) + if key.head? = some 'b' then 1 else 0)

/-- A client that is sent to the first of them stays there without the second. -/
theorem ipHash_remap_two :
    Chosen .release plainHash (.insertion _) twoOrigins "10.0.0.4" twoOrigins[0] ∧
    ∃ c, Chosen .release plainHash (.insertion _) (twoOrigins.take 1) "10.0.0.4" c ∧
      ¬ c ≠ twoOrigins[0] := by
  have hweighted : Weighted twoOrigins := by
    unfold Weighted
    decide
  have hfree : CollisionFree plainHash twoOrigins := by
    unfold CollisionFree
    decide +kernel
  have hfirst : Chosen .release plainHash (.insertion _) twoOrigins "10.0.0.4" twoOrigins[0] :=
    ⟨0, by decide +kernel, rfl⟩
  obtain ⟨-, hrest, hremap⟩ := ipHash_remap .release plainHash (.insertion _) (twoOrigins.take 1) []
    twoOrigins[1] "10.0.0.4" hweighted hfree
  obtain ⟨c, hc⟩ := hrest (by simp [twoOrigins])
  refine ⟨hfirst, c, hc, fun hne => ?_⟩
  have hmoved := (hremap twoOrigins[0] c hfirst hc).2 (by decide) hne
  exact absurd (congrArg (fun c => c.1.id) hmoved) (by decide)

end Nozdormu.Balancer
