import Mathlib.Data.List.Count
import Mathlib.Data.List.Perm.Subperm
import Mathlib.Data.Nat.ModEq
import Nozdormu.Balancer.Select

/-!
# The shares of round robin
-/

namespace Nozdormu.Balancer

open Rust List

variable {ε : Type} (p : Profile)

def sumWeights (weights : List UInt32) : Nat := (weights.map UInt32.toNat).sum

/-- The candidate that owns a point between 0 and the sum of the weights. -/
def shareOf : List UInt32 → Nat → Nat
  | [], _ => 0
  | w :: weights, r => if r < w.toNat then 0 else shareOf weights (r - w.toNat) + 1

@[simp] theorem sumWeights_cons (w : UInt32) (weights : List UInt32) :
    sumWeights (w :: weights) = w.toNat + sumWeights weights := by
  simp [sumWeights]

theorem walk_ok : ∀ (weights : List UInt32) {target i cumulative : Nat}, cumulative ≤ target →
    target < cumulative + sumWeights weights → cumulative + sumWeights weights < 2 ^ 32 →
    (walk p target i cumulative weights : Exec ε (Option Nat))
      = .ok (some (i + shareOf weights (target - cumulative))) := by
  intro weights
  induction weights with
  | nil =>
    intro target i cumulative hle hlt _
    exact absurd hlt (Nat.not_lt.2 hle)
  | cons w weights ih =>
    intro target i cumulative hle hlt hrange
    rw [sumWeights_cons] at hlt hrange
    rw [walk, add_ok p (by omega), ok_bind, shareOf]
    by_cases hown : target < cumulative + w.toNat
    · rw [if_pos hown, if_pos (by omega)]
      rfl
    · rw [if_neg hown, if_neg (by omega), ih (by omega) (by omega) (by omega)]
      congr 2
      rw [Nat.sub_sub]
      omega

theorem count_shareOf : ∀ (weights : List UInt32) {j : Nat} {w : UInt32}, weights[j]? = some w →
    ((List.range (sumWeights weights)).map (shareOf weights)).count j = w.toNat := by
  intro weights
  induction weights with
  | nil => intro j w h; cases h
  | cons v weights ih =>
    intro j w h
    -- the points of the first candidate come first
    have hfirst : (List.range v.toNat).map (shareOf (v :: weights)) = List.replicate v.toNat 0 := by
      rw [eq_replicate_iff]
      refine ⟨by rw [length_map, length_range], ?_⟩
      intro b hb
      obtain ⟨r, hr, rfl⟩ := mem_map.1 hb
      rw [shareOf, if_pos (mem_range.1 hr)]
    have hothers : ((List.range (sumWeights weights)).map (v.toNat + ·)).map
        (shareOf (v :: weights))
        = ((List.range (sumWeights weights)).map (shareOf weights)).map (· + 1) := by
      rw [map_map, map_map]
      apply map_congr_left
      intro r _
      show shareOf (v :: weights) (v.toNat + r) = shareOf weights r + 1
      rw [shareOf, if_neg (by omega), Nat.add_sub_cancel_left]
    rw [sumWeights_cons, range_add, map_append, count_append, hfirst, hothers,
      count_replicate]
    cases j with
    | zero =>
      cases h
      rw [if_pos (beq_self_eq_true 0), count_eq_zero_of_not_mem, Nat.add_zero]
      intro hmem
      obtain ⟨r, -, hr⟩ := mem_map.1 hmem
      exact absurd hr (Nat.succ_ne_zero r)
    | succ j =>
      rw [if_neg (by simp), Nat.zero_add,
        count_map_of_injective _ _ (fun a b hab => Nat.succ.inj hab)]
      exact ih h

/-! ## Selections in turn -/

/-- A selection for a site among its healthy candidates. -/
structure Selection where
  site : Str
  candidates : List (OriginConfig × UInt32)

def Selection.weights (s : Selection) : List UInt32 := s.candidates.map (·.2)

/-- There is something to choose from, and the weights do not add up to more than a `u32`. -/
structure Selection.InRange (s : Selection) : Prop where
  candidates : s.candidates ≠ []
  weights : sumWeights s.weights < 2 ^ 32

def roundRobinRun : List Selection → (counter : Nat) → Exec ε (List (Str × Nat))
  | [], _ => return []
  | s :: selections, counter => do
    let (idx, counter) ← selectRoundRobin p s.weights counter
    return (s.site, idx) :: (← roundRobinRun selections counter)

def Selection.choiceAt (s : Selection) (counter : Nat) : Nat :=
  if sumWeights s.weights = 0 then counter % s.weights.length
  else shareOf s.weights (counter % sumWeights s.weights)

theorem Selection.InRange.selectRoundRobin {s : Selection} (h : s.InRange) (counter : Nat) :
    (Balancer.selectRoundRobin p s.weights counter : Exec ε (Nat × Nat))
      = .ok (s.choiceAt counter, (counter + 1) % 2 ^ 64) := by
  have hrange := h.weights
  unfold choiceAt Balancer.selectRoundRobin
  rw [totalWeight, foldlM_add p _ (by decide), ← sumWeights, add_ok p (by omega),
    Nat.zero_add, ok_bind]
  by_cases hzero : sumWeights s.weights = 0
  · have hlength : s.weights.length ≠ 0 := by
      rw [Selection.weights, length_map]
      exact fun hnil => h.candidates (length_eq_zero_iff.1 hnil)
    rw [if_pos hzero, if_pos hzero, umod_ok hlength]
    rfl
  · have hlt := Nat.mod_lt counter (Nat.pos_of_ne_zero hzero)
    rw [if_neg hzero, if_neg hzero, pickWeighted,
      walk_ok p s.weights (Nat.zero_le _) (by omega) (by omega)]
    simp only [ok_bind, Nat.zero_add, Nat.sub_zero]
    rfl

theorem roundRobinRun_ok : ∀ (selections : List Selection) (counter : Nat),
    (∀ s ∈ selections, s.InRange) → counter + selections.length ≤ 2 ^ 64 →
    (roundRobinRun p selections counter : Exec ε (List (Str × Nat)))
      = .ok ((selections.zipIdx counter).map fun s => (s.1.site, s.1.choiceAt s.2)) := by
  intro selections
  induction selections with
  | nil => intro counter _ _; rfl
  | cons s selections ih =>
    intro counter hrange hcounter
    rw [length_cons] at hcounter
    have hs := hrange s mem_cons_self
    have hrest : (roundRobinRun p selections ((counter + 1) % 2 ^ 64) : Exec ε (List (Str × Nat)))
        = .ok ((selections.zipIdx (counter + 1)).map fun s => (s.1.site, s.1.choiceAt s.2)) := by
      cases selections with
      | nil => rfl
      | cons s' selections =>
        rw [length_cons] at hcounter
        rw [Nat.mod_eq_of_lt (by omega)]
        exact ih _ (fun s' hs' => hrange s' (mem_cons_of_mem _ hs')) (by
          rw [length_cons]
          omega)
    rw [roundRobinRun, hs.selectRoundRobin, ok_bind]
    dsimp only
    rw [hrest]
    rfl

/-! ## Exact shares -/

variable (site : Str) (sites : List Str) (start : Nat)

def readings : List Nat :=
  ((sites.zipIdx start).filter (·.1 = site)).map (·.2)

/-- Every candidate of the site is chosen as often as it weighs. -/
def ExactShares (selections : List Selection) (start : Nat) (site : Str)
    (candidates : List (OriginConfig × UInt32)) : Prop :=
  ∃ picks, (roundRobinRun p selections start : Exec Empty (List (Str × Nat))) = .ok picks ∧
    ∀ j c, candidates[j]? = some c →
      ((picks.filter (·.1 = site)).map (·.2)).count j = c.2.toNat

theorem mem_readings {site : Str} {sites : List Str} {start n : Nat} :
    n ∈ readings site sites start ↔ ∃ i, sites[i]? = some site ∧ n = start + i := by
  unfold readings
  rw [mem_map]
  constructor
  · rintro ⟨⟨site', n'⟩, hmem, rfl⟩
    obtain ⟨hzip, hsite⟩ := mem_filter.1 hmem
    obtain rfl : site' = site := by simpa using hsite
    obtain ⟨hle, hget⟩ := mk_mem_zipIdx_iff_le_and_getElem?_sub.1 hzip
    exact ⟨n' - start, hget, by omega⟩
  · rintro ⟨i, hget, rfl⟩
    refine ⟨(site, start + i), mem_filter.2 ⟨?_, by simp⟩, rfl⟩
    rw [mk_mem_zipIdx_iff_le_and_getElem?_sub, Nat.add_sub_cancel_left]
    exact ⟨Nat.le_add_right _ _, hget⟩

theorem length_readings : (readings site sites start).length = sites.count site := by
  have hcount : ((sites.zipIdx start).map (·.1)).countP (· = site) = sites.count site := by
    rw [zipIdx_map_fst, List.count]
    exact countP_congr fun _ _ => by simp
  rw [readings, length_map, ← countP_eq_length_filter, ← hcount, countP_map]
  rfl

theorem nodup_readings : (readings site sites start).Nodup := by
  have hsub : (readings site sites start).Sublist ((sites.zipIdx start).map (·.2)) :=
    filter_sublist.map _
  rw [zipIdx_map_snd] at hsub
  exact hsub.nodup nodup_range'

theorem count_of_nodup {weights : List UInt32} {numbers : List Nat}
    (hlength : numbers.length = sumWeights weights)
    (hnodup : (numbers.map (· % sumWeights weights)).Nodup) {j : Nat} {w : UInt32}
    (hw : weights[j]? = some w) :
    (numbers.map fun n => shareOf weights (n % sumWeights weights)).count j = w.toNat := by
  have hperm : (numbers.map (· % sumWeights weights)).Perm (List.range (sumWeights weights)) := by
    have hsub : numbers.map (· % sumWeights weights) ⊆ List.range (sumWeights weights) := by
      intro r hr
      obtain ⟨n, hn, rfl⟩ := mem_map.1 hr
      have hpos := length_pos_of_mem hn
      exact mem_range.2 (Nat.mod_lt _ (hlength ▸ hpos))
    apply (subperm_of_subset hnodup hsub).perm_of_length_le
    rw [length_range, length_map, hlength]
  rw [← count_shareOf weights hw, ← (hperm.map (shareOf weights)).count_eq, map_map]
  rfl

variable {candidates : List (OriginConfig × UInt32)} {selections : List Selection}

theorem exactShares_of_readings {start : Nat} {site : Str} (hrange : ∀ s ∈ selections, s.InRange)
    (hcounter : start + selections.length ≤ 2 ^ 64) (hpos : 0 < sumWeights (candidates.map (·.2)))
    (hfixed : ∀ s ∈ selections, s.site = site → s.candidates = candidates) :
    ExactShares p selections start site candidates ↔ ∀ j c, candidates[j]? = some c →
      ((readings site (selections.map (·.site)) start).map fun n =>
        shareOf (candidates.map (·.2)) (n % sumWeights (candidates.map (·.2)))).count j
          = c.2.toNat := by
  have hrun := roundRobinRun_ok (ε := Empty) p selections start hrange hcounter
  -- what is chosen for a site depends on its own readings only
  have hpicks :
      ((((selections.zipIdx start).map fun s => (s.1.site, s.1.choiceAt s.2)).filter
        (·.1 = site)).map (·.2))
        = (readings site (selections.map (·.site)) start).map fun n =>
            shareOf (candidates.map (·.2)) (n % sumWeights (candidates.map (·.2))) := by
    rw [readings, zipIdx_map, filter_map, filter_map, map_map, map_map, map_map]
    refine map_congr_left fun s hs => ?_
    obtain ⟨hmem, hsite⟩ := mem_filter.1 hs
    have hcandidates := hfixed s.1 (fst_mem_of_mem_zipIdx hmem) (by simpa using hsite)
    show s.1.choiceAt s.2 = _
    unfold Selection.choiceAt Selection.weights
    rw [hcandidates, if_neg (Nat.pos_iff_ne_zero.1 hpos)]
    rfl
  constructor
  · rintro ⟨picks, hok, hshares⟩ j c hc
    obtain rfl := ok_unique hok hrun
    rw [← hpicks]
    exact hshares j c hc
  · intro h
    refine ⟨_, hrun, ?_⟩
    rw [hpicks]
    exact h

theorem shareOf_replicate_one : ∀ {n r : Nat}, r < n → shareOf (List.replicate n 1) r = r := by
  intro n
  induction n with
  | zero => intro r h; exact absurd h (Nat.not_lt_zero r)
  | succ n ih =>
    intro r h
    have hone : (1 : UInt32).toNat = 1 := rfl
    rw [replicate_succ, shareOf, hone]
    cases r with
    | zero => rfl
    | succ r => rw [if_neg (by omega), Nat.add_sub_cancel, ih (by omega)]

theorem sumWeights_replicate_one (n : Nat) : sumWeights (List.replicate n 1) = n := by
  have hone : (1 : UInt32).toNat = 1 := rfl
  rw [sumWeights, map_replicate, hone, sum_replicate_nat, Nat.mul_one]

theorem nodup_readings_iff {site : Str} {sites : List Str} (start W : Nat) :
    ((readings site sites start).map (· % W)).Nodup ↔
      ∀ i j, i < j → sites[i]? = some site → sites[j]? = some site → ¬ W ∣ j - i := by
  have hmod : ∀ {i j : Nat}, i ≤ j → ((start + i) % W = (start + j) % W ↔ W ∣ j - i) := by
    intro i j hle
    rw [← Nat.add_sub_add_left start j i]
    exact Nat.modEq_iff_dvd' (Nat.add_le_add_left hle start)
  rw [nodup_map_iff_inj_on (nodup_readings site sites start)]
  constructor
  · intro h i j hlt hi hj hdvd
    have heq := h (start + i) (mem_readings.2 ⟨i, hi, rfl⟩) (start + j)
      (mem_readings.2 ⟨j, hj, rfl⟩)
      ((hmod (Nat.le_of_lt hlt)).2 hdvd)
    omega
  intro h n hn m hm heq
  obtain ⟨i, hi, rfl⟩ := mem_readings.1 hn
  obtain ⟨j, hj, rfl⟩ := mem_readings.1 hm
  rcases Nat.lt_trichotomy i j with hlt | rfl | hlt
  · exact absurd ((hmod (Nat.le_of_lt hlt)).1 heq) (h i j hlt hi hj)
  · rfl
  · exact absurd ((hmod (Nat.le_of_lt hlt)).1 heq.symm) (h j i hlt hj hi)

def soleOrigin : OriginConfig := { id := "o", host := "localhost" }

/-- The selections for a site are in proportion to whatever weights it has, over as many of them as
the weights add up to, exactly if no two of them are a multiple of that apart in the sequence of all
selections. -/
theorem exactShares_iff (site : Str) (sites : List Str) (start W : Nat)
    (hwindow : sites.count site = W)
    (hpos : 0 < W) (hweights : W < 2 ^ 32) (hcounter : start + sites.length ≤ 2 ^ 64) :
    (∀ (selections : List Selection) (candidates : List (OriginConfig × UInt32)),
        selections.map (·.site) = sites → (∀ s ∈ selections, s.InRange) →
        sumWeights (candidates.map (·.2)) = W →
        (∀ s ∈ selections, s.site = site → s.candidates = candidates) →
        ExactShares p selections start site candidates) ↔
      ∀ i j, i < j → sites[i]? = some site → sites[j]? = some site → ¬ W ∣ j - i := by
  rw [← nodup_readings_iff start W]
  constructor
  · intro h
    -- as many candidates as there are points
    let candidates := List.replicate W (soleOrigin, (1 : UInt32))
    let selections := sites.map fun s => Selection.mk s candidates
    have hmap : candidates.map (·.2) = List.replicate W 1 := map_replicate
    have hsum : sumWeights (candidates.map (·.2)) = W := by rw [hmap, sumWeights_replicate_one]
    have hsites : selections.map (·.site) = sites := by
      rw [map_map]
      exact map_id sites
    have hall : ∀ s ∈ selections, s.candidates = candidates := by
      intro s hs
      obtain ⟨site', -, rfl⟩ := mem_map.1 hs
      rfl
    have hrange : ∀ s ∈ selections, s.InRange := by
      intro s hs
      refine ⟨?_, ?_⟩
      · rw [hall s hs]
        intro hnil
        rw [replicate_eq_nil_iff] at hnil
        omega
      · rw [Selection.weights, hall s hs, hsum]
        exact hweights
    have hfixed : ∀ s ∈ selections, s.site = site → s.candidates = candidates :=
      fun s hs _ => hall s hs
    have hshares := (exactShares_of_readings p hrange (by rw [length_map]; exact hcounter)
      (by rw [hsum]; exact hpos) hfixed).1 (h selections candidates hsites hrange hsum hfixed)
    rw [hsites, hsum, hmap] at hshares
    have hpoint : (readings site sites start).map (fun n => shareOf (List.replicate W 1) (n % W))
        = (readings site sites start).map (· % W) := by
      apply map_congr_left
      intro n _
      exact shareOf_replicate_one (Nat.mod_lt n hpos)
    rw [hpoint] at hshares
    rw [nodup_iff_count_le_one]
    intro r
    by_cases hr : r < W
    · have hone := hshares r (soleOrigin, 1) (by rw [List.getElem?_replicate, if_pos hr])
      exact Nat.le_of_eq hone
    · rw [count_eq_zero_of_not_mem]
      · exact Nat.zero_le 1
      · intro hmem
        obtain ⟨n, -, rfl⟩ := mem_map.1 hmem
        exact hr (Nat.mod_lt n hpos)
  · intro h selections candidates hsites hrange hsum hfixed
    have hlength : selections.length = sites.length := by rw [← hsites, length_map]
    rw [exactShares_of_readings p hrange (by rw [hlength]; exact hcounter)
      (by rw [hsum]; exact hpos) hfixed]
    intro j c hc
    rw [hsites]
    apply count_of_nodup
    · rw [length_readings, hwindow, hsum]
    · rw [hsum]
      exact h
    · rw [List.getElem?_map, hc]
      rfl

def unequalPair : List (OriginConfig × UInt32) := [(soleOrigin, 1), (soleOrigin, 2)]

theorem exactShares_iff_alone : ExactShares .release
    (List.replicate 3 ⟨"shop", unequalPair⟩) 7 "shop" unequalPair := by
  refine (exactShares_iff .release "shop" (List.replicate 3 "shop") 7 3 rfl
    (by decide) (by decide) (by decide)).2 ?_ _ unequalPair rfl ?_ rfl ?_
  · intro i j hlt _ hj hdvd
    have hlast : j < 3 := (List.getElem?_eq_some_iff.1 hj).1
    omega
  · intro s hs
    rw [eq_of_mem_replicate hs]
    exact ⟨cons_ne_nil _ _, by decide⟩
  · intro s hs _
    rw [eq_of_mem_replicate hs]

def equalPair : List (OriginConfig × UInt32) := [(soleOrigin, 1), (soleOrigin, 1)]

/-- Two sites take turns, and both selections for the one fall on its first origin. -/
theorem exactShares_fails :
    (roundRobinRun .release [⟨"shop", equalPair⟩, ⟨"blog", equalPair⟩,
        ⟨"shop", equalPair⟩] 0 : Exec Empty (List (Str × Nat)))
      = .ok [("shop", 0), ("blog", 1), ("shop", 0)] ∧
    ¬ ExactShares .release [⟨"shop", equalPair⟩, ⟨"blog", equalPair⟩,
        ⟨"shop", equalPair⟩] 0 "shop" equalPair := by
  refine ⟨by rfl, ?_⟩
  rintro ⟨picks, hok, hshares⟩
  cases hok
  have hsecond := hshares 1 (soleOrigin, 1) rfl
  revert hsecond
  decide

end Nozdormu.Balancer
