import Nozdormu.Packaging.SampleTable

/-!
# Locating a sample in the file

`get_sample_offset` finds the chunk of a sample in the sample-to-chunk runs
(`sample_to_chunk`), then the first sample of that chunk in the same runs
(`first_sample_of_chunk`), and adds the sizes in between to the chunk's offset.
-/

namespace Nozdormu.Packaging

open Rust RunLength List

variable {ε : Type}

/-- The chunk number at which the run before `rest` stops, for a file of `n` chunks. -/
def runStop (n : Nat) : List StscEntry → Nat
  | [] => n + 1
  | next :: _ => next.firstChunk.toNat

def chunkRuns (n : Nat) : List StscEntry → Runs
  | [] => []
  | entry :: rest =>
    (runStop n rest - entry.firstChunk.toNat, entry.samplesPerChunk.toNat) :: chunkRuns n rest

/-- A sample table whose chunk runs, chunk offsets and sample sizes fit together. -/
structure ChunkedTable extends SampleTable where
  first_chunk : ∀ e ∈ stsc.head?, e.firstChunk.toNat = 1
  increasing : stsc.Pairwise fun a b => a.firstChunk.toNat < b.firstChunk.toNat
  positive : ∀ e ∈ stsc, 0 < e.samplesPerChunk.toNat
  in_chunks : ∀ e ∈ stsc, e.firstChunk.toNat ≤ stco.length
  samples : prefixSum (chunkRuns stco.length stsc) stco.length = stsz.length
  chunk_count : stco.length < 2 ^ 32
  sample_count : stsz.length < 2 ^ 32

/-- What the entries from some point on satisfy. -/
structure RunsOk (n : Nat) (l : List StscEntry) : Prop where
  increasing : l.Pairwise fun a b => a.firstChunk.toNat < b.firstChunk.toNat
  positive : ∀ e ∈ l, 0 < e.samplesPerChunk.toNat
  in_chunks : ∀ e ∈ l, 1 ≤ e.firstChunk.toNat ∧ e.firstChunk.toNat ≤ n

variable {n : Nat} {e : StscEntry} {l : List StscEntry}

theorem RunsOk.tail (h : RunsOk n (e :: l)) : RunsOk n l where
  increasing := h.increasing.of_cons
  positive := fun a ha => h.positive a (mem_cons_of_mem _ ha)
  in_chunks := fun a ha => h.in_chunks a (mem_cons_of_mem _ ha)

theorem RunsOk.lt_runStop (h : RunsOk n (e :: l)) : e.firstChunk.toNat < runStop n l := by
  cases l with
  | nil => exact Nat.lt_succ_of_le (h.in_chunks e (mem_cons_self ..)).2
  | cons e' l => exact rel_of_pairwise_cons h.increasing (mem_cons_self ..)

theorem RunsOk.total_eq {n : Nat} : ∀ {e : StscEntry} {l : List StscEntry},
    RunsOk n (e :: l) → e.firstChunk.toNat + total (chunkRuns n (e :: l)) = n + 1 := by
  intro e l
  induction l generalizing e with
  | nil =>
    intro h
    have hlt := h.lt_runStop
    simp only [chunkRuns, runStop, total_cons, total_nil] at hlt ⊢
    omega
  | cons e' l ih =>
    intro h
    have hlt := h.lt_runStop
    have hrest := ih h.tail
    rw [chunkRuns, total_cons]
    simp only [runStop] at hlt ⊢
    omega

def samplesBeforeLast : List StscEntry → Nat
  | e :: e' :: rest =>
    (e'.firstChunk.toNat - e.firstChunk.toNat) * e.samplesPerChunk.toNat
      + samplesBeforeLast (e' :: rest)
  | _ => 0

def lastRunSamples : List StscEntry → Nat
  | [] => 0
  | [e] => saturatingMul 32 (2 ^ 32 - 1 - e.firstChunk.toNat) e.samplesPerChunk.toNat
  | _ :: rest => lastRunSamples rest

theorem RunsOk.samplesBeforeLast_le {n : Nat} : ∀ {e : StscEntry} {l : List StscEntry},
    RunsOk n (e :: l) → samplesBeforeLast (e :: l)
      ≤ prefixSum (chunkRuns n (e :: l)) (n + 1 - e.firstChunk.toNat) := by
  intro e l
  induction l generalizing e with
  | nil => intro _; exact Nat.zero_le _
  | cons e' l ih =>
    intro h
    have hlt : e.firstChunk.toNat < e'.firstChunk.toNat := h.lt_runStop
    have hin := h.tail.in_chunks e' (mem_cons_self ..)
    have hsub : n + 1 - e.firstChunk.toNat - (e'.firstChunk.toNat - e.firstChunk.toNat)
        = n + 1 - e'.firstChunk.toNat := by omega
    rw [samplesBeforeLast, chunkRuns, runStop, prefixSum_cons_of_le _ (by omega), hsub]
    exact Nat.add_le_add_left (ih h.tail) _

/-- Where the search, at `base`, finds sample `s`: before the last run, or below the end
the code computes for it, if that end is a 32-bit number. -/
def Found (base : Nat) (l : List StscEntry) (s : Nat) : Prop :=
  s < base + samplesBeforeLast l ∨
    base + samplesBeforeLast l + lastRunSamples l < 2 ^ 32 ∧
      s < base + samplesBeforeLast l + lastRunSamples l

instance (base : Nat) (l : List StscEntry) (s : Nat) : Decidable (Found base l s) :=
  inferInstanceAs (Decidable (_ ∨ _))

section Search

variable {n s : Nat}

variable (p : Profile)

theorem sampleToChunkLoop_hit {e : StscEntry} {rest : List StscEntry} {base : Nat}
    (hbase : base ≤ s) (hpos : 0 < e.samplesPerChunk.toNat) (hfirst : 1 ≤ e.firstChunk.toNat)
    {m : Nat} (hm : saturatingMul 32 (nextFirstChunk rest - e.firstChunk.toNat)
      e.samplesPerChunk.toNat = m) (hfit : base + m < 2 ^ 32) (hs : s < base + m) :
    (sampleToChunkLoop p s (e :: rest) base : Exec ε _)
      = .ok (some (e.firstChunk.toNat - 1 + (s - base) / e.samplesPerChunk.toNat,
          (s - base) % e.samplesPerChunk.toNat)) ∧
      e.firstChunk.toNat + (s - base) / e.samplesPerChunk.toNat < nextFirstChunk rest := by
  have hquot : (s - base) / e.samplesPerChunk.toNat < nextFirstChunk rest - e.firstChunk.toNat := by
    apply Nat.div_lt_of_lt_mul
    have : m ≤ (nextFirstChunk rest - e.firstChunk.toNat) * e.samplesPerChunk.toNat :=
      hm ▸ Nat.min_le_left _ _
    rw [Nat.mul_comm]
    omega
  have hnext : nextFirstChunk rest ≤ 2 ^ 32 - 1 := by
    cases rest with
    | nil => exact Nat.le_refl _
    | cons e' _ =>
      have := e'.firstChunk.toNat_lt
      simp only [nextFirstChunk]
      omega
  have hchunk : e.firstChunk.toNat + (s - base) / e.samplesPerChunk.toNat <
      nextFirstChunk rest := by
    generalize (s - base) / e.samplesPerChunk.toNat = q at hquot ⊢
    omega
  refine ⟨?_, hchunk⟩
  rw [sampleToChunkLoop]
  simp only [hm]
  rw [add_ok p hfit, ok_bind, if_pos hs, sub_ok p 32 hbase, ok_bind,
    udiv_ok (by omega), ok_bind, umod_ok (by omega), ok_bind, sub_ok p 32 hfirst, ok_bind]
  generalize (s - base) / e.samplesPerChunk.toNat = q at hchunk ⊢
  rw [add_ok p (by omega), ok_bind]
  rfl

theorem sampleToChunkLoop_eq : ∀ {e : StscEntry} {l : List StscEntry} {base : Nat},
    RunsOk n (e :: l) → base ≤ s →
    s < base + prefixSum (chunkRuns n (e :: l)) (n + 1 - e.firstChunk.toNat) →
    base + prefixSum (chunkRuns n (e :: l)) (n + 1 - e.firstChunk.toNat) < 2 ^ 32 →
    Found base (e :: l) s →
    ∃ r, (sampleToChunkLoop p s (e :: l) base : Exec ε _)
        = .ok (some (e.firstChunk.toNat - 1 + locate (chunkRuns n (e :: l)) (s - base), r)) ∧
      e.firstChunk.toNat + locate (chunkRuns n (e :: l)) (s - base) < 2 ^ 32 - 1 := by
  intro e l
  induction l generalizing e with
  | nil =>
    intro base hok hbase hs hfit hfound
    have hpos := hok.positive e (mem_cons_self ..)
    have hin := hok.in_chunks e (mem_cons_self ..)
    have hcap : base + lastRunSamples [e] < 2 ^ 32 ∧ s < base + lastRunSamples [e] := by
      rcases hfound with hlt | hlt
      · simp only [samplesBeforeLast] at hlt
        omega
      · simpa only [samplesBeforeLast, Nat.add_zero] using hlt
    obtain ⟨hrun, hchunk⟩ :=
      @sampleToChunkLoop_hit ε s p e [] base hbase hpos hin.1 _ rfl hcap.1 hcap.2
    have hloc : locate (chunkRuns n [e]) (s - base) = (s - base) / e.samplesPerChunk.toNat := by
      simp only [chunkRuns, runStop, prefixSum, if_pos (Nat.le_refl _)] at hs
      rw [chunkRuns, locate, runStop, if_pos (by omega)]
    rw [hloc]
    exact ⟨_, hrun, hchunk⟩
  | cons e' l ih =>
    -- the entry spans the chunks up to the next one, so its product is exact
    intro base hok hbase hs hfit hfound
    have hpos := hok.positive e (mem_cons_self ..)
    have hin := hok.in_chunks e (mem_cons_self ..)
    have hlt : e.firstChunk.toNat < e'.firstChunk.toNat := hok.lt_runStop
    have hin' := hok.tail.in_chunks e' (mem_cons_self ..)
    rw [chunkRuns, runStop] at hs hfit ⊢
    rw [prefixSum_cons_of_le _ (by omega)] at hs hfit
    have hsub : n + 1 - e.firstChunk.toNat - (e'.firstChunk.toNat - e.firstChunk.toNat)
        = n + 1 - e'.firstChunk.toNat := by omega
    rw [hsub] at hs hfit
    generalize hm : (e'.firstChunk.toNat - e.firstChunk.toNat) * e.samplesPerChunk.toNat = m
      at hs hfit
    have hsat : saturatingMul 32 (nextFirstChunk (e' :: l) - e.firstChunk.toNat)
        e.samplesPerChunk.toNat = m := by
      rw [saturatingMul, nextFirstChunk, hm]
      exact Nat.min_eq_left (by omega)
    rw [locate, hm]
    by_cases hrun : s < base + m
    · obtain ⟨heq, hchunk⟩ := @sampleToChunkLoop_hit ε s p e (e' :: l) base hbase hpos hin.1 _ hsat
        (by omega) hrun
      rw [if_pos (by omega)]
      refine ⟨_, heq, ?_⟩
      have := e'.firstChunk.toNat_lt
      simp only [nextFirstChunk] at hchunk
      omega
    · rw [if_neg (by omega)]
      have htail : Found (base + m) (e' :: l) s := by
        simp only [Found, samplesBeforeLast, lastRunSamples, hm] at hfound ⊢
        omega
      obtain ⟨r, heq, hchunk⟩ := ih hok.tail (by omega) (by omega) (by omega) htail
      rw [Nat.sub_sub]
      refine ⟨r, ?_, by omega⟩
      rw [sampleToChunkLoop]
      simp only [hsat]
      rw [add_ok p (by omega), ok_bind, if_neg hrun, ok_bind, heq]
      congr 3
      omega

/-- In the last run an end beyond 32 bits hides every sample: the checked sum faults, and
the wrapped one lies below the run. -/
theorem sampleToChunkLoop_last_ne {e : StscEntry} {base : Nat} (hbase : base ≤ s)
    (hnot : ¬ (base + lastRunSamples [e] < 2 ^ 32 ∧ s < base + lastRunSamples [e]))
    (r : Nat × Nat) : (sampleToChunkLoop p s [e] base : Exec ε _) ≠ .ok (some r) := by
  intro h
  rw [sampleToChunkLoop, nextFirstChunk] at h
  rw [lastRunSamples] at hnot
  have hsat : saturatingMul 32 (2 ^ 32 - 1 - e.firstChunk.toNat) e.samplesPerChunk.toNat
      ≤ 2 ^ 32 - 1 := Nat.min_le_right _ _
  generalize saturatingMul 32 (2 ^ 32 - 1 - e.firstChunk.toNat) e.samplesPerChunk.toNat = m
    at h hnot hsat
  obtain ⟨stop, hstop, h⟩ := bind_eq_ok.1 h
  have hle : stop ≤ s := by
    by_cases hfit : base + m < 2 ^ 32
    · rw [add_ok p hfit] at hstop
      cases hstop
      omega
    rw [Profile.add, if_neg hfit] at hstop
    cases p with
    | dev => cases hstop
    | release =>
      cases hstop
      omega
  rw [if_neg (by omega)] at h
  obtain ⟨_, -, h⟩ := bind_eq_ok.1 h
  cases h

theorem sampleToChunkLoop_ne : ∀ {e : StscEntry} {l : List StscEntry} {base : Nat},
    base ≤ s → base + samplesBeforeLast (e :: l) < 2 ^ 32 → ¬ Found base (e :: l) s →
    ∀ r, (sampleToChunkLoop p s (e :: l) base : Exec ε _) ≠ .ok (some r) := by
  intro e l
  induction l generalizing e with
  | nil =>
    intro base hbase _ hnot
    refine sampleToChunkLoop_last_ne p hbase ?_
    intro hcap
    exact hnot (Or.inr hcap)
  | cons e' l ih =>
    intro base hbase hfit hnot r h
    rw [samplesBeforeLast] at hfit
    simp only [Found, samplesBeforeLast, lastRunSamples] at hnot
    rw [sampleToChunkLoop, nextFirstChunk] at h
    generalize hm : (e'.firstChunk.toNat - e.firstChunk.toNat) * e.samplesPerChunk.toNat = m
      at hfit hnot
    have hsat : saturatingMul 32 (e'.firstChunk.toNat - e.firstChunk.toNat)
        e.samplesPerChunk.toNat = m := by
      rw [saturatingMul, hm]
      exact Nat.min_eq_left (by omega)
    rw [add_ok p (by omega), ok_bind, if_neg (by omega), ok_bind] at h
    refine ih (by omega) (by omega) ?_ r h
    simp only [Found]
    omega

theorem firstSampleOfChunkLoop_eq {c : Nat} (hc : c ≤ n) (hmax : c < 2 ^ 32 - 1) :
    ∀ {e : StscEntry} {l : List StscEntry} {base : Nat}, RunsOk n (e :: l) →
      e.firstChunk.toNat ≤ c →
      base + prefixSum (chunkRuns n (e :: l)) (c - e.firstChunk.toNat) < 2 ^ 32 →
      (firstSampleOfChunkLoop p c (e :: l) base : Exec ε _)
        = .ok (some (base + prefixSum (chunkRuns n (e :: l)) (c - e.firstChunk.toNat))) := by
  intro e l
  induction l generalizing e with
  | nil =>
    intro base _ hle hfit
    rw [chunkRuns, runStop, prefixSum, if_pos (by omega)] at hfit ⊢
    rw [firstSampleOfChunkLoop, nextFirstChunk, if_pos ⟨hle, hmax⟩, sub_ok p 32 hle, ok_bind,
      mul_ok p (by omega), ok_bind, add_ok p hfit, ok_bind]
    rfl
  | cons e' l ih =>
    intro base hok hle hfit
    have hlt : e.firstChunk.toNat < e'.firstChunk.toNat := hok.lt_runStop
    rw [chunkRuns, runStop] at hfit ⊢
    by_cases hin : c < e'.firstChunk.toNat
    · rw [prefixSum, if_pos (by omega)] at hfit ⊢
      rw [firstSampleOfChunkLoop, nextFirstChunk, if_pos ⟨hle, hin⟩, sub_ok p 32 hle, ok_bind,
        mul_ok p (by omega), ok_bind,
        add_ok p hfit, ok_bind]
      rfl
    rw [prefixSum_cons_of_le _ (by omega)] at hfit ⊢
    have hsub : c - e.firstChunk.toNat - (e'.firstChunk.toNat - e.firstChunk.toNat)
        = c - e'.firstChunk.toNat := by omega
    rw [hsub, ← Nat.add_assoc] at hfit ⊢
    rw [firstSampleOfChunkLoop, nextFirstChunk, if_neg (by omega)]
    simp only
    rw [mul_ok p (by omega), ok_bind, add_ok p (by omega), ok_bind, ih hok.tail (by omega) hfit]

end Search

/-! ## Sizes in front of a sample -/

def bytesBetween (stsz : List UInt32) (first last : Nat) : Nat :=
  (((stsz.drop first).take (last - first)).map UInt32.toNat).sum

variable (p : Profile)

/-- The summing loop from any accumulator: below `2 ^ 32` samples of `2 ^ 32` bytes it cannot
overflow. -/
theorem foldlM_sizes_eq {stsz : List UInt32} : ∀ (m first acc : Nat),
    first + m ≤ stsz.length → acc + m * (2 ^ 32 - 1) < 2 ^ 64 →
    ((List.range' first m).foldlM (fun acc i =>
        match stsz[i]? with
        | some size => p.add 64 acc size.toNat
        | none => return acc) acc : Exec ε Nat)
      = .ok (acc + (((stsz.drop first).take m).map UInt32.toNat).sum) := by
  intro m
  induction m with
  | zero => intro first acc _ _; rfl
  | succ m ih =>
    intro first acc hin hacc
    have hget : first < stsz.length := by omega
    have hsize := (stsz[first]).toNat_lt
    rw [List.range'_succ, foldlM_cons, List.getElem?_eq_getElem hget]
    simp only
    rw [add_ok p (by omega), ok_bind, ih (first + 1) _ (by omega) (by omega),
      drop_eq_getElem_cons hget, take_succ_cons, map_cons, sum_cons,
      Nat.add_assoc]

theorem intraOffset_eq {stsz : List UInt32} {first last : Nat}
    (hlast : last ≤ stsz.length) (hlt : last < 2 ^ 32) :
    (intraOffset p stsz first last : Exec ε Nat) = .ok (bytesBetween stsz first last) := by
  by_cases hle : first ≤ last
  · refine (foldlM_sizes_eq p (last - first) first 0 (by omega) (by omega)).trans ?_
    rw [Nat.zero_add, bytesBetween]
  · rw [intraOffset, bytesBetween, Nat.sub_eq_zero_of_le (by omega)]
    rfl

/-- Where the chunk map puts sample `s`: at the offset of its chunk, behind the samples of the
chunk in front of it. -/
def chunkAddress (table : SampleTable) (s : Nat) : Option Nat :=
  let chunks := chunkRuns table.stco.length table.stsc
  table.stco[locate chunks s]?.map fun offset =>
    offset.toNat + bytesBetween table.stsz (prefixSum chunks (locate chunks s)) s

/-! ## Well-formed tables -/

namespace ChunkedTable

variable (t : ChunkedTable)

def chunks : Runs := chunkRuns t.stco.length t.stsc

def firstSample (c : Nat) : Nat := prefixSum t.chunks c

theorem exists_stsc (s : Fin t.stsz.length) :
    ∃ e l, t.stsc = e :: l ∧ e.firstChunk.toNat = 1 := by
  rcases hl : t.stsc with _ | ⟨e, l⟩
  · have h : 0 = t.stsz.length := by
      rw [← t.samples, hl]
      rfl
    exact absurd s.isLt (by omega)
  · exact ⟨e, l, rfl, t.first_chunk e (by rw [hl]; rfl)⟩

theorem runsOk {e : StscEntry} {l : List StscEntry} (hl : t.stsc = e :: l)
    (he : e.firstChunk.toNat = 1) : RunsOk t.stco.length (e :: l) where
  increasing := hl ▸ t.increasing
  positive := hl ▸ t.positive
  in_chunks := by
    intro a ha
    refine ⟨?_, t.in_chunks a (hl ▸ ha)⟩
    rcases mem_cons.1 ha with rfl | ha
    · omega
    · have hinc := t.increasing
      rw [hl] at hinc
      have := rel_of_pairwise_cons hinc ha
      omega

theorem total_chunks (s : Fin t.stsz.length) : total t.chunks = t.stco.length := by
  obtain ⟨e, l, hl, he⟩ := t.exists_stsc s
  have h := (t.runsOk hl he).total_eq
  rw [chunks, hl]
  omega

variable (s : Fin t.stsz.length)

theorem locate_lt : locate t.chunks s < t.stco.length := by
  have htotal := t.total_chunks s
  by_contra hge
  have hsum := (prefixSum_le_iff t.chunks (Nat.le_of_eq htotal.symm)).2 (Nat.le_of_not_lt hge)
  rw [chunks, t.samples] at hsum
  exact absurd s.isLt (Nat.not_lt.2 hsum)

def chunkOf : Fin t.stco.length := ⟨locate t.chunks s, t.locate_lt s⟩

theorem mem_chunkOf : t.firstSample (t.chunkOf s) ≤ s ∧ s < t.firstSample (t.chunkOf s + 1) := by
  have hlt := t.locate_lt s
  have htotal := t.total_chunks s
  constructor
  · exact (prefixSum_le_iff t.chunks (by simp only [chunkOf]; omega)).2 (Nat.le_refl _)
  · apply Nat.lt_of_not_le
    intro hle
    have h := (prefixSum_le_iff t.chunks (by simp only [chunkOf]; omega)).1 hle
    simp only [chunkOf] at h
    omega

/-- The chunk's offset plus the sizes of the chunk's samples in front of `s`. -/
def address : Nat :=
  (t.stco.get (t.chunkOf s)).toNat + bytesBetween t.stsz (t.firstSample (t.chunkOf s)) s

theorem chunkAddress_eq : chunkAddress t.toSampleTable s = some (t.address s) :=
  congrArg (Option.map _) (List.getElem?_eq_getElem (t.locate_lt s))

theorem samples_of_stsc {e : StscEntry} {l : List StscEntry} (hl : t.stsc = e :: l)
    (he : e.firstChunk.toNat = 1) :
    prefixSum (chunkRuns t.stco.length (e :: l)) (t.stco.length + 1 - e.firstChunk.toNat)
      = t.stsz.length := by
  rw [← hl, he]
  exact t.samples

variable (p : Profile)

/-- The first search ends in the sample's chunk, and the second one at its first sample. -/
theorem getSampleOffset_of_found (hfound : Found 0 t.stsc s) :
    (getSampleOffset p t.toSampleTable s : Exec ε _)
      = p.add 64 (t.stco.get (t.chunkOf s)).toNat
          (bytesBetween t.stsz (t.firstSample (t.chunkOf s)) s) >>= fun offset =>
        .ok (some (offset, (t.stsz.get s).toNat)) := by
  obtain ⟨e, l, hl, he⟩ := t.exists_stsc s
  have hok := t.runsOk hl he
  have hcount := t.sample_count
  have hsamples := t.samples_of_stsc hl he
  have hs : s < t.stsz.length := s.isLt
  simp only [getSampleOffset]
  rw [if_neg (by omega), index_ok hs, ok_bind, sampleToChunk]
  rw [hl] at hfound
  obtain ⟨r, heq, hmax⟩ := @sampleToChunkLoop_eq ε _ _ p e l 0 hok (Nat.zero_le _)
    (by omega) (by omega) hfound
  have hchunk : e.firstChunk.toNat - 1 + locate (chunkRuns t.stco.length (e :: l)) (s - 0)
      = t.chunkOf s := by
    rw [he, Nat.sub_self, Nat.zero_add, Nat.sub_zero, ← hl]
    rfl
  have hmem := (t.mem_chunkOf s).1
  rw [hchunk] at heq
  rw [hl, heq, ok_bind]
  simp only
  have hbefore : prefixSum (chunkRuns t.stco.length (e :: l))
      (t.chunkOf s + 1 - e.firstChunk.toNat) = t.firstSample (t.chunkOf s) := by
    rw [he, Nat.add_sub_cancel, ← hl]
    rfl
  rw [if_neg (Nat.not_le.2 (t.chunkOf s).isLt), index_ok (t.chunkOf s).isLt, ok_bind,
    firstSampleOfChunk, if_neg (by simp), add_ok p (by omega), ok_bind,
    firstSampleOfChunkLoop_eq p (Nat.succ_le_of_lt (t.chunkOf s).isLt) (by omega) hok (by omega)
      (by rw [hbefore]; omega), hbefore, Nat.zero_add, ok_bind]
  simp only
  rw [intraOffset_eq p (Nat.le_of_lt hs) (by omega), ok_bind]
  rfl

theorem getSampleOffset_ne_some (hfound : ¬ Found 0 t.stsc s) (r : Nat × Nat) :
    (getSampleOffset p t.toSampleTable s : Exec ε _) ≠ .ok (some r) := by
  obtain ⟨e, l, hl, he⟩ := t.exists_stsc s
  have hcount := t.sample_count
  have hsamples := t.samples_of_stsc hl he
  have hs : s < t.stsz.length := s.isLt
  intro h
  simp only [getSampleOffset] at h
  rw [if_neg (by omega), index_ok hs, ok_bind, sampleToChunk] at h
  obtain ⟨chunk, hchunk, h⟩ := bind_eq_ok.1 h
  rw [hl] at hfound hchunk
  cases chunk with
  | none => cases h
  | some chunk =>
    have hbefore := (t.runsOk hl he).samplesBeforeLast_le
    exact sampleToChunkLoop_ne p (Nat.zero_le _) (by omega) hfound chunk hchunk

end ChunkedTable

/-- `get_sample_offset` returns the sample's address and size exactly for the samples the
run search finds, at addresses of 64 bits. -/
theorem getSampleOffset_eq_iff (p : Profile) (t : ChunkedTable) (s : Fin t.stsz.length) :
    (getSampleOffset p t.toSampleTable s : Exec ε _)
        = .ok (some (t.address s, (t.stsz.get s).toNat)) ↔
      Found 0 t.stsc s ∧ t.address s < 2 ^ 64 := by
  by_cases hfound : Found 0 t.stsc s
  · rw [t.getSampleOffset_of_found s p hfound]
    constructor
    · intro h
      obtain ⟨a, ha, h⟩ := bind_eq_ok.1 h
      obtain ⟨haddr, -⟩ := Prod.mk.inj (Option.some.inj (Except.ok.inj h))
      exact ⟨hfound, haddr ▸ lt_of_add_eq_ok ha⟩
    · intro h
      exact bind_eq_ok.2 ⟨t.address s, add_ok p h.2, rfl⟩
  · refine iff_of_false (t.getSampleOffset_ne_some s p hfound _) ?_
    intro h
    exact hfound h.1

def threeChunks : ChunkedTable where
  stts := [⟨14, 1⟩]
  stsc := [⟨1, 5, 1⟩, ⟨3, 4, 1⟩]
  stsz := List.replicate 14 100
  stco := [8, 508, 1008]
  stss := none
  ctts := none
  first_chunk := by intro e he; obtain rfl := Option.some.inj he; rfl
  increasing := by decide
  positive := by decide
  in_chunks := by decide
  samples := by decide
  chunk_count := by decide
  sample_count := by decide

/-- Sample 10 is the first of the third chunk, at 1008. -/
theorem getSampleOffset_lastRun_fails :
    threeChunks.address ⟨10, by decide⟩ = 1008 ∧
    (getSampleOffset .release threeChunks.toSampleTable 10 : Exec Empty _) = .ok none ∧
    (getSampleOffset .dev threeChunks.toSampleTable 10 : Exec Empty _) = crash .overflow :=
  ⟨by decide, rfl, rfl⟩

end Nozdormu.Packaging
