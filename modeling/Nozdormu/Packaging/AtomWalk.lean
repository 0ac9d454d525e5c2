import Nozdormu.Packaging.AtomSearch
import Nozdormu.Rust.Loop

/-!
# When the parser cannot fault

`parse_mp4` is meant for arbitrary input. It faults on three kinds of header, all of
which a file can contain:
-/

namespace Nozdormu.Packaging

open Rust Bmff Relation

/-- A byte slice; Rust allocates at most `isize::MAX` bytes. -/
abbrev Buffer := { data : Bytes // data.length < 2 ^ 63 }

/-- The code at an offset, zero bytes where there is none. -/
def codeAt (data : Bytes) (off : Nat) : FourCC :=
  match (data.drop off).take 4 with
  | [a, b, c, d] => ⟨a, b, c, d⟩
  | _ => ⟨0, 0, 0, 0⟩

/-- The atom header at `off` in a container that ends at `stop`: code, header length and
declared size. -/
def header (data : Bytes) (stop off : Nat) : Option (FourCC × Nat × Nat) :=
  if off + 8 ≤ stop then
    let size := beVal ((data.drop off).take 4)
    if size = 1 then
      if off + 16 ≤ stop then
        some (codeAt data (off + 4), 16, beVal ((data.drop (off + 8)).take 8))
      else none
    else if size = 0 then some (codeAt data (off + 4), 8, stop - off)
    else some (codeAt data (off + 4), 8, size)
  else none

theorem header_le {data : Bytes} {stop off s h : Nat} {cc : FourCC}
    (hh : header data stop off = some (cc, h, s)) :
    off + h ≤ stop ∧ 8 ≤ h ∧ cc = codeAt data (off + 4) := by
  unfold header at hh
  dsimp only at hh
  split_ifs at hh <;> cases hh
  all_goals
    refine ⟨?_, by decide, rfl⟩
    assumption

variable {p : Profile} {data : Bytes} {off : Nat}

theorem beVal_take_lt {data : Bytes} {off n : Nat} (h : off + n ≤ data.length) :
    beVal ((data.drop off).take n) < 256 ^ n := by
  have hlt := beVal_lt ((data.drop off).take n)
  rwa [List.length_take_of_le (by rw [List.length_drop]; omega)] at hlt

theorem readU32_toNat (hd : data.length < 2 ^ 63) (h : off + 4 ≤ data.length) :
    ∃ v, readU32 p data off = .ok v ∧ v.toNat = beVal ((data.drop off).take 4) := by
  refine ⟨UInt32.ofNat (beVal ((data.drop off).take 4)), ?_, ?_⟩
  · rw [readU32, readBe_eq p hd h]
    rfl
  · rw [UInt32.toNat_ofNat', Nat.mod_eq_of_lt (by simpa using beVal_take_lt h)]

theorem readU64_toNat (hd : data.length < 2 ^ 63) (h : off + 8 ≤ data.length) :
    ∃ v, readU64 p data off = .ok v ∧ v.toNat = beVal ((data.drop off).take 8) := by
  refine ⟨UInt64.ofNat (beVal ((data.drop off).take 8)), ?_, ?_⟩
  · rw [readU64, readBe_eq p hd h]
    rfl
  · rw [UInt64.toNat_ofNat', Nat.mod_eq_of_lt (by simpa using beVal_take_lt h)]

section Next

variable {data : Bytes} {off stop : Nat}

section

variable (hd : data.length < 2 ^ 63) (hstop : stop ≤ data.length)
include hd hstop

theorem extent_eq (h8 : off + 8 ≤ stop) :
    (⟨data, off, stop⟩ : AtomIter).extent .dev (beVal ((data.drop off).take 4)) =
      (header data stop off).elim (fail (.truncated off)) fun r => .ok r.2 := by
  rw [AtomIter.extent, header, if_pos h8]
  dsimp only
  by_cases h1 : beVal ((data.drop off).take 4) = 1
  · rw [if_pos h1, if_pos h1, add_ok .dev (by omega), ok_bind]
    by_cases h16 : off + 16 ≤ stop
    · obtain ⟨v, hv, hval⟩ := @readU64_toNat .dev data (off + 8) hd (by omega)
      rw [if_neg (by omega), if_pos h16, add_ok .dev (by omega), ok_bind, hv, ok_bind, hval]
      rfl
    · rw [if_pos (by omega), if_neg h16]
      rfl
  · rw [if_neg h1, if_neg h1]
    by_cases h0 : beVal ((data.drop off).take 4) = 0
    · rw [if_pos h0, if_pos h0, sub_ok .dev 64 (by omega)]
      rfl
    · rw [if_neg h0, if_neg h0]
      rfl

theorem next_eq (h8 : off + 8 ≤ stop) : (⟨data, off, stop⟩ : AtomIter).next .dev =
      (header data stop off).elim (fail (.truncated off)) fun r => do
        let atomEnd ← Profile.dev.add 64 off r.2.2
        if stop < atomEnd then fail (.truncated off)
        else
          let dataStart ← Profile.dev.add 64 off r.2.1
          return some (⟨codeAt data (off + 4), r.2.1, dataStart, atomEnd⟩, ⟨data, atomEnd, stop⟩) :=
            by
  obtain ⟨v, hv, hval⟩ := @readU32_toNat .dev data off hd (by omega)
  obtain ⟨cc, hcc, htake⟩ := readFourcc_eq .dev hd (show off + 4 + 4 ≤ data.length by omega)
  simp only [AtomIter.next]
  rw [add_ok .dev (by omega), ok_bind, if_neg (by omega), hv, ok_bind, add_ok .dev (by omega),
    ok_bind, hcc, ok_bind, hval, extent_eq hd hstop h8, codeAt, htake]
  cases header data stop off with
  | none | some => rfl

theorem next_of_header_none (hoff : off ≤ data.length + 8) (h : header data stop off = none) :
    (⟨data, off, stop⟩ : AtomIter).next .dev = .ok none ∨
      (⟨data, off, stop⟩ : AtomIter).next .dev = fail (.truncated off) := by
  by_cases h8 : off + 8 ≤ stop
  · rw [next_eq hd hstop h8, h]
    exact .inr rfl
  · simp only [AtomIter.next]
    rw [add_ok .dev (by omega), ok_bind, if_pos (by omega)]
    exact .inl rfl

/-- On a header the iterator adds the declared size to its offset, under overflow checks,
and compares with the container's end. -/
theorem next_of_header_some {cc : FourCC} {h s : Nat}
    (hh : header data stop off = some (cc, h, s)) :
    (⟨data, off, stop⟩ : AtomIter).next .dev = if off + s < 2 ^ 64 then
          if stop < off + s then fail (.truncated off)
          else .ok (some (⟨cc, h, off + h, off + s⟩, ⟨data, off + s, stop⟩))
        else crash .overflow := by
  obtain ⟨hle, h8, rfl⟩ := header_le hh
  rw [next_eq hd hstop (by omega), hh, Option.elim_some]
  dsimp only
  by_cases hfit : off + s < 2 ^ 64
  · rw [if_pos hfit, add_ok .dev hfit, ok_bind, add_ok .dev (by omega)]
    rfl
  · rw [if_neg hfit, Profile.add, if_neg hfit]
    rfl

theorem next_eq_some_iff (hoff : off ≤ data.length + 8) {a : Atom} {it : AtomIter} :
    (⟨data, off, stop⟩ : AtomIter).next .dev = .ok (some (a, it)) ↔
      ∃ cc h s, header data stop off = some (cc, h, s) ∧ off + s ≤ stop ∧
        a = ⟨cc, h, off + h, off + s⟩ ∧ it = ⟨data, off + s, stop⟩ := by
  rcases hh : header data stop off with _ | ⟨cc, h, s⟩
  · rcases next_of_header_none hd hstop hoff hh with hn | hn <;> simp [hn]
  rw [next_of_header_some hd hstop hh]
  by_cases hin : off + s ≤ stop
  · rw [if_pos (by omega), if_neg (by omega)]
    constructor
    · intro hnext
      cases hnext
      exact ⟨cc, h, s, rfl, hin, rfl, rfl⟩
    · rintro ⟨_, _, _, ⟨⟩, -, rfl, rfl⟩
      rfl
  · constructor
    · intro hnext
      by_cases hfit : off + s < 2 ^ 64
      · rw [if_pos hfit, if_pos (by omega)] at hnext
        cases hnext
      · rw [if_neg hfit] at hnext
        cases hnext
    · rintro ⟨_, _, _, ⟨⟩, hle, -⟩
      exact absurd hle hin

end

end Next

/-- The atom lies in the buffer, its data start at most a header behind the end. -/
def Atom.InBuffer (data : Bytes) (a : Atom) : Prop :=
  a.dataStart ≤ data.length + 8 ∧ a.dataEnd ≤ data.length

section Walk

variable {α β : Type} {data : Bytes} {off stop : Nat} {visit : α → Atom → Exec Mp4Error (β ⊕ α)}
  {finish : α → β} {Pass Safe : Atom → Prop}

/-- One round of a walk: the next atom is visited, which ends the walk or goes on with
what is collected so far. -/
def walkBody (p : Profile) (visit : α → Atom → Exec Mp4Error (β ⊕ α)) (finish : α → β)
    (st : AtomIter × α) : Exec Mp4Error (β ⊕ AtomIter × α) := do
  match ← st.1.next p with
  | none => return .inl (finish st.2)
  | some (atom, it) => return (← visit st.2 atom).map id (it, ·)

/-- Which atoms a visit passes and which it can look at does not depend on what is
collected, and an atom without data that is passed adds nothing. -/
structure Visits (data : Bytes) (visit : α → Atom → Exec Mp4Error (β ⊕ α))
    (Pass Safe : Atom → Prop) : Prop where
  pass : ∀ x a, (∃ y, visit x a = .ok (.inr y)) ↔ Pass a
  safe : ∀ x a, a.InBuffer data → (NoFault (visit x a) ↔ Safe a)
  empty : ∀ x a y, a.InBuffer data → a.dataEnd ≤ a.dataStart → visit x a = .ok (.inr y) → y = x

/-- The walk passes the header at `off`. -/
def WalkStep (data : Bytes) (stop : Nat) (Pass : Atom → Prop) (off off' : Nat) : Prop :=
  ∃ cc h s, header data stop off = some (cc, h, s) ∧ off + s ≤ stop ∧
    Pass ⟨cc, h, off + h, off + s⟩ ∧ off' = off + s

/-- No header the walk meets overflows the offset, none that it passes has size 0, and
every atom it visits is safe. -/
def WalkSafe (data : Bytes) (start stop : Nat) (Pass Safe : Atom → Prop) : Prop :=
  ∀ off, ReflTransGen (WalkStep data stop Pass) start off →
    ∀ cc h s, header data stop off = some (cc, h, s) →
      off + s < 2 ^ 64 ∧ (s = 0 → ¬ Pass ⟨cc, h, off + h, off + s⟩) ∧
      (off + s ≤ stop → Safe ⟨cc, h, off + h, off + s⟩)

section

variable (hd : data.length < 2 ^ 63) (hstop : stop ≤ data.length)
include hd hstop

theorem goesTo_walkBody_iff (hoff : off ≤ data.length + 8) {x y : α} {it : AtomIter} :
    GoesTo (walkBody .dev visit finish) (⟨data, off, stop⟩, x) (it, y) ↔
      ∃ cc h s, header data stop off = some (cc, h, s) ∧ off + s ≤ stop ∧
        visit x ⟨cc, h, off + h, off + s⟩ = .ok (.inr y) ∧ it = ⟨data, off + s, stop⟩ := by
  constructor
  · intro hgo
    obtain ⟨r, hr, hgo⟩ := bind_eq_ok.1 hgo
    cases r with
    | none => cases hgo
    | some r =>
      obtain ⟨atom, it'⟩ := r
      obtain ⟨cc, h, s, hh, hin, rfl, rfl⟩ := (next_eq_some_iff hd hstop hoff).1 hr
      obtain ⟨v, hvisit, hgo⟩ := bind_eq_ok.1 hgo
      cases v with
      | inl r => cases hgo
      | inr y' =>
        cases hgo
        exact ⟨cc, h, s, hh, hin, hvisit, rfl⟩
  · rintro ⟨cc, h, s, hh, hin, hvisit, rfl⟩
    refine bind_eq_ok.2 ⟨_, (next_eq_some_iff hd hstop hoff).2 ⟨cc, h, s, hh, hin, rfl, rfl⟩, ?_⟩
    exact bind_eq_ok.2 ⟨_, hvisit, rfl⟩

variable (hv : Visits data visit Pass Safe)
include hv

theorem reaches_walkBody_iff (hoff : off ≤ data.length + 8) {x : α} {it : AtomIter} :
    (∃ y, ReflTransGen (GoesTo (walkBody .dev visit finish)) (⟨data, off, stop⟩, x) (it, y)) ↔
      ∃ off', it = ⟨data, off', stop⟩ ∧ off' ≤ data.length + 8 ∧
        ReflTransGen (WalkStep data stop Pass) off off' := by
  constructor
  · rintro ⟨y, h⟩
    generalize hst : (it, y) = st at h
    induction h generalizing it y with
    | refl =>
      cases hst
      exact ⟨off, rfl, hoff, ReflTransGen.refl⟩
    | @tail mid _ _ hgo ih =>
      subst hst
      obtain ⟨o, hmid, hle, hpath⟩ := ih mid.2 rfl
      rw [← Prod.mk.eta (p := mid), hmid] at hgo
      obtain ⟨cc, h, s, hh, hin, hvisit, rfl⟩ := (goesTo_walkBody_iff hd hstop hle).1 hgo
      exact ⟨o + s, rfl, by omega, hpath.tail ⟨cc, h, s, hh, hin, (hv.pass _ _).1 ⟨y, hvisit⟩, rfl⟩⟩
  · rintro ⟨off', rfl, hle, hpath⟩
    induction hpath with
    | refl => exact ⟨x, ReflTransGen.refl⟩
    | tail _ hs ih =>
      obtain ⟨cc, h, s, hh, hin, hpass, rfl⟩ := hs
      obtain ⟨y, hy⟩ := ih (by omega)
      obtain ⟨z, hz⟩ := (hv.pass y _).2 hpass
      exact ⟨z, hy.tail ((goesTo_walkBody_iff hd hstop (by omega)).2 ⟨cc, h, s, hh, hin, hz, rfl⟩)⟩

theorem walkBody_safe_iff (hoff : off ≤ data.length + 8) {x : α} :
    (NoFault (walkBody .dev visit finish (⟨data, off, stop⟩, x)) ∧
        ¬ GoesTo (walkBody .dev visit finish) (⟨data, off, stop⟩, x) (⟨data, off, stop⟩, x)) ↔
      ∀ cc h s, header data stop off = some (cc, h, s) →
        off + s < 2 ^ 64 ∧ (s = 0 → ¬ Pass ⟨cc, h, off + h, off + s⟩) ∧
        (off + s ≤ stop → Safe ⟨cc, h, off + h, off + s⟩) := by
  rw [goesTo_walkBody_iff hd hstop hoff]
  unfold walkBody
  rcases hh : header data stop off with _ | ⟨cc, h, s⟩
  · refine iff_of_true ⟨?_, by simp⟩ (by simp)
    rcases next_of_header_none hd hstop hoff hh with hn | hn <;> simp [hn]
  have hle := header_le hh
  have hstuck : (∃ cc' h' s', some (cc, h, s) = some (cc', h', s') ∧ off + s' ≤ stop ∧
      visit x ⟨cc', h', off + h', off + s'⟩ = .ok (.inr x) ∧
      (⟨data, off, stop⟩ : AtomIter) = ⟨data, off + s', stop⟩) ↔
        s = 0 ∧ Pass ⟨cc, h, off + h, off + s⟩ := by
    constructor
    · rintro ⟨_, _, _, ⟨⟩, -, hvisit, hit⟩
      have hsame : off = off + s := congrArg AtomIter.offset hit
      exact ⟨by omega, (hv.pass _ _).1 ⟨x, hvisit⟩⟩
    · rintro ⟨rfl, hpass⟩
      obtain ⟨y, hy⟩ := (hv.pass x _).2 hpass
      obtain rfl := hv.empty _ _ _ ⟨by simp only; omega, by simp only; omega⟩
        (Nat.le_add_right off h) hy
      exact ⟨cc, h, 0, rfl, by omega, hy, rfl⟩
  have hround : NoFault (do
      match ← (⟨data, off, stop⟩ : AtomIter).next .dev with
      | none => return .inl (finish x)
      | some (atom, it) => return (← visit x atom).map id (it, ·)) ↔
        off + s < 2 ^ 64 ∧ (off + s ≤ stop → Safe ⟨cc, h, off + h, off + s⟩) := by
    rw [next_of_header_some hd hstop hh]
    by_cases hfit : off + s < 2 ^ 64
    · rw [if_pos hfit]
      by_cases hend : stop < off + s
      · rw [if_pos hend]
        exact iff_of_true (noFault_fail _) ⟨hfit, fun hin => by omega⟩
      · rw [if_neg hend, ok_bind]
        refine (noFault_bind.trans (and_iff_left fun _ _ => noFault_ok _)).trans ?_
        rw [hv.safe x _ ⟨by simp only; omega, by simp only; omega⟩]
        exact ⟨fun hsafe => ⟨hfit, fun _ => hsafe⟩, fun hsafe => hsafe.2 (by omega)⟩
    · rw [if_neg hfit]
      exact iff_of_false (noFault_crash _) fun hsafe => hfit hsafe.1
  rw [hround, hstuck]
  constructor
  · rintro ⟨⟨hfit, hsafe⟩, hnot⟩ _ _ _ ⟨⟩
    exact ⟨hfit, fun hs hpass => hnot ⟨hs, hpass⟩, hsafe⟩
  · intro hall
    obtain ⟨hfit, hzero, hsafe⟩ := hall cc h s rfl
    exact ⟨⟨hfit, hsafe⟩, fun hs => hzero hs.1 hs.2⟩

theorem walkSafe_iff_loopSafe (hoff : off ≤ data.length + 8) {x : α} :
    WalkSafe data off stop Pass Safe ↔
      LoopSafe (walkBody .dev visit finish) (⟨data, off, stop⟩, x) := by
  constructor
  · rintro hsafe ⟨it, y⟩ hreach
    obtain ⟨off', rfl, hle, hpath⟩ := (reaches_walkBody_iff hd hstop hv hoff).1 ⟨y, hreach⟩
    exact (walkBody_safe_iff hd hstop hv hle).2 (hsafe off' hpath)
  intro hsafe off' hpath
  have hle : off' ≤ data.length + 8 := by
    rcases ReflTransGen.cases_tail hpath with rfl | ⟨mid, -, _, _, _, _, hle, -, rfl⟩
    · exact hoff
    · omega
  obtain ⟨y, hreach⟩ := (reaches_walkBody_iff hd hstop hv hoff).2 ⟨off', rfl, hle, hpath⟩
  exact (walkBody_safe_iff hd hstop hv hle).1 (hsafe _ hreach)

end

theorem walk_noFault_iff (hd : data.length < 2 ^ 63) (hv : Visits data visit Pass Safe)
    {start : Nat} (hstart : start ≤ data.length + 8) {x : α} :
    NoFault (iterate (walkBody .dev visit finish) (data.length + 1) (.new data start stop, x)) ↔
      WalkSafe data start (min stop data.length) Pass Safe := by
  have hmin : min stop data.length ≤ data.length := Nat.min_le_right _ _
  rw [AtomIter.new, walkSafe_iff_loopSafe hd hmin hv hstart]
  refine ⟨LoopSafe.of_noFault, fun hsafe => ?_⟩
  -- every round moves on inside the container, or changes nothing
  refine hsafe.noFault (μ := fun st => st.1.stop - st.1.offset)
    (I := fun st => ∃ off ≤ data.length + 8, st.1 = ⟨data, off, min stop data.length⟩) ?_
    ⟨start, hstart, rfl⟩ (by simp only; omega)
  rintro ⟨_, x⟩ ⟨it, y⟩ ⟨off, hoff, rfl⟩ hgo
  obtain ⟨cc, h, s, hh, hin, hvisit, rfl⟩ := (goesTo_walkBody_iff hd hmin hoff).1 hgo
  have hle := header_le hh
  refine ⟨⟨off + s, by omega, rfl⟩, ?_⟩
  by_cases hs : s = 0
  · obtain rfl := hv.empty _ _ _ ⟨by simp only; omega, by simp only; omega⟩
      (by simp only; omega) hvisit
    exact Or.inr (by rw [hs]; rfl)
  · exact Or.inl (by simp only; omega)

end Walk

/-- The search for `target` moves from the header at `off` to the one at `off'`. -/
def SearchStep (data : Bytes) (stop : Nat) (target : FourCC) (off off' : Nat) : Prop :=
  ∃ cc h s, header data stop off = some (cc, h, s) ∧ cc ≠ target ∧ off + s ≤ stop ∧
    off' = off + s

/-- No header the search meets overflows the offset, and none but the target's has size 0. -/
def SearchSafe (data : Bytes) (start stop : Nat) (target : FourCC) : Prop :=
  ∀ off, ReflTransGen (SearchStep data stop target) start off →
    ∀ cc h s, header data stop off = some (cc, h, s) → off + s < 2 ^ 64 ∧ (s = 0 → cc = target)

/-- A search ends at the atom it looks for and passes every other one. -/
def searchVisit (target : FourCC) (_ : Unit) (atom : Atom) : Exec Mp4Error (Option Atom ⊕ Unit) :=
  return if atom.fourcc = target then .inl (some atom) else .inr ()

theorem findAtomLoop_eq_iterate (p : Profile) (target : FourCC) : ∀ (fuel : Nat) (it : AtomIter),
    findAtomLoop p target fuel it =
      iterate (walkBody p (searchVisit target) fun _ => none) fuel (it, ()) := by
  intro fuel
  induction fuel with
  | zero => intro it; rfl
  | succ fuel ih =>
    intro it
    rw [findAtomLoop, iterate, walkBody]
    cases it.next p with
    | error e => rfl
    | ok r =>
      cases r with
      | none => rfl
      | some r =>
        simp only [ok_bind, searchVisit]
        split
        · rfl
        · exact ih _

section Search

variable {data : Bytes} {target : FourCC}

theorem visits_search : Visits data (searchVisit target) (·.fourcc ≠ target) fun _ => True where
  pass := by
    intro _ a
    unfold searchVisit
    split
    next hcc => exact iff_of_false (by rintro ⟨_, h⟩; cases h) (not_not.2 hcc)
    next hcc => exact iff_of_true ⟨(), rfl⟩ hcc
  safe := fun _ _ _ => iff_true_intro (noFault_ok _)
  empty := fun _ _ _ _ _ _ => rfl

theorem searchSafe_iff {start stop : Nat} : SearchSafe data start stop target ↔
    WalkSafe data start stop (·.fourcc ≠ target) fun _ => True := by
  have hstep : SearchStep data stop target = WalkStep data stop (·.fourcc ≠ target) := by
    funext off off'
    simp only [SearchStep, WalkStep, and_left_comm]
  simp only [SearchSafe, WalkSafe, hstep, not_not, implies_true, and_true, ne_eq]

section

variable (hd : data.length < 2 ^ 63)
include hd

theorem findAtom_noFault_iff {start stop : Nat} (hstart : start ≤ data.length + 8) :
    NoFault (findAtom .dev data start stop target) ↔
      SearchSafe data start (min stop data.length) target := by
  rw [findAtom, findAtomLoop_eq_iterate, searchSafe_iff]
  exact walk_noFault_iff hd visits_search hstart

/-- The step bound of the model is immaterial: a search that uses it up uses up, or faults
under, every bound. -/
theorem walk_stuck {start stop fuel : Nat} (hstart : start ≤ data.length + 8)
    (h : NoFault (findAtomLoop .dev target fuel (.new data start stop))) :
    NoFault (findAtom .dev data start stop target) := by
  rw [findAtomLoop_eq_iterate] at h
  rw [findAtom_noFault_iff hd hstart, searchSafe_iff]
  exact (walkSafe_iff_loopSafe hd (Nat.min_le_right _ _) visits_search hstart).2
    (LoopSafe.of_noFault h)

end

end Search

end Nozdormu.Packaging
