import Mathlib.Logic.Function.Iterate

/-!
# Random numbers

`cdn-proxy/src/utils/rand.rs` draws from a xorshift generator of 64 bits, one for each thread. The
state 0 would only give zeros. The transition is a bijection that keeps 0, so that a generator
started elsewhere never comes to 0 (`nextU64_bijective_zero`).
-/

namespace Nozdormu.Proxy

/-- The state a thread starts with, of the time in nanoseconds and the text of the thread's id. -/
def initialState (timeSeed : BitVec 64) (tid : List UInt8) : BitVec 64 :=
  let seed := timeSeed ^^^ tid.foldl (fun acc b => acc * 31 + b.toBitVec.setWidth 64) 0
  if seed = 0 then 0xdeadbeefcafebabe else seed

/-- The next state, which is also the number drawn. -/
def nextU64 (state : BitVec 64) : BitVec 64 :=
  let state := state ^^^ state <<< 13
  let state := state ^^^ state >>> 7
  state ^^^ state <<< 17

/-- A shift is additive and, repeated, moves every bit out. -/
theorem bijective_xor_shift {w : Nat} {shift : BitVec w → Nat → BitVec w}
    (hxor : ∀ x y n, shift (x ^^^ y) n = shift x n ^^^ shift y n)
    (hadd : ∀ x m n, shift x (m + n) = shift (shift x m) n)
    (hout : ∀ x n, w ≤ n → shift x n = 0#w) {k : Nat} (hk : 0 < k) :
    Function.Bijective fun x => x ^^^ shift x k := by
  have htwice (m : Nat) (x : BitVec w) :
      (fun x => x ^^^ shift x k)^[2 ^ m] x = x ^^^ shift x (k * 2 ^ m) := by
    induction m generalizing x with
    | zero => rw [Nat.pow_zero, Nat.mul_one, Function.iterate_one]
    | succ m ih =>
      rw [Nat.pow_succ, Nat.mul_two, Function.iterate_add_apply, ih, ih, hxor, Nat.mul_add, hadd,
        BitVec.xor_assoc, ← BitVec.xor_assoc (shift x _), BitVec.xor_self, BitVec.zero_xor]
  have hle : w ≤ k * 2 ^ w := Nat.le_trans (Nat.le_of_lt Nat.lt_two_pow_self)
    (Nat.le_mul_of_pos_left _ hk)
  obtain ⟨n, hn⟩ := Nat.exists_eq_succ_of_ne_zero (Nat.ne_of_gt (Nat.two_pow_pos w))
  have hid : (fun x => x ^^^ shift x k)^[n + 1] = id := by
    funext x
    rw [← Nat.succ_eq_add_one, ← hn, htwice, hout x _ hle, BitVec.xor_zero, id]
  constructor
  · rw [Function.iterate_succ] at hid
    exact .of_comp (hid ▸ Function.injective_id)
  · rw [Function.iterate_succ'] at hid
    exact .of_comp (hid ▸ Function.surjective_id)

theorem nextU64_bijective : Function.Bijective nextU64 := by
  have hleft {k : Nat} (hk : 0 < k) : Function.Bijective fun x : BitVec 64 => x ^^^ x <<< k :=
    bijective_xor_shift BitVec.shiftLeft_xor_distrib BitVec.shiftLeft_add
      (fun _ _ h => BitVec.shiftLeft_eq_zero h) hk
  have hright : Function.Bijective fun x : BitVec 64 => x ^^^ x >>> 7 :=
    bijective_xor_shift BitVec.ushiftRight_xor_distrib BitVec.shiftRight_add
      (fun _ _ h => BitVec.ushiftRight_eq_zero h) (by decide)
  exact (hleft (by decide)).comp (hright.comp (hleft (by decide)))

theorem nextU64_iterate_eq_zero (seed : BitVec 64) (n : Nat) : nextU64^[n] seed = 0 ↔ seed = 0 :=
  have hzero : nextU64^[n] 0 = 0 := Function.iterate_fixed (by decide) n
  (nextU64_bijective.1.iterate n).eq_iff' hzero

theorem nextU64_bijective_zero :
    Function.Bijective nextU64 ∧ nextU64 0 = 0 ∧ ∀ seed n, nextU64^[n] seed = 0 ↔ seed = 0 :=
  ⟨nextU64_bijective, by decide, nextU64_iterate_eq_zero⟩

theorem initialState_iterate_ne_zero (timeSeed : BitVec 64) (tid : List UInt8) (n : Nat) :
    nextU64^[n] (initialState timeSeed tid) ≠ 0 := by
  rw [ne_eq, nextU64_iterate_eq_zero]
  dsimp only [initialState]
  split
  · decide
  · assumption

end Nozdormu.Proxy
