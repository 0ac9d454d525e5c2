import Nozdormu.Rust.Exec
import Mathlib.Data.List.Induction
import Mathlib.Tactic.Ring

/-!
# Big-endian integers and byte strings inside a buffer
-/

namespace Nozdormu.Bmff

open Rust List

abbrev Bytes := List UInt8

/-- The `n`-byte big-endian encoding of the low bits of `v`. -/
def be : (n : Nat) → Nat → Bytes
  | 0, _ => []
  | n + 1, v => be n (v / 256) ++ [UInt8.ofNat v]

/-- The number a big-endian byte string stands for. -/
def beVal (bs : Bytes) : Nat := bs.foldl (fun acc b => acc * 256 + b.toNat) 0

@[simp] theorem be_length (n v : Nat) : (be n v).length = n := by
  induction n generalizing v with
  | zero => rfl
  | succ n ih => simp [be, ih]

theorem beVal_snoc (bs : Bytes) (b : UInt8) : beVal (bs ++ [b]) = beVal bs * 256 + b.toNat := by
  simp [beVal]

theorem beVal_append (as bs : Bytes) :
    beVal (as ++ bs) = beVal as * 256 ^ bs.length + beVal bs := by
  induction bs using List.reverseRecOn with
  | nil => simp [beVal]
  | append_singleton bs b ih =>
    rw [← append_assoc, beVal_snoc, ih, beVal_snoc, length_append, length_singleton,
      Nat.pow_succ]
    ring

theorem beVal_be (n v : Nat) : beVal (be n v) = v % 256 ^ n := by
  induction n generalizing v with
  | zero => simp [be, beVal, Nat.mod_one]
  | succ n ih =>
    have hlow : (UInt8.ofNat v).toNat = v % 256 := by simp
    rw [be, beVal_snoc, ih, hlow, Nat.pow_succ', Nat.mod_mul]
    omega

theorem beVal_be_of_lt {n v : Nat} (h : v < 256 ^ n) : beVal (be n v) = v := by
  rw [beVal_be, Nat.mod_eq_of_lt h]

theorem beVal_lt (bs : Bytes) : beVal bs < 256 ^ bs.length := by
  induction bs using List.reverseRecOn with
  | nil => simp [beVal]
  | append_singleton bs b ih =>
    rw [beVal_snoc, length_append, length_singleton, Nat.pow_succ]
    have := b.toNat_lt
    omega

/-! ## Runs of bytes at an offset -/

/-- The buffer has the run `c` at offset `off`. -/
def Holds (data : Bytes) (off : Nat) (c : Bytes) : Prop :=
  ∃ pre post, data = pre ++ (c ++ post) ∧ pre.length = off

theorem holds_self (data : Bytes) : Holds data 0 data := ⟨[], [], by simp, rfl⟩

theorem holds_append {data a b : Bytes} {off : Nat} :
    Holds data off (a ++ b) ↔ Holds data off a ∧ Holds data (off + a.length) b := by
  constructor
  · intro h
    rcases h with ⟨pre, post, rfl, rfl⟩
    exact ⟨⟨pre, b ++ post, by simp, rfl⟩, ⟨pre ++ a, post, by simp, by simp⟩⟩
  · intro h
    rcases h with ⟨⟨pre, post, rfl, rfl⟩, ⟨pre', post', heq, hlen⟩⟩
    have hsplit : pre ++ a ++ post = pre' ++ (b ++ post') := by simpa using heq
    obtain ⟨-, rfl⟩ := append_inj hsplit (by simpa using hlen.symm)
    exact ⟨pre, post', by simp, rfl⟩

theorem Holds.le {data c : Bytes} {off : Nat} (h : Holds data off c) :
    off + c.length ≤ data.length := by
  obtain ⟨pre, post, rfl, rfl⟩ := h
  simp

theorem Holds.take {data c : Bytes} {off : Nat} (h : Holds data off c) :
    (data.drop off).take c.length = c := by
  obtain ⟨pre, post, rfl, rfl⟩ := h
  simp

theorem Holds.slice {ε : Type} {data c : Bytes} {off stop : Nat} (h : Holds data off c)
    (hs : stop = off + c.length) : (slice data off stop : Exec ε Bytes) = .ok c := by
  subst hs
  rw [slice_ok (by omega) h.le, Nat.add_sub_cancel_left, h.take]

theorem Holds.beVal {data : Bytes} {off n v : Nat} (h : Holds data off (be n v)) :
    beVal ((data.drop off).take n) = v % 256 ^ n := by
  have ht := h.take
  rw [be_length] at ht
  rw [ht, beVal_be]

end Nozdormu.Bmff
