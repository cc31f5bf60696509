/-!
# Byte strings and the numbers they write

A byte string is a list of bytes, first byte first. Keys, digests, signatures and the serialized
form of an extended key all write numbers with the most significant byte first and at a fixed
width; `Bytes.toNat` reads such a number and `Bytes.ofNat` writes one. Main statements:

* `Bytes.length_ofNat`: the width asked for is the width written;
* `Bytes.toNat_ofNat`: reading a written number gives it back as far as it fits the width;
* `Bytes.ofNat_toNat`: a byte string is what its number is written as at its length.
-/

namespace WalletApi

/-- **A byte string**, first byte first. -/
abbrev Bytes := List UInt8

namespace Bytes

/-- The number that a byte string writes, most significant byte first. -/
def toNat (bs : Bytes) : Nat := bs.foldl (fun n b => n * 256 + b.toNat) 0

/-- A number written at a fixed width, most significant byte first; what does not fit is cut off
at the front. -/
def ofNat : Nat → Nat → Bytes
  | 0, _ => []
  | width + 1, n => ofNat width (n / 256) ++ [UInt8.ofNat n]

/-- How many numbers can be written at a width. -/
def capacity (width : Nat) : Nat := Nat.pow 256 width

theorem capacity_succ (width : Nat) : capacity (width + 1) = 256 * capacity width :=
  (Nat.pow_succ 256 width).trans (Nat.mul_comm _ _)

@[simp] theorem length_ofNat (width n : Nat) : (ofNat width n).length = width := by
  induction width generalizing n with
  | zero => rfl
  | succ width ih => simp [ofNat, ih]

theorem toNat_append_singleton (bs : Bytes) (b : UInt8) :
    toNat (bs ++ [b]) = toNat bs * 256 + b.toNat := by
  simp [toNat, List.foldl_append]

theorem toNat_ofNat (width n : Nat) : toNat (ofNat width n) = n % capacity width := by
  induction width generalizing n with
  | zero => simp [ofNat, toNat, capacity, Nat.mod_one]
  | succ width ih =>
    have hb : (UInt8.ofNat n).toNat = n % 256 := by simp
    have hm : n % capacity (width + 1) = n % 256 + 256 * (n / 256 % capacity width) := by
      rw [capacity_succ, Nat.mod_mul]
    rw [ofNat, toNat_append_singleton, ih, hb, hm]
    omega

theorem ofNat_toNat {width : Nat} {bs : Bytes} (h : bs.length = width) :
    ofNat width bs.toNat = bs := by
  induction width generalizing bs with
  | zero => rw [List.length_eq_zero_iff.mp h, ofNat]
  | succ width ih =>
    have hne : bs ≠ [] := fun hnil => by simp [hnil] at h
    have hlen : bs.dropLast.length = width := by rw [List.length_dropLast, h, Nat.add_sub_cancel]
    have hlast := (bs.getLast hne).toNat_lt
    have hbs := List.dropLast_concat_getLast hne
    have hdiv : (toNat bs.dropLast * 256 + (bs.getLast hne).toNat) / 256 = toNat bs.dropLast := by
      omega
    have hmod :
        UInt8.ofNat (toNat bs.dropLast * 256 + (bs.getLast hne).toNat) = bs.getLast hne := by
      rw [← UInt8.toNat_inj, UInt8.toNat_ofNat']
      omega
    rw [← hbs, toNat_append_singleton, ofNat, hdiv, hmod, ih hlen]

/-- Byte strings of one length are known by their numbers. -/
theorem eq_of_toNat_eq {as bs : Bytes} (hlen : as.length = bs.length) (h : as.toNat = bs.toNat) :
    as = bs := by
  rw [← ofNat_toNat hlen, h, ofNat_toNat rfl]

/-- A byte string of a known length. -/
abbrev Sized (n : Nat) := { bs : Bytes // bs.length = n }

/-- The `n` bytes from a position on, filled up with zeros where the byte string ends before. -/
def slice (start n : Nat) (bs : Bytes) : Sized n :=
  ⟨((bs.drop start).take n) ++ List.replicate (n - ((bs.drop start).take n).length) 0, by
    simp only [List.length_append, List.length_take, List.length_replicate]; omega⟩

theorem val_slice_append (pre mid post : Bytes) {n : Nat} (h : mid.length = n) :
    (slice pre.length n (pre ++ mid ++ post)).val = mid := by
  subst h
  simp [slice]

end Bytes

end WalletApi
