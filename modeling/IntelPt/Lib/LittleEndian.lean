import Mathlib.Algebra.Ring.Nat
import Mathlib.Data.List.Basic
import Mathlib.Tactic.Common

/-! Numbers as sequences of bytes, least significant byte first. Nothing here is about packets
or messages. -/
namespace IntelPt.LittleEndian

def bytes : Nat → Nat → List (BitVec 8)
  | 0, _ => []
  | n + 1, x => BitVec.ofNat 8 x :: bytes n (x / 256)

def value : List (BitVec 8) → Nat
  | [] => 0
  | b :: bs => b.toNat + 256 * value bs

@[simp] theorem bytes_length (n x : Nat) : (bytes n x).length = n := by
  induction n generalizing x with
  | zero => rfl
  | succ n ih => simp [bytes, ih]

/-- Reading what was written gives the number back, up to the bytes that were left out. -/
theorem value_bytes (n x : Nat) : value (bytes n x) = x % 256 ^ n := by
  induction n generalizing x with
  | zero => rw [Nat.pow_zero, Nat.mod_one]; rfl
  | succ n ih =>
    have hb : (BitVec.ofNat 8 x).toNat = x % 256 := BitVec.toNat_ofNat x 8
    have hpow : 256 ^ (n + 1) = 256 * 256 ^ n := by rw [Nat.pow_succ, Nat.mul_comm]
    rw [hpow, Nat.mod_mul, bytes, value, ih, hb]

theorem value_bytes_of_lt {n x : Nat} (h : x < 256 ^ n) : value (bytes n x) = x := by
  rw [value_bytes, Nat.mod_eq_of_lt h]

@[simp] theorem take_bytes_append (n x : Nat) (bs : List (BitVec 8)) :
    (bytes n x ++ bs).take n = bytes n x := by
  rw [List.take_append_of_le_length (by simp), List.take_of_length_le (by simp)]

@[simp] theorem drop_bytes_append (n x : Nat) (bs : List (BitVec 8)) :
    (bytes n x ++ bs).drop n = bs := by
  rw [List.drop_append_of_le_length (by simp), List.drop_of_length_le (by simp), List.nil_append]

/-! Packed records: fields of given widths, one right after the other. -/

def packed (record : List (Nat × Nat)) : List (BitVec 8) :=
  record.flatMap fun field => bytes field.1 field.2

def fields : List Nat → List (BitVec 8) → List Nat
  | [], _ => []
  | n :: ns, bs => value (bs.take n) :: fields ns (bs.drop n)

theorem packed_cons (field : Nat × Nat) (record : List (Nat × Nat)) :
    packed (field :: record) = bytes field.1 field.2 ++ packed record :=
  List.flatMap_cons

@[simp] theorem packed_length (record : List (Nat × Nat)) :
    (packed record).length = (record.map Prod.fst).sum := by
  induction record with
  | nil => rfl
  | cons field record ih =>
    rw [packed_cons, List.length_append, bytes_length, ih, List.map_cons, List.sum_cons]

/-- A record whose values fit is read back field by field, whatever follows it. -/
theorem fields_packed {record : List (Nat × Nat)} (h : ∀ f ∈ record, f.2 < 256 ^ f.1)
    (rest : List (BitVec 8)) :
    fields (record.map Prod.fst) (packed record ++ rest) = record.map Prod.snd := by
  induction record with
  | nil => rfl
  | cons field record ih =>
    have hfield := h field (by simp)
    have hrecord := ih fun f hf => h f (List.mem_cons_of_mem field hf)
    rw [List.map_cons, fields, packed_cons, List.append_assoc, take_bytes_append,
      drop_bytes_append, value_bytes_of_lt hfield, hrecord, List.map_cons]

/-! Memory that is written piece by piece. -/

def memcpy (dst : List (BitVec 8)) (offset : Nat) (src : List (BitVec 8)) : List (BitVec 8) :=
  dst.take offset ++ src ++ dst.drop (offset + src.length)

/-- Writing on where the last piece ended takes up as much of what is left. -/
theorem memcpy_fill {written src : List (BitVec 8)} {offset m : Nat}
    (h : written.length = offset) (hs : src.length = m) (b : BitVec 8) (n : Nat) :
    memcpy (written ++ List.replicate (m + n) b) offset src =
      (written ++ src) ++ List.replicate n b := by
  subst h hs
  have hdrop : (written ++ List.replicate (src.length + n) b).drop
      (written.length + src.length) = List.replicate n b := by
    rw [← List.drop_drop, List.drop_left, List.drop_replicate, Nat.add_sub_cancel_left]
  rw [memcpy, List.take_left, hdrop]

end IntelPt.LittleEndian
