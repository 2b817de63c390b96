import Mathlib.Algebra.Group.Nat.Defs
import Mathlib.Algebra.BigOperators.Group.List.Basic
import Mathlib.Tactic.Common

/-! Words made of bit-fields, the first one lowest, as a C compiler lays out the members of a
struct. -/
namespace IntelPt.BitFields

structure Field where
  width : Nat
  value : BitVec width

def flag (b : Bool) : Field := ⟨1, BitVec.ofBool b⟩

def widths (fields : List Field) : List Nat := fields.map (·.width)

def offset : List Nat → Nat → Nat
  | [], _ => 0
  | _ :: _, 0 => 0
  | w :: widths, k + 1 => w + offset widths k

def pack : List Field → Nat
  | [] => 0
  | f :: fields => pack fields * 2 ^ f.width + f.value.toNat

theorem pack_cons_mod (f : Field) (fields : List Field) :
    pack (f :: fields) % 2 ^ f.width = f.value.toNat := by
  rw [pack, Nat.add_comm, Nat.add_mul_mod_self_right, Nat.mod_eq_of_lt f.value.isLt]

theorem pack_cons_shift (f : Field) (fields : List Field) :
    pack (f :: fields) >>> f.width = pack fields := by
  rw [pack, Nat.shiftRight_eq_div_pow, Nat.add_comm,
    Nat.add_mul_div_right _ _ (Nat.two_pow_pos f.width), Nat.div_eq_of_lt f.value.isLt,
    Nat.zero_add]

/-- What is packed in a member is read from its bits: the members do not disturb each other. -/
theorem extract_pack {fields : List Field} {f : Field} {k : Nat} (h : fields[k]? = some f) :
    pack fields >>> offset (widths fields) k % 2 ^ f.width = f.value.toNat := by
  induction fields generalizing k with
  | nil => cases h
  | cons g fields ih =>
    cases k with
    | zero =>
      obtain rfl : g = f := by simpa using h
      exact pack_cons_mod g fields
    | succ k =>
      rw [widths, List.map_cons, offset, Nat.shiftRight_add, pack_cons_shift]
      exact ih h

def word (w : Nat) (fields : List Field) : BitVec w := BitVec.ofNat w (pack fields)

theorem pack_lt (fields : List Field) : pack fields < 2 ^ offset (widths fields) fields.length := by
  induction fields with
  | nil => simp [pack, offset, widths]
  | cons f fields ih =>
    have hvalue := f.value.isLt
    rw [widths, List.map_cons, List.length_cons, offset, pack, Nat.pow_add]
    calc
      pack fields * 2 ^ f.width + f.value.toNat
          < pack fields * 2 ^ f.width + 2 ^ f.width := by omega
      _ = (pack fields + 1) * 2 ^ f.width := (Nat.succ_mul _ _).symm
      _ ≤ 2 ^ offset (widths fields) fields.length * 2 ^ f.width := Nat.mul_le_mul_right _ ih
      _ = 2 ^ f.width * 2 ^ offset (widths fields) fields.length := Nat.mul_comm _ _

theorem extract_word {w : Nat} {fields : List Field} (hw : offset (widths fields) fields.length ≤ w)
    {f : Field} {k : Nat} (h : fields[k]? = some f) :
    (word w fields).extractLsb' (offset (widths fields) k) f.width = f.value := by
  have hlt : pack fields < 2 ^ w :=
    Nat.lt_of_lt_of_le (pack_lt fields) (Nat.pow_le_pow_right Nat.two_pos hw)
  apply BitVec.eq_of_toNat_eq
  rw [BitVec.extractLsb'_toNat, word, BitVec.toNat_ofNat, Nat.mod_eq_of_lt hlt, extract_pack h]

theorem getLsbD_word {w : Nat} {fields : List Field} (hw : offset (widths fields) fields.length ≤ w)
    {b : Bool} {k : Nat} (h : fields[k]? = some (flag b)) :
    (word w fields).getLsbD (offset (widths fields) k) = b := by
  have hbit := congrArg (·.getLsbD 0) (extract_word hw h)
  simpa [flag, BitVec.getLsbD_extractLsb'] using hbit

end IntelPt.BitFields
