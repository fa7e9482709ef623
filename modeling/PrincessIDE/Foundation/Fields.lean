import Mathlib.Data.Nat.Bitwise

namespace PrincessIDE.Fields

-- A word as fields side by side, the lowest first. A field is a value of its
-- own width, so that none reaches into the next.
abbrev Field := (w : Nat) × BitVec w

def width (fields : List Field) : Nat := (fields.map Sigma.fst).sum

def pack : List Field → Nat
  | [] => 0
  | field :: rest => field.2.toNat + 2^field.1 * pack rest

theorem pack_lt (fields : List Field) : pack fields < 2^width fields := by
  induction fields with
  | nil => simp [pack,width]
  | cons field rest ih =>
    have low := field.2.isLt
    calc pack (field::rest) = field.2.toNat + 2^field.1 * pack rest := rfl
      _ < 2^field.1 + 2^field.1 * pack rest := Nat.add_lt_add_right low _
      _ = 2^field.1 * (pack rest + 1) := by rw [Nat.mul_succ,Nat.add_comm]
      _ ≤ 2^field.1 * 2^width rest := Nat.mul_le_mul_left _ ih
      _ = 2^width (field::rest) := by rw [← Nat.pow_add]; rfl

theorem pack_above (before after : List Field) : pack (before++after) / 2^width before = pack after := by
  induction before with
  | nil => simp [width]
  | cons field before ih =>
    have low := field.2.isLt
    have positive := Nat.two_pow_pos field.1
    have place : 2^width (field::before) = 2^field.1 * 2^width before := by rw [← Nat.pow_add]; rfl
    rw [place,← Nat.div_div_eq_div_mul,List.cons_append,pack,Nat.add_mul_div_left _ _ positive,Nat.div_eq_of_lt low,
      Nat.zero_add,ih]

-- A field is read back at the width of those before it.
theorem pack_field (fields : List Field) (k s : Nat) (field : Field) (found : fields[k]? = some field) (place : width (fields.take k) = s) :
    pack fields / 2^s % 2^field.1 = field.2.toNat := by
  obtain ⟨inside,rfl⟩ := List.getElem?_eq_some_iff.mp found
  have split : fields = fields.take k ++ fields[k] :: fields.drop (k+1) := by simp
  have above : pack fields / 2^s = pack (fields[k] :: fields.drop (k+1)) := by
    have here := pack_above (fields.take k) (fields[k] :: fields.drop (k+1))
    rwa [← split,place] at here
  rw [above,pack,Nat.add_mul_mod_self_left,Nat.mod_eq_of_lt fields[k].2.isLt]

theorem word_toNat (fields : List Field) (whole : width fields = n) : (BitVec.ofNat n (pack fields)).toNat = pack fields := by
  rw [BitVec.toNat_ofNat,Nat.mod_eq_of_lt (whole ▸ pack_lt fields)]

-- The bit operations with which such words are taken apart and put together.
theorem bits_toNat (raw mask : BitVec n) (s : Nat) (bits : mask.toNat = 2^w-1) :
    ((raw >>> s) &&& mask).toNat = raw.toNat / 2^s % 2^w := by
  rw [BitVec.toNat_and,bits,BitVec.toNat_ushiftRight,Nat.shiftRight_eq_div_pow,Nat.and_two_pow_sub_one_eq_mod]

theorem flag_testBit (raw mask : BitVec n) (place : mask.toNat = 2^i) : raw &&& mask ≠ 0 ↔ raw.toNat.testBit i = true := by
  have value : (raw &&& mask).toNat = (raw.toNat.testBit i).toNat*2^i := by
    rw [BitVec.toNat_and,place,Nat.and_two_pow]
  have zero : raw &&& mask = 0 ↔ (raw &&& mask).toNat = 0 := by
    rw [← BitVec.toNat_inj]
    rfl
  rw [Ne,zero,value]
  cases raw.toNat.testBit i <;> simp

theorem flag_bit (raw mask : BitVec n) (place : mask.toNat = 2^i) : decide (raw &&& mask ≠ 0) = raw.toNat.testBit i := by
  rw [Bool.eq_iff_iff,decide_eq_true_iff]
  exact flag_testBit raw mask place

theorem flag_iff (raw mask : BitVec n) (place : mask.toNat = 2^i) : raw &&& mask ≠ 0 ↔ raw.toNat / 2^i % 2 = 1 := by
  rw [flag_testBit raw mask place,Nat.testBit_eq_decide_div_mod_eq,decide_eq_true_iff]

theorem join_toNat {high low : BitVec n} (below : low.toNat < 2^s) (room : high.toNat*2^s < 2^n) :
    (high <<< s ||| low).toNat = high.toNat*2^s + low.toNat := by
  rw [BitVec.toNat_or,BitVec.toNat_shiftLeft,Nat.shiftLeft_eq,Nat.mod_eq_of_lt room,← Nat.shiftLeft_eq,
    Nat.shiftLeft_add_eq_or_of_lt below]

end PrincessIDE.Fields
