import Mathlib.Tactic

/-!
# Bytes

Fixed-width integers as bytes, and overwriting a region of a buffer. A decoder that reads back what an
encoder wrote makes the encoder injective, so every injectivity statement here is a round trip.
-/

namespace Bytes

/-! ### Fixed-width integers -/

/-- The low `width` bytes of a value, lowest first. -/
def toLE : Nat → Nat → List UInt8
  | 0, _ => []
  | width + 1, value => UInt8.ofNat value :: toLE width (value / 256)

def ofLE : List UInt8 → Nat
  | [] => 0
  | byte :: bytes => byte.toNat + 256 * ofLE bytes

/-- The low `width` bytes of a value, highest first. -/
def toBE (width value : Nat) : List UInt8 := (toLE width value).reverse

@[simp] theorem length_toLE (width value : Nat) : (toLE width value).length = width := by
  induction width generalizing value with
  | zero => rfl
  | succ width ih => rw [toLE, List.length_cons, ih]

@[simp] theorem length_toBE (width value : Nat) : (toBE width value).length = width := by
  rw [toBE, List.length_reverse, length_toLE]

theorem ofLE_toLE {width value : Nat} (h : value < 256 ^ width) : ofLE (toLE width value) = value := by
  induction width generalizing value with
  | zero =>
      rw [Nat.pow_zero] at h
      rw [toLE, ofLE]
      omega
  | succ width ih =>
      have hrest : value / 256 < 256 ^ width := by
        rw [Nat.pow_succ] at h
        exact Nat.div_lt_of_lt_mul (by rwa [Nat.mul_comm])
      rw [toLE, ofLE, ih hrest, UInt8.toNat_ofNat']
      omega

theorem toLE_ofLE (bytes : List UInt8) : toLE bytes.length (ofLE bytes) = bytes := by
  induction bytes with
  | nil => rfl
  | cons byte bytes ih =>
      have hbyte := byte.toNat_lt
      have hlow : UInt8.ofNat (byte.toNat + 256 * ofLE bytes) = byte := by
        apply UInt8.toNat_inj.mp
        rw [UInt8.toNat_ofNat']
        omega
      have hrest : (byte.toNat + 256 * ofLE bytes) / 256 = ofLE bytes := by omega
      rw [List.length_cons, ofLE, toLE, hlow, hrest, ih]

/-- The value that bytes spell, highest first. -/
def ofBE (bytes : List UInt8) : Nat := ofLE bytes.reverse

theorem toBE_ofBE (bytes : List UInt8) : toBE bytes.length (ofBE bytes) = bytes := by
  have h := toLE_ofLE bytes.reverse
  rw [List.length_reverse] at h
  rw [toBE, ofBE, h, List.reverse_reverse]

theorem ofBE_toBE {width value : Nat} (h : value < 256 ^ width) : ofBE (toBE width value) = value := by
  rw [ofBE, toBE, List.reverse_reverse, ofLE_toLE h]

theorem ofLE_lt (bytes : List UInt8) : ofLE bytes < 256 ^ bytes.length := by
  induction bytes with
  | nil => exact Nat.one_pos
  | cons byte bytes ih =>
      have hbyte := byte.toNat_lt
      rw [List.length_cons, ofLE, Nat.pow_succ]
      omega

theorem ofBE_lt (bytes : List UInt8) : ofBE bytes < 256 ^ bytes.length := by
  have h := ofLE_lt bytes.reverse
  rwa [List.length_reverse] at h

theorem toLE_injective {width a b : Nat} (ha : a < 256 ^ width) (hb : b < 256 ^ width)
    (h : toLE width a = toLE width b) : a = b := by
  rw [← ofLE_toLE ha, ← ofLE_toLE hb, h]

theorem toBE_injective {width a b : Nat} (ha : a < 256 ^ width) (hb : b < 256 ^ width)
    (h : toBE width a = toBE width b) : a = b :=
  toLE_injective ha hb (List.reverse_injective h)

theorem toBE_succ (width value : Nat) : toBE (width + 1) value = toBE width (value / 256) ++ [UInt8.ofNat value] := by
  rw [toBE, toLE, List.reverse_cons, toBE]

theorem toBE_add (high low value : Nat) :
    toBE (high + low) value = toBE high (value / 256 ^ low) ++ toBE low value := by
  induction low generalizing value with
  | zero => simp [toBE, toLE]
  | succ low ih =>
      rw [← Nat.add_assoc, toBE_succ, ih, toBE_succ low, List.append_assoc, Nat.div_div_eq_div_mul,
        Nat.pow_succ']

/-! ### Regions of a buffer -/

variable {offset : Nat} {region buffer : List UInt8}

def slice (offset width : Nat) (buffer : List UInt8) : List UInt8 := (buffer.drop offset).take width

def overwrite (offset : Nat) (region buffer : List UInt8) : List UInt8 :=
  buffer.take offset ++ region ++ buffer.drop (offset + region.length)

section

variable (h : offset + region.length ≤ buffer.length)

include h

theorem take_overwrite : (overwrite offset region buffer).take offset = buffer.take offset := by
  have hlength : (buffer.take offset).length = offset := by
    rw [List.length_take]
    omega
  rw [overwrite, List.append_assoc, List.take_left' hlength]

theorem slice_overwrite : slice offset region.length (overwrite offset region buffer) = region := by
  have hlength : (buffer.take offset).length = offset := by
    rw [List.length_take]
    omega
  rw [slice, overwrite, List.append_assoc, List.drop_left' hlength, List.take_left' rfl]

theorem overwrite_overwrite {region' : List UInt8} (hregion : region'.length = region.length) :
    overwrite offset region' (overwrite offset region buffer) = overwrite offset region' buffer := by
  have hlength : (buffer.take offset ++ region).length = offset + region.length := by
    rw [List.length_append, List.length_take]
    omega
  have hdrop : (overwrite offset region buffer).drop (offset + region.length)
      = buffer.drop (offset + region.length) := by
    rw [overwrite, List.drop_left' hlength]
  rw [overwrite, take_overwrite h, hregion, hdrop, overwrite, hregion]

theorem overwrite_append (tail : List UInt8) :
    overwrite offset region buffer ++ tail = overwrite offset region (buffer ++ tail) := by
  have htake : (buffer ++ tail).take offset = buffer.take offset :=
    List.take_append_of_le_length (by omega)
  rw [overwrite, overwrite, htake, List.drop_append_of_le_length h, ← List.append_assoc]

end

theorem overwrite_replicate_zero {width size : Nat} (h : offset + width ≤ size) :
    overwrite offset (List.replicate width 0) (List.replicate size 0) = List.replicate size 0 := by
  rw [overwrite, List.take_replicate, List.length_replicate, List.drop_replicate,
    List.replicate_append_replicate, List.replicate_append_replicate]
  congr 1
  omega

end Bytes
