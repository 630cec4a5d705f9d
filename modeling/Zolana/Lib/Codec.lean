import Zolana.Lib.Bytes

/-!
# Self-delimiting encodings

A reader takes a value off the front of a buffer. It is exact for a writer when it takes a value that fits
precisely where the bytes start with what the writer makes of the value. Readers are exact field by field,
and two encodings with something behind each are equal only part by part.
-/

namespace Codec

variable {α β : Type}

abbrev Reader := StateT (List UInt8) Option

variable {first reader : Reader α} {next : α → Reader β} {bytes rest : List UInt8} {a : α}
  {write : α → List UInt8} {Fits : α → Prop} {width : Nat} {values : List α}

theorem run_bind_eq_some {b : β} : (first >>= next).run bytes = some (b, rest) ↔
      ∃ a middle, first.run bytes = some (a, middle) ∧ (next a).run middle = some (b, rest) := by
  rw [StateT.run_bind]
  cases first.run bytes with
  | none => simp
  | some result =>
      obtain ⟨a, middle⟩ := result
      simp

theorem run_pure_eq_some {b : α} : (pure a : Reader α).run bytes = some (b, rest) ↔ b = a ∧ rest = bytes := by
  simp [StateT.run_pure, eq_comm]

/-- What the reader takes is what the writer writes, whatever follows. -/
def Reads (reader : Reader α) (write : α → List UInt8) : Prop :=
  ∀ ⦃bytes a rest⦄, reader.run bytes = some (a, rest) →
    bytes = write a ++ rest ∧ ∀ tail, reader.run (write a ++ tail) = some (a, tail)

/-- Two values read from the front of one buffer are equal, and so is what is left. -/
theorem Reads.append_inj (h : Reads reader write) {bytes' rest' tail tail' : List UInt8} {a' : α}
    (hread : reader.run bytes = some (a, rest)) (hread' : reader.run bytes' = some (a', rest'))
    (heq : write a ++ tail = write a' ++ tail') : a = a' ∧ tail = tail' := by
  have hfirst := (h hread).2 tail
  rw [heq, (h hread').2 tail'] at hfirst
  obtain ⟨rfl, rfl⟩ := Prod.mk.inj (Option.some.inj hfirst)
  exact ⟨rfl, rfl⟩

/-- The reader takes the encodings of the values that fit, and nothing else. -/
def Exact (reader : Reader α) (write : α → List UInt8) (Fits : α → Prop) : Prop :=
  ∀ ⦃bytes a rest⦄, reader.run bytes = some (a, rest) ↔ Fits a ∧ bytes = write a ++ rest

namespace Exact

theorem reads (h : Exact reader write Fits) : Reads reader write := by
  intro bytes a rest hread
  obtain ⟨hfits, hbytes⟩ := h.mp hread
  exact ⟨hbytes, fun tail => h.mpr ⟨hfits, rfl⟩⟩

/-- A field of a record, from what is known of the fields before it. -/
theorem field (part : β → α) {K Q : β → Prop} {write' : β → List UInt8} (h : Exact first write Fits)
    (hnext : ∀ a, Exact (next a) write' fun b => (K b ∧ part b = a) ∧ Q b) :
    Exact (first >>= next) (fun b => write (part b) ++ write' b) fun b => K b ∧ Fits (part b) ∧ Q b := by
  intro bytes b rest
  rw [run_bind_eq_some]
  constructor
  · rintro ⟨a, middle, hfirst, hread⟩
    obtain ⟨hfits, rfl⟩ := h.mp hfirst
    obtain ⟨⟨⟨hknown, rfl⟩, hrest⟩, rfl⟩ := (hnext a).mp hread
    exact ⟨⟨hknown, hfits, hrest⟩, by rw [List.append_assoc]⟩
  · rintro ⟨⟨hknown, hfits, hrest⟩, rfl⟩
    refine ⟨part b, write' b ++ rest, h.mpr ⟨hfits, by rw [List.append_assoc]⟩, ?_⟩
    exact (hnext _).mpr ⟨⟨⟨hknown, rfl⟩, hrest⟩, rfl⟩

/-- The record that the fields before determine. -/
theorem done {K : α → Prop} (h : ∀ b, K b ↔ b = a) : Exact (pure a) (fun _ => []) fun b => K b ∧ True := by
  intro bytes b rest
  simp only [run_pure_eq_some, h, and_true, List.nil_append, @eq_comm _ rest]

theorem record {write' : α → List UInt8} {Fits' : α → Prop} (h : Exact reader write' fun a => True ∧ Fits' a)
    (hwrite : ∀ a, write a = write' a) (hfits : ∀ a, Fits a ↔ Fits' a) : Exact reader write Fits := by
  intro bytes a rest
  rw [h]
  simp only [hwrite, hfits, true_and]

end Exact

/-! ### Bytes -/

def take (width : Nat) : Reader (List UInt8) := fun bytes =>
  if width ≤ bytes.length then some (bytes.take width, bytes.drop width) else none

theorem exact_take (width : Nat) : Exact (take width) id fun taken => taken.length = width := by
  intro bytes taken rest
  simp only [take, StateT.run]
  constructor
  · intro h
    split at h
    case isTrue hle =>
      obtain ⟨rfl, rfl⟩ := Prod.mk.inj (Option.some.inj h)
      exact ⟨List.length_take_of_le hle, (List.take_append_drop width bytes).symm⟩
    case isFalse => cases h
  · rintro ⟨rfl, rfl⟩
    rw [if_pos (by simp), id, List.take_left' rfl, List.drop_left' rfl]

/-- A value that `width` bytes spell. -/
def fixed (width : Nat) (ofBytes : List UInt8 → α) : Reader α := do
  let bytes ← take width
  pure (ofBytes bytes)

theorem exact_fixed {ofBytes : List UInt8 → α}
    (hread : ∀ a, Fits a → (write a).length = width ∧ ofBytes (write a) = a)
    (hwrite : ∀ bytes, bytes.length = width → Fits (ofBytes bytes) ∧ write (ofBytes bytes) = bytes) :
    Exact (fixed width ofBytes) write Fits := by
  intro bytes a rest
  rw [fixed, run_bind_eq_some]
  constructor
  · rintro ⟨taken, middle, htake, hpure⟩
    obtain ⟨rfl, rfl⟩ := run_pure_eq_some.mp hpure
    obtain ⟨hlength, rfl⟩ := (exact_take width).mp htake
    obtain ⟨hfits, heq⟩ := hwrite taken hlength
    exact ⟨hfits, by rw [heq, id]⟩
  · rintro ⟨hfits, rfl⟩
    obtain ⟨hlength, heq⟩ := hread a hfits
    exact ⟨write a, rest, (exact_take width).mpr ⟨hlength, rfl⟩, run_pure_eq_some.mpr ⟨heq.symm, rfl⟩⟩

def byte : Reader UInt8 := fixed 1 fun bytes => bytes.headD 0

def writeByte (byte : UInt8) : List UInt8 := [byte]

theorem exact_byte : Exact byte writeByte fun _ => True := by
  apply exact_fixed
  · intro value _
    exact ⟨rfl, rfl⟩
  · intro bytes hlength
    obtain ⟨head, rfl⟩ := List.length_eq_one_iff.mp hlength
    exact ⟨trivial, rfl⟩

def natLE (width : Nat) : Reader Nat := fixed width Bytes.ofLE

theorem exact_natLE (width : Nat) : Exact (natLE width) (Bytes.toLE width) fun value => value < 256 ^ width := by
  apply exact_fixed
  · intro value hlt
    exact ⟨Bytes.length_toLE width value, Bytes.ofLE_toLE hlt⟩
  · rintro bytes rfl
    exact ⟨Bytes.ofLE_lt bytes, Bytes.toLE_ofLE bytes⟩

def u16 : Reader UInt16 := fixed 2 fun bytes => UInt16.ofNat (Bytes.ofLE bytes)

def writeU16 (value : UInt16) : List UInt8 := Bytes.toLE 2 value.toNat

theorem exact_u16 : Exact u16 writeU16 fun _ => True := by
  apply exact_fixed
  · intro value _
    exact ⟨Bytes.length_toLE _ _, by rw [writeU16, Bytes.ofLE_toLE value.toNat_lt, UInt16.ofNat_toNat]⟩
  · intro bytes hlength
    have hlt := Bytes.ofLE_lt bytes
    rw [hlength] at hlt
    exact ⟨trivial, by rw [writeU16, UInt16.toNat_ofNat_of_lt' hlt, ← hlength, Bytes.toLE_ofLE]⟩

def u64 : Reader UInt64 := fixed 8 fun bytes => UInt64.ofNat (Bytes.ofLE bytes)

def writeU64 (value : UInt64) : List UInt8 := Bytes.toLE 8 value.toNat

theorem exact_u64 : Exact u64 writeU64 fun _ => True := by
  apply exact_fixed
  · intro value _
    exact ⟨Bytes.length_toLE _ _, by rw [writeU64, Bytes.ofLE_toLE value.toNat_lt, UInt64.ofNat_toNat]⟩
  · intro bytes hlength
    have hlt := Bytes.ofLE_lt bytes
    rw [hlength] at hlt
    exact ⟨trivial, by rw [writeU64, UInt64.toNat_ofNat_of_lt' hlt, ← hlength, Bytes.toLE_ofLE]⟩

/-- An array of `width` bytes, kept as the number it spells big-endian. -/
def array (width : Nat) : Reader (BitVec (8 * width)) :=
  fixed width fun bytes => BitVec.ofNat (8 * width) (Bytes.ofBE bytes)

def writeArray (width : Nat) (value : BitVec (8 * width)) : List UInt8 := Bytes.toBE width value.toNat

@[simp] theorem length_writeArray (width : Nat) (value : BitVec (8 * width)) :
    (writeArray width value).length = width :=
  Bytes.length_toBE width value.toNat

theorem toNat_lt_pow_mul (value : BitVec (8 * width)) : value.toNat < 256 ^ width := by
  rw [show 256 = 2 ^ 8 from rfl, ← Nat.pow_mul]
  exact value.isLt

theorem ofBE_writeArray (value : BitVec (8 * width)) :
    BitVec.ofNat (8 * width) (Bytes.ofBE (writeArray width value)) = value := by
  rw [writeArray, Bytes.ofBE_toBE (toNat_lt_pow_mul value), BitVec.ofNat_toNat, BitVec.setWidth_eq]

theorem writeArray_ofBE (hlength : bytes.length = width) :
    writeArray width (BitVec.ofNat (8 * width) (Bytes.ofBE bytes)) = bytes := by
  have hlt := Bytes.ofBE_lt bytes
  rw [hlength, show 256 = 2 ^ 8 from rfl, ← Nat.pow_mul] at hlt
  rw [writeArray, BitVec.toNat_ofNat, Nat.mod_eq_of_lt hlt, ← hlength, Bytes.toBE_ofBE]

theorem exact_array (width : Nat) : Exact (array width) (writeArray width) fun _ => True :=
  exact_fixed (fun value _ => ⟨length_writeArray width value, ofBE_writeArray value⟩)
    fun _ hlength => ⟨trivial, writeArray_ofBE hlength⟩

theorem writeArray_injective (width : Nat) : Function.Injective (writeArray width) := by
  intro a b h
  exact BitVec.eq_of_toNat_eq (Bytes.toBE_injective (toNat_lt_pow_mul a) (toNat_lt_pow_mul b) h)

/-! ### Tags -/

theorem exact_pure (hwrite : write a = []) (h : ∀ b, Fits b ↔ b = a) : Exact (pure a) write Fits := by
  intro bytes b rest
  rw [run_pure_eq_some, h]
  constructor
  · rintro ⟨rfl, rfl⟩
    exact ⟨rfl, by rw [hwrite, List.nil_append]⟩
  · rintro ⟨rfl, rfl⟩
    exact ⟨rfl, by rw [hwrite, List.nil_append]⟩

theorem exact_failure (h : ∀ a, ¬ Fits a) : Exact (failure : Reader α) write Fits := by
  intro bytes a rest
  exact iff_of_false (fun hread => by cases hread) fun hfits => h a hfits.1

namespace Exact

theorem one {f : α → β} {write' : β → List UInt8} {Fits' : β → Prop} (h : Exact reader write Fits)
    (hwrite : ∀ a, write' (f a) = write a) (hfits : ∀ b, Fits' b ↔ ∃ a, Fits a ∧ f a = b) :
    Exact (do let a ← reader; pure (f a)) write' Fits' := by
  intro bytes b rest
  rw [run_bind_eq_some, hfits]
  constructor
  · rintro ⟨a, middle, hread, hpure⟩
    obtain ⟨rfl, rfl⟩ := run_pure_eq_some.mp hpure
    obtain ⟨ha, rfl⟩ := h.mp hread
    exact ⟨⟨a, ha, rfl⟩, by rw [hwrite]⟩
  · rintro ⟨⟨a, ha, rfl⟩, rfl⟩
    exact ⟨a, rest, h.mpr ⟨ha, by rw [hwrite]⟩, run_pure_eq_some.mpr ⟨rfl, rfl⟩⟩

theorem two {γ : Type} {second : Reader β} {writeSecond : β → List UInt8} {FitsSecond : β → Prop} {f : α → β → γ}
    {write' : γ → List UInt8} {Fits' : γ → Prop} (h : Exact first write Fits)
    (hsecond : Exact second writeSecond FitsSecond) (hwrite : ∀ a b, write' (f a b) = write a ++ writeSecond b)
    (hfits : ∀ c, Fits' c ↔ ∃ a b, (Fits a ∧ FitsSecond b) ∧ f a b = c) :
    Exact (do let a ← first; let b ← second; pure (f a b)) write' Fits' := by
  have hpair : Exact (do let a ← first; let b ← second; pure (a, b)) (fun p => write p.1 ++ writeSecond p.2)
      fun p => Fits p.1 ∧ FitsSecond p.2 :=
    (h.field Prod.fst fun _ => hsecond.field Prod.snd fun _ => .done (by simp [Prod.ext_iff])).record
      (by simp) (by simp)
  have h' := @one _ _ _ _ _ (fun p => f p.1 p.2) write' Fits' hpair (fun p => hwrite p.1 p.2) (by simpa using hfits)
  simpa only [bind_assoc, pure_bind] using h'

theorem tagged {next : UInt8 → Reader α} (hwrite : ∀ a, write a ≠ [])
    (h : ∀ tag, Exact (next tag) (fun a => (write a).tail) fun a => (write a).head? = some tag ∧ Fits a) :
    Exact (do let tag ← byte; next tag) write Fits := by
  intro bytes a rest
  rw [run_bind_eq_some]
  constructor
  · rintro ⟨tag, middle, htag, hread⟩
    obtain ⟨-, rfl⟩ := exact_byte.mp htag
    obtain ⟨⟨hhead, hfits⟩, rfl⟩ := (h tag).mp hread
    exact ⟨hfits, congrArg (· ++ rest) (List.cons_head?_tail hhead)⟩
  · rintro ⟨hfits, rfl⟩
    obtain ⟨tag, body, hbody⟩ := List.exists_cons_of_ne_nil (hwrite a)
    refine ⟨tag, body ++ rest, exact_byte.mpr ⟨trivial, by simp [hbody, writeByte]⟩, ?_⟩
    exact (h tag).mpr ⟨⟨by simp [hbody], hfits⟩, by simp [hbody]⟩

end Exact

/-! ### Options and sequences -/

/-- A byte that is zero or one, and the value when it is one. -/
def option (reader : Reader α) : Reader (Option α) := do
  let present ← byte
  if present = 0 then
    pure none
  else if present = 1 then
    let a ← reader
    pure (some a)
  else
    failure

def writeOption (write : α → List UInt8) : Option α → List UInt8
  | none => [0]
  | some a => 1 :: write a

theorem exact_option (h : Exact reader write Fits) :
    Exact (option reader) (writeOption write) fun o => ∀ a ∈ o, Fits a := by
  refine .tagged (by rintro (_ | _) <;> simp [writeOption]) fun present => ?_
  split_ifs with hnone hsome
  · exact exact_pure rfl (by rintro (_ | _) <;> simp [writeOption, hnone])
  · exact h.one (fun _ => rfl) (by rintro (_ | _) <;> simp [writeOption, hsome])
  · exact exact_failure (by rintro (_ | _) <;> simp [writeOption, eq_comm, hnone, hsome])

/-- A number of values one after another. -/
def many (reader : Reader α) : Nat → Reader (List α)
  | 0 => pure []
  | count + 1 => do
    let a ← reader
    let rest ← many reader count
    pure (a :: rest)

theorem exact_many (h : Exact reader write Fits) (count : Nat) :
    Exact (many reader count) (List.flatMap write) fun values => values.length = count ∧ ∀ a ∈ values, Fits a := by
  induction count with
  | zero =>
      intro bytes values rest
      rw [many, run_pure_eq_some]
      constructor
      · rintro ⟨rfl, rfl⟩
        exact ⟨⟨rfl, by simp⟩, rfl⟩
      · rintro ⟨⟨hlength, -⟩, rfl⟩
        obtain rfl := List.length_eq_zero_iff.mp hlength
        exact ⟨rfl, rfl⟩
  | succ count ih =>
      intro bytes values rest
      rw [many, run_bind_eq_some]
      constructor
      · rintro ⟨a, middle, hfirst, hread⟩
        obtain ⟨values', last, hvalues, hpure⟩ := run_bind_eq_some.mp hread
        obtain ⟨rfl, rfl⟩ := run_pure_eq_some.mp hpure
        obtain ⟨ha, rfl⟩ := h.mp hfirst
        obtain ⟨⟨rfl, hall⟩, rfl⟩ := ih.mp hvalues
        exact ⟨⟨rfl, List.forall_mem_cons.mpr ⟨ha, hall⟩⟩, by rw [List.flatMap_cons, List.append_assoc]⟩
      · rintro ⟨⟨hlength, hall⟩, rfl⟩
        obtain ⟨a, values', rfl⟩ := List.exists_cons_of_length_eq_add_one hlength
        obtain ⟨ha, hall⟩ := List.forall_mem_cons.mp hall
        refine ⟨a, values'.flatMap write ++ rest, h.mpr ⟨ha, ?_⟩, ?_⟩
        · rw [List.flatMap_cons, List.append_assoc]
        · exact run_bind_eq_some.mpr ⟨values', rest, ih.mpr ⟨⟨Nat.succ.inj hlength, hall⟩, rfl⟩, rfl⟩

theorem many_byte (count : Nat) : many byte count = take count := by
  have hflat (taken : List UInt8) : taken.flatMap writeByte = taken := List.flatMap_singleton' taken
  funext bytes
  apply Option.ext
  rintro ⟨taken, rest⟩
  refine (@exact_many _ _ _ _ exact_byte count bytes taken rest).trans (Iff.trans ?_ (@exact_take count bytes taken rest).symm)
  simp [hflat]

theorem flatMap_append_inj (hwidth : ∀ a, (write a).length = width)
    (hinjective : Function.Injective write) {values' : List α} {tail tail' : List UInt8}
    (hcount : values.length = values'.length)
    (h : values.flatMap write ++ tail = values'.flatMap write ++ tail') : values = values' ∧ tail = tail' := by
  induction values generalizing values' with
  | nil =>
      obtain rfl := List.length_eq_zero_iff.mp hcount.symm
      exact ⟨rfl, h⟩
  | cons a values ih =>
      cases values' with
      | nil => cases hcount
      | cons a' values' =>
          rw [List.flatMap_cons, List.flatMap_cons, List.append_assoc, List.append_assoc] at h
          obtain ⟨hhead, hrest⟩ := List.append_inj h ((hwidth a).trans (hwidth a').symm)
          obtain ⟨rfl, rfl⟩ := ih (Nat.succ.inj hcount) hrest
          exact ⟨by rw [hinjective hhead], rfl⟩

def vector (reader : Reader α) : (count : Nat) → Reader (Vector α count)
  | 0 => pure #v[]
  | count + 1 => do
    let values ← vector reader count
    let a ← reader
    pure (values.push a)

theorem exact_vector (h : Exact reader write fun _ => True) (count : Nat) :
    Exact (vector reader count) (fun values => values.toList.flatMap write) fun _ => True := by
  induction count with
  | zero =>
      intro bytes values rest
      obtain rfl : values = #v[] := Vector.eq_empty
      rw [vector, run_pure_eq_some, @eq_comm _ rest]
      simp
  | succ count ih =>
      refine (ih.field Vector.pop fun values => h.field Vector.back fun a => .done fun b => ?_).record
        (fun values => ?_) fun _ => by simp
      · constructor
        · rintro ⟨⟨-, rfl⟩, rfl⟩
          exact (Vector.push_pop_back b).symm
        · rintro rfl
          exact ⟨⟨trivial, Vector.pop_push⟩, by simp [Vector.back]⟩
      · conv_lhs => rw [← Vector.push_pop_back values]
        simp only [Vector.toList_push, List.flatMap_append, List.flatMap_singleton, List.append_nil]

/-- A sequence behind its length. -/
def vec (lengthWidth : Nat) (reader : Reader α) : Reader (List α) := do
  let count ← natLE lengthWidth
  many reader count

def writeVec (lengthWidth : Nat) (write : α → List UInt8) (values : List α) : List UInt8 :=
  Bytes.toLE lengthWidth values.length ++ values.flatMap write

theorem exact_vec (h : Exact reader write Fits) (lengthWidth : Nat) :
    Exact (vec lengthWidth reader) (writeVec lengthWidth write)
      fun values => values.length < 256 ^ lengthWidth ∧ ∀ a ∈ values, Fits a := by
  refine ((exact_natLE lengthWidth).field List.length fun count => ?_).record (fun _ => rfl) fun _ => Iff.rfl
  intro bytes values rest
  rw [exact_many h count]
  simp only [true_and]

theorem exact_vec_byte (lengthWidth : Nat) :
    Exact (vec lengthWidth byte) (writeVec lengthWidth writeByte) fun values => values.length < 256 ^ lengthWidth := by
  intro bytes values rest
  rw [exact_vec exact_byte]
  simp

/-! ### Whole buffers -/

/-- Reads a value that takes the whole buffer. -/
def whole (reader : Reader α) (bytes : List UInt8) : Option α :=
  match reader.run bytes with
  | some (a, []) => some a
  | _ => none

theorem whole_eq_some : whole reader bytes = some a ↔ reader.run bytes = some (a, []) := by
  unfold whole
  split
  case h_1 b h => simp [h]
  case h_2 h =>
    simp only [reduceCtorEq, false_iff]
    intro hread
    exact h a hread

theorem Exact.whole_eq_some (h : Exact reader write Fits) : whole reader bytes = some a ↔ Fits a ∧ bytes = write a := by
  rw [Codec.whole_eq_some, h, List.append_nil]

section Whole

variable {reader : Reader α} {write : α → List UInt8} (h : Reads reader write)

include h

variable {bytes : List UInt8} {a : α}

theorem Reads.eq_write (hwhole : whole reader bytes = some a) : bytes = write a := by
  rw [(h (whole_eq_some.mp hwhole)).1, List.append_nil]

theorem Reads.whole_append {extra : List UInt8} (hwhole : whole reader bytes = some a)
    (hextra : extra ≠ []) : whole reader (bytes ++ extra) = none := by
  rw [Option.eq_none_iff_forall_ne_some]
  intro b hb
  have hrun := (h (whole_eq_some.mp hwhole)).2 extra
  rw [← h.eq_write hwhole, whole_eq_some.mp hb] at hrun
  exact hextra (Prod.mk.inj (Option.some.inj hrun)).2.symm

theorem Reads.whole_write {rest : List UInt8} (hread : reader.run bytes = some (a, rest)) :
    bytes = write a ++ rest ∧ whole reader (write a) = some a := by
  obtain ⟨hbytes, htail⟩ := h hread
  refine ⟨hbytes, whole_eq_some.mpr ?_⟩
  simpa using htail []

end Whole

end Codec
