import PortableImage.Portable.TypeForm
import Mathlib.Algebra.Group.Nat.Defs
/-!
# Compressed numbers on a sheet

A number below 2 ^ 29 extends the sheet by its written form, and any other number leaves the sheet as
it was.  The form is the shortest that reads as the number, and no form begins another one, so that
numbers written one after another are read back one after another, whatever follows them.  A token
whose row has three bytes never gives an index that is too large.
-/

namespace PortableImage

namespace Compressed

variable {value : UInt32} {data : Bytes}

/-- How many bytes the written form of a number takes. -/
def width (value : UInt32) : Nat :=
  if value.toNat ≤ 0x7F then 1 else if value.toNat ≤ 0x3FFF then 2 else 4

/-- The low bytes of a number, with the bits that tell their count set in the first. -/
def tagged (value : UInt32) : Bytes :=
  if value.toNat ≤ 0x7F then [value.toUInt8]
  else if value.toNat ≤ 0x3FFF then [(0x80 : UInt8) ||| (value >>> 8).toUInt8, value.toUInt8]
  else [(0xC0 : UInt8) ||| (value >>> 24).toUInt8, (value >>> 16).toUInt8, (value >>> 8).toUInt8,
    value.toUInt8]

section Tags

theorem toUInt8_shiftRight (value : UInt32) (shift : Nat) (h : shift < 32) :
    (value >>> UInt32.ofNat shift).toUInt8 = UInt8.ofNat (value.toNat / 2 ^ shift) := by
  apply UInt8.toNat_inj.mp
  have hshift : (UInt32.ofNat shift).toNat % 32 = shift := by
    rw [UInt32.toNat_ofNat']
    omega
  rw [UInt32.toNat_toUInt8, UInt32.toNat_shiftRight, hshift, Nat.shiftRight_eq_div_pow,
    UInt8.toNat_ofNat']

/-- Bits above a number are added by setting them. -/
theorem or_ofNat_of_lt {rank low : Nat} (h : low < 2 ^ rank) (high : Nat) :
    UInt8.ofNat (2 ^ rank * high) ||| UInt8.ofNat low = UInt8.ofNat (2 ^ rank * high + low) := by
  rw [← UInt8.ofNat_or, Nat.two_pow_add_eq_or_of_lt h]

theorem encode_eq_tagged (h : value.toNat ≤ bound) : encode value = .ok (tagged value) := by
  have height := toUInt8_shiftRight value 8 (by omega)
  have hsixteen := toUInt8_shiftRight value 16 (by omega)
  have htwentyfour := toUInt8_shiftRight value 24 (by omega)
  unfold encode tagged
  dsimp only
  by_cases hone : value.toNat ≤ 0x7F
  · rw [if_pos hone, if_pos hone]
    rfl
  rw [if_neg hone, if_neg hone]
  by_cases htwo : value.toNat ≤ 0x3FFF
  · have hfirst : (0x80 : UInt8) ||| (value >>> 8).toUInt8 =
        UInt8.ofNat (0x80 + value.toNat / 0x100) := by
      have hlow : value.toNat / 2 ^ 8 < 2 ^ 7 := by omega
      exact (congrArg _ height).trans (or_ofNat_of_lt hlow 1)
    rw [if_pos htwo, if_pos htwo, hfirst]
    rfl
  · have hfirst : (0xC0 : UInt8) ||| (value >>> 24).toUInt8 =
        UInt8.ofNat (0xC0 + value.toNat / 0x1000000) := by
      have hlow : value.toNat / 2 ^ 24 < 2 ^ 6 := by
        unfold bound at h
        omega
      exact (congrArg _ htwentyfour).trans (or_ofNat_of_lt hlow 3)
    have hsecond : (value >>> 16).toUInt8 = UInt8.ofNat (value.toNat / 0x10000) := hsixteen
    have hthird : (value >>> 8).toUInt8 = UInt8.ofNat (value.toNat / 0x100) := height
    rw [if_neg htwo, if_neg htwo, if_pos h, hfirst, hsecond, hthird]
    rfl

example : tagged 0x4000 = [0xC0, 0x00, 0x40, 0x00] := by decide

theorem length_tagged (value : UInt32) : (tagged value).length = width value := by
  unfold tagged width
  split
  · rfl
  · split <;> rfl

end Tags

section Reading

theorem width_ofNat_eq_one {n : Nat} (h : n ≤ 0x7F) : width (UInt32.ofNat n) = 1 := by
  have hn : (UInt32.ofNat n).toNat = n :=
    UInt32.toNat_ofNat_of_lt' (Nat.lt_of_le_of_lt h (by decide))
  rw [width, hn, if_pos h]

theorem width_ofNat_le_two {n : Nat} (h : n ≤ 0x3FFF) : width (UInt32.ofNat n) ≤ 2 := by
  have hn : (UInt32.ofNat n).toNat = n :=
    UInt32.toNat_ofNat_of_lt' (Nat.lt_of_le_of_lt h (by decide))
  rw [width, hn, if_pos h]
  split <;> omega

theorem width_le_four (value : UInt32) : width value ≤ 4 := by
  unfold width
  split
  · omega
  · split <;> omega

/-- Reading a number takes as many bytes from the front as its written form has, or more. -/
theorem exists_form_of_read? {rest : Bytes} (h : read? data = some (value, rest)) :
    ∃ form, data = form ++ rest ∧ width value ≤ form.length := by
  cases data with
  | nil => cases h
  | cons first behind =>
    unfold read? at h
    dsimp only at h
    split at h
    · rename_i hone
      cases h
      exact ⟨[first], rfl, Nat.le_of_eq (width_ofNat_eq_one (Nat.le_of_lt_succ hone))⟩
    split at h
    · split at h
      · rename_i second rest
        have hsecond := second.toNat_lt
        cases h
        exact ⟨[first, second], rfl, width_ofNat_le_two (by omega)⟩
      · cases h
    split at h
    · split at h
      · rename_i second third fourth rest
        cases h
        exact ⟨[first, second, third, fourth], rfl, width_le_four _⟩
      · cases h
    · cases h

end Reading

/-- The bytes are the written form of a number, and of no other. -/
structure Legible (value : UInt32) (data : Bytes) : Prop where
  written : encode value = .ok data
  tagged : data = tagged value
  length : data.length = width value
  /-- Nothing shorter is read as the number. -/
  shortest : ∀ form rest, read? (form ++ rest) = some (value, rest) → data.length ≤ form.length
  readBack : ∀ rest, read? (data ++ rest) = some (value, rest)
  /-- Where the form of a number begins some data, no form of another number does. -/
  alone : ∀ other form, encode other = .ok form → ∀ rest rest',
    data ++ rest = form ++ rest' → other = value ∧ form = data ∧ rest' = rest

theorem legible_tagged (h : value.toNat ≤ bound) : Legible value (Compressed.tagged value) where
  written := encode_eq_tagged h
  tagged := rfl
  length := length_tagged value
  shortest form rest hread := by
    obtain ⟨taken, htaken, hwidth⟩ := exists_form_of_read? hread
    rw [List.append_cancel_right htaken, length_tagged]
    exact hwidth
  readBack := read?_encode (encode_eq_tagged h)
  alone other form hform rest rest' hdata := by
    have hread := read?_encode (encode_eq_tagged h) rest
    rw [hdata, read?_encode hform] at hread
    obtain ⟨rfl, rfl⟩ := Prod.mk.inj (Option.some.inj hread)
    exact ⟨rfl, List.append_cancel_right hdata.symm, rfl⟩

end Compressed

namespace Signature

open PortableImage.Compressed (Legible legible_tagged)

variable {value index : UInt32} {token : PortableToken}

section Numbers

theorem writeNumber_of_le (h : value.toNat ≤ Compressed.bound) (sheet : Sheet) :
    writeNumber value sheet =
      (.ok (), { sheet with data := sheet.data ++ Compressed.tagged value }) := by
  rw [writeNumber, Compressed.encode_eq_tagged h]
  rfl

theorem writeNumber_of_lt (h : Compressed.bound < value.toNat) (sheet : Sheet) :
    writeNumber value sheet = (.error (.malformed (.tooLarge value)), sheet) := by
  rw [writeNumber, Compressed.encode_eq_error_iff.mpr ⟨h, rfl⟩]
  rfl

/-- The sheet after numbers were written one after another; each may have failed. -/
def writeNumbers (values : List UInt32) (sheet : Sheet) : Sheet :=
  values.foldl (fun sheet value => (writeNumber value sheet).2) sheet

/-- The numbers that have a written form. -/
def writable (values : List UInt32) : List UInt32 :=
  values.filter fun value => value.toNat ≤ Compressed.bound

theorem writeNumbers_eq (values : List UInt32) (sheet : Sheet) :
    writeNumbers values sheet =
      { sheet with data := sheet.data ++ (writable values).flatMap Compressed.tagged } := by
  induction values generalizing sheet with
  | nil =>
    rw [writable, List.filter_nil, List.flatMap_nil, List.append_nil]
    rfl
  | cons value values ih =>
    rw [writeNumbers, List.foldl_cons, ← writeNumbers, writable, ih]
    by_cases h : value.toNat ≤ Compressed.bound
    · rw [writeNumber_of_le h, List.filter_cons_of_pos (by simpa using h), List.flatMap_cons,
        List.append_assoc]
      rfl
    · rw [writeNumber_of_lt (Nat.lt_of_not_le h), List.filter_cons_of_neg (by simpa using h)]
      rfl

theorem readMany?_flatMap_tagged {values : List UInt32}
    (h : ∀ value ∈ values, value.toNat ≤ Compressed.bound) (rest : Bytes) :
    readMany? Compressed.read? values.length (values.flatMap Compressed.tagged ++ rest) =
      some (values, rest) := by
  induction values with
  | nil => rfl
  | cons value values ih =>
    obtain ⟨hvalue, hvalues⟩ := List.forall_mem_cons.mp h
    rw [List.flatMap_cons, List.append_assoc, List.length_cons, readMany?,
      (legible_tagged hvalue).readBack]
    simp only [Option.bind_eq_bind, Option.bind_some, ih hvalues]
    rfl

end Numbers

section Indices

theorem index_le_of_typeIndex (hrow : token.row.toNat < 0x1000000)
    (h : typeIndex token = .ok index) : index.toNat ≤ Compressed.bound := by
  unfold typeIndex at h
  unfold Compressed.bound
  split at h <;> cases h <;> simp <;> omega

theorem index_le_of_methodIndex (hrow : token.row.toNat < 0x1000000)
    (h : methodIndex token = .ok index) : index.toNat ≤ Compressed.bound := by
  unfold methodIndex at h
  unfold Compressed.bound
  split at h <;> cases h <;> simp <;> omega

end Indices

/-- A number that is not too large extends the sheet by its written form, and any other leaves it as
it was.  Numbers written one after another are read back in order, up to what follows them, and a
token with a row of three bytes gives no index that is too large. -/
theorem legible_writeNumber :
    (∀ (value : UInt32) (sheet : Sheet), value.toNat ≤ Compressed.bound →
      ∃ data, Legible value data ∧
        writeNumber value sheet = (.ok (), { sheet with data := sheet.data ++ data })) ∧
    (∀ (value : UInt32) (sheet : Sheet), Compressed.bound < value.toNat →
      writeNumber value sheet = (.error (.malformed (.tooLarge value)), sheet)) ∧
    (∀ (values : List UInt32) (sheet : Sheet), ∃ data,
      writeNumbers values sheet = { sheet with data := sheet.data ++ data } ∧
        ∀ rest, readMany? Compressed.read? (writable values).length (data ++ rest) =
          some (writable values, rest)) ∧
    ∀ (token : PortableToken) (index : UInt32), token.row.toNat < 0x1000000 →
      typeIndex token = .ok index ∨ methodIndex token = .ok index →
        index.toNat ≤ Compressed.bound := by
  refine ⟨?within, ?beyond, ?sequence, ?index⟩
  case within =>
    exact fun value sheet h => ⟨_, legible_tagged h, writeNumber_of_le h sheet⟩
  case beyond => exact fun value sheet h => writeNumber_of_lt h sheet
  case sequence =>
    intro values sheet
    refine ⟨_, writeNumbers_eq values sheet, readMany?_flatMap_tagged fun value hvalue => ?_⟩
    exact of_decide_eq_true (List.mem_filter.mp hvalue).2
  case index =>
    rintro token index hrow (h | h)
    · exact index_le_of_typeIndex hrow h
    · exact index_le_of_methodIndex hrow h

def startedSheet : Sheet := { ledger := {}, data := [0xBF] }

/-- The largest number of two bytes, the least that is too large, and the largest index. -/
theorem legible_writeNumber_edges :
    (∃ data, Legible 0x3FFF data ∧ data.length = 2 ∧
      writeNumber 0x3FFF startedSheet = (.ok (), { startedSheet with data := [0xBF] ++ data })) ∧
    writeNumber 0x20000000 startedSheet =
      (.error (.malformed (.tooLarge 0x20000000)), startedSheet) ∧
    typeIndex ⟨⟨0⟩, .typeSpec, 0xFFFFFF⟩ = .ok 0x3FFFFFE ∧
    (0x3FFFFFE : UInt32).toNat ≤ Compressed.bound := by
  obtain ⟨hwithin, hbeyond, _, hindex⟩ := legible_writeNumber
  obtain ⟨data, hlegible, hwritten⟩ := hwithin 0x3FFF startedSheet (by decide)
  have hlast : typeIndex ⟨⟨0⟩, .typeSpec, 0xFFFFFF⟩ = .ok 0x3FFFFFE := rfl
  exact ⟨⟨data, hlegible, hlegible.length, hwritten⟩, hbeyond _ _ (by decide), hlast,
    hindex _ _ (by decide) (.inl hlast)⟩

end Signature

end PortableImage
