import PortableImage.Bytes
import PortableImage.Fault
/-!
# Compressed integers

A number below 2 ^ 29 is written in one, two or four bytes, the most significant byte first.  The
high bits of the first byte say how many bytes there are: none set for one byte, the first for two,
the first two for four.  `read?_encode` says that a written form is read back from the front of any
data it opens, `encode_eq_error_iff` which numbers have none.
-/

namespace PortableImage.Compressed

/-- The largest number with a written form. -/
def bound : Nat := 0x1FFFFFFF

/-- The shortest written form of a number. -/
def encode (value : UInt32) : Except Fault Bytes :=
  let n := value.toNat
  if n ≤ 0x7F then
    .ok [UInt8.ofNat n]
  else if n ≤ 0x3FFF then
    .ok [UInt8.ofNat (0x80 + n / 0x100), UInt8.ofNat n]
  else if n ≤ bound then
    .ok [UInt8.ofNat (0xC0 + n / 0x1000000), UInt8.ofNat (n / 0x10000), UInt8.ofNat (n / 0x100),
      UInt8.ofNat n]
  else
    .error (.malformed (.tooLarge value))

/-- The number at the front of the data, with the data behind it. -/
def read? : Bytes → Option (UInt32 × Bytes)
  | [] => none
  | first :: rest =>
    if first.toNat < 0x80 then
      some (UInt32.ofNat first.toNat, rest)
    else if first.toNat < 0xC0 then
      match rest with
      | second :: rest =>
        some (UInt32.ofNat ((first.toNat - 0x80) * 0x100 + second.toNat), rest)
      | [] => none
    else if first.toNat < 0xE0 then
      match rest with
      | second :: third :: fourth :: rest =>
        some (UInt32.ofNat ((first.toNat - 0xC0) * 0x1000000 + second.toNat * 0x10000 +
          third.toNat * 0x100 + fourth.toNat), rest)
      | _ => none
    else none

theorem read?_encode {value : UInt32} {data : Bytes} (h : encode value = .ok data)
    (rest : Bytes) : read? (data ++ rest) = some (value, rest) := by
  have hbytes (n : Nat) : (UInt8.ofNat n).toNat = n % 0x100 := UInt8.toNat_ofNat'
  unfold encode bound at h
  dsimp only at h
  split at h
  · obtain rfl := Except.ok.inj h
    have hone : value.toNat % 0x100 < 0x80 := by omega
    simp only [List.cons_append, List.nil_append, read?, hbytes, hone, if_true, Option.some.injEq,
      Prod.mk.injEq, and_true]
    apply UInt32.toNat_inj.mp
    simp only [UInt32.toNat_ofNat']
    omega
  split at h
  · obtain rfl := Except.ok.inj h
    have hone : ¬(0x80 + value.toNat / 0x100) % 0x100 < 0x80 := by omega
    have htwo : (0x80 + value.toNat / 0x100) % 0x100 < 0xC0 := by omega
    simp only [List.cons_append, List.nil_append, read?, hbytes, hone, htwo, if_true, if_false,
      Option.some.injEq, Prod.mk.injEq, and_true]
    apply UInt32.toNat_inj.mp
    simp only [UInt32.toNat_ofNat']
    omega
  split at h
  · obtain rfl := Except.ok.inj h
    have hone : ¬(0xC0 + value.toNat / 0x1000000) % 0x100 < 0x80 := by omega
    have htwo : ¬(0xC0 + value.toNat / 0x1000000) % 0x100 < 0xC0 := by omega
    have hfour : (0xC0 + value.toNat / 0x1000000) % 0x100 < 0xE0 := by omega
    simp only [List.cons_append, List.nil_append, read?, hbytes, hone, htwo, hfour, if_true,
      if_false, Option.some.injEq, Prod.mk.injEq, and_true]
    apply UInt32.toNat_inj.mp
    simp only [UInt32.toNat_ofNat']
    omega
  · cases h

theorem encode_eq_error_iff {value : UInt32} {fault : Fault} :
    encode value = .error fault ↔
      bound < value.toNat ∧ fault = .malformed (.tooLarge value) := by
  unfold encode bound
  dsimp only
  split
  · simp; omega
  split
  · simp; omega
  split
  · simp; omega
  · rename_i h
    simp only [Except.error.injEq]
    constructor
    · intro hfault
      exact ⟨by omega, hfault.symm⟩
    · intro hfault
      exact hfault.2.symm

end PortableImage.Compressed
