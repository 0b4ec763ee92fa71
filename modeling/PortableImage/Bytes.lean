/-!
# Little-endian words

Every number an image stores is a 32-bit word with its least significant byte first.  Data is a
list of bytes, so that what a function appends is visible as a list append.  `readWord?_ofWord`
says that a written word is read back from the front of any data it opens.
-/

namespace PortableImage

/-- The data of an artifact, of a signature or of a method body. -/
abbrev Bytes := List UInt8

namespace Bytes

/-- The four bytes of a word, least significant first. -/
def ofWord (word : UInt32) : Bytes :=
  [UInt8.ofNat word.toNat, UInt8.ofNat (word.toNat / 0x100),
    UInt8.ofNat (word.toNat / 0x10000), UInt8.ofNat (word.toNat / 0x1000000)]

/-- The word whose bytes are given, least significant first. -/
def toWord (b₀ b₁ b₂ b₃ : UInt8) : UInt32 :=
  UInt32.ofNat (b₀.toNat + 0x100 * b₁.toNat + 0x10000 * b₂.toNat + 0x1000000 * b₃.toNat)

/-- The word at the front of the data, with the data behind it. -/
def readWord? : Bytes → Option (UInt32 × Bytes)
  | b₀ :: b₁ :: b₂ :: b₃ :: rest => some (toWord b₀ b₁ b₂ b₃, rest)
  | _ => none

/-- A number of zero bytes, to be filled in by a relocation. -/
def zeros (count : Nat) : Bytes := List.replicate count 0

@[simp] theorem length_ofWord (word : UInt32) : (ofWord word).length = 4 := rfl

theorem toWord_ofWord (word : UInt32) :
    toWord (UInt8.ofNat word.toNat) (UInt8.ofNat (word.toNat / 0x100))
      (UInt8.ofNat (word.toNat / 0x10000)) (UInt8.ofNat (word.toNat / 0x1000000)) = word := by
  have hlt : word.toNat < 4294967296 := word.toNat_lt
  apply UInt32.toNat_inj.mp
  simp only [toWord, UInt32.toNat_ofNat', UInt8.toNat_ofNat']
  omega

@[simp] theorem readWord?_ofWord (word : UInt32) (rest : Bytes) :
    readWord? (ofWord word ++ rest) = some (word, rest) := by
  simp only [ofWord, List.cons_append, List.nil_append, readWord?, toWord_ofWord]

/-- The word at the front takes four bytes away. -/
theorem length_of_readWord? {data rest : Bytes} {word : UInt32}
    (h : readWord? data = some (word, rest)) : rest.length + 4 = data.length := by
  match data, h with
  | _ :: _ :: _ :: _ :: _, h =>
    simp only [readWord?, Option.some.injEq, Prod.mk.injEq] at h
    simp [← h.2]

end Bytes

end PortableImage
