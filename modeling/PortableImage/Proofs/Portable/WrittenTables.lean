import PortableImage.Portable.Table
/-!
# Written token tables

A table has a written form as long as a word can count its entries.  The form says everything about
the table: a reader finds the entries in order and stops where the table ends, whatever follows.  So
no other table is written as the same bytes, and none as a part of them.
-/

namespace PortableImage

theorem PortableToken.eq_of_toBytes {first second : PortableToken}
    (h : first.toBytes = second.toBytes) : first = second := by
  have hfirst := read?_toBytes first []
  rw [h, read?_toBytes] at hfirst
  exact (Prod.mk.inj (Option.some.inj hfirst)).1.symm

namespace TokenTable

variable {table : TokenTable} {data : Bytes}

theorem length_flatMap_toBytes (entries : List TableEntry) :
    (entries.flatMap TableEntry.toBytes).length = 17 * entries.length := by
  induction entries with
  | nil => rfl
  | cons entry entries ih =>
    rw [List.flatMap_cons, List.length_append, TableEntry.length_toBytes, ih, List.length_cons]
    omega

theorem length_encode (table : TokenTable) : table.encode.length = 4 + 17 * table.size := by
  rw [encode, List.length_append, Bytes.length_ofWord, length_flatMap_toBytes, size]

/-- The count is read back because it has not been cut down to a word. -/
theorem read?_encode (h : table.size < 0x100000000) (rest : Bytes) :
    read? (table.encode ++ rest) = some (table, rest) := by
  have hcount : (UInt32.ofNat table.size).toNat = table.entries.length := by
    rw [UInt32.toNat_ofNat', size]
    exact Nat.mod_eq_of_lt h
  rw [encode, List.append_assoc, read?, Bytes.readWord?_ofWord]
  simp only [Option.bind_eq_bind, Option.bind_some, hcount, readEntries?_flatMap]
  rfl

theorem write_eq_ok_iff : table.write = .ok data ↔ table.size < 0x100000000 ∧ data = table.encode := by
  unfold write
  by_cases hsize : table.size < 0x100000000
  · rw [if_pos hsize, Except.ok.injEq, eq_comm]
    exact (and_iff_right hsize).symm
  · rw [if_neg hsize]
    exact iff_of_false (fun h => by cases h) fun h => hsize h.1

/-- The bytes are the written form of the table, and of no other. -/
structure Legible (table : TokenTable) (data : Bytes) : Prop where
  written : table.write = .ok data
  length : data.length = 4 + 17 * table.size
  /-- A reader finds the entries in order, and leaves what follows them. -/
  readBack : ∀ rest, read? (data ++ rest) = some (table, rest)
  /-- Where the form of a table begins some data, no form of another table does. -/
  alone : ∀ other form, other.write = .ok form → ∀ rest rest',
    data ++ rest = form ++ rest' → other = table ∧ form = data ∧ rest' = rest

theorem legible_encode (h : table.size < 0x100000000) : table.Legible table.encode where
  written := write_eq_ok_iff.mpr ⟨h, rfl⟩
  length := length_encode table
  readBack := read?_encode h
  alone other form hform rest rest' hdata := by
    obtain ⟨hother, rfl⟩ := write_eq_ok_iff.mp hform
    have hread := read?_encode h rest
    rw [hdata, read?_encode hother] at hread
    obtain ⟨rfl, rfl⟩ := Prod.mk.inj (Option.some.inj hread)
    exact ⟨rfl, rfl, rfl⟩

/-- A table has a written form if and only if a word can count its entries, and the form determines
the table.  A token is determined by its nine bytes. -/
theorem exists_legible_iff (table : TokenTable) :
    ((∃ data, table.Legible data) ↔ table.size < 0x100000000) ∧
      ∀ first second : PortableToken, first.toBytes = second.toBytes → first = second := by
  refine ⟨⟨?_, fun h => ⟨table.encode, legible_encode h⟩⟩, fun _ _ => PortableToken.eq_of_toBytes⟩
  rintro ⟨data, hdata⟩
  exact (write_eq_ok_iff.mp hdata.written).1

/-- Two tokens of one row that differ in their kind, with numbers that need all four bytes. -/
def twoKinds : TokenTable where
  entries := [⟨⟨⟨0xFFFFFFFE⟩, .typeSpec, 0x01020304⟩, ⟨⟨0xFFFFFFFE⟩, ⟨0x1B020304⟩⟩⟩,
    ⟨⟨⟨0xFFFFFFFE⟩, .memberImport, 0x01020304⟩, ⟨⟨0⟩, ⟨0xFFFFFFFF⟩⟩⟩]

theorem exists_legible_twoKinds :
    ∃ data, twoKinds.Legible data ∧ data.length = 38 ∧
      PortableToken.read? (data.drop 4) ≠ PortableToken.read? (data.drop 21) := by
  have hsize : twoKinds.size < 0x100000000 := by decide
  obtain ⟨data, hdata⟩ := (exists_legible_iff twoKinds).1.mpr hsize
  refine ⟨data, hdata, hdata.length, ?_⟩
  obtain ⟨_, rfl⟩ := write_eq_ok_iff.mp hdata.written
  decide

end TokenTable

end PortableImage
