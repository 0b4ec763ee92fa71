import PortableImage.Fault
import PortableImage.Portable.Token
/-!
# Token tables

An image carries the table of its portable tokens with the entities they stand for.  The written
form is the number of entries, then seventeen bytes for each: the portable token, and the module and
token of the entity.  `readEntries?_flatMap` says that written entries are read back in order from
the front of any data they open.
-/

namespace PortableImage

/-- One line of a token table. -/
structure TableEntry where
  token : PortableToken
  entity : Entity
  deriving DecidableEq

namespace TableEntry

/-- The portable token, then the module and the token of the entity. -/
def toBytes (entry : TableEntry) : Bytes :=
  entry.token.toBytes ++ Bytes.ofWord entry.entity.module.value ++
    Bytes.ofWord entry.entity.token.value

/-- The entry at the front of the data, with the data behind it. -/
def read? (data : Bytes) : Option (TableEntry × Bytes) := do
  let (token, data) ← PortableToken.read? data
  let (module, data) ← Bytes.readWord? data
  let (row, data) ← Bytes.readWord? data
  return (⟨token, ⟨⟨module⟩, ⟨row⟩⟩⟩, data)

@[simp] theorem length_toBytes (entry : TableEntry) : entry.toBytes.length = 17 := rfl

@[simp] theorem read?_toBytes (entry : TableEntry) (rest : Bytes) :
    read? (entry.toBytes ++ rest) = some (entry, rest) := by
  simp [toBytes, read?, List.append_assoc]

end TableEntry

/-- The portable tokens of an image, in ascending order. -/
structure TokenTable where
  entries : List TableEntry
  deriving DecidableEq

namespace TokenTable

def size (table : TokenTable) : Nat := table.entries.length

/-- The number of entries, then the entries. -/
def encode (table : TokenTable) : Bytes :=
  Bytes.ofWord (UInt32.ofNat table.size) ++ table.entries.flatMap TableEntry.toBytes

/-- The written form of a table.  Its entries have to be counted by a word. -/
def write (table : TokenTable) : Except Fault Bytes :=
  if table.size < 0x100000000 then .ok table.encode
  else .error (.malformed (.tableTooLarge table.size))

/-- A number of entries at the front of the data, with the data behind them. -/
def readEntries? : Nat → Bytes → Option (List TableEntry × Bytes)
  | 0, data => some ([], data)
  | count + 1, data => do
    let (entry, data) ← TableEntry.read? data
    let (entries, data) ← readEntries? count data
    return (entry :: entries, data)

/-- The table at the front of the data, with the data behind it. -/
def read? (data : Bytes) : Option (TokenTable × Bytes) := do
  let (count, data) ← Bytes.readWord? data
  let (entries, data) ← readEntries? count.toNat data
  return (⟨entries⟩, data)

theorem readEntries?_flatMap (entries : List TableEntry) (rest : Bytes) :
    readEntries? entries.length (entries.flatMap TableEntry.toBytes ++ rest) =
      some (entries, rest) := by
  induction entries with
  | nil => rfl
  | cons entry entries ih => simp [readEntries?, ih]

end TokenTable

end PortableImage
