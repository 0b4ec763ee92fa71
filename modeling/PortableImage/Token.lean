import PortableImage.Hex
/-!
# Metadata tokens

A module numbers its own definitions and references by tokens.  The high byte of a token is the
number of a table, the other three bytes are a row of that table.  Numbers that name no known
table are kept as they are; `Token.table?` tells them apart.
-/

namespace PortableImage

/-- The tables of a module that matter to an image. -/
inductive Table
  | typeRef
  | typeDef
  | field
  | methodDef
  | memberRef
  | standAloneSig
  | typeSpec
  | methodSpec
  deriving DecidableEq

namespace Table

def number : Table → Nat
  | typeRef => 0x01
  | typeDef => 0x02
  | field => 0x04
  | methodDef => 0x06
  | memberRef => 0x0A
  | standAloneSig => 0x11
  | typeSpec => 0x1B
  | methodSpec => 0x2B

def all : List Table :=
  [typeRef, typeDef, field, methodDef, memberRef, standAloneSig, typeSpec, methodSpec]

def ofNumber? (n : Nat) : Option Table := all.find? fun table => table.number = n

/-- Whether every row of the table stands for something another module defines. -/
def isReference : Table → Bool
  | typeRef | memberRef => true
  | _ => false

def name : Table → String
  | typeRef => "TypeRef"
  | typeDef => "TypeDef"
  | field => "Field"
  | methodDef => "MethodDef"
  | memberRef => "MemberRef"
  | standAloneSig => "StandAloneSig"
  | typeSpec => "TypeSpec"
  | methodSpec => "MethodSpec"

@[simp] theorem ofNumber?_number (table : Table) : ofNumber? table.number = some table := by
  cases table <;> rfl

theorem number_injective {a b : Table} (h : a.number = b.number) : a = b := by
  have hb := ofNumber?_number b
  rw [← h, ofNumber?_number] at hb
  exact Option.some.inj hb

theorem number_lt (table : Table) : table.number < 256 := by
  cases table <;> decide

end Table

/-- A word that names a row of a table of some module. -/
structure Token where
  value : UInt32
  deriving DecidableEq

namespace Token

/-- The token of a row of a table; only the low three bytes of the row are kept. -/
def ofParts (table : Table) (row : UInt32) : Token :=
  ⟨UInt32.ofNat (table.number * 0x1000000 + row.toNat % 0x1000000)⟩

def tableNumber (token : Token) : Nat := token.value.toNat / 0x1000000

/-- The table of the token, if its number is known. -/
def table? (token : Token) : Option Table := Table.ofNumber? token.tableNumber

def row (token : Token) : UInt32 := UInt32.ofNat (token.value.toNat % 0x1000000)

/-- Whether the token is the number zero, which names nothing. -/
def isNull (token : Token) : Bool := token.value == 0

def render (token : Token) : String := "0x" ++ Hex.lower 8 token.value.toNat

instance : ToString Token := ⟨render⟩

/-- The long form of a token, with its table and row spelled out. -/
def detail (token : Token) : String :=
  "Token(" ++ token.render ++ ", table: 0x" ++ Hex.lower 2 token.tableNumber ++ ", row: " ++
    toString token.row.toNat ++ ")"

theorem row_toNat (token : Token) : token.row.toNat = token.value.toNat % 0x1000000 := by
  have h := token.value.toNat_lt
  simp only [row, UInt32.toNat_ofNat']
  omega

theorem row_lt (token : Token) : token.row.toNat < 0x1000000 := by
  rw [row_toNat]
  omega

theorem tableNumber_ofParts (table : Table) (row : UInt32) :
    (ofParts table row).tableNumber = table.number := by
  have h := table.number_lt
  simp only [tableNumber, ofParts, UInt32.toNat_ofNat']
  omega

@[simp] theorem table?_ofParts (table : Table) (row : UInt32) :
    (ofParts table row).table? = some table := by
  rw [table?, tableNumber_ofParts, Table.ofNumber?_number]

/-- Table and row determine a token. -/
theorem ext_of_parts {a b : Token} (htable : a.tableNumber = b.tableNumber)
    (hrow : a.row = b.row) : a = b := by
  have hrow' : a.row.toNat = b.row.toNat := congrArg UInt32.toNat hrow
  rw [row_toNat, row_toNat] at hrow'
  simp only [tableNumber] at htable
  obtain ⟨a⟩ := a
  obtain ⟨b⟩ := b
  have : a = b := UInt32.toNat_inj.mp (by simp only at *; omega)
  rw [this]

end Token

end PortableImage
