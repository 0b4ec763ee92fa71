import PortableImage.Bytes
import PortableImage.Entity
/-!
# Portable tokens

A portable token names an entity by a row of a module of the bubble, so that it stays valid when
modules outside the bubble change.  Its written form is nine bytes: the module, the kind, the row.
-/

namespace PortableImage

/-- What the row of a portable token stands for. -/
inductive PortableKind
  | typeLayout
  | typeSpec
  | method
  | methodSpec
  | field
  | signature
  | typeImport
  | memberImport
  deriving DecidableEq

namespace PortableKind

def number : PortableKind → Nat
  | typeLayout => 0
  | typeSpec => 1
  | method => 2
  | methodSpec => 3
  | field => 4
  | signature => 5
  | typeImport => 6
  | memberImport => 7

def all : List PortableKind :=
  [typeLayout, typeSpec, method, methodSpec, field, signature, typeImport, memberImport]

def ofNumber? (n : Nat) : Option PortableKind := all.find? fun kind => kind.number = n

def ofTable : Table → PortableKind
  | .typeDef => typeLayout
  | .typeSpec => typeSpec
  | .methodDef => method
  | .methodSpec => methodSpec
  | .field => field
  | .standAloneSig => signature
  | .typeRef => typeImport
  | .memberRef => memberImport

def name : PortableKind → String
  | typeLayout => "TypeLayout"
  | typeSpec => "TypeSpec"
  | method => "Method"
  | methodSpec => "MethodSpec"
  | field => "Field"
  | signature => "Signature"
  | typeImport => "TypeImport"
  | memberImport => "MemberImport"

/-- Whether rows of this kind stand for something another module defines. -/
def isImport : PortableKind → Bool
  | typeImport | memberImport => true
  | _ => false

@[simp] theorem ofNumber?_number (kind : PortableKind) : ofNumber? kind.number = some kind := by
  cases kind <;> rfl

theorem number_injective {a b : PortableKind} (h : a.number = b.number) : a = b := by
  have hb := ofNumber?_number b
  rw [← h, ofNumber?_number] at hb
  exact Option.some.inj hb

theorem number_lt (kind : PortableKind) : kind.number < 8 := by
  cases kind <;> decide

theorem ofTable_injective {a b : Table} (h : ofTable a = ofTable b) : a = b := by
  cases a <;> cases b <;> first | rfl | cases h

end PortableKind

/-- A row of a module of the bubble. -/
structure PortableToken where
  module : ModuleIndex
  kind : PortableKind
  row : UInt32
  deriving DecidableEq

namespace PortableToken

/-- The portable form of a token of a module; there is none where the table is unknown. -/
def ofToken? (module : ModuleIndex) (token : Token) : Option PortableToken :=
  token.table?.map fun table => ⟨module, .ofTable table, token.row⟩

/-- Module, kind byte and row. -/
def toBytes (token : PortableToken) : Bytes :=
  Bytes.ofWord token.module.value ++ UInt8.ofNat token.kind.number :: Bytes.ofWord token.row

/-- The portable token at the front of the data, with the data behind it. -/
def read? (data : Bytes) : Option (PortableToken × Bytes) := do
  let (module, data) ← Bytes.readWord? data
  match data with
  | [] => none
  | byte :: data =>
    let kind ← PortableKind.ofNumber? byte.toNat
    let (row, data) ← Bytes.readWord? data
    return (⟨⟨module⟩, kind, row⟩, data)

/-- Module, kind and row as a reader sees them. -/
def render (token : PortableToken) : String :=
  token.module.render ++ ":" ++ token.kind.name ++ "#" ++ toString token.row.toNat

instance : ToString PortableToken := ⟨render⟩

/-- Portable tokens are ordered by module, then by kind, then by row. -/
instance : Ranked PortableToken where
  rank token :=
    token.module.value.toNat * 0x10000000000 + token.kind.number * 0x100000000 + token.row.toNat
  rank_injective := by
    rintro ⟨⟨m⟩, k, r⟩ ⟨⟨m'⟩, k', r'⟩ h
    have hr := r.toNat_lt
    have hr' := r'.toNat_lt
    have hk := k.number_lt
    have hk' := k'.number_lt
    simp only at h
    have hm : m = m' := UInt32.toNat_inj.mp (by omega)
    have hkind : k = k' := PortableKind.number_injective (by omega)
    have hrow : r = r' := UInt32.toNat_inj.mp (by omega)
    rw [hm, hkind, hrow]

theorem rank_lt (token : PortableToken) : Ranked.rank token < 0x1000000000000000000 := by
  have hm := token.module.value.toNat_lt
  have hr := token.row.toNat_lt
  have hk := token.kind.number_lt
  simp only [Ranked.rank]
  omega

@[simp] theorem length_toBytes (token : PortableToken) : token.toBytes.length = 9 := rfl

@[simp] theorem read?_toBytes (token : PortableToken) (rest : Bytes) :
    read? (token.toBytes ++ rest) = some (token, rest) := by
  have hk : (UInt8.ofNat token.kind.number).toNat = token.kind.number := by
    have := token.kind.number_lt
    simp only [UInt8.toNat_ofNat']
    omega
  simp [toBytes, read?, hk]

end PortableToken

end PortableImage
