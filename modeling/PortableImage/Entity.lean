import PortableImage.Ranked
import PortableImage.Token
/-!
# Entities

An entity is a definition of some module: a type, a method, a field or a stand-alone signature.
It is named by the module and the module's own token for it, and ordered by these two.
-/

namespace PortableImage

/-- The position of a module in the order of registration. -/
structure ModuleIndex where
  value : UInt32
  deriving DecidableEq

namespace ModuleIndex

def render (module : ModuleIndex) : String := "m" ++ toString module.value.toNat

instance : ToString ModuleIndex := ⟨render⟩

instance : Ranked ModuleIndex where
  rank module := module.value.toNat
  rank_injective := by
    intro a b h
    cases a
    cases b
    simp only [UInt32.toNat_inj] at h
    rw [h]

end ModuleIndex

inductive DefinitionKind
  | type
  | method
  | field
  | signature
  deriving DecidableEq

namespace DefinitionKind

/-- The kind of the rows of a table.  A row of a reference table is no entity. -/
def ofTable? : Table → Option DefinitionKind
  | .typeDef | .typeSpec => some type
  | .methodDef | .methodSpec => some method
  | .field => some field
  | .standAloneSig => some signature
  | .typeRef | .memberRef => none

def name : DefinitionKind → String
  | type => "Type"
  | method => "Method"
  | field => "Field"
  | signature => "Signature"

end DefinitionKind

/-- A definition of a module. -/
structure Entity where
  module : ModuleIndex
  token : Token
  deriving DecidableEq

namespace Entity

/-- What the table of the token says the entity is. -/
def kind? (entity : Entity) : Option DefinitionKind :=
  entity.token.table?.bind DefinitionKind.ofTable?

/-- The module in brackets, then the token. -/
def render (entity : Entity) : String :=
  "[" ++ entity.module.render ++ "]" ++ entity.token.render

instance : ToString Entity := ⟨render⟩

/-- Entities are ordered by module, then by token. -/
instance : Ranked Entity where
  rank entity := entity.module.value.toNat * 0x100000000 + entity.token.value.toNat
  rank_injective := by
    rintro ⟨⟨m⟩, ⟨t⟩⟩ ⟨⟨m'⟩, ⟨t'⟩⟩ h
    have ht := t.toNat_lt
    have ht' := t'.toNat_lt
    have hm : m = m' := UInt32.toNat_inj.mp (by simp only at h; omega)
    have hv : t = t' := UInt32.toNat_inj.mp (by simp only at h; omega)
    rw [hm, hv]

theorem rank_lt (entity : Entity) : Ranked.rank entity < 0x10000000000000000 := by
  have hm := entity.module.value.toNat_lt
  have ht := entity.token.value.toNat_lt
  simp only [Ranked.rank]
  omega

end Entity

end PortableImage
