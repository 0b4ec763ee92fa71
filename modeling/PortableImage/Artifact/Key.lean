import PortableImage.Portable.Token
/-!
# Artifact keys

An image consists of artifacts: compiled methods, type layouts, tables of virtual methods, and the
cells by which code reaches what the loader provides.  An artifact is known by its key, and keys
are ordered by kind and then by what they are about.
-/

namespace PortableImage

/-- A routine of the runtime that compiled code may call. -/
inductive RuntimeHelper
  | newObject
  | newArray
  | box
  | unbox
  | throwException
  | delayLoadMethodCall
  | delayLoadVirtualCall
  | staticBase
  deriving DecidableEq

namespace RuntimeHelper

def number : RuntimeHelper → Nat
  | newObject => 0x60
  | newArray => 0x61
  | box => 0x58
  | unbox => 0x5A
  | throwException => 0x20
  | delayLoadMethodCall => 0x100
  | delayLoadVirtualCall => 0x101
  | staticBase => 0x102

def all : List RuntimeHelper :=
  [newObject, newArray, box, unbox, throwException, delayLoadMethodCall, delayLoadVirtualCall,
    staticBase]

def ofNumber? (n : Nat) : Option RuntimeHelper := all.find? fun helper => helper.number = n

def name : RuntimeHelper → String
  | newObject => "NewObject"
  | newArray => "NewArray"
  | box => "Box"
  | unbox => "Unbox"
  | throwException => "Throw"
  | delayLoadMethodCall => "DelayLoadMethodCall"
  | delayLoadVirtualCall => "DelayLoadVirtualCall"
  | staticBase => "StaticBase"

@[simp] theorem ofNumber?_number (helper : RuntimeHelper) :
    ofNumber? helper.number = some helper := by
  cases helper <;> rfl

theorem number_injective {a b : RuntimeHelper} (h : a.number = b.number) : a = b := by
  have hb := ofNumber?_number b
  rw [← h, ofNumber?_number] at hb
  exact Option.some.inj hb

theorem number_lt (helper : RuntimeHelper) : helper.number < 0x1000000000000000000 := by
  cases helper <;> decide

end RuntimeHelper

/-- What an artifact is and what it is about. -/
inductive ArtifactKey
  /-- The code of a method. -/
  | methodCode (method : Entity)
  | typeLayout (type : Entity)
  /-- The table of the virtual methods a type declares. -/
  | vtable (type : Entity)
  /-- The arguments of an instantiated type or method. -/
  | genericDictionary (entity : Entity)
  /-- The portable written form of an entity. -/
  | signature (entity : Entity)
  /-- The cell the loader fills with what a token names. -/
  | importCell (token : PortableToken)
  /-- The cell the loader fills with a helper. -/
  | helperCell (helper : RuntimeHelper)
  /-- The mark that some code calls through a virtual slot. -/
  | virtualMethodUse (slot : Entity)
  deriving DecidableEq

namespace ArtifactKey

def kindName : ArtifactKey → String
  | methodCode _ => "MethodCode"
  | typeLayout _ => "TypeLayout"
  | vtable _ => "VTable"
  | genericDictionary _ => "GenericDictionary"
  | signature _ => "Signature"
  | importCell _ => "ImportCell"
  | helperCell _ => "HelperCell"
  | virtualMethodUse _ => "VirtualMethodUse"

/-- The entity the artifact is about, unless it is a cell. -/
def entity? : ArtifactKey → Option Entity
  | methodCode entity | typeLayout entity | vtable entity | genericDictionary entity
  | signature entity | virtualMethodUse entity => some entity
  | importCell _ | helperCell _ => none

def subject : ArtifactKey → String
  | methodCode entity | typeLayout entity | vtable entity | genericDictionary entity
  | signature entity | virtualMethodUse entity => entity.render
  | importCell token => token.render
  | helperCell helper => helper.name

/-- The kind, with what the artifact is about in parentheses. -/
def render (key : ArtifactKey) : String := key.kindName ++ "(" ++ key.subject ++ ")"

instance : ToString ArtifactKey := ⟨render⟩

def kindNumber : ArtifactKey → Nat
  | methodCode _ => 0
  | typeLayout _ => 1
  | vtable _ => 2
  | genericDictionary _ => 3
  | signature _ => 4
  | importCell _ => 5
  | helperCell _ => 6
  | virtualMethodUse _ => 7

/-- The rank, among artifacts of one kind, of what the artifact is about. -/
def subjectRank : ArtifactKey → Nat
  | methodCode entity | typeLayout entity | vtable entity | genericDictionary entity
  | signature entity | virtualMethodUse entity => Ranked.rank entity
  | importCell token => Ranked.rank token
  | helperCell helper => helper.number

theorem subjectRank_lt (key : ArtifactKey) : key.subjectRank < 0x1000000000000000000 := by
  cases key with
  | importCell token => exact token.rank_lt
  | helperCell helper => exact helper.number_lt
  | methodCode entity | typeLayout entity | vtable entity | genericDictionary entity
  | signature entity | virtualMethodUse entity =>
    have h := entity.rank_lt
    simp only [subjectRank]
    omega

theorem eq_of_kind_of_subject {a b : ArtifactKey} (hkind : a.kindNumber = b.kindNumber)
    (hsubject : a.subjectRank = b.subjectRank) : a = b := by
  cases a <;> cases b <;> simp only [kindNumber, Nat.reduceEqDiff] at hkind <;>
    simp only [subjectRank] at hsubject
  case helperCell.helperCell => exact congrArg _ (RuntimeHelper.number_injective hsubject)
  all_goals exact congrArg _ (Ranked.rank_injective hsubject)

instance : Ranked ArtifactKey where
  rank key := key.kindNumber * 0x1000000000000000000 + key.subjectRank
  rank_injective := by
    intro a b h
    have ha := a.subjectRank_lt
    have hb := b.subjectRank_lt
    exact eq_of_kind_of_subject (by omega) (by omega)

end ArtifactKey

end PortableImage
