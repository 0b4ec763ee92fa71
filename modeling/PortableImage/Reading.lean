import PortableImage.Artifact.Key
import PortableImage.Graph.Progress
/-!
# Reading written forms

The forms in which tokens, entities, portable tokens and artifact keys are shown, read back.
-/

namespace PortableImage

/-- The number a string of decimal digits stands for. -/
def decimal? (text : List Char) : Option Nat :=
  if text.isEmpty then none
  else text.foldlM (fun n c => if c.isDigit then some (10 * n + (c.toNat - '0'.toNat)) else none) 0

/-- The text before and behind the first occurrence of a character. -/
def splitAtChar? (mark : Char) (text : List Char) : Option (List Char × List Char) :=
  match text.dropWhile (· ≠ mark) with
  | [] => none
  | _ :: rest => some (text.takeWhile (· ≠ mark), rest)

/-- Reads `0x` and digits. -/
def Token.read? : List Char → Option Token
  | '0' :: 'x' :: digits => (Hex.number? digits).map fun n => ⟨UInt32.ofNat n⟩
  | _ => none

/-- Reads `m` and a number. -/
def ModuleIndex.read? : List Char → Option ModuleIndex
  | 'm' :: digits => (decimal? digits).map fun n => ⟨UInt32.ofNat n⟩
  | _ => none

/-- Reads a module in brackets and a token. -/
def Entity.read? : List Char → Option Entity
  | '[' :: text => do
    let (module, token) ← splitAtChar? ']' text
    return ⟨← ModuleIndex.read? module, ← Token.read? token⟩
  | _ => none

/-- Reads a module, a kind and a row. -/
def PortableToken.ofText? (text : List Char) : Option PortableToken := do
  let (module, text) ← splitAtChar? ':' text
  let (kind, row) ← splitAtChar? '#' text
  let kind ← PortableKind.all.find? fun known => known.name = String.ofList kind
  return ⟨← ModuleIndex.read? module, kind, UInt32.ofNat (← decimal? row)⟩

/-- Reads a kind of artifact and, in parentheses, what the artifact is about. -/
def ArtifactKey.read? (text : List Char) : Option ArtifactKey := do
  let (kind, text) ← splitAtChar? '(' text
  let subject := text.dropLast
  match String.ofList kind with
  | "MethodCode" => (Entity.read? subject).map methodCode
  | "TypeLayout" => (Entity.read? subject).map typeLayout
  | "VTable" => (Entity.read? subject).map vtable
  | "GenericDictionary" => (Entity.read? subject).map genericDictionary
  | "Signature" => (Entity.read? subject).map signature
  | "VirtualMethodUse" => (Entity.read? subject).map virtualMethodUse
  | "ImportCell" => (PortableToken.ofText? subject).map importCell
  | "HelperCell" =>
    (RuntimeHelper.all.find? fun helper => helper.name = String.ofList subject).map helperCell
  | _ => none

/-- The stage of the work with a name. -/
def Graph.Progress.ofName? (name : String) : Option Graph.Progress :=
  all.find? fun progress => progress.name = name

end PortableImage
