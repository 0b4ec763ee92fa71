import PortableImage.Backend.Replies
/-!
# Compiling a method

The node of a method is compiled by holding the backend's dialogue over the body of the method.  The
code is refused if a relocation does not lie inside it.
-/

namespace PortableImage

open PortableImage.Graph (Handle)

structure Compiler where
  backend : Backend
  settings : BackendSettings

namespace Compiler

/-- A failure of the backend is a failure to compile the method. -/
def blame (method : Entity) : Fault → Fault
  | .backendFailure text => .codegen method (.reported text)
  | fault => fault

/-- The first relocation that does not lie inside the data. -/
def misplaced? (layout : Layout) : Option Relocation :=
  layout.relocations.find? fun relocation => layout.data.length < relocation.stop

/-- Holds the backend's dialogue over the body of a method; the answer has what was noted. -/
def converse (compiler : Compiler) (setting : Setting) (method : Entity) (body : MethodBody) :
    Working CompiledMethod :=
  fun workspace =>
    let dialogue := compiler.backend.compile ⟨method, method.module, body, compiler.settings⟩
    let (answer, desk) := dialogue.hold (Answering.reply setting method) ⟨workspace, []⟩
    match answer with
    | .ok layout => (.ok { layout with dependencies := desk.noted }, desk.workspace)
    | .error fault => (.error (blame method fault), desk.workspace)

def compile (compiler : Compiler) (setting : Setting) (node : Handle) :
    Working CompiledMethod := do
  match ← Workspace.plan (Drafting.keyOf node) with
  | .methodCode method =>
    match setting.body? method with
    | none => throw (.codegen method .noBody)
    | some body =>
      let compiled ← compiler.converse setting method body
      match misplaced? compiled.toLayout with
      | none => return compiled
      | some relocation =>
        throw (.codegen method (.relocationOutside relocation.offset compiled.data.length))
  | _ => throw (.graph (.notMethodCode node))

end Compiler

end PortableImage
