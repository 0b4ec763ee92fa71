import PortableImage.Artifact.Relocation
import PortableImage.Dispatch
import PortableImage.Options
/-!
# Backends

A backend turns the body of a method into code.  It knows nothing of the image: whatever it wants to
refer to, it asks for.  Compiling a method is therefore a dialogue, a tree of questions that
branches on the replies and ends with code or a fault.
-/

namespace PortableImage

/-- How a method is called. -/
inductive CallMode
  | direct
  | dispatched
  deriving DecidableEq

/-- What a backend may ask.  Tokens are those of the module of the method under compilation. -/
inductive Question
  /-- What names an entity at load time? -/
  | portable (token : Token)
  /-- What does a call go to? -/
  | call (token : Token) (mode : CallMode)
  /-- What describes a type? -/
  | describe (token : Token)
  /-- What describes the type of a new object that a constructor sets up? -/
  | allocate (constructor : Token)
  /-- What locates a field? -/
  | locate (token : Token)
  /-- Where is a routine of the runtime? -/
  | helper (helper : RuntimeHelper)
  /-- Which method does a virtual call reach? -/
  | ruling (token : Token)
  /-- Stop the session, please. -/
  | cancel
  deriving DecidableEq

namespace Question

/-- What the reply to a question looks like. -/
abbrev Reply : Question → Type
  | portable _ | call _ _ | describe _ | allocate _ | locate _ => Except Fault Relocation.Target
  | helper _ => Relocation.Target
  | ruling _ => Except Fault Ruling
  | cancel => Unit

end Question

/-- Questions, each followed by what comes after its reply, and a result in the end. -/
inductive Dialogue (α : Type) : Type
  | result (value : α)
  | ask (question : Question) (next : question.Reply → Dialogue α)

namespace Dialogue

variable {α β σ : Type}

def bind : Dialogue α → (α → Dialogue β) → Dialogue β
  | result value, next => next value
  | ask question continued, next => ask question fun reply => (continued reply).bind next

instance : Monad Dialogue where
  pure := result
  bind := bind

def put (question : Question) : Dialogue question.Reply := ask question result

/-- Holds a dialogue with someone who answers questions and remembers what was asked. -/
def hold (reply : (question : Question) → StateM σ question.Reply) : Dialogue α → StateM σ α
  | result value => pure value
  | ask question next => do
    let answer ← reply question
    hold reply (next answer)

@[simp] theorem hold_result (reply : (question : Question) → StateM σ question.Reply)
    (value : α) : hold reply (result value) = pure value := rfl

theorem hold_bind (reply : (question : Question) → StateM σ question.Reply)
    (first : Dialogue α) (next : α → Dialogue β) :
    hold reply (first.bind next) = (do hold reply (next (← hold reply first))) := by
  induction first with
  | result value => rfl
  | ask question continued ih =>
    funext state
    simp only [bind, hold]
    exact congrFun (ih _) _

end Dialogue

structure Request where
  method : Entity
  module : ModuleIndex
  body : MethodBody
  settings : BackendSettings

structure Backend where
  name : String
  compile : Request → Dialogue (Except Fault Layout)

end PortableImage
