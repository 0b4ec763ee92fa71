import PortableImage.Backend.Bytecode
/-!
# Backends that pass on what they are told

Which references can be resolved is not for a backend to say.  It is told so in a reply, and then it
either gets over it or ends with what it was told.  Such a dialogue *forwards*: whatever can be said
of all faults it is answered with can be said of an unresolvable reference it ends with.
-/

namespace PortableImage

/-- The fault is not about a reference. -/
def Fault.Unrelated (fault : Fault) : Prop :=
  ∀ entity origin requester, fault ≠ .unresolvableReference entity origin requester

/-- An answer has failed in an admitted way, if at all. -/
def FailsOnly {α : Type} (admitted : Fault → Prop) (answer : Except Fault α) : Prop :=
  ∀ fault, answer = .error fault → admitted fault

section FailsOnly

variable {α β : Type} {admitted : Fault → Prop}

theorem failsOnly_ok (value : α) : FailsOnly admitted (.ok value) := fun _ h => by cases h

theorem failsOnly_error {fault : Fault} (h : admitted fault) :
    FailsOnly admitted (.error fault : Except Fault α) := by
  intro other hother
  rwa [← Except.error.inj hother]

theorem FailsOnly.map {answer : Except Fault α} (h : FailsOnly admitted answer) (f : α → β) :
    FailsOnly admitted (answer.map f) := by
  cases answer with
  | ok value => exact failsOnly_ok (f value)
  | error fault => exact failsOnly_error (h fault rfl)

end FailsOnly

/-- The reply has failed in an admitted way, if at all. -/
def Question.Admits (admitted : Fault → Prop) : (question : Question) → question.Reply → Prop
  | .portable _ | .call _ _ | .describe _ | .allocate _ | .locate _ | .ruling _ =>
    FailsOnly admitted
  | .helper _ | .cancel => fun _ => True

namespace Dialogue

variable {α β σ : Type} {admitted : Fault → Prop} {post : α → Prop} {last : β → Prop}

/-- As long as the replies fail in admitted ways at most, the dialogue ends as described. -/
def Ensures (admitted : Fault → Prop) (post : α → Prop) : Dialogue α → Prop
  | result value => post value
  | ask question next => ∀ answer, question.Admits admitted answer →
    (next answer).Ensures admitted post

/-- An unresolvable reference the dialogue ends with is one it was answered with. -/
def Forwards (dialogue : Dialogue (Except Fault α)) : Prop :=
  ∀ admitted, (∀ fault : Fault, fault.Unrelated → admitted fault) →
    dialogue.Ensures admitted (FailsOnly admitted)

theorem Ensures.hold {dialogue : Dialogue α} (h : dialogue.Ensures admitted post)
    {reply : (question : Question) → StateM σ question.Reply}
    (hreply : ∀ (question : Question) state, question.Admits admitted (reply question state).1)
    (state : σ) :
    post (dialogue.hold reply state).1 := by
  induction dialogue generalizing state with
  | result value => exact h
  | ask question next ih => exact ih _ (h _ (hreply question state)) _

theorem ensures_put (question : Question) :
    (put question).Ensures admitted (question.Admits admitted) := fun _ h => h

theorem Ensures.bind {dialogue : Dialogue α} {next : α → Dialogue β}
    (h : dialogue.Ensures admitted post)
    (hnext : ∀ value, post value → (next value).Ensures admitted last) :
    (dialogue.bind next).Ensures admitted last := by
  induction dialogue with
  | result value => exact hnext value h
  | ask question continued ih => exact fun answer hanswer => ih answer (h answer hanswer)

end Dialogue

namespace Bytecode

open PortableImage.Dialogue (Ensures)

variable {α β : Type} {admitted : Fault → Prop}

section Talking

variable {talk : Talk α} {next : α → Talk β}

theorem ensures_pure (value : α) : Ensures admitted (FailsOnly admitted) (pure value : Talk α) :=
  failsOnly_ok value

theorem ensures_bind (h : Ensures admitted (FailsOnly admitted) talk)
    (hnext : ∀ value, Ensures admitted (FailsOnly admitted) (next value)) :
    Ensures admitted (FailsOnly admitted) (talk >>= next : Talk β) := by
  refine Ensures.bind h fun answer hanswer => ?_
  cases answer with
  | ok value => exact hnext value
  | error fault => exact failsOnly_error (hanswer fault rfl)

theorem ensures_lift {dialogue : Dialogue α} (h : dialogue.Ensures admitted fun _ => True) :
    Ensures admitted (FailsOnly admitted) (ExceptT.lift dialogue : Talk α) :=
  h.bind fun value _ => failsOnly_ok value

end Talking

section Decoding

/-- The instruction fails with an admitted fault, if it is one that fails. -/
def Instruction.Admits (admitted : Fault → Prop) : Instruction → Prop
  | .fail fault => admitted fault
  | _ => True

variable (hadmitted : ∀ fault : Fault, fault.Unrelated → admitted fault)
include hadmitted

theorem failsOnly_operands (count offset : Nat) (data : Bytes) :
    FailsOnly admitted (operands count offset data) := by
  fun_induction operands count offset data with
  | case1 => exact failsOnly_ok []
  | case2 => exact failsOnly_error (hadmitted _ fun _ _ _ => Fault.noConfusion)
  | case3 _ _ _ _ _ _ ih => exact ih.map _

theorem admits_instruction (byte : UInt8) (offset : Nat) (words : List UInt32) :
    (instruction byte offset words).Admits admitted := by
  have hunsupported : admitted (unsupported byte offset) :=
    hadmitted _ fun _ _ _ => Fault.noConfusion
  have hgaveUp : admitted (.graph (.reported "backend gave up")) :=
    hadmitted _ fun _ _ _ => Fault.noConfusion
  unfold instruction
  split <;> first | exact trivial | assumption

/-- Decoding puts in no fault about a reference. -/
theorem admits_decodeFrom (offset skipped : Nat) (data : Bytes) :
    ∀ instruction ∈ decodeFrom offset skipped data, instruction.Admits admitted := by
  fun_induction decodeFrom offset skipped data with
  | case1 => exact fun _ h => by cases h
  | case2 _ _ _ _ ih => exact ih
  | case3 offset byte rest words _ ih =>
    intro other hother
    rcases List.mem_cons.mp hother with rfl | hother
    · exact admits_instruction hadmitted byte offset words
    · exact ih other hother
  | case4 offset byte rest fault hoperands =>
    intro other hother
    rw [List.mem_singleton.mp hother]
    exact failsOnly_operands hadmitted _ _ _ fault hoperands

end Decoding

theorem ensures_step (request : Request) (layout : Layout) {instruction : Instruction}
    (h : instruction.Admits admitted) :
    Ensures admitted (FailsOnly admitted) (step request layout instruction) := by
  cases instruction with
  | emit | relocate | echo => exact ensures_pure _
  | call | allocate | locate | portable | describe | ruling =>
    exact ensures_bind (Dialogue.ensures_put _) fun _ => ensures_pure _
  | helper =>
    exact ensures_bind (ensures_lift (Dialogue.ensures_put _)) fun _ => ensures_pure _
  | cancel => exact ensures_bind (ensures_lift (Dialogue.ensures_put _)) fun _ => ensures_pure _
  | box =>
    refine ensures_bind (ensures_lift (Dialogue.ensures_put _)) fun _ => ?_
    exact ensures_bind (Dialogue.ensures_put (.describe _)) fun _ => ensures_pure _
  | fail fault => exact failsOnly_error h

theorem ensures_steps (request : Request) {instructions : List Instruction}
    (h : ∀ instruction ∈ instructions, instruction.Admits admitted) (layout : Layout) :
    Ensures admitted (FailsOnly admitted)
      (instructions.foldlM (step request) layout : Talk Layout) := by
  induction instructions generalizing layout with
  | nil => exact ensures_pure layout
  | cons instruction instructions ih =>
    rw [List.foldlM_cons]
    refine ensures_bind (ensures_step request layout (h _ List.mem_cons_self)) fun next => ?_
    exact ih (fun other hother => h other (List.mem_cons_of_mem _ hother)) next

/-- The byte code makes up no unresolvable reference, whatever the body. -/
theorem forwards_compile (name : String) (request : Request) :
    ((backend name).compile request).Forwards :=
  fun _ hadmitted => ensures_steps request (admits_decodeFrom hadmitted 0 0 _) {}

end Bytecode

end PortableImage
