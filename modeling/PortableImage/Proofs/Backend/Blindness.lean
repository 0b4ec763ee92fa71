import PortableImage.Backend.Bytecode
import PortableImage.Proofs.Matching
/-!
# Backends that do not look at handles

Handles have no meaning of their own, so a backend should pass them on and do nothing else with them
than compare them.  A dialogue is *blind* if an exchange of handles in the replies, one for one,
makes no other difference than the same exchange in the code.

A blind dialogue points to nothing but what it has received.
-/

namespace PortableImage

open PortableImage.Graph (Handle)

section Alike

variable (R : Handle → Handle → Prop)

inductive Relocation.Target.Alike : Relocation.Target → Relocation.Target → Prop
  | node {a b} (h : R a b) : Relocation.Target.Alike (.node a) (.node b)
  | token (token : PortableToken) : Relocation.Target.Alike (.token token) (.token token)

structure Relocation.Alike (a b : Relocation) : Prop where
  offset : a.offset = b.offset
  kind : a.kind = b.kind
  target : Relocation.Target.Alike R a.target b.target

structure Layout.Alike (a b : Layout) : Prop where
  data : a.data = b.data
  relocations : List.Forall₂ (Relocation.Alike R) a.relocations b.relocations

/-- Replies to one question that differ in handles at most. -/
def Question.Matches : (question : Question) → question.Reply → question.Reply → Prop
  | .portable _ | .call _ _ | .describe _ | .allocate _ | .locate _ =>
    Concur (fun _ => True) (Relocation.Target.Alike R)
  | .helper _ => Relocation.Target.Alike R
  | .ruling _ => Eq
  | .cancel => Eq

/-- Dialogues that put the same questions, as long as the replies match, and end alike. -/
inductive Dialogue.Alike {α : Type} (S : α → α → Prop) : Dialogue α → Dialogue α → Prop
  | result {a b} (h : S a b) : Dialogue.Alike S (.result a) (.result b)
  | ask (question : Question) {next next' : question.Reply → Dialogue α}
      (h : ∀ reply reply', question.Matches R reply reply' →
        Dialogue.Alike S (next reply) (next' reply')) :
      Dialogue.Alike S (.ask question next) (.ask question next')

/-- Code that differs in handles at most, or one fault. -/
abbrev Layout.AlikeAnswers : Except Fault Layout → Except Fault Layout → Prop :=
  Concur (fun _ => True) (Layout.Alike R)

variable {R} {S : Handle → Handle → Prop}

theorem Relocation.Target.Alike.imp (hRS : ∀ a b, R a b → S a b) {a b : Relocation.Target}
    (h : Relocation.Target.Alike R a b) : Relocation.Target.Alike S a b := by
  cases h with
  | node h => exact .node (hRS _ _ h)
  | token token => exact .token token

theorem Relocation.Target.Alike.holds {a b : Relocation.Target}
    (h : Relocation.Target.Alike R a b) {node : Handle} (hnode : a = .node node) :
    ∃ node', R node node' := by
  cases h with
  | node h =>
    cases hnode
    exact ⟨_, h⟩
  | token token => cases hnode

theorem Layout.Alike.imp (hRS : ∀ a b, R a b → S a b) {a b : Layout} (h : Layout.Alike R a b) :
    Layout.Alike S a b :=
  ⟨h.data, h.relocations.imp fun _ _ halike =>
    ⟨halike.offset, halike.kind, halike.target.imp hRS⟩⟩

theorem Layout.Alike.comp {T : Handle → Handle → Prop} {a b c : Layout} (h : Layout.Alike R a b)
    (h' : Layout.Alike S b c) (hRST : ∀ x y z, R x y → S y z → T x z) : Layout.Alike T a c := by
  refine ⟨h.data.trans h'.data, forall₂_comp h.relocations h'.relocations fun x y z hxy hyz => ?_⟩
  refine ⟨hxy.offset.trans hyz.offset, hxy.kind.trans hyz.kind, ?_⟩
  have hfirst := hxy.target
  have hsecond := hyz.target
  generalize x.target = first, y.target = second, z.target = third at hfirst hsecond
  cases hfirst with
  | token token =>
    cases hsecond
    exact .token token
  | node hab =>
    cases hsecond with
    | node hbc => exact .node (hRST _ _ _ hab hbc)

theorem Question.Matches.imp (hRS : ∀ a b, R a b → S a b) {question : Question}
    {a b : question.Reply} (h : question.Matches R a b) : question.Matches S a b := by
  cases question with
  | portable | call | describe | allocate | locate =>
    exact Concur.imp h (fun _ => id) fun _ _ => Relocation.Target.Alike.imp hRS
  | helper => exact Relocation.Target.Alike.imp hRS h
  | ruling | cancel => exact h

end Alike

namespace Dialogue

/-- Each handle is exchanged for one other. -/
def OneToOne (R : Handle → Handle → Prop) : Prop :=
  ∀ a b a' b', R a b → R a' b' → (a = a' ↔ b = b')

def Blind (dialogue : Dialogue (Except Fault Layout)) : Prop :=
  ∀ R, OneToOne R → Alike R (Layout.AlikeAnswers R) dialogue dialogue

/-- The dialogue never asks for the session to be stopped. -/
def Patient {α : Type} : Dialogue α → Prop
  | result _ => True
  | ask question next => question ≠ .cancel ∧ ∀ reply, (next reply).Patient

section Received

variable {σ : Type} (reply : (question : Question) → StateM σ question.Reply)

/-- The node a reply points to. -/
def node? : (question : Question) → question.Reply → Option Handle
  | .portable _, .ok (.node node) | .call _ _, .ok (.node node) | .describe _, .ok (.node node)
  | .allocate _, .ok (.node node) | .locate _, .ok (.node node) | .helper _, .node node => some node
  | _, _ => none

/-- The nodes that the replies of a dialogue point to. -/
def received {α : Type} : Dialogue α → σ → List Handle
  | result _, _ => []
  | ask question next, state =>
    (node? question (reply question state).1).toList ++
      received (next (reply question state).1) (reply question state).2

theorem matches_of_node? {question : Question} {R : Handle → Handle → Prop}
    (answer : question.Reply) (h : ∀ node, node? question answer = some node → R node node) :
    question.Matches R answer answer := by
  have htarget (answer : Except Fault Relocation.Target)
      (h : ∀ node, answer = .ok (.node node) → R node node) :
      Concur (fun _ => True) (Relocation.Target.Alike R) answer answer := by
    cases answer with
    | error fault => exact .error trivial
    | ok target =>
      cases target with
      | node node => exact .ok (.node (h node rfl))
      | token token => exact .ok (.token token)
  cases question with
  | portable | call | describe | allocate | locate =>
    refine htarget answer fun node hnode => h node ?_
    subst hnode
    rfl
  | helper =>
    cases answer with
    | node node => exact .node (h node rfl)
    | token token => exact .token token
  | ruling | cancel => rfl

theorem holds_of_matches {question : Question} {R : Handle → Handle → Prop}
    {answer other : question.Reply} (h : question.Matches R answer other) {node : Handle}
    (hnode : node? question answer = some node) : ∃ node', R node node' := by
  cases question with
  | portable | call | describe | allocate | locate =>
    cases h with
    | error _ => cases hnode
    | ok h =>
      cases h with
      | token token => cases hnode
      | node h =>
        cases hnode
        exact ⟨_, h⟩
  | helper =>
    cases h with
    | token token => cases hnode
    | node h =>
      cases hnode
      exact ⟨_, h⟩
  | ruling | cancel => cases hnode

/-- Dialogues that are alike end alike if they get the same replies. -/
theorem alike_hold_self {α : Type} {S : α → α → Prop} {dialogue other : Dialogue α}
    {R : Handle → Handle → Prop} (h : Alike R S dialogue other) (state : σ)
    (hR : ∀ node ∈ received reply dialogue state, R node node) :
    S (dialogue.hold reply state).1 (other.hold reply state).1 := by
  induction h generalizing state with
  | result h => exact h
  | ask question h ih =>
    refine ih _ _ (matches_of_node? _ fun node hnode => ?_) _ fun node hnode => ?_
    · exact hR node (List.mem_append_left _ (Option.mem_toList.mpr hnode))
    · exact hR node (List.mem_append_right _ hnode)

/-- The code of a blind dialogue points to what the dialogue has received. -/
theorem Blind.mem_received {dialogue : Dialogue (Except Fault Layout)} (h : dialogue.Blind)
    {state : σ} {layout : Layout} (hlayout : (dialogue.hold reply state).1 = .ok layout)
    {relocation : Relocation} (hrelocation : relocation ∈ layout.relocations) {node : Handle}
    (hnode : relocation.target = .node node) : node ∈ received reply dialogue state := by
  have hone : OneToOne fun a b => a = b ∧ a ∈ received reply dialogue state := by
    rintro a _ a' _ ⟨rfl, _⟩ ⟨rfl, _⟩
    exact Iff.rfl
  have hends := alike_hold_self reply (h _ hone) state fun node hnode => ⟨rfl, hnode⟩
  rw [hlayout] at hends
  cases hends with
  | ok halike =>
    obtain ⟨_, _, hmatch⟩ := exists_of_mem_left halike.relocations hrelocation
    obtain ⟨_, hreceived⟩ := hmatch.target.holds hnode
    exact hreceived.2

end Received

section Equality

variable {α : Type} {S : α → α → Prop}

theorem eq_of_matches {question : Question} {answer other : question.Reply}
    (h : question.Matches Eq answer other) : answer = other := by
  have htarget {target other : Relocation.Target} (h : Relocation.Target.Alike Eq target other) :
      target = other := by
    cases h with
    | node h => rw [h]
    | token token => rfl
  cases question with
  | portable | call | describe | allocate | locate =>
    cases h with
    | ok h => rw [htarget h]
    | error _ => rfl
  | helper => exact htarget h
  | ruling | cancel => exact h

/-- Where no handle is exchanged, every dialogue is alike to itself. -/
theorem alike_refl (hS : ∀ a, S a a) (dialogue : Dialogue α) : Alike Eq S dialogue dialogue := by
  induction dialogue with
  | result value => exact .result (hS value)
  | ask question next ih =>
    refine .ask question fun answer other hmatches => ?_
    rw [eq_of_matches hmatches]
    exact ih other

end Equality

section Binding

variable {α β : Type} {R : Handle → Handle → Prop} {S : α → α → Prop} {T : β → β → Prop}
  {dialogue other : Dialogue α} {next next' : α → Dialogue β}

theorem Alike.bind (h : Alike R S dialogue other) (hnext : ∀ a b, S a b → Alike R T (next a) (next' b)) :
    Alike R T (dialogue.bind next) (other.bind next') := by
  induction h with
  | result h => exact hnext _ _ h
  | ask question _ ih => exact .ask question ih

theorem alike_put (question : Question) : Alike R (question.Matches R) (put question) (put question) :=
  .ask question fun _ _ h => .result h

theorem Patient.bind (h : dialogue.Patient) (hnext : ∀ a, (next a).Patient) :
    (dialogue.bind next).Patient := by
  induction dialogue with
  | result value => exact hnext value
  | ask question continued ih => exact ⟨h.1, fun answer => ih answer (h.2 answer)⟩

end Binding

end Dialogue

namespace Bytecode

open PortableImage.Dialogue (Alike Patient)

/-- The instruction neither names a handle nor stops the session. -/
def Instruction.isPlain : Instruction → Bool
  | .relocate _ _ (.node _) | .cancel => false
  | _ => true

section Talking

variable {α β : Type} {R : Handle → Handle → Prop} {S : α → α → Prop} {T : β → β → Prop}
  {talk other : Talk α} {next next' : α → Talk β}

theorem alike_bind (h : Alike R (Concur (fun _ => True) S) talk other)
    (hnext : ∀ a b, S a b → Alike R (Concur (fun _ => True) T) (next a) (next' b)) :
    Alike R (Concur (fun _ => True) T) (talk >>= next : Talk β) (other >>= next' : Talk β) := by
  refine Alike.bind (R := R) (T := Concur (fun _ => True) T) h ?_
  intro answer answer' hanswer
  cases hanswer with
  | ok hvalue => exact hnext _ _ hvalue
  | error _ => exact .result (.error trivial)

theorem alike_pure {a b : α} (h : S a b) :
    Alike R (Concur (fun _ => True) S) (pure a : Talk α) (pure b : Talk α) :=
  .result (.ok h)

theorem alike_lift {dialogue other : Dialogue α} (h : Alike R S dialogue other) :
    Alike R (Concur (fun _ => True) S) (ExceptT.lift dialogue : Talk α)
      (ExceptT.lift other : Talk α) :=
  Alike.bind h fun _ _ hvalue => .result (.ok hvalue)

theorem patient_bind (h : Patient talk) (hnext : ∀ a, Patient (next a)) :
    Patient (talk >>= next : Talk β) := by
  refine Patient.bind h fun answer => ?_
  cases answer with
  | ok value => exact hnext value
  | error fault => exact trivial

end Talking

section Instructions

variable {R : Handle → Handle → Prop} {layout layout' : Layout} {instruction : Instruction}

theorem alike_slot (h : Layout.Alike R layout layout') (byte : UInt8) (kind : Relocation.Kind)
    {target target' : Relocation.Target} (htarget : Relocation.Target.Alike R target target') :
    Layout.Alike R (slot layout byte kind target) (slot layout' byte kind target') := by
  have hdata : layout.data ++ [byte] = layout'.data ++ [byte] := by rw [h.data]
  refine ⟨congrArg (· ++ Bytes.zeros kind.size) hdata, ?_⟩
  refine List.rel_append h.relocations (.cons ⟨?_, rfl, htarget⟩ .nil)
  exact congrArg (fun data => UInt32.ofNat (List.length data)) hdata

theorem alike_append (h : Layout.Alike R layout layout') (data : Bytes) :
    Layout.Alike R { layout with data := layout.data ++ data }
      { layout' with data := layout'.data ++ data } :=
  ⟨congrArg (· ++ data) h.data, h.relocations⟩

theorem alike_step (request : Request) (hplain : instruction.isPlain)
    (h : Layout.Alike R layout layout') :
    Alike R (Layout.AlikeAnswers R) (step request layout instruction)
      (step request layout' instruction) := by
  cases instruction with
  | emit byte => exact alike_pure (alike_append h [byte])
  | call token mode =>
    exact alike_bind (Dialogue.alike_put (.call token mode)) fun _ _ htarget =>
      alike_pure (alike_slot h _ _ htarget)
  | allocate token =>
    exact alike_bind (Dialogue.alike_put (.allocate token)) fun _ _ htarget =>
      alike_pure (alike_slot h _ _ htarget)
  | locate token =>
    exact alike_bind (Dialogue.alike_put (.locate token)) fun _ _ htarget =>
      alike_pure (alike_slot h _ _ htarget)
  | box token =>
    refine alike_bind (alike_lift (Dialogue.alike_put (.helper .box))) fun _ _ _ => ?_
    exact alike_bind (Dialogue.alike_put (.describe token)) fun _ _ htarget =>
      alike_pure (alike_slot h _ _ htarget)
  | portable token =>
    exact alike_bind (Dialogue.alike_put (.portable token)) fun _ _ htarget =>
      alike_pure (alike_slot h _ _ htarget)
  | describe token =>
    exact alike_bind (Dialogue.alike_put (.describe token)) fun _ _ htarget =>
      alike_pure (alike_slot h _ _ htarget)
  | helper number =>
    exact alike_bind (alike_lift (Dialogue.alike_put (.helper (helperAt number))))
      fun _ _ htarget => alike_pure (alike_slot h _ _ htarget)
  | ruling token =>
    refine alike_bind (S := Eq) (T := Layout.Alike R) ?_ fun ruling ruling' hsame => ?_
    · refine .ask (.ruling token) fun answer answer' hsame => .result ?_
      obtain rfl : answer = answer' := hsame
      cases answer with
      | ok ruling => exact .ok rfl
      | error fault => exact .error trivial
    · rw [hsame]
      exact alike_pure (alike_append h (rulingBytes ruling'))
  | relocate offset size target =>
    cases target with
    | node node => cases hplain
    | token token =>
      exact alike_pure ⟨h.data, List.rel_append h.relocations (.cons ⟨rfl, rfl, .token token⟩ .nil)⟩
  | echo => exact alike_pure (alike_append h (requestBytes request))
  | cancel => cases hplain
  | fail fault => exact .result (.error trivial)

theorem patient_step (request : Request) (hplain : instruction.isPlain) (layout : Layout) :
    Patient (step request layout instruction) := by
  have hput {question : Question} (hquestion : question ≠ .cancel) :
      Patient (Dialogue.put question) := ⟨hquestion, fun _ => trivial⟩
  cases instruction with
  | emit | echo | relocate | fail => exact trivial
  | cancel => cases hplain
  | call | allocate | locate | portable | describe | ruling =>
    exact patient_bind (hput nofun) fun _ => trivial
  | helper => exact patient_bind (Patient.bind (hput nofun) fun _ => trivial) fun _ => trivial
  | box =>
    refine patient_bind (Patient.bind (hput nofun) fun _ => trivial) fun _ => ?_
    exact patient_bind (hput nofun) fun _ => trivial

variable {instructions : List Instruction}

theorem alike_steps (request : Request) (hplain : ∀ instruction ∈ instructions, instruction.isPlain)
    (h : Layout.Alike R layout layout') :
    Alike R (Layout.AlikeAnswers R) (instructions.foldlM (step request) layout : Talk Layout)
      (instructions.foldlM (step request) layout' : Talk Layout) := by
  induction instructions generalizing layout layout' with
  | nil => exact alike_pure h
  | cons instruction instructions ih =>
    rw [List.foldlM_cons, List.foldlM_cons]
    refine alike_bind (alike_step request (hplain _ List.mem_cons_self) h) fun _ _ hnext => ?_
    exact ih (fun other hother => hplain other (List.mem_cons_of_mem _ hother)) hnext

theorem patient_steps (request : Request)
    (hplain : ∀ instruction ∈ instructions, instruction.isPlain) (layout : Layout) :
    Patient (instructions.foldlM (step request) layout : Talk Layout) := by
  induction instructions generalizing layout with
  | nil => exact trivial
  | cons instruction instructions ih =>
    rw [List.foldlM_cons]
    refine patient_bind (patient_step request (hplain _ List.mem_cons_self) layout) fun next => ?_
    exact ih (fun other hother => hplain other (List.mem_cons_of_mem _ hother)) next

variable {request : Request}

/-- Byte code without the two odd instructions is assembled without looking at handles. -/
theorem blind_of_isPlain
    (hplain : ∀ instruction ∈ decode request.body.code, instruction.isPlain) (name : String) :
    ((backend name).compile request).Blind :=
  fun _ _ => alike_steps request hplain ⟨rfl, .nil⟩

theorem patient_of_isPlain
    (hplain : ∀ instruction ∈ decode request.body.code, instruction.isPlain) (name : String) :
    ((backend name).compile request).Patient :=
  patient_steps request hplain {}

end Instructions

end Bytecode

end PortableImage
