import PortableImage.Portable.Signature
import PortableImage.Proofs.Portable.SoundLedgers
/-!
# What writing a signature can do

Writing a signature puts questions to a ledger, and may fail.  It knows nothing of the graph, so no
fault of the graph comes of it.  `Made` says once what the writing of a signature is put together from;
what is to hold of all of it is proved for these parts.
-/

namespace PortableImage

open Relation (ReflTransGen)

/-- The fault does not come from the graph. -/
def Fault.Benign (fault : Fault) : Prop := ∀ cause, fault ≠ .graph cause

theorem Fault.Benign.requestedBy {fault : Fault} (h : fault.Benign) (requester : ArtifactKey) :
    (fault.requestedBy requester).Benign := by
  unfold Fault.requestedBy
  split
  · exact fun _ => Fault.noConfusion
  · exact h

theorem Program.benign_of_portableToken {program : Program} {bubble : Bubble} {entity : Entity}
    {origin : ModuleIndex} {fault : Fault}
    (h : program.portableToken bubble entity origin = .error fault) : fault.Benign := by
  have hportable (module : ModuleIndex) (token : Token)
      (h : Program.portable module token = .error fault) : fault.Benign := by
    unfold Program.portable at h
    split at h <;> cases h
    exact fun _ => Fault.noConfusion
  unfold Program.portableToken at h
  split at h
  · split at h
    · exact hportable _ _ h
    · cases h
      exact fun _ => Fault.noConfusion
  · split at h
    · exact hportable _ _ h
    · cases h
      exact fun _ => Fault.noConfusion

namespace Signature

/-- A writing is put together from data that is written and from questions to the ledger.  The faults
it makes itself come neither from the graph nor from the ledger. -/
inductive Made (context : Context) : {α : Type} → Writing α → Prop
  | pure {α : Type} (value : α) : Made context (pure value : Writing α)
  | throw {α : Type} {fault : Fault} (hbenign : fault.Benign)
      (hresolved : ∀ entity origin requester, fault ≠ .unresolvableReference entity origin requester) :
      Made context (throw fault : Writing α)
  | write (data : Bytes) : Made context (write data)
  | issue (entity : Entity) : Made context (issue context entity)
  | bind {α β : Type} {writing : Writing α} {next : α → Writing β} (h : Made context writing)
      (hnext : ∀ value, Made context (next value)) : Made context (writing >>= next)

variable {α : Type} {context : Context}

theorem made_malformed (cause : EncodingFault) :
    Made context (throw (.malformed cause) : Writing α) :=
  .throw (fun _ => Fault.noConfusion) fun _ _ _ => Fault.noConfusion

theorem made_writeNumber (value : UInt32) : Made context (writeNumber value) := by
  have hencode : Made context (liftM (Compressed.encode value) : Writing Bytes) := by
    cases hdata : Compressed.encode value with
    | ok data => exact .pure data
    | error fault =>
      obtain ⟨_, rfl⟩ := Compressed.encode_eq_error_iff.mp hdata
      exact .throw (fun _ => Fault.noConfusion) fun _ _ _ => Fault.noConfusion
  exact hencode.bind .write

theorem made_writeCount (entity : Entity) (count : Nat) : Made context (writeCount entity count) := by
  unfold writeCount
  split
  · exact made_writeNumber _
  · exact made_malformed _

theorem made_typeIndex (token : PortableToken) :
    Made context (liftM (typeIndex token) : Writing UInt32) := by
  unfold typeIndex
  split
  · exact .pure _
  · exact .pure _
  · exact .pure _
  · exact made_malformed _

theorem made_methodIndex (token : PortableToken) :
    Made context (liftM (methodIndex token) : Writing UInt32) := by
  unfold methodIndex
  split
  · exact .pure _
  · exact .pure _
  · exact made_malformed _

mutual

theorem made_writeShape : ∀ shape, Made context (writeShape context shape)
  | .plain entity => by
    rw [writeShape]
    refine (Made.issue entity).bind fun token => ?_
    have hrow (data : Bytes) : Made context (do
        write data
        writeNumber (← liftM (typeIndex token))) :=
      (Made.write data).bind fun _ => (made_typeIndex token).bind made_writeNumber
    dsimp only
    by_cases helsewhere : isElsewhere context token
    · rw [if_pos helsewhere]
      exact (Made.write _).bind fun _ => (made_writeNumber _).bind fun _ => hrow _
    · rw [if_neg helsewhere]
      exact hrow _
  | .instantiated entity definition arguments => by
    rw [writeShape]
    refine (Made.write _).bind fun _ => (made_writeShape definition).bind fun _ => ?_
    exact (made_writeCount entity _).bind fun _ => made_writeShapes arguments

theorem made_writeShapes : ∀ shapes, Made context (writeShapes context shapes)
  | [] => by
    rw [writeShapes]
    exact .pure _
  | shape :: shapes => by
    rw [writeShapes]
    exact (made_writeShape shape).bind fun _ => made_writeShapes shapes

end

theorem made_writeType (entity : Entity) : Made context (writeType context entity) :=
  made_writeShape _

theorem made_writeEntryHead (token : PortableToken) (special : Bool) (flag : UInt8) :
    Made context (writeEntryHead context token special flag) := by
  refine (Made.write _).bind fun _ => ?_
  split
  · exact made_writeNumber _
  · exact .pure _

theorem made_writeMethod (method : Entity) : Made context (writeMethod context method) := by
  rw [writeMethod]
  refine (Made.issue _).bind fun token => (made_writeEntryHead _ _ _).bind fun _ => ?_
  refine (made_methodIndex token).bind fun index => (made_writeNumber index).bind fun _ => ?_
  split
  · exact .pure _
  · exact (made_writeCount method _).bind fun _ => made_writeShapes _

theorem made_writeField (field : Entity) : Made context (writeField context field) := by
  rw [writeField]
  refine (Made.issue field).bind fun token => (made_writeEntryHead _ _ _).bind fun _ => ?_
  split
  · split
    · exact .throw (fun _ => Fault.noConfusion) fun _ _ _ => Fault.noConfusion
    · exact (made_writeType _).bind fun _ => made_writeNumber _
  · exact made_writeNumber _
  · exact made_malformed _

/-- The writing only puts questions to the ledger, and does not fail in the graph. -/
def Careful {α : Type} (context : Context) (writing : Writing α) : Prop :=
  ∀ sheet : Sheet,
    ReflTransGen (Ledger.Step context.program context.bubble) sheet.ledger
      (writing sheet).2.ledger ∧
    ∀ fault, (writing sheet).1 = .error fault → fault.Benign

theorem Made.careful {writing : Writing α} (h : Made context writing) : Careful context writing := by
  induction h with
  | pure value => exact fun _ => ⟨.refl, fun _ hfault => by cases hfault⟩
  | throw hbenign _ =>
    refine fun _ => ⟨.refl, fun _ hfault => ?_⟩
    cases hfault
    exact hbenign
  | write data => exact fun _ => ⟨.refl, fun _ hfault => by cases hfault⟩
  | issue entity =>
    exact fun sheet => ⟨.single (.issue sheet.ledger entity context.module), fun _ hfault =>
      Program.benign_of_portableToken (Ledger.portableToken_of_issue hfault)⟩
  | @bind _ _ writing next _ _ ih ihnext =>
    intro sheet
    obtain ⟨hsteps, hfaults⟩ := ih sheet
    show ReflTransGen (Ledger.Step context.program context.bubble) sheet.ledger
        (ExceptT.bindCont next (writing sheet).1 (writing sheet).2).2.ledger ∧
      ∀ fault, (ExceptT.bindCont next (writing sheet).1 (writing sheet).2).1 = .error fault → _
    cases hanswer : (writing sheet).1 with
    | ok value =>
      obtain ⟨hlater, hfaults'⟩ := ihnext value (writing sheet).2
      exact ⟨hsteps.trans hlater, hfaults'⟩
    | error fault =>
      refine ⟨hsteps, fun other hother => ?_⟩
      obtain rfl : fault = other := Except.error.inj hother
      exact hfaults fault hanswer

theorem careful_writeType (entity : Entity) : Careful context (writeType context entity) :=
  (made_writeType entity).careful

theorem careful_writeMethod (method : Entity) : Careful context (writeMethod context method) :=
  (made_writeMethod method).careful

theorem careful_writeField (field : Entity) : Careful context (writeField context field) :=
  (made_writeField field).careful

end Signature

end PortableImage
