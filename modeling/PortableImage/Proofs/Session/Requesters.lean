import PortableImage.Proofs.Graph.Failures
import PortableImage.Proofs.Session.Faults
import PortableImage.Proofs.Session.RootOrder
/-!
# Who asked for a reference that cannot be resolved

A session fails where it expands or emits some artifact.  If the fault is an unresolvable reference,
then an expansion has named its artifact.  An emission names its artifact too, but for two kinds: a
table of virtual methods and a signature ask the ledger without giving a name, and the fault leaves the
session as the ledger made it.
-/

namespace PortableImage

open PortableImage.Graph (Handle)
open PortableImage.Drafting (Blaming)

/-- Whom the emission of an artifact names when it asks for a token. -/
def ArtifactKey.spokesman : ArtifactKey → Option ArtifactKey
  | .vtable _ | .signature _ => none
  | key => some key

namespace Signature

/-- Writing a signature fails in admitted ways, if the ledger does. -/
structure Bounded (admitted : Fault → Prop) (context : Context) : Prop where
  unrelated : ∀ fault : Fault, fault.Unrelated → admitted fault
  issue : ∀ entity (ledger : Ledger), FailsOnly admitted
    (ledger.issue context.program context.bubble entity context.module).1

theorem Made.failsWithin {admitted : Fault → Prop} {context : Context} {α : Type}
    {writing : Writing α} (hmade : Made context writing) (h : Bounded admitted context) :
    FailsWithin admitted writing := by
  induction hmade with
  | pure value => exact FailsWithin.pure value
  | throw _ hresolved => exact FailsWithin.throw (h.unrelated _ hresolved)
  | write data => exact fun _ => failsOnly_ok _
  | issue entity => exact fun sheet => h.issue entity sheet.ledger
  | bind _ _ ih ihnext => exact ih.bind ihnext

end Signature

namespace Drafting

variable {setting : Setting} {requester : Option ArtifactKey} {key : ArtifactKey}

section Layouts

theorem blaming_count (layout : Layout) (value : Nat) :
    Blaming setting requester (liftM (layout.count value) : Drafting Layout) := by
  apply FailsWithin.lift
  unfold Layout.count
  split
  · exact failsOnly_ok _
  · exact failsOnly_error (Fault.Unrelated.blames fun _ _ _ => Fault.noConfusion)

theorem blaming_slot (layout : Layout) (target : Option Relocation.Target) :
    Blaming setting requester (liftM (layout.slot target) : Drafting Layout) := by
  apply FailsWithin.lift
  unfold Layout.slot
  split
  · exact failsOnly_error (Fault.Unrelated.blames fun _ _ _ => Fault.noConfusion)
  · exact failsOnly_ok _

theorem blaming_markedNode? (key : ArtifactKey) : Blaming setting requester (markedNode? key) :=
  fun _ => failsOnly_ok _

theorem blaming_slotTarget (type method : Entity) :
    Blaming setting none (slotTarget setting type method) := by
  refine (blaming_markedNode? _).bind fun node => ?_
  cases node with
  | some node => exact FailsWithin.pure _
  | none => exact (blaming_issue method type.module).bind fun _ => FailsWithin.pure _

/-- The slots of a table ask for tokens in nobody's name. -/
theorem blaming_layoutOfVTable (type : Entity) :
    Blaming setting none (layoutOfVTable setting type) := by
  have hbase (base : Option Entity) : Blaming setting none (baseTable? base) := by
    cases base with
    | none => exact FailsWithin.pure none
    | some base => exact blaming_markedNode? _
  refine (blaming_described _ _).bind fun description => (blaming_count _ _).bind fun head => ?_
  refine (hbase _).bind fun base => (blaming_slot _ _).bind fun start => ?_
  exact FailsWithin.foldlM
    (fun _ _ => (blaming_slotTarget _ _).bind fun _ => blaming_slot _ _) _ start

theorem blaming_written {writing : Signature.Writing Unit} (h : Blaming setting requester writing) :
    Blaming setting requester (written writing) :=
  fun draft => (h ⟨draft.ledger, []⟩).map _

/-- A signature asks for tokens in nobody's name. -/
theorem blaming_signatureOf (entity : Entity) :
    Blaming setting none (signatureOf setting entity) := by
  have hbounded : Signature.Bounded (Fault.Blames setting none)
      ⟨setting.program, setting.bubble, entity.module⟩ :=
    ⟨fun _ => Fault.Unrelated.blames, fun entity' => Ledger.blames_issue setting entity' _⟩
  unfold signatureOf
  dsimp only
  split
  · exact blaming_written ((Signature.made_writeType _).failsWithin hbounded)
  · exact blaming_written ((Signature.made_writeMethod _).failsWithin hbounded)
  · exact blaming_written ((Signature.made_writeField _).failsWithin hbounded)
  · exact blaming_described _ _
  · exact blaming_throw fun _ _ _ => Fault.noConfusion

theorem blaming_layoutOf (compiled : Option Layout) (key : ArtifactKey) :
    Blaming setting key.spokesman (layoutOf setting compiled key) := by
  cases key with
  | methodCode method =>
    cases compiled with
    | some layout => exact FailsWithin.pure layout
    | none => exact blaming_throw fun _ _ _ => Fault.noConfusion
  | typeLayout type => exact (made_layoutOfType type).blaming
  | vtable type => exact blaming_layoutOfVTable type
  | genericDictionary entity => exact (made_layoutOfDictionary entity).blaming
  | signature entity => exact (blaming_signatureOf entity).bind fun _ => FailsWithin.pure _
  | importCell token => exact blaming_slot _ _
  | helperCell | virtualMethodUse => exact FailsWithin.pure _

theorem blaming_placed (size : Nat) (relocation : Relocation) :
    Blaming setting requester (placed key size relocation) := by
  unfold placed
  by_cases hsize : size < relocation.stop
  · simp only [if_pos hsize]
    exact blaming_throw fun _ _ _ => Fault.noConfusion
  · simp only [if_neg hsize]
    cases relocation.target with
    | token token => exact FailsWithin.pure _
    | node node =>
      refine FailsWithin.bind (fun _ => failsOnly_ok _) fun draft => ?_
      split
      · exact (blaming_keyOf _).bind fun _ => FailsWithin.pure _
      · exact blaming_throw fun _ _ _ => Fault.noConfusion

end Layouts

end Drafting

namespace Compiler

variable {compiler : Compiler} {setting : Setting} {method : Entity}

theorem blames_blame {requester : Option ArtifactKey} {fault : Fault}
    (h : fault.Blames setting requester) : (blame method fault).Blames setting requester := by
  unfold blame
  split
  · exact Fault.Unrelated.blames fun _ _ _ => Fault.noConfusion
  · exact h

theorem blaming_converse {body : MethodBody} (h : (compiler.dialogue method body).Forwards) :
    Blaming setting (some (.methodCode method)) (compiler.converse setting method body) := by
  intro workspace
  rw [converse_eq]
  have hheld : FailsOnly (Fault.Blames setting (some (.methodCode method)))
      (compiler.held setting method body workspace).1 :=
    (h _ fun _ => Fault.Unrelated.blames).hold Answering.admits_reply _
  split
  · exact failsOnly_ok _
  · rename_i fault hfault
    exact failsOnly_error (blames_blame (hheld fault hfault))

/-- Compiling a method names its code. -/
theorem blames_compile {node : Handle} {workspace : Workspace}
    (hkey : workspace.arena.key? node = some (.methodCode method))
    (hforwards : ∀ body, setting.body? method = some body →
      (compiler.dialogue method body).Forwards) :
    FailsOnly (Fault.Blames setting (some (.methodCode method)))
      (compiler.compile setting node workspace).1 := by
  rw [compile, bind_of_ok (Session.plan_keyOf hkey)]
  cases hbody : setting.body? method with
  | none =>
    simp only [hbody]
    exact failsOnly_error (Fault.Unrelated.blames fun _ _ _ => Fault.noConfusion)
  | some body =>
    simp only [hbody]
    refine (blaming_converse (hforwards body hbody)).bind (fun compiled => ?_) workspace
    split
    · exact FailsWithin.pure _
    · exact Drafting.blaming_throw fun _ _ _ => Fault.noConfusion

end Compiler

namespace Session

variable {compiler : Compiler} {setting : Setting} {node : Handle} {nodes : List Handle}
  {workspace : Workspace} {fault : Fault}

/-- Where an expansion fails, it names its artifact. -/
theorem exists_key_of_expand
    (hforwards : ∀ method body, setting.body? method = some body →
      (compiler.dialogue method body).Forwards)
    (h : (expand compiler setting node workspace).1 = .error fault) :
    fault.Unrelated ∨ ∃ key, workspace.arena.key? node = some key ∧
      fault.Blames setting (some key) := by
  have houtcome := outcome_expand compiler setting node workspace
  rw [h] at houtcome
  generalize (expand compiler setting node workspace).2 = after at houtcome
  cases houtcome with
  | unknown => exact .inl fun _ _ _ => Fault.noConfusion
  | unneeded hkey hneeds =>
    refine .inr ⟨_, hkey, ?_⟩
    exact (Drafting.made_needs _).blaming workspace.draft fault (congrArg Prod.fst hneeds)
  | failed hkey hneeds hcompile =>
    refine .inr ⟨_, hkey, ?_⟩
    exact Compiler.blames_compile (key?_planned hkey hneeds) (hforwards _) fault
      (congrArg Prod.fst hcompile)

/-- Where an emission fails, it names whom the artifact gives as its requester. -/
theorem exists_key_of_emitNode (h : (emitNode setting node workspace).1 = .error fault) :
    fault.Unrelated ∨ ∃ key, workspace.arena.key? node = some key ∧
      fault.Blames setting key.spokesman := by
  rw [fst_emitNode] at h
  cases hkey : workspace.arena.key? node with
  | none =>
    have hdraft : workspace.draft.arena.key? node = none := hkey
    rw [Drafting.emit, bind_of_error (Drafting.keyOf_of_none hdraft)] at h
    cases h
    exact .inl fun _ _ _ => Fault.noConfusion
  | some key =>
    refine .inr ⟨key, rfl, ?_⟩
    have hdraft : workspace.draft.arena.key? node = some key := hkey
    rw [Drafting.emit, bind_of_ok (Drafting.keyOf_of_key? hdraft)] at h
    refine (Drafting.blaming_layoutOf _ key).bind (fun layout => ?_) workspace.draft fault h
    exact (FailsWithin.mapM (Drafting.blaming_placed _) _).bind fun _ => FailsWithin.pure _

/-- The first fault of an emission is that of one of its calls. -/
theorem exists_emission_of_error (h : (nodes.mapM (emitNode setting) workspace).1 = .error fault) :
    ∃ call ∈ emissions setting nodes workspace, (emitNode setting call.1 call.2).1 = .error fault := by
  induction nodes generalizing workspace with
  | nil => cases h
  | cons node nodes ih =>
    rw [emissions]
    cases hemit : emitNode setting node workspace with
    | mk answer later =>
      cases answer with
      | error first =>
        rw [emitEach_of_error hemit] at h
        cases h
        exact ⟨(node, workspace), List.mem_cons_self, by rw [hemit]⟩
      | ok artifact =>
        rw [emitEach_of_ok hemit] at h
        cases hrest : (nodes.mapM (emitNode setting) later).1 with
        | ok artifacts =>
          rw [hrest] at h
          cases h
        | error other =>
          rw [hrest] at h
          cases h
          obtain ⟨call, hcall, hfault⟩ := ih hrest
          exact ⟨call, List.mem_cons_of_mem _ hcall, hfault⟩

variable {session : Session} {program : Program} {entity : Entity} {origin : ModuleIndex}
  {requester : Option ArtifactKey}

/-- Where a session could not resolve a reference: in the expansion of an artifact, which it then
names, or in the emission of one, for which the artifact decides who is named. -/
inductive Unresolved (session : Session) (program : Program) (fault : Fault) :
    Option ArtifactKey → Prop
  | expanding {node before key} (hcall : (node, before) ∈ session.expansions program)
      (hkey : before.arena.key? node = some key)
      (hfault : (expand session.compiler (session.setting program) node before).1 = .error fault) :
      Unresolved session program fault (some key)
  | emitting {analysis node before key} (hanalyse : session.analyse program = (.completed, analysis))
      (hcall : (node, before) ∈ emissions (session.setting program)
        (emissionOrder analysis.toSite) analysis.toSite)
      (hkey : before.arena.key? node = some key)
      (hfault : (emitNode (session.setting program) node before).1 = .error fault) :
      Unresolved session program fault key.spokesman

/-- A session whose backend makes up no unresolvable reference ends with one only where an entity
outside the bubble has no row in the module that refers to it; and it names the artifact that was
being expanded, or the one that was being emitted if that is neither a table of virtual methods nor a
signature, and nobody otherwise. -/
theorem unresolved_of_emit
    (hforwards : ∀ method body, (session.setting program).body? method = some body →
      (session.compiler.dialogue method body).Forwards)
    (h : (session.emit program).1 = .error (.unresolvableReference entity origin requester)) :
    session.bubble.contains entity = false ∧ program.rowFor? origin entity = none ∧
      Unresolved session program (.unresolvableReference entity origin requester) requester := by
  have hblames {named : Option ArtifactKey} (hnamed : (Fault.unresolvableReference entity origin
      requester).Blames (session.setting program) named) := hnamed entity origin requester rfl
  rw [emit] at h
  split at h
  · cases h
  cases hanalyse : session.analyse program with
  | mk verdict analysis =>
    cases verdict with
    | failed fault =>
      obtain rfl : fault = .unresolvableReference entity origin requester :=
        Except.error.inj ((run_of_failed hanalyse).symm.trans h)
      obtain ⟨call, hcall, hfault⟩ :=
        Graph.Analysis.exists_expansion_of_failed (congrArg Prod.fst hanalyse)
      rcases exists_key_of_expand hforwards hfault with hunrelated | ⟨key, hkey, hnamed⟩
      · exact absurd rfl (hunrelated entity origin requester)
      · obtain ⟨rfl, houtside⟩ := hblames hnamed
        exact ⟨houtside.1, houtside.2, .expanding hcall hkey hfault⟩
    | completed =>
      rw [run_of_completed hanalyse] at h
      cases hemit : (emitMarked (session.setting program) analysis.toSite).1 with
      | ok artifacts =>
        rw [hemit] at h
        cases h
      | error fault =>
        rw [hemit] at h
        obtain rfl : fault = .unresolvableReference entity origin requester := Except.error.inj h
        obtain ⟨call, hcall, hfault⟩ := exists_emission_of_error hemit
        rcases exists_key_of_emitNode hfault with hunrelated | ⟨key, hkey, hnamed⟩
        · exact absurd rfl (hunrelated entity origin requester)
        · obtain ⟨rfl, houtside⟩ := hblames hnamed
          exact ⟨houtside.1, houtside.2, .emitting hanalyse hcall hkey hfault⟩
    | cancelled | exhausted =>
      unfold analyse at hanalyse
      rw [run] at h
      simp only [hanalyse] at h
      cases h

section Rowless

def typeThing : Entity := ⟨⟨1⟩, ⟨0x02000001⟩⟩
def make : Entity := ⟨⟨0⟩, ⟨0x06000002⟩⟩
def makeThing : Entity := ⟨⟨0⟩, ⟨0x2b000001⟩⟩

/-- The main method calls a generic method that has no body, for a type of another module that its
module has no row for. -/
def rowless : Program :=
  (Program.assemble [.module "App" "/App.dll", .module "Lib" "/Lib.dll",
    .type { id := typeProgram, name := "Program" },
    .type { id := typeThing, name := "Thing" },
    .method { id := main, owner := typeProgram, name := "Main",
              body := some { code := [0x28, 1, 0, 0, 0x2b, 0x2a] } },
    .method { id := make, owner := typeProgram, name := "Make", genericParameters := 1 },
    .method { id := makeThing, owner := typeProgram, name := "Make",
              instantiation := some ⟨make, [typeThing]⟩ }]).toOption.getD {}

def rowlessOrder : Order where
  bubble := ⟨[⟨0⟩], true⟩
  input := "/App.dll"
  backend := some (Bytecode.backend "bytes")
  roots := [.method main]

def rowlessSession : Session where
  bubble := rowlessOrder.bubble
  bodies := .declared
  compiler := ⟨Bytecode.backend "bytes", .ofParts .blended []⟩
  roots := rowlessOrder.roots

theorem build_rowless : rowlessOrder.build rowless = .ok rowlessSession := by
  have hinput : rowless.moduleAt? rowlessOrder.input = some ⟨0⟩ := by
    have hmodules : rowless.modules = [⟨"App", "/App.dll"⟩, ⟨"Lib", "/Lib.dll"⟩] := rfl
    simp [Program.moduleAt?, Program.findModule?, hmodules, rowlessOrder, List.findIdx?_cons]
  have hknown : rowlessOrder.roots.find? (fun root => !root.isKnown rowless rowlessOrder.bubble) =
      none := by decide +kernel
  have hroots : rowlessOrder.effectiveRoots ⟨0⟩ = rowlessOrder.roots := rfl
  unfold Order.build
  simp only [hinput, hroots, hknown]
  rfl

def fault? : Except Fault Emission → Option Fault
  | .error fault => some fault
  | .ok _ => none

theorem eq_of_fault? {answer : Except Fault Emission} {fault : Fault}
    (h : fault? answer = some fault) : answer = .error fault := by
  cases answer with
  | error other => rw [Option.some.inj h]
  | ok emission => cases h

/-- The signature of the call cannot be written, and nobody is named for it. -/
theorem emit_rowless : (rowlessSession.emit rowless).1 =
    .error (.unresolvableReference typeThing ⟨0⟩ none) :=
  eq_of_fault? (by cbv)

theorem unresolved_of_emit_rowless :
    (rowlessSession.emit rowless).1 = .error (.unresolvableReference typeThing ⟨0⟩ none) ∧
      rowlessSession.bubble.contains typeThing = false ∧ rowless.rowFor? ⟨0⟩ typeThing = none ∧
      Unresolved rowlessSession rowless (.unresolvableReference typeThing ⟨0⟩ none) none :=
  ⟨emit_rowless, unresolved_of_emit (fun _ _ _ => Bytecode.forwards_compile "bytes" _) emit_rowless⟩

/-- A session can end with an unresolvable reference that names nobody, although the backend makes up
no faults. -/
theorem not_forall_requester_named :
    ¬ ∀ (order : Order) (program : Program) (session : Session),
      order.build program = .ok session →
      (∀ method body, (session.setting program).body? method = some body →
        (session.compiler.dialogue method body).Forwards) →
      ∀ entity origin requester,
        (session.emit program).1 = .error (.unresolvableReference entity origin requester) →
        ∃ key, requester = some key := by
  intro h
  obtain ⟨key, hkey⟩ := h rowlessOrder rowless rowlessSession build_rowless
    (fun _ _ _ => Bytecode.forwards_compile "bytes" _) typeThing ⟨0⟩ none emit_rowless
  cases hkey

end Rowless

end Session

end PortableImage
