import PortableImage.Proofs.Portable.LedgerHistories
import PortableImage.Proofs.Session.Furnishing
import PortableImage.Proofs.Session.ListedTokens
import PortableImage.Proofs.Session.UsedSlots
/-!
# Callees that are not virtual

A call of a method that is not virtual can reach this method only, whichever instruction makes it.
A direct call brings the code of the method into the image.  So does a dispatched one if the bubble
is closed, because the call is ruled on then.  In an open bubble nothing is ruled on: the dispatched
call relies on a stub and on the signature of the method, and since there is no slot whose use could
be noted, it does nothing for the code.
-/

namespace PortableImage

open Relation (ReflTransGen)
open PortableImage.Graph (Arena Handle)

namespace Program

variable {program : Program} {bubble : Bubble} {entity : Entity}

/-- Where the bubble is closed a method that is not virtual is ruled on, and elsewhere nothing is. -/
theorem rule_of_not_isVirtual (hinside : bubble.contains entity)
    (hmethod : (program.method? entity).isSome) (hplain : program.isVirtual entity = false) :
    program.rule bubble entity = if bubble.closed then .monomorphic entity else .unknown := by
  obtain ⟨description, hdescription⟩ := Option.isSome_iff_exists.mp hmethod
  have hvirtual : description.isVirtual = false := by
    rwa [isVirtual, hdescription] at hplain
  cases hclosed : bubble.closed <;> simp [rule, hclosed, hinside, hdescription, hvirtual]

end Program

/-- A method of the bubble that is registered with a body and is not virtual. -/
structure Setting.Plain (setting : Setting) (method : Entity) : Prop where
  kind : method.kind? = some .method
  inside : setting.bubble.contains method
  registered : setting.program.contains method
  body : setting.hasBody method
  notVirtual : setting.program.isVirtual method = false

theorem Setting.Plain.rule_eq {setting : Setting} {method : Entity} (h : setting.Plain method) :
    setting.program.rule setting.bubble method =
      if setting.bubble.closed then .monomorphic method else .unknown := by
  have hmethod := h.registered
  rw [Program.contains, h.kind] at hmethod
  exact Program.rule_of_not_isVirtual h.inside hmethod h.notVirtual

section Rulings

variable {setting : Setting} {before after : Workspace}

/-- All rulings in the workspace are those of the program. -/
def Workspace.Ruled (setting : Setting) (workspace : Workspace) : Prop :=
  ∀ method ruling, workspace.store.rulings.find? method = some ruling →
    setting.program.rule setting.bubble method = ruling

namespace Workspace

theorem Ruled.step (hruled : before.Ruled setting) (h : Step setting before after) :
    after.Ruled setting := by
  cases h with
  | plan hplan => exact hruled
  | rule method => exact (setting.program.ruled_consult hruled method).2
  | cancel => exact hruled

theorem Ruled.steps (hruled : before.Ruled setting) (h : ReflTransGen (Step setting) before after) :
    after.Ruled setting :=
  kept_of_steps _ h (fun _ _ hstep hruled => hruled.step hstep) hruled

end Workspace

/-- The desk at which a question is asked has come about by steps. -/
theorem Dialogue.steps_asked {method : Entity} {dialogue : Dialogue (Except Fault Layout)}
    {start desk : Desk} {question : Question}
    (h : (question, desk) ∈ dialogue.asked (Answering.reply setting method) start) :
    ReflTransGen (Desk.Step setting) start desk := by
  induction dialogue generalizing start with
  | result answer => cases h
  | ask first next ih =>
    rcases List.mem_cons.mp h with hfirst | hlater
    · cases hfirst
      exact .refl
    · exact (Answering.steps_reply setting method first start).trans (ih _ hlater)

namespace Session

variable {session finished : Session} {program : Program} {image : Image} {method : Entity}
  {question : Question} {desk : Desk}

theorem ruled_of_inquiry {compiler : Compiler} {node : Handle} (horderly : before.Orderly setting)
    (h : (method, question, desk) ∈ inquiries compiler setting node before) :
    desk.workspace.Ruled setting := by
  obtain ⟨_, planned, _, _, hneeds, _, hasked⟩ := exists_asked_of_inquiry h
  have hplanned : planned.Ruled setting := (needs_orderly horderly hneeds).1.ruled
  exact hplanned.steps (Desk.workspace_steps (Dialogue.steps_asked hasked))

/-- In a session that comes to its image, whatever is asked is asked where all rulings are those of
the program. -/
theorem ruled_of_transcript (hfresh : session.Fresh program)
    (h : session.emit program = (.ok (.completed image), finished))
    (hasked : (method, question, desk) ∈ session.transcript program) :
    desk.workspace.Ruled (session.setting program) := by
  obtain ⟨_, hanalyse, _⟩ := exists_emission_of_emit h
  obtain ⟨_, hanalysed⟩ := analysed_of_analyse hfresh hanalyse
  obtain ⟨survey, hsurvey, hinquiry⟩ := List.mem_flatMap.mp hasked
  exact ruled_of_inquiry (hanalysed.tracked.surveyed survey hsurvey) hinquiry

end Session

end Rulings

namespace Drafting

variable {setting : Setting} {callee : Entity}

theorem exists_issueFor {kind : DefinitionKind} {entity : Entity}
    (hinside : setting.bubble.contains entity) (hkind : entity.kind? = some kind)
    (hregistered : setting.program.contains entity) (requester : ArtifactKey)
    (origin : ModuleIndex) (draft : Draft) :
    ∃ token ledger,
      issueFor setting requester entity origin draft = (.ok token, { draft with ledger }) := by
  obtain ⟨given, hgiven⟩ := Program.exists_portableToken hinside hkind hregistered origin
  have hissue : ∃ token ledger,
      draft.ledger.issue setting.program setting.bubble entity origin = (.ok token, ledger) := by
    rcases Ledger.issue_cases setting.program setting.bubble entity origin draft.ledger with
      ⟨token, _, hissue⟩ | ⟨token, _, _, hissue⟩ | ⟨fault, hfault, _⟩
    · exact ⟨token, _, hissue⟩
    · exact ⟨token, _, hissue⟩
    · rw [hgiven] at hfault
      cases hfault
  obtain ⟨token, ledger, hissue⟩ := hissue
  have hanswer : issue setting entity origin draft = (.ok token, { draft with ledger }) := by
    rw [issue, hissue]
  exact ⟨token, ledger, tryCatch_of_ok hanswer⟩

/-- A reference to a method of the bubble is made valid by its code, if it has a body. -/
theorem anchor_eq_of_plain (h : setting.Plain callee) (requester : ArtifactKey)
    (origin : ModuleIndex) (draft : Draft) :
    ∃ ledger, anchor setting requester callee origin draft =
      node (.methodCode callee) { draft with ledger } := by
  obtain ⟨token, ledger, hissue⟩ :=
    exists_issueFor h.inside h.kind h.registered requester origin draft
  refine ⟨ledger, ?_⟩
  rw [anchor, anchorAmong, bind_of_ok hissue]
  simp only [h.inside, h.kind, h.body, if_true]

end Drafting

/-- From one desk to the other, these artifacts have been noted. -/
def Desk.Notes (before : Desk) (keys : List ArtifactKey) (after : Desk) : Prop :=
  ∃ added, after.noted = before.noted ++ added ∧
    added.map (fun dependency => after.workspace.arena.key? dependency.target) = keys.map some

theorem Desk.Notes.exists_of_mem {before after : Desk} {keys : List ArtifactKey} {key : ArtifactKey}
    (h : before.Notes keys after) (hkey : key ∈ keys) : ∃ dependency ∈ after.noted,
      after.workspace.arena.key? dependency.target = some key := by
  obtain ⟨added, hadded, hkeys⟩ := h
  have hmem := List.mem_map_of_mem (f := some) hkey
  rw [← hkeys] at hmem
  obtain ⟨dependency, hdependency, hfound⟩ := List.mem_map.mp hmem
  exact ⟨dependency, hadded ▸ List.mem_append_right _ hdependency, hfound⟩

/-- What a call of a plain method relies on. -/
def Bubble.calleeKeys (bubble : Bubble) (mode : CallMode) (callee : Entity) : List ArtifactKey :=
  if mode = .direct ∨ bubble.closed then [.methodCode callee]
  else [.helperCell .delayLoadVirtualCall, .signature callee]

namespace Answering

variable {setting : Setting} {callee : Entity}

/-- A reference to a plain method notes its code, and points to it. -/
theorem reference_of_plain (h : setting.Plain callee) (method : Entity) (reason : String)
    (desk : Desk) : ∃ node later,
      reference setting method callee reason desk = (.ok (.node node), later) ∧
      desk.Notes [.methodCode callee] later ∧
      later.workspace.arena.key? node = some (.methodCode callee) := by
  obtain ⟨ledger, hplan⟩ := Drafting.anchor_eq_of_plain h (.methodCode method) method.module
    desk.workspace.draft
  have hkey := Arena.key?_intern desk.workspace.arena (.methodCode callee)
  generalize hinterned : desk.workspace.arena.intern (.methodCode callee) = interned at hkey
  have hanchor : anchor setting method callee desk =
      (.ok interned.1, { desk with workspace := desk.workspace.withDraft ⟨ledger, interned.2⟩ }) := by
    rw [anchor, plan, work, Workspace.plan, hplan, ← hinterned]
    rfl
  rw [reference, bind_of_ok hanchor]
  exact ⟨_, _, rfl, ⟨[_], rfl, congrArg (fun key => [key]) hkey⟩, hkey⟩

/-- A dispatched call of a plain method that is not ruled on notes the stub and the signature of the
method, and points to the signature. -/
theorem dispatchedCall_of_plain (h : setting.Plain callee) (method : Entity) (desk : Desk) :
    ∃ node later, dispatchedCall setting method callee desk = (.ok (.node node), later) ∧
      desk.Notes [.helperCell .delayLoadVirtualCall, .signature callee] later ∧
      later.workspace.arena.key? node = some (.signature callee) := by
  have huse : noteUse setting callee desk = (.ok (), desk) := by
    rw [noteUse, if_neg (by rw [h.notVirtual]; exact Bool.false_ne_true)]
    rfl
  have hsignature := Arena.key?_intern desk.workspace.arena (.signature callee)
  have htarget : stubTarget setting method callee desk =
      (.ok (desk.workspace.arena.intern (.signature callee)).1, { desk with
        workspace := { desk.workspace with
          arena := (desk.workspace.arena.intern (.signature callee)).2 } }) := by
    rw [stubTarget, if_pos h.inside]
    rfl
  generalize desk.workspace.arena.intern (.signature callee) = target at hsignature htarget
  have hstub := Arena.key?_intern target.2 (.helperCell .delayLoadVirtualCall)
  have hkept := Arena.Grows.keeps (Arena.Grows.intern target.2 (.helperCell .delayLoadVirtualCall))
    target.1 _ hsignature
  rw [dispatchedCall, bind_of_ok huse, bind_of_ok htarget]
  refine ⟨target.1, _, rfl, ⟨[_, _], List.append_assoc .., ?_⟩, hkept⟩
  exact congrArg₂ (fun stub signature => [stub, signature]) hstub hkept

theorem reply_call_of_plain (h : setting.Plain callee) {method : Entity} {token : Token}
    (hmeaning : setting.program.meaning method.module token = .ok callee) {desk : Desk}
    (hruled : desk.workspace.Ruled setting) (mode : CallMode) :
    ∃ node later, reply setting method (.call token mode) desk = (.ok (.node node), later) ∧
      desk.Notes (setting.bubble.calleeKeys mode callee) later ∧
      later.workspace.arena.key? node = (setting.bubble.calleeKeys mode callee).getLast? := by
  have hentity := entity_of_meaning setting method hmeaning h.kind desk
  cases mode with
  | direct =>
    have hcall : reply setting method (.call token .direct) desk =
        reference setting method callee "direct call" desk := bind_of_ok hentity
    rw [hcall, Bubble.calleeKeys, if_pos (.inl rfl)]
    exact reference_of_plain h method _ desk
  | dispatched =>
    have hruling := (setting.program.ruled_consult hruled callee).1.symm.trans h.rule_eq
    -- Ruling leaves what has been noted, so the notes are counted from the same point.
    by_cases hclosed : setting.bubble.closed
    · rw [if_pos hclosed] at hruling
      have hrule : work (Workspace.rule setting callee) desk =
          (.ok (.monomorphic callee), (work (Workspace.rule setting callee) desk).2) :=
        Prod.ext (congrArg Except.ok hruling) rfl
      have hcall : reply setting method (.call token .dispatched) desk =
          reference setting method callee "devirtualized call"
            (work (Workspace.rule setting callee) desk).2 :=
        (bind_of_ok hentity).trans (bind_of_ok hrule)
      rw [hcall, Bubble.calleeKeys, if_pos (.inr hclosed)]
      exact reference_of_plain h method _ _
    · rw [if_neg hclosed] at hruling
      rw [reply_dispatched_of_unknown setting method hmeaning h.kind hruling, Bubble.calleeKeys,
        if_neg (by simp [hclosed])]
      exact dispatchedCall_of_plain h method _

end Answering

namespace Session

/-- A call of a plain method, which the backend asks for at a desk in the course of the session. -/
structure PlainCall (session : Session) (program : Program) (method : Entity) (token : Token)
    (mode : CallMode) (callee : Entity) (desk : Desk) : Prop where
  asked : (method, .call token mode, desk) ∈ session.transcript program
  meaning : program.meaning method.module token = .ok callee
  plain : (session.setting program).Plain callee

/-- A call of a plain method is answered, what the call relies on is all that is noted for it, and
this is in the image: the code of the method, unless the call is dispatched in an open bubble. -/
theorem exists_reply_of_plainCall {session finished : Session} {program : Program} {image : Image}
    {method callee : Entity} {token : Token} {mode : CallMode} {desk : Desk}
    (hfresh : session.Fresh program)
    (h : session.emit program = (.ok (.completed image), finished))
    (hcall : session.PlainCall program method token mode callee desk) :
    ∃ node later, Answering.reply (session.setting program) method (.call token mode) desk =
        (.ok (.node node), later) ∧
      desk.Notes (session.bubble.calleeKeys mode callee) later ∧
      later.workspace.arena.key? node = (session.bubble.calleeKeys mode callee).getLast? ∧
      ∀ key ∈ session.bubble.calleeKeys mode callee, key ∈ image.keys := by
  obtain ⟨_, _, hfinished⟩ := finished_of_emit hfresh.untouched h
  have hruled := ruled_of_transcript hfresh h hcall.asked
  obtain ⟨node, later, hreply, hnotes, hnode⟩ :=
    Answering.reply_call_of_plain hcall.plain hcall.meaning hruled mode
  refine ⟨node, later, hreply, hnotes, hnode, fun key hkey => ?_⟩
  obtain ⟨dependency, hnoted, hfound⟩ := hnotes.exists_of_mem hkey
  exact hfinished.mem_keys_of_reply hcall.asked (by rwa [hreply]) (by rwa [hreply])

section Greetings

def greet : Entity := ⟨⟨0⟩, ⟨0x06000002⟩⟩
def leave : Entity := ⟨⟨0⟩, ⟨0x06000003⟩⟩

/-- The main method calls two methods that are not virtual, the first as if it were. -/
def greetingRegistrations : List Registration :=
  [.module "App" "/App.dll",
    .type { id := typeProgram, name := "Program" },
    .method { id := main, owner := typeProgram, name := "Main",
              body := some { code := [0x6f, 2, 0, 0, 6, 0x28, 3, 0, 0, 6, 0x2a] } },
    .method { id := greet, owner := typeProgram, name := "Greet", body := some { code := [0x2a] } },
    .method { id := leave, owner := typeProgram, name := "Leave", body := some { code := [0x2a] } }]

def greetings : Program := (Program.assemble greetingRegistrations).toOption.getD {}

theorem assemble_greetings : Program.assemble greetingRegistrations = .ok greetings := rfl

def greetingOrder : Order where
  bubble := ⟨[⟨0⟩], false⟩
  input := "/App.dll"
  backend := some (Bytecode.backend "bytes")
  roots := [.method main]

def greetingSession : Session where
  bubble := greetingOrder.bubble
  bodies := .declared
  compiler := ⟨Bytecode.backend "bytes", .ofParts .blended []⟩
  roots := greetingOrder.roots

theorem build_greetings : greetingOrder.build greetings = .ok greetingSession := by
  have hinput : greetings.moduleAt? greetingOrder.input = some ⟨0⟩ := by
    have hmodules : greetings.modules = [⟨"App", "/App.dll"⟩] := rfl
    simp [Program.moduleAt?, Program.findModule?, hmodules, greetingOrder]
  have hknown : greetingOrder.roots.find? (fun root =>
      !root.isKnown greetings greetingOrder.bubble) = none := by decide +kernel
  have hroots : greetingOrder.effectiveRoots ⟨0⟩ = greetingOrder.roots := rfl
  unfold Order.build
  simp only [hinput, hroots, hknown]
  rfl

theorem emit_greetings : ∃ image finished,
    greetingSession.emit greetings = (.ok (.completed image), finished) ∧
    image.keys =
      [.methodCode main, .methodCode leave, .typeLayout typeProgram, .signature greet,
        .helperCell .delayLoadVirtualCall] :=
  exists_image_of_keys (by cbv)

theorem exists_plainCall_greetings {callee : Entity} {mode : CallMode}
    (hasked : ((greetingSession.transcript greetings).any fun inquiry =>
      inquiry.1 = main && inquiry.2.1 = .call callee.token mode) = true)
    (hmeaning : greetings.meaning main.module callee.token = .ok callee)
    (hplain : (greetingSession.setting greetings).Plain callee) :
    ∃ desk, greetingSession.PlainCall greetings main callee.token mode callee desk := by
  obtain ⟨⟨method, question, desk⟩, hmem, htest⟩ := List.any_eq_true.mp hasked
  simp only [Bool.and_eq_true, decide_eq_true_eq] at htest
  obtain ⟨rfl, rfl⟩ := htest
  exact ⟨desk, hmem, hmeaning, hplain⟩

theorem plain_greet : (greetingSession.setting greetings).Plain greet :=
  ⟨by decide +kernel, by decide +kernel, by decide +kernel, by decide +kernel, by decide +kernel⟩

theorem plain_leave : (greetingSession.setting greetings).Plain leave :=
  ⟨by decide +kernel, by decide +kernel, by decide +kernel, by decide +kernel, by decide +kernel⟩

theorem plainCall_greet : ∃ desk,
    greetingSession.PlainCall greetings main greet.token .dispatched greet desk :=
  exists_plainCall_greetings (by cbv) (by decide +kernel) plain_greet

theorem plainCall_leave : ∃ desk,
    greetingSession.PlainCall greetings main leave.token .direct leave desk :=
  exists_plainCall_greetings (by cbv) (by decide +kernel) plain_leave

/-- The direct call has its callee compiled; the dispatched one has a stub and a signature. -/
theorem exists_reply_of_plainCall_greetings : ∃ image finished,
    greetingSession.Fresh greetings ∧
    greetingSession.emit greetings = (.ok (.completed image), finished) ∧
    (∃ desk, greetingSession.PlainCall greetings main leave.token .direct leave desk) ∧
    (∃ desk, greetingSession.PlainCall greetings main greet.token .dispatched greet desk) ∧
    .methodCode leave ∈ image.keys ∧ .helperCell .delayLoadVirtualCall ∈ image.keys ∧
    .signature greet ∈ image.keys := by
  obtain ⟨image, finished, hemit, _⟩ := emit_greetings
  have hfresh := fresh_of_build build_greetings
  obtain ⟨desk, hleave⟩ := plainCall_leave
  obtain ⟨desk', hgreet⟩ := plainCall_greet
  obtain ⟨_, _, _, _, _, hdirect⟩ := exists_reply_of_plainCall hfresh hemit hleave
  obtain ⟨_, _, _, _, _, hdispatched⟩ := exists_reply_of_plainCall hfresh hemit hgreet
  exact ⟨image, finished, hfresh, hemit, ⟨desk, hleave⟩, ⟨desk', hgreet⟩,
    hdirect _ (by decide), hdispatched _ (by decide), hdispatched _ (by decide)⟩

/-- The code of a method that is called as if it were virtual does not get into the image. -/
theorem not_forall_compiled :
    ¬ ∀ (registrations : List Registration) (program : Program) (order : Order)
      (session finished : Session) (image : Image) (method callee : Entity) (token : Token)
      (mode : CallMode) (desk : Desk),
      Program.assemble registrations = .ok program → order.build program = .ok session →
      session.emit program = (.ok (.completed image), finished) →
      session.PlainCall program method token mode callee desk →
      .methodCode callee ∈ image.keys := by
  intro h
  obtain ⟨image, finished, hemit, hkeys⟩ := emit_greetings
  obtain ⟨desk, hgreet⟩ := plainCall_greet
  have hcode := h _ _ _ _ finished image _ _ _ _ desk assemble_greetings build_greetings hemit hgreet
  rw [hkeys] at hcode
  revert hcode
  decide

end Greetings

end Session

end PortableImage
