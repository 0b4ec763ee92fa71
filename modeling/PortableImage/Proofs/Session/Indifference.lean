import PortableImage.Proofs.Session.Expanding
import PortableImage.Proofs.Session.Parts
/-!
# What work does not look at

Two actions correspond if from related states they give the same answer and leave related states.  An
action that corresponds to itself is *indifferent* to what related states differ in.  Other than for
agreement the answers are equal, handles and faults included, and nothing is said about growth.

Answering, compiling and expanding look at a workspace through planning and rulings only.  So a
relation that these do not see through, nothing that builds on them sees through.
-/

namespace PortableImage

open PortableImage.Graph (Handle)

def Corresponds {τ ε α : Type} (related : τ → τ → Prop) (left right : ExceptT ε (StateM τ) α) :
    Prop :=
  ∀ state other, related state other →
    (left state).1 = (right other).1 ∧ related (left state).2 (right other).2

abbrev Indifferent {τ ε α : Type} (related : τ → τ → Prop) (action : ExceptT ε (StateM τ) α) :
    Prop :=
  Corresponds related action action

namespace Corresponds

variable {τ ε α β ι : Type} {related : τ → τ → Prop} {left right : ExceptT ε (StateM τ) α}

theorem pure (value : α) : Indifferent related (pure value : ExceptT ε (StateM τ) α) :=
  fun _ _ h => ⟨rfl, h⟩

theorem throw (fault : ε) : Indifferent related (throw fault : ExceptT ε (StateM τ) α) :=
  fun _ _ h => ⟨rfl, h⟩

theorem lift (answer : Except ε α) : Indifferent related (liftM answer : ExceptT ε (StateM τ) α) :=
  fun _ _ h => by cases answer <;> exact ⟨rfl, h⟩

theorem bind {next next' : α → ExceptT ε (StateM τ) β} (h : Corresponds related left right)
    (hnext : ∀ value, Corresponds related (next value) (next' value)) :
    Corresponds related (left >>= next) (right >>= next') := by
  intro state other hrelated
  obtain ⟨hanswer, hafter⟩ := h state other hrelated
  cases hleft : left state with
  | mk answer later =>
    cases hright : right other with
    | mk answer' later' =>
      rw [hleft, hright] at hanswer hafter
      obtain rfl : answer = answer' := hanswer
      cases answer with
      | ok value =>
        rw [bind_of_ok hleft, bind_of_ok hright]
        exact hnext value later later' hafter
      | error fault =>
        rw [bind_of_error hleft, bind_of_error hright]
        exact ⟨rfl, hafter⟩

theorem mapM {f g : ι → ExceptT ε (StateM τ) α} {items : List ι}
    (h : ∀ item ∈ items, Corresponds related (f item) (g item)) :
    Corresponds related (items.mapM f) (items.mapM g) := by
  induction items with
  | nil =>
    rw [List.mapM_nil, List.mapM_nil]
    exact pure _
  | cons item items ih =>
    rw [List.mapM_cons, List.mapM_cons]
    refine (h item List.mem_cons_self).bind fun value => ?_
    refine (ih fun other hother => h other (List.mem_cons_of_mem _ hother)).bind fun values => ?_
    exact pure _

end Corresponds

/-- If both actions answer from related states, then the states they leave are related, and so are the
answers, in their own way. -/
def Parallel {τ ε α β : Type} (related : τ → τ → Prop) (left : ExceptT ε (StateM τ) α)
    (right : ExceptT ε (StateM τ) β) (post : α → β → Prop) : Prop :=
  ∀ state other, related state other → ∀ a state' b other', left state = (.ok a, state') →
    right other = (.ok b, other') → related state' other' ∧ post a b

namespace Parallel

variable {τ ε α β γ δ ι : Type} {related : τ → τ → Prop} {left : ExceptT ε (StateM τ) α}
  {right : ExceptT ε (StateM τ) β} {mid post : α → β → Prop} {last : γ → δ → Prop}

theorem pure {a : α} {b : β} (h : post a b) : Parallel related
    (pure a : ExceptT ε (StateM τ) α) (pure b : ExceptT ε (StateM τ) β) post := by
  intro state other hrelated _ _ _ _ hleft hright
  cases hleft
  cases hright
  exact ⟨hrelated, h⟩

theorem bind {next : α → ExceptT ε (StateM τ) γ} {next' : β → ExceptT ε (StateM τ) δ}
    (h : Parallel related left right mid)
    (hnext : ∀ a b, mid a b → Parallel related (next a) (next' b) last) :
    Parallel related (left >>= next) (right >>= next') last := by
  intro state other hrelated a state' b other' hleft hright
  obtain ⟨first, middle, hfirst, hthen⟩ := bind_eq_ok hleft
  obtain ⟨first', middle', hfirst', hthen'⟩ := bind_eq_ok hright
  obtain ⟨hmiddle, hmid⟩ := h state other hrelated _ _ _ _ hfirst hfirst'
  exact hnext first first' hmid middle middle' hmiddle _ _ _ _ hthen hthen'

theorem imp {post' : α → β → Prop} (h : Parallel related left right post)
    (hpost : ∀ a b, post a b → post' a b) : Parallel related left right post' := by
  intro state other hrelated a state' b other' hleft hright
  obtain ⟨hafter, hanswers⟩ := h state other hrelated a state' b other' hleft hright
  exact ⟨hafter, hpost a b hanswers⟩

theorem lift {answer : Except ε α} {answer' : Except ε β}
    (h : ∀ a b, answer = .ok a → answer' = .ok b → post a b) : Parallel related
      (liftM answer : ExceptT ε (StateM τ) α) (liftM answer' : ExceptT ε (StateM τ) β) post := by
  cases answer with
  | error fault => exact fun _ _ _ _ _ _ _ hleft _ => by cases hleft
  | ok a =>
    cases answer' with
    | error fault => exact fun _ _ _ _ _ _ _ _ hright => by cases hright
    | ok b => exact pure (h a b rfl rfl)

theorem lift_self {answer : Except ε α} : Parallel related
    (liftM answer : ExceptT ε (StateM τ) α) (liftM answer : ExceptT ε (StateM τ) α)
      fun a b => a = b ∧ answer = .ok a :=
  lift fun _ _ ha hb => ⟨Except.ok.inj (ha.symm.trans hb), ha⟩

theorem of_corresponds {right : ExceptT ε (StateM τ) α} (h : Corresponds related left right) :
    Parallel related left right Eq := by
  intro state other hrelated a state' b other' hleft hright
  obtain ⟨hanswer, hafter⟩ := h state other hrelated
  rw [hleft, hright] at hanswer hafter
  exact ⟨hafter, Except.ok.inj hanswer⟩

/-- The answers are related after every prefix of the items. -/
theorem foldlM {f : α → ι → ExceptT ε (StateM τ) α} {g : β → ι → ExceptT ε (StateM τ) β}
    {items : List ι} (reached : List ι → α → β → Prop)
    (hstep : ∀ done item rest a b, items = done ++ item :: rest → reached done a b →
      Parallel related (f a item) (g b item) (reached (done ++ [item])))
    {start : α} {start' : β} (hstart : reached [] start start') :
    Parallel related (items.foldlM f start) (items.foldlM g start') (reached items) := by
  suffices hrest : ∀ rest done start start', items = done ++ rest → reached done start start' →
      Parallel related (rest.foldlM f start) (rest.foldlM g start') (reached items) from
    hrest items [] start start' rfl hstart
  intro rest
  induction rest with
  | nil =>
    intro done start start' hitems hreached
    rw [List.append_nil] at hitems
    exact pure (hitems ▸ hreached)
  | cons item rest ih =>
    intro done start start' hitems hreached
    rw [List.foldlM_cons, List.foldlM_cons]
    refine (hstep done item rest start start' hitems hreached).bind fun a b hnext => ?_
    refine ih (done ++ [item]) a b ?_ hnext
    rw [hitems, List.append_assoc]
    rfl

end Parallel

/-- Planning is indifferent to what the creation of nodes and the questions to the ledger are
indifferent to. -/
theorem Drafting.Made.indifferent {setting : Setting} {requester : ArtifactKey}
    {related : Draft → Draft → Prop} (hnode : ∀ key, Indifferent related (Drafting.node key))
    (hissue : ∀ entity origin,
      Indifferent related (Drafting.issueFor setting requester entity origin))
    {α : Type} {drafting : Drafting α} (h : Made setting requester drafting) :
    Indifferent related drafting := by
  induction h with
  | pure value => exact Corresponds.pure value
  | throw _ => exact Corresponds.throw _
  | node key => exact hnode key
  | issueFor entity origin => exact hissue entity origin
  | bind _ _ ih ihnext => exact ih.bind ihnext

variable {setting : Setting} {related : Workspace → Workspace → Prop}

/-- Planning and ruling do not see what related workspaces differ in, nor does it matter for the code
that is kept. -/
structure Workspace.Hides (setting : Setting) (related : Workspace → Workspace → Prop) : Prop where
  planning : ∀ {α : Type} (requester : ArtifactKey) (drafting : Drafting α),
    Drafting.Made setting requester drafting → Indifferent related (plan drafting)
  keyOf : ∀ node, Indifferent related (plan (Drafting.keyOf node))
  rule : ∀ method, Indifferent related (rule setting method)
  keep : ∀ left right node compiled, related left right →
    related (left.keep node compiled) (right.keep node compiled)

/-- Desks in related workspaces, with the same noted. -/
structure Desk.Related (related : Workspace → Workspace → Prop) (left right : Desk) : Prop where
  workspace : related left.workspace right.workspace
  noted : left.noted = right.noted

namespace Answering

variable {method : Entity}

theorem corresponds_work {α : Type} {left right : Working α} (h : Corresponds related left right) :
    Corresponds (Desk.Related related) (work left) (work right) := by
  intro desk other hdesks
  obtain ⟨hanswer, hafter⟩ := h desk.workspace other.workspace hdesks.workspace
  exact ⟨hanswer, hafter, hdesks.noted⟩

theorem indifferent_note (node : Handle) (reason : String) :
    Indifferent (Desk.Related related) (note node reason) := by
  intro desk other hdesks
  refine ⟨rfl, hdesks.workspace, ?_⟩
  show desk.noted ++ [⟨node, reason⟩] = other.noted ++ [⟨node, reason⟩]
  rw [hdesks.noted]

variable (h : Workspace.Hides setting related)
include h

theorem Made.indifferent {α : Type} {answering : Answering α} (hmade : Made setting method answering) :
    Indifferent (Desk.Related related) answering := by
  induction hmade with
  | pure value => exact Corresponds.pure value
  | throw _ => exact Corresponds.throw _
  | note node reason => exact indifferent_note node reason
  | plan hdrafting => exact corresponds_work (h.planning _ _ hdrafting)
  | rule callee => exact corresponds_work (h.rule callee)
  | bind _ _ ih ihnext => exact ih.bind ihnext

/-- A request to stop is left out: it raises the flag, which the relation may be about. -/
theorem indifferent_reply {question : Question} (hquestion : question ≠ .cancel) {left right : Desk}
    (hdesks : Desk.Related related left right) :
    (reply setting method question left).1 = (reply setting method question right).1 ∧
      Desk.Related related (reply setting method question left).2
        (reply setting method question right).2 := by
  cases question with
  | portable token => exact (made_portable token).indifferent h left right hdesks
  | call token mode => exact (made_call token mode).indifferent h left right hdesks
  | describe token => exact (made_describe token).indifferent h left right hdesks
  | allocate token => exact (made_allocate token).indifferent h left right hdesks
  | locate token => exact (made_locate token).indifferent h left right hdesks
  | ruling token => exact (made_ruling token).indifferent h left right hdesks
  | helper name =>
    obtain ⟨hanswer, hafter⟩ := (@made_artifact setting method (.helperCell name)
      "helper call").indifferent h left right hdesks
    exact ⟨Except.ok.inj hanswer, hafter⟩
  | cancel => exact absurd rfl hquestion

end Answering

theorem Dialogue.hold_ask {α σ : Type} (reply : (question : Question) → StateM σ question.Reply)
    (question : Question) (next : question.Reply → Dialogue α) (state : σ) :
    (ask question next).hold reply state =
      (next (reply question state).1).hold reply (reply question state).2 := rfl

/-- Dialogues that come to the same from related workspaces make methods that are compiled alike. -/
theorem Compiler.corresponds_converse {compiler other : Compiler} {method : Entity}
    {body : MethodBody} (h : ∀ left right, related left right →
      (compiler.held setting method body left).1 = (other.held setting method body right).1 ∧
        Desk.Related related (compiler.held setting method body left).2
          (other.held setting method body right).2) :
    Corresponds related (compiler.converse setting method body)
      (other.converse setting method body) := by
  intro left right hrelated
  obtain ⟨hanswer, hdesks⟩ := h left right hrelated
  rw [converse_eq, converse_eq, hanswer, hdesks.noted]
  cases (other.held setting method body right).1 with
  | ok layout => exact ⟨rfl, hdesks.workspace⟩
  | error fault => exact ⟨rfl, hdesks.workspace⟩

section Compiling

variable (h : Workspace.Hides setting related) {compiler other : Compiler}
  (hconverse : ∀ method body, Corresponds related (compiler.converse setting method body)
    (other.converse setting method body))
include h hconverse

theorem Compiler.corresponds_compile (node : Handle) :
    Corresponds related (compiler.compile setting node) (other.compile setting node) := by
  refine (h.keyOf node).bind fun key => ?_
  cases key with
  | methodCode method =>
    dsimp only
    cases setting.body? method with
    | none => exact Corresponds.throw _
    | some body =>
      refine (hconverse method body).bind fun compiled => ?_
      cases misplaced? compiled.toLayout with
      | none => exact Corresponds.pure _
      | some relocation => exact Corresponds.throw _
  | _ => exact Corresponds.throw _

theorem Session.corresponds_expand (node : Handle) :
    Corresponds related (expand compiler setting node) (expand other setting node) := by
  refine (h.keyOf node).bind fun key => ?_
  refine (h.planning key _ (Drafting.made_needs key)).bind fun expansion => ?_
  cases key with
  | methodCode method =>
    refine (Compiler.corresponds_compile h hconverse node).bind fun compiled => ?_
    have hkeep : Indifferent related (modify (·.keep node compiled) : Working Unit) :=
      fun left right hrelated => ⟨rfl, h.keep left right node compiled hrelated⟩
    exact hkeep.bind fun _ => Corresponds.pure _
  | _ => exact Corresponds.pure _

end Compiling

end PortableImage
