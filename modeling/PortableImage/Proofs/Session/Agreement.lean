import PortableImage.Proofs.Matching
import PortableImage.Proofs.Session.Yields
/-!
# Agreeing actions

Two actions agree if, from states that are alike, both answer, or both fail with the same fault, and
the states they leave are alike again.  As in `Yields`, the states only grow, and what is said of the
two answers counts from then on.  A bond fixes which states are alike and which faults may occur.

Taken twice, one action and one state, agreement is about that action alone: it keeps what makes a
state alike to itself.
-/

namespace PortableImage

structure Bond (τ ε : Type) where
  alike : τ → τ → Prop
  /-- The faults that may occur. -/
  admits : ε → Prop

/-- Where the first property holds of two states that are alike, the actions agree, and their answers
have the second property. -/
def Agrees {τ ε α β : Type} [Preorder τ] (bond : Bond τ ε) (pre : τ × τ → Prop)
    (left : ExceptT ε (StateM τ) α) (right : ExceptT ε (StateM τ) β)
    (post : α → β → τ × τ → Prop) : Prop :=
  ∀ states : τ × τ, bond.alike states.1 states.2 → Always pre states →
    states ≤ ((left states.1).2, (right states.2).2) ∧
    bond.alike (left states.1).2 (right states.2).2 ∧
    Concur bond.admits
      (fun a b => Always (post a b) ((left states.1).2, (right states.2).2))
      (left states.1).1 (right states.2).1

/-- Answers to the same questions agree one by one, and every question has its answers. -/
structure Answered {ι α β : Type} (each : ι → α → β → Prop) (items : List ι) (left : List α)
    (right : List β) : Prop where
  agree : List.Forall₂ (fun a b => ∃ item ∈ items, each item a b) left right
  covered : ∀ item ∈ items, ∃ a ∈ left, ∃ b ∈ right, each item a b

namespace Answered

variable {ι α β : Type} {each : ι → α → β → Prop} {item : ι} {items : List ι} {left : List α}
  {right : List β}

theorem nil : Answered each [] [] [] := ⟨.nil, fun _ hmem => by cases hmem⟩

theorem cons {a : α} {b : β} (hfirst : each item a b) (hrest : Answered each items left right) :
    Answered each (item :: items) (a :: left) (b :: right) where
  agree := .cons ⟨item, List.mem_cons_self, hfirst⟩ (hrest.agree.imp
    fun _ _ ⟨other, hother, heach⟩ => ⟨other, List.mem_cons_of_mem _ hother, heach⟩)
  covered other hother := by
    rcases List.mem_cons.mp hother with rfl | hother
    · exact ⟨a, List.mem_cons_self, b, List.mem_cons_self, hfirst⟩
    · obtain ⟨x, hx, y, hy, heach⟩ := hrest.covered other hother
      exact ⟨x, List.mem_cons_of_mem _ hx, y, List.mem_cons_of_mem _ hy, heach⟩

end Answered

namespace Agrees

variable {τ ε α β γ δ : Type} [Preorder τ] {bond : Bond τ ε} {pre pre' : τ × τ → Prop}
  {left : ExceptT ε (StateM τ) α} {right : ExceptT ε (StateM τ) β}
  {mid post post' : α → β → τ × τ → Prop} {last : γ → δ → τ × τ → Prop}

/-- What it comes to where nothing is presupposed. -/
theorem start (h : Agrees bond (fun _ => True) left right post) {state state' : τ}
    (halike : bond.alike state state') :
    (state, state') ≤ ((left state).2, (right state').2) ∧
      bond.alike (left state).2 (right state').2 ∧
      Concur bond.admits (fun a b => Always (post a b) ((left state).2, (right state').2))
        (left state).1 (right state').1 :=
  h (state, state') halike (always_true _)

theorem pure {a : α} {b : β} (h : ∀ states, pre states → post a b states) :
    Agrees bond pre (pure a : ExceptT ε (StateM τ) α) (pure b : ExceptT ε (StateM τ) β) post :=
  fun states halike hpre =>
    ⟨le_refl states, halike, .ok fun later hlater => h later (hpre later hlater)⟩

theorem throw {fault : ε} (h : bond.admits fault) :
    Agrees bond pre (throw fault : ExceptT ε (StateM τ) α)
      (throw fault : ExceptT ε (StateM τ) β) post :=
  fun states halike _ => ⟨le_refl states, halike, .error h⟩

theorem bind {nextLeft : α → ExceptT ε (StateM τ) γ} {nextRight : β → ExceptT ε (StateM τ) δ}
    (h : Agrees bond pre left right mid)
    (hnext : ∀ a b, Agrees bond (fun states => pre states ∧ mid a b states) (nextLeft a)
      (nextRight b) last) :
    Agrees bond pre (left >>= nextLeft) (right >>= nextRight) last := by
  intro states halike hpre
  obtain ⟨hgrows, hafter, hanswers⟩ := h states halike hpre
  show states ≤ ((ExceptT.bindCont nextLeft (left states.1).1 (left states.1).2).2,
      (ExceptT.bindCont nextRight (right states.2).1 (right states.2).2).2) ∧
    bond.alike (ExceptT.bindCont nextLeft (left states.1).1 (left states.1).2).2
      (ExceptT.bindCont nextRight (right states.2).1 (right states.2).2).2 ∧
    Concur bond.admits
      (fun a b => Always (last a b)
        ((ExceptT.bindCont nextLeft (left states.1).1 (left states.1).2).2,
          (ExceptT.bindCont nextRight (right states.2).1 (right states.2).2).2))
      (ExceptT.bindCont nextLeft (left states.1).1 (left states.1).2).1
      (ExceptT.bindCont nextRight (right states.2).1 (right states.2).2).1
  generalize (left states.1).1 = answer, (right states.2).1 = answer' at hanswers
  cases hanswers with
  | error hfault => exact ⟨hgrows, hafter, .error hfault⟩
  | @ok a b hmid =>
    have hboth : Always (fun states => pre states ∧ mid a b states)
        ((left states.1).2, (right states.2).2) :=
      fun later hlater => ⟨hpre later (hgrows.trans hlater), hmid later hlater⟩
    obtain ⟨hgrows', hlast⟩ := hnext a b _ hafter hboth
    exact ⟨hgrows.trans hgrows', hlast⟩

/-- A fact that does not depend on the states may be used at once. -/
theorem bind_fact {fact : α → β → Prop} {nextLeft : α → ExceptT ε (StateM τ) γ}
    {nextRight : β → ExceptT ε (StateM τ) δ} (h : Agrees bond pre left right fun a b _ => fact a b)
    (hnext : ∀ a b, fact a b → Agrees bond pre (nextLeft a) (nextRight b) last) :
    Agrees bond pre (left >>= nextLeft) (right >>= nextRight) last := by
  refine h.bind fun a b states halike hstates => ?_
  exact hnext a b hstates.now.2 states halike fun later hlater => (hstates later hlater).1

theorem weaken (h : Agrees bond pre left right post) (hpre : ∀ states, pre' states → pre states)
    (hpost : ∀ a b states, pre' states → post a b states → post' a b states) :
    Agrees bond pre' left right post' := by
  intro states halike hstates
  obtain ⟨hgrows, hafter, hanswers⟩ :=
    h states halike fun later hlater => hpre later (hstates later hlater)
  refine ⟨hgrows, hafter, hanswers.imp (fun _ => id) fun a b hpost' later hlater => ?_⟩
  exact hpost a b later (hstates later (hgrows.trans hlater)) (hpost' later hlater)

theorem imp (h : Agrees bond pre left right post)
    (hpost : ∀ a b states, pre states → post a b states → post' a b states) :
    Agrees bond pre left right post' :=
  h.weaken (fun _ => id) hpost

theorem liftBoth {answer : Except ε α} {answer' : Except ε β}
    (h : ∀ states, pre states → Concur bond.admits (fun a b => post a b states) answer answer') :
    Agrees bond pre (liftM answer : ExceptT ε (StateM τ) α)
      (liftM answer' : ExceptT ε (StateM τ) β) post := by
  intro states halike hpre
  cases answer with
  | error fault =>
    cases answer' with
    | ok value => cases h states hpre.now
    | error other =>
      cases h states hpre.now with
      | error hfault => exact throw hfault states halike hpre
  | ok value =>
    cases answer' with
    | error fault => cases h states hpre.now
    | ok other =>
      refine pure (fun later hlater => ?_) states halike hpre
      cases h later hlater with
      | ok hpost => exact hpost

theorem lift {answer : Except ε α} (h : ∀ fault, answer = .error fault → bond.admits fault) :
    Agrees bond pre (liftM answer : ExceptT ε (StateM τ) α)
      (liftM answer : ExceptT ε (StateM τ) α) fun a b _ => a = b ∧ answer = .ok a := by
  apply liftBoth
  intro _ _
  cases answer with
  | ok value => exact .ok ⟨rfl, rfl⟩
  | error fault => exact .error (h fault rfl)

/-- The states before the actions may be referred to. -/
theorem pin (h : ∀ start, Always pre start →
      Agrees bond (fun states => pre states ∧ start ≤ states) left right post) :
    Agrees bond pre left right post :=
  fun states halike hpre =>
    h states hpre states halike fun later hlater => ⟨hpre later hlater, hlater⟩

theorem mapBoth {ι κ : Type} {f : ι → ExceptT ε (StateM τ) α} {g : κ → ExceptT ε (StateM τ) β}
    {items : List ι} {others : List κ} {R : ι → κ → Prop} {each : α → β → τ × τ → Prop}
    (hitems : List.Forall₂ R items others)
    (h : ∀ item other, R item other → Agrees bond pre (f item) (g other) each) :
    Agrees bond pre (items.mapM f) (others.mapM g) fun as bs states =>
      List.Forall₂ (fun a b => each a b states) as bs := by
  induction hitems generalizing pre with
  | nil =>
    rw [List.mapM_nil, List.mapM_nil]
    exact pure fun _ _ => .nil
  | cons hfirst _ ih =>
    rw [List.mapM_cons, List.mapM_cons]
    refine (h _ _ hfirst).bind fun a b => ?_
    refine (ih fun item other hrelated => ?_).bind fun as bs => ?_
    · exact (h item other hrelated).weaken (fun _ => And.left) fun _ _ _ _ => id
    · exact pure fun states hstates => .cons hstates.1.2 hstates.2

theorem mapM {ι : Type} {f : ι → ExceptT ε (StateM τ) α} {g : ι → ExceptT ε (StateM τ) β}
    {items : List ι} {each : ι → α → β → τ × τ → Prop}
    (h : ∀ item ∈ items, Agrees bond pre (f item) (g item) (each item)) :
    Agrees bond pre (items.mapM f) (items.mapM g) fun as bs states =>
      Answered (fun item a b => each item a b states) items as bs := by
  induction items generalizing pre with
  | nil =>
    rw [List.mapM_nil, List.mapM_nil]
    exact pure fun _ _ => Answered.nil
  | cons item items ih =>
    rw [List.mapM_cons, List.mapM_cons]
    refine (h item List.mem_cons_self).bind fun a b => ?_
    refine (ih fun other hother => ?_).bind fun as bs => ?_
    · exact (h other (List.mem_cons_of_mem _ hother)).weaken (fun _ => And.left) fun _ _ _ _ => id
    · exact pure fun states hstates => hstates.2.cons hstates.1.2

theorem foldlM {ι : Type} {f : α → ι → ExceptT ε (StateM τ) α}
    {g : β → ι → ExceptT ε (StateM τ) β} {items : List ι} {start : α} {start' : β}
    (reached : α → β → τ × τ → Prop)
    (hstart : ∀ states, pre states → reached start start' states)
    (hstep : ∀ a b, ∀ item ∈ items, Agrees bond (fun states => pre states ∧ reached a b states)
      (f a item) (g b item) reached) :
    Agrees bond pre (items.foldlM f start) (items.foldlM g start') reached := by
  induction items generalizing start start' pre with
  | nil => exact pure hstart
  | cons item items ih =>
    rw [List.foldlM_cons, List.foldlM_cons]
    have hfirst := (hstep start start' item List.mem_cons_self).weaken
      (fun states hpre => ⟨hpre, hstart states hpre⟩) fun _ _ _ _ => id
    refine hfirst.bind fun a b => ih (fun _ h => h.2) fun x y other hother => ?_
    exact (hstep x y other (List.mem_cons_of_mem _ hother)).weaken
      (fun _ h => ⟨h.1.1, h.2⟩) fun _ _ _ _ => id

end Agrees

end PortableImage
