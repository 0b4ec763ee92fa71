import PortableImage.Proofs.Graph.Growth
import PortableImage.Backend.Replies
import Mathlib.Order.Basic
/-!
# What work yields

Work on a draft, in a workspace or at a desk may fail, and it only lets the state grow.  States are
ordered by growth, and a fact counts only if growth cannot undo it.  `Yields` says of an action that
it lets the state grow and that its answer, if it has one, is worth something from then on.
-/

namespace PortableImage

open PortableImage.Graph (Arena Dependency Expansion Handle Site)

instance {κ : Type} : Preorder (Arena κ) where
  le := Arena.Grows
  le_refl := Arena.Grows.refl
  le_trans _ _ _ := Arena.Grows.trans

instance {κ σ : Type} : Preorder (Site κ σ) := Preorder.lift Site.arena

instance : Preorder Draft := Preorder.lift Draft.arena

/-- A property holds from a state on. -/
def Always {τ : Type} [Preorder τ] (property : τ → Prop) (state : τ) : Prop :=
  ∀ later, state ≤ later → property later

/-- Where the first property holds, the action lets the state grow, and its answer has the second
property. -/
def Yields {τ ε α : Type} [Preorder τ] (pre : τ → Prop) (action : ExceptT ε (StateM τ) α)
    (post : α → τ → Prop) : Prop :=
  ∀ state, Always pre state → state ≤ (action state).2 ∧
    ∀ value, (action state).1 = .ok value → Always (post value) (action state).2

section Always

variable {τ : Type} [Preorder τ] {property : τ → Prop} {state later : τ}

theorem Always.now (h : Always property state) : property state := h state le_rfl

theorem Always.mono (h : Always property state) (hle : state ≤ later) : Always property later :=
  fun _ hlater => h _ (hle.trans hlater)

theorem always_true (state : τ) : Always (fun _ => True) state := fun _ _ => trivial

end Always

section Binding

variable {τ ε α β : Type} {action : ExceptT ε (StateM τ) α} {next : α → ExceptT ε (StateM τ) β}
  {state later : τ}

theorem bind_of_ok {value : α} (h : action state = (.ok value, later)) :
    (action >>= next) state = next value later := by
  show ExceptT.bindCont next (action state).1 (action state).2 = _
  rw [h]
  rfl

theorem bind_of_error {fault : ε} (h : action state = (.error fault, later)) :
    (action >>= next) state = (.error fault, later) := by
  show ExceptT.bindCont next (action state).1 (action state).2 = _
  rw [h]
  rfl

theorem bind_get (next : τ → ExceptT ε (StateM τ) α) (state : τ) :
    ((get : ExceptT ε (StateM τ) τ) >>= next) state = next state state := rfl

theorem tryCatch_of_ok {handler : ε → ExceptT ε (StateM τ) α} {value : α}
    (h : action state = (.ok value, later)) :
    (tryCatch action handler : ExceptT ε (StateM τ) α) state = (.ok value, later) := by
  simp only [tryCatch, tryCatchThe, MonadExceptOf.tryCatch, ExceptT.tryCatch, ExceptT.mk, bind,
    StateT.bind]
  rw [h]
  rfl

theorem tryCatch_of_error {handler : ε → ExceptT ε (StateM τ) α} {fault : ε}
    (h : action state = (.error fault, later)) :
    (tryCatch action handler : ExceptT ε (StateM τ) α) state = handler fault later := by
  simp only [tryCatch, tryCatchThe, MonadExceptOf.tryCatch, ExceptT.tryCatch, ExceptT.mk, bind,
    StateT.bind]
  rw [h]

theorem bind_eq_ok {value : β} (h : (action >>= next) state = (.ok value, later)) :
    ∃ first middle, action state = (.ok first, middle) ∧ next first middle = (.ok value, later) := by
  cases haction : action state with
  | mk answer middle =>
    cases answer with
    | ok first => exact ⟨first, middle, rfl, (bind_of_ok haction).symm.trans h⟩
    | error fault =>
      rw [bind_of_error haction] at h
      cases (Prod.mk.inj h).1

end Binding

namespace Yields

variable {τ ε α β : Type} [Preorder τ] {pre pre' : τ → Prop} {action : ExceptT ε (StateM τ) α}
  {mid post post' : α → τ → Prop} {last : β → τ → Prop}

theorem pure {value : α} (h : ∀ state, pre state → post value state) :
    Yields pre (pure value : ExceptT ε (StateM τ) α) post := by
  intro state hpre
  refine ⟨le_refl state, ?_⟩
  intro other hother later hlater
  obtain rfl : value = other := Except.ok.inj hother
  exact h later (hpre later hlater)

theorem throw (fault : ε) : Yields pre (throw fault : ExceptT ε (StateM τ) α) post := by
  intro state _
  refine ⟨le_refl state, ?_⟩
  intro value hvalue
  cases hvalue

theorem bind {next : α → ExceptT ε (StateM τ) β} (h : Yields pre action mid)
    (hnext : ∀ value, Yields (fun state => pre state ∧ mid value state) (next value) last) :
    Yields pre (action >>= next) last := by
  intro state hpre
  obtain ⟨hgrows, hvalue⟩ := h state hpre
  show state ≤ (ExceptT.bindCont next (action state).1 (action state).2).2 ∧
    ∀ value, (ExceptT.bindCont next (action state).1 (action state).2).1 = .ok value →
      Always (last value) (ExceptT.bindCont next (action state).1 (action state).2).2
  cases hanswer : (action state).1 with
  | error fault =>
    refine ⟨hgrows, ?_⟩
    intro value herror
    cases herror
  | ok value =>
    have hboth : Always (fun state => pre state ∧ mid value state) (action state).2 :=
      fun later hlater => ⟨hpre later (hgrows.trans hlater), hvalue value hanswer later hlater⟩
    obtain ⟨hgrows', hlast⟩ := hnext value (action state).2 hboth
    exact ⟨hgrows.trans hgrows', hlast⟩

theorem weaken (h : Yields pre action post) (hpre : ∀ state, pre' state → pre state)
    (hpost : ∀ value state, pre' state → post value state → post' value state) :
    Yields pre' action post' := by
  intro state hstate
  obtain ⟨hgrows, hvalue⟩ := h state fun later hlater => hpre later (hstate later hlater)
  refine ⟨hgrows, fun value hanswer later hlater => ?_⟩
  exact hpost value later (hstate later (hgrows.trans hlater)) (hvalue value hanswer later hlater)

theorem imp (h : Yields pre action post)
    (hpost : ∀ value state, pre state → post value state → post' value state) :
    Yields pre action post' :=
  h.weaken (fun _ => id) hpost

/-- What an action that has answered has done. -/
theorem of_eq_ok (h : Yields (fun _ => True) action post) {before after : τ} {value : α}
    (hanswer : action before = (.ok value, after)) : before ≤ after ∧ post value after := by
  obtain ⟨hgrows, hvalue⟩ := h before (always_true before)
  rw [hanswer] at hgrows hvalue
  exact ⟨hgrows, (hvalue value rfl).now⟩

theorem lift (answer : Except ε α) :
    Yields pre (liftM answer : ExceptT ε (StateM τ) α) fun value _ => answer = .ok value := by
  cases answer with
  | ok value => exact pure fun _ _ => rfl
  | error fault => exact throw fault

theorem tryCatch {handler : ε → ExceptT ε (StateM τ) α} (h : Yields pre action post)
    (hhandler : ∀ fault, Yields pre (handler fault) post) :
    Yields pre (tryCatch action handler) post := by
  intro state hpre
  obtain ⟨hgrows, hvalue⟩ := h state hpre
  cases hanswer : action state with
  | mk answer later =>
    rw [hanswer] at hgrows hvalue
    cases answer with
    | ok value =>
      rw [tryCatch_of_ok hanswer]
      exact ⟨hgrows, hvalue⟩
    | error fault =>
      rw [tryCatch_of_error hanswer]
      obtain ⟨hgrows', hlast⟩ := hhandler fault later (hpre.mono hgrows)
      exact ⟨hgrows.trans hgrows', hlast⟩

theorem mapM {f : α → ExceptT ε (StateM τ) β} {items : List α} {each : α → β → τ → Prop}
    (h : ∀ item ∈ items, Yields pre (f item) (each item)) :
    Yields pre (items.mapM f) fun answers state =>
      List.Forall₂ (fun item answer => each item answer state) items answers := by
  induction items generalizing pre with
  | nil =>
    rw [List.mapM_nil]
    exact pure fun _ _ => .nil
  | cons item items ih =>
    rw [List.mapM_cons]
    refine (h item List.mem_cons_self).bind fun first => ?_
    refine (ih fun other hother => ?_).bind fun rest => ?_
    · exact (h other (List.mem_cons_of_mem _ hother)).weaken (fun _ => And.left) fun _ _ _ => id
    · exact pure fun state hstate => .cons hstate.1.2 hstate.2

theorem foldlM {f : β → α → ExceptT ε (StateM τ) β} {items : List α} {start : β}
    (reached : List α → β → τ → Prop) (hstart : ∀ state, pre state → reached [] start state)
    (hstep : ∀ done value, ∀ item ∈ items,
      Yields (fun state => pre state ∧ reached done value state) (f value item)
        (reached (done ++ [item]))) :
    Yields pre (items.foldlM f start) (reached items) := by
  suffices h : ∀ (rest done : List α) (value : β), (∀ item ∈ rest, item ∈ items) →
      Yields (fun state => pre state ∧ reached done value state) (rest.foldlM f value)
        (reached (done ++ rest)) by
    have hall := h items [] start fun _ => id
    exact hall.weaken (fun state hpre => ⟨hpre, hstart state hpre⟩) fun _ _ _ => id
  intro rest
  induction rest with
  | nil =>
    intro done value _
    rw [List.append_nil]
    exact pure fun _ h => h.2
  | cons item rest ih =>
    intro done value hmem
    rw [List.foldlM_cons]
    refine (hstep done value item (hmem item List.mem_cons_self)).bind fun next => ?_
    have hrest := ih (done ++ [item]) next fun other hother =>
      hmem other (List.mem_cons_of_mem _ hother)
    rw [List.append_assoc] at hrest
    exact hrest.weaken (fun _ h => ⟨h.1.1, h.2⟩) fun _ _ _ => id

end Yields

end PortableImage
