import Mathlib.Data.List.Forall2
/-!
# Matching lists and answers

Two lists match if a relation holds place by place.  Members of either have a partner in the other.
Two answers *concur* if both are values that are related, or both are the same fault, of a kind that
is admitted.
-/

namespace PortableImage

inductive Concur {ε α β : Type} (admitted : ε → Prop) (R : α → β → Prop) :
    Except ε α → Except ε β → Prop
  | ok {a b} (h : R a b) : Concur admitted R (.ok a) (.ok b)
  | error {fault} (h : admitted fault) : Concur admitted R (.error fault) (.error fault)

theorem Concur.imp {ε α β : Type} {admitted admitted' : ε → Prop} {R S : α → β → Prop}
    {left : Except ε α} {right : Except ε β} (h : Concur admitted R left right)
    (hadmitted : ∀ fault, admitted fault → admitted' fault) (hRS : ∀ a b, R a b → S a b) :
    Concur admitted' S left right := by
  cases h with
  | ok h => exact .ok (hRS _ _ h)
  | error h => exact .error (hadmitted _ h)

theorem Concur.map {ε α β γ δ : Type} {admitted : ε → Prop} {R : α → β → Prop} {S : γ → δ → Prop}
    {f : α → γ} {g : β → δ} {left : Except ε α} {right : Except ε β}
    (h : Concur admitted R left right) (hRS : ∀ a b, R a b → S (f a) (g b)) :
    Concur admitted S (left.map f) (right.map g) := by
  cases h with
  | ok h => exact .ok (hRS _ _ h)
  | error h => exact .error h

variable {α β : Type} {R : α → β → Prop} {left : List α} {right : List β}

theorem exists_of_mem_left (h : List.Forall₂ R left right) {a : α} (ha : a ∈ left) :
    ∃ b ∈ right, R a b := by
  induction h with
  | nil => cases ha
  | cons hfirst _ ih =>
    rcases List.mem_cons.mp ha with rfl | ha
    · exact ⟨_, List.mem_cons_self, hfirst⟩
    · obtain ⟨b, hb, hab⟩ := ih ha
      exact ⟨b, List.mem_cons_of_mem _ hb, hab⟩

theorem exists_of_mem_right (h : List.Forall₂ R left right) {b : β} (hb : b ∈ right) :
    ∃ a ∈ left, R a b :=
  exists_of_mem_left (R := flip R) h.flip hb

theorem map_eq_map_of_forall₂ {γ : Type} {f : α → γ} {g : β → γ}
    (h : List.Forall₂ R left right) (hfg : ∀ a b, R a b → f a = g b) :
    left.map f = right.map g := by
  rw [← List.forall₂_eq_eq_eq, List.forall₂_map_left_iff, List.forall₂_map_right_iff]
  exact h.imp hfg

theorem forall₂_map {γ δ : Type} {S : γ → δ → Prop} {f : α → γ} {g : β → δ}
    (h : List.Forall₂ R left right) (hfg : ∀ a b, R a b → S (f a) (g b)) :
    List.Forall₂ S (left.map f) (right.map g) := by
  rw [List.forall₂_map_left_iff, List.forall₂_map_right_iff]
  exact h.imp hfg

theorem forall₂_mem (h : List.Forall₂ R left right) :
    List.Forall₂ (fun a b => a ∈ left ∧ R a b) left right := by
  induction h with
  | nil => exact .nil
  | cons hfirst _ ih =>
    exact .cons ⟨List.mem_cons_self, hfirst⟩
      (ih.imp fun _ _ ⟨hmem, hab⟩ => ⟨List.mem_cons_of_mem _ hmem, hab⟩)

theorem forall₂_filter {p : α → Bool} {q : β → Bool} (h : List.Forall₂ R left right)
    (hpq : ∀ a b, R a b → p a = q b) : List.Forall₂ R (left.filter p) (right.filter q) :=
  List.rel_filter (fun a b hab => iff_of_eq (congrArg (· = true) (hpq a b hab))) h

theorem forall₂_comp {γ : Type} {S : β → γ → Prop} {T : α → γ → Prop} {last : List γ}
    (h : List.Forall₂ R left right) (hlast : List.Forall₂ S right last)
    (hRST : ∀ a b c, R a b → S b c → T a c) : List.Forall₂ T left last := by
  induction h generalizing last with
  | nil =>
    cases hlast
    exact .nil
  | cons hfirst _ ih =>
    cases hlast with
    | cons hsecond hlast => exact .cons (hRST _ _ _ hfirst hsecond) (ih hlast)

theorem pairwise_of_forall₂ {S : α → α → Prop} {T : β → β → Prop} (h : List.Forall₂ R left right)
    (hleft : left.Pairwise S) (hST : ∀ a a' b b', R a b → R a' b' → S a a' → T b b') :
    right.Pairwise T := by
  induction h with
  | nil => exact List.Pairwise.nil
  | cons hfirst hrest ih =>
    obtain ⟨hhead, htail⟩ := List.pairwise_cons.mp hleft
    refine List.pairwise_cons.mpr ⟨?_, ih htail⟩
    intro b' hb'
    obtain ⟨a', ha', hab'⟩ := exists_of_mem_right hrest hb'
    exact hST _ _ _ _ hfirst hab' (hhead a' ha')

end PortableImage
