/-!
# Ranked types

Answers list entities, tokens and artifacts in a fixed order.  Each of these types has a *rank*, a
number that determines the value, and is ordered by it; the laws of the order then follow from
those of the natural numbers.
-/

namespace PortableImage

/-- Types whose values are told apart by a number. -/
class Ranked (α : Type) where
  rank : α → Nat
  rank_injective : ∀ {a b : α}, rank a = rank b → a = b

namespace Ranked

variable {α : Type} [Ranked α]

instance : LE α := ⟨fun a b => rank a ≤ rank b⟩

instance : DecidableLE α := fun a b => inferInstanceAs (Decidable (rank a ≤ rank b))

theorem le_iff {a b : α} : a ≤ b ↔ rank a ≤ rank b := Iff.rfl

instance : LT α := ⟨fun a b => rank a < rank b⟩

instance : DecidableLT α := fun a b => inferInstanceAs (Decidable (rank a < rank b))

theorem lt_iff {a b : α} : a < b ↔ rank a < rank b := Iff.rfl

theorem lt_of_le_of_ne {a b : α} (hle : a ≤ b) (hne : a ≠ b) : a < b :=
  Nat.lt_of_le_of_ne hle fun hrank => hne (rank_injective hrank)

instance : Std.IsLinearOrder α where
  le_refl a := Nat.le_refl (rank a)
  le_trans _ _ _ hab hbc := Nat.le_trans hab hbc
  le_antisymm _ _ hab hba := rank_injective (Nat.le_antisymm hab hba)
  le_total a b := Nat.le_total (rank a) (rank b)

end Ranked

/-- A list in ascending order; equal members keep their places. -/
def ascending {α : Type} [LE α] [DecidableLE α] (list : List α) : List α := list.mergeSort

section Ascending

variable {α : Type} [LE α] [DecidableLE α]

theorem ascending_perm (list : List α) : (ascending list).Perm list :=
  List.mergeSort_perm list _

@[simp] theorem mem_ascending {list : List α} {a : α} : a ∈ ascending list ↔ a ∈ list :=
  (ascending_perm list).mem_iff

@[simp] theorem length_ascending (list : List α) : (ascending list).length = list.length :=
  (ascending_perm list).length_eq

theorem pairwise_ascending [Std.IsLinearOrder α] (list : List α) :
    (ascending list).Pairwise (· ≤ ·) := by
  have h : (ascending list).Pairwise fun a b => decide (a ≤ b) = true := by
    apply List.pairwise_mergeSort
    · intro a b c hab hbc
      simp only [decide_eq_true_eq] at *
      exact Std.le_trans hab hbc
    · intro a b
      simpa using Std.le_total (a := a) (b := b)
  exact h.imp fun hab => by simpa using hab

end Ascending

/-- Finds the item with a key in a list in strictly ascending order of keys, by halving the list. -/
def bisect? {α β : Type} [Ranked α] [DecidableEq α] (key : α) (keyOf : β → α) (items : List β) :
    Option β :=
  if h : items.length < 2 then items.find? fun item => keyOf item = key
  else if key < keyOf (items.get ⟨items.length / 2, by omega⟩) then
    bisect? key keyOf (items.take (items.length / 2))
  else bisect? key keyOf (items.drop (items.length / 2))
termination_by items.length
decreasing_by
  all_goals simp only [List.length_take, List.length_drop]; omega

section Bisect

variable {α β : Type} [Ranked α] {keyOf : β → α} {items : List β}

theorem lt_of_mem_take {middle : Nat} (h : items.Pairwise fun a b => keyOf a < keyOf b)
    (hmiddle : middle < items.length) {item : β} (hitem : item ∈ items.take middle) :
    keyOf item < keyOf items[middle] := by
  obtain ⟨index, hindex, rfl⟩ := List.mem_take_iff_getElem.mp hitem
  exact List.pairwise_iff_getElem.mp h index middle (by omega) hmiddle (by omega)

theorem le_of_mem_drop {middle : Nat} (h : items.Pairwise fun a b => keyOf a < keyOf b)
    (hmiddle : middle < items.length) {item : β} (hitem : item ∈ items.drop middle) :
    keyOf items[middle] ≤ keyOf item := by
  rw [List.drop_eq_getElem_cons hmiddle, List.mem_cons] at hitem
  rcases hitem with rfl | hitem
  · exact Nat.le_refl _
  · obtain ⟨index, hindex, rfl⟩ := List.mem_drop_iff_getElem.mp hitem
    exact Nat.le_of_lt (List.pairwise_iff_getElem.mp h middle _ hmiddle (by omega) (by omega))

/-- In a strictly ascending list every key is found that is there, and no other. -/
theorem bisect?_eq_some_iff [DecidableEq α] {key : α} {item : β}
    (h : items.Pairwise fun a b => keyOf a < keyOf b) :
    bisect? key keyOf items = some item ↔ item ∈ items ∧ keyOf item = key := by
  fun_induction bisect? key keyOf items with
  | case1 items hlength =>
    match items, hlength with
    | [], _ => simp
    | [first], _ =>
      by_cases hfirst : keyOf first = key
      · simp [hfirst]
        grind
      · simp [hfirst]
        grind
  | case2 items hlength hkey ih =>
    rw [ih (h.sublist (List.take_sublist ..))]
    refine and_congr_left fun hitem => ⟨List.mem_of_mem_take, fun hmem => ?_⟩
    rw [← List.take_append_drop (items.length / 2) items, List.mem_append] at hmem
    refine hmem.resolve_right fun hdrop => ?_
    have hle := le_of_mem_drop h (by omega) hdrop
    rw [hitem] at hle
    exact absurd hkey (Nat.not_lt.mpr hle)
  | case3 items hlength hkey ih =>
    rw [ih (h.sublist (List.drop_sublist ..))]
    refine and_congr_left fun hitem => ⟨List.mem_of_mem_drop, fun hmem => ?_⟩
    rw [← List.take_append_drop (items.length / 2) items, List.mem_append] at hmem
    refine hmem.resolve_left fun htake => ?_
    have hlt := lt_of_mem_take h (by omega) htake
    rw [hitem] at hlt
    exact hkey hlt

end Bisect

end PortableImage
