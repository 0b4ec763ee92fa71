/-!
# Finite maps

A map is the list of its pairs, with no key twice.  Two ways of adding a pair occur: `put` lets
the newest value of a key win, `putNew` the oldest.  Every law is stated through `find?`.
-/

namespace PortableImage

/-- A finite map from keys to values. -/
structure Bindings (κ α : Type) where
  entries : List (κ × α)
  distinct : (entries.map Prod.fst).Nodup

namespace Bindings

variable {κ α : Type}

def empty : Bindings κ α := ⟨[], List.nodup_nil⟩

instance : EmptyCollection (Bindings κ α) := ⟨empty⟩

instance : Inhabited (Bindings κ α) := ⟨empty⟩

def keys (map : Bindings κ α) : List κ := map.entries.map Prod.fst

def size (map : Bindings κ α) : Nat := map.entries.length

variable [DecidableEq κ]

def find? (map : Bindings κ α) (key : κ) : Option α := map.entries.lookup key

def contains (map : Bindings κ α) (key : κ) : Bool := (map.find? key).isSome

def erase (map : Bindings κ α) (key : κ) : Bindings κ α where
  entries := map.entries.filter fun pair => pair.1 ≠ key
  distinct := map.distinct.sublist (List.filter_sublist.map Prod.fst)

theorem not_mem_keys_erase (map : Bindings κ α) (key : κ) : key ∉ (map.erase key).keys := by
  simp [keys, erase]

/-- The map in which a key has the given value, whatever it had before. -/
def put (map : Bindings κ α) (key : κ) (value : α) : Bindings κ α where
  entries := (key, value) :: (map.erase key).entries
  distinct := List.nodup_cons.mpr ⟨not_mem_keys_erase map key, (map.erase key).distinct⟩

/-- The map in which a key has the given value, unless it had one before. -/
def putNew (map : Bindings κ α) (key : κ) (value : α) : Bindings κ α :=
  if map.contains key then map else map.put key value

/-- The map of a list of pairs, where the last pair of a key wins. -/
def ofList (pairs : List (κ × α)) : Bindings κ α :=
  pairs.foldl (fun map pair => map.put pair.1 pair.2) empty

@[simp] theorem find?_empty (key : κ) : (empty : Bindings κ α).find? key = none := rfl

theorem lookup_filter_ne (entries : List (κ × α)) (key other : κ) :
    (entries.filter fun pair => pair.1 ≠ key).lookup other =
      if other = key then none else entries.lookup other := by
  induction entries with
  | nil => simp
  | cons pair rest ih =>
    obtain ⟨first, value⟩ := pair
    rw [List.filter_cons]
    by_cases hkey : first = key
    · by_cases hother : other = key
      · simpa [hkey, hother] using ih
      · have hne : (other == key) = false := by simpa using hother
        simpa [hkey, hother, List.lookup_cons, hne] using ih
    · by_cases hother : other = key
      · have hne : (key == first) = false := by simpa using fun h => hkey h.symm
        simpa [hkey, hother, List.lookup_cons, hne] using ih
      · simp only [hother, if_false, ne_eq, decide_not] at ih ⊢
        simp [hkey, List.lookup_cons, ih]

theorem find?_erase (map : Bindings κ α) (key other : κ) :
    (map.erase key).find? other = if other = key then none else map.find? other :=
  lookup_filter_ne map.entries key other

theorem find?_put (map : Bindings κ α) (key other : κ) (value : α) :
    (map.put key value).find? other = if other = key then some value else map.find? other := by
  have hrest := find?_erase map key other
  unfold find? at hrest
  unfold find? put
  by_cases h : other = key
  · simp [h]
  · have hne : (other == key) = false := by simpa using h
    simp [h, List.lookup_cons, hne, hrest]

@[simp] theorem find?_put_self (map : Bindings κ α) (key : κ) (value : α) :
    (map.put key value).find? key = some value := by
  simp [find?_put]

theorem contains_put (map : Bindings κ α) {other : κ} (h : map.contains other) (key : κ)
    (value : α) : (map.put key value).contains other := by
  rw [contains, find?_put]
  split
  · rfl
  · exact h

theorem find?_putNew (map : Bindings κ α) (key other : κ) (value : α) :
    (map.putNew key value).find? other =
      if other = key then some ((map.find? key).getD value) else map.find? other := by
  unfold putNew contains
  cases hfind : map.find? key with
  | none => simp [find?_put]
  | some old => by_cases h : other = key <;> simp [h, hfind]

theorem mem_keys_iff (map : Bindings κ α) (key : κ) : key ∈ map.keys ↔ map.contains key := by
  obtain ⟨entries, distinct⟩ := map
  simp only [keys, contains, find?]
  clear distinct
  induction entries with
  | nil => simp
  | cons pair rest ih =>
    obtain ⟨first, value⟩ := pair
    by_cases h : key = first
    · simp [h]
    · have hne : (key == first) = false := by simpa using h
      simp only [List.map_cons, List.mem_cons, h, false_or, ih, List.lookup_cons, hne]

theorem mem_entries_of_find? {map : Bindings κ α} {key : κ} {value : α}
    (h : map.find? key = some value) : (key, value) ∈ map.entries := by
  obtain ⟨before, after, hentries, _⟩ := List.lookup_eq_some_iff.mp h
  rw [hentries]
  exact List.mem_append_right _ List.mem_cons_self

theorem find?_eq_some_iff {map : Bindings κ α} {key : κ} {value : α} :
    map.find? key = some value ↔ (key, value) ∈ map.entries := by
  refine ⟨mem_entries_of_find?, fun hmem => ?_⟩
  obtain ⟨before, after, hentries⟩ := List.append_of_mem hmem
  have hdistinct := map.distinct
  rw [hentries, List.map_append, List.map_cons] at hdistinct
  refine List.lookup_eq_some_iff.mpr ⟨before, after, hentries, fun pair hpair => ?_⟩
  have hne := (List.nodup_append.mp hdistinct).2.2 pair.1 (List.mem_map_of_mem hpair) key
    List.mem_cons_self
  exact bne_iff_ne.mpr hne.symm

/-- Taking a key away that has a value makes the map smaller. -/
theorem size_erase_lt {map : Bindings κ α} {key : κ} {value : α}
    (h : map.find? key = some value) : (map.erase key).size < map.size := by
  have hmem : key ∈ map.keys := (mem_keys_iff map key).mpr (by simp [contains, h])
  obtain ⟨pair, hpair, hfst⟩ := List.mem_map.mp hmem
  exact List.length_filter_lt_length_iff_exists.mpr ⟨pair, hpair, by simp [hfst]⟩

end Bindings

end PortableImage
