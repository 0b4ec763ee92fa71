import PortableImage.Proofs.Portable.SoundLedgers
import Mathlib.Data.List.Nodup
/-!
# Token tables of sound ledgers

The table of a sound ledger is ascending, and it lists every token that has a holder: once, with
that holder, and no other token.  A token that has been given out has a holder from then on, in the
partition in which it is looked up.
-/

namespace PortableImage

/-- The table has one entry for a token, and that entry is for the entity. -/
def TokenTable.Lists (table : TokenTable) (token : PortableToken) (entity : Entity) : Prop :=
  (table.entries.filter fun entry => entry.token = token) = [⟨token, entity⟩]

namespace Ledger

variable {program : Program} {bubble : Bubble} {ledger later : Ledger} {token : PortableToken}
  {entity : Entity} {origin : ModuleIndex}

theorem Filed.mem_table_iff (h : ledger.Filed) {entry : TableEntry} :
    entry ∈ ledger.table.entries ↔ ledger.holder? entry.token = some entry.entity := by
  rw [table, List.mem_mergeSort, List.mem_flatMap]
  constructor
  · rintro ⟨⟨module, partition⟩, hpartition, hmem⟩
    obtain ⟨⟨token, entity⟩, hpair, rfl⟩ := List.mem_map.mp hmem
    have hheld : (ledger.partition module).entities.find? token = some entity := by
      rw [Ledger.partition, Bindings.find?_eq_some_iff.mpr hpartition]
      exact Bindings.find?_eq_some_iff.mpr hpair
    rw [holder?, h module token entity hheld]
    exact hheld
  · intro hheld
    rw [holder?, Ledger.partition] at hheld
    cases hfind : ledger.partitions.find? entry.token.module with
    | none =>
      rw [hfind] at hheld
      cases hheld
    | some partition =>
      rw [hfind] at hheld
      refine ⟨_, Bindings.mem_entries_of_find? hfind, List.mem_map.mpr ?_⟩
      exact ⟨(entry.token, entry.entity), Bindings.mem_entries_of_find? hheld, rfl⟩

/-- No two entries of the table are about one token: neither in one partition nor in two. -/
theorem Filed.nodup_table (h : ledger.Filed) :
    (ledger.table.entries.map TableEntry.token).Nodup := by
  have htokens (partition : Partition) :
      (partition.entities.entries.map fun pair => TableEntry.mk pair.1 pair.2).map
        TableEntry.token = partition.entities.keys := by
    rw [List.map_map]
    rfl
  rw [table, ((List.mergeSort_perm _ _).map _).nodup_iff, List.map_flatMap]
  simp only [htokens]
  rw [List.nodup_flatMap]
  constructor
  · exact fun entry _ => entry.2.entities.distinct
  · refine (List.pairwise_map.mp ledger.partitions.distinct).imp_of_mem ?_
    intro first second hfirst hsecond hne token hmem hmem'
    have hmodule {entry : ModuleIndex × Partition} (hentry : entry ∈ ledger.partitions.entries)
        (htoken : token ∈ entry.2.entities.keys) : token.module = entry.1 := by
      obtain ⟨⟨_, entity⟩, hpair, rfl⟩ := List.mem_map.mp htoken
      apply h entry.1 _ entity
      rw [Ledger.partition, Bindings.find?_eq_some_iff.mpr hentry]
      exact Bindings.find?_eq_some_iff.mpr hpair
    exact hne ((hmodule hfirst hmem).symm.trans (hmodule hsecond hmem'))

theorem Sound.mem_table_iff (h : Sound program bubble ledger) {entry : TableEntry} :
    entry ∈ ledger.table.entries ↔ ledger.holder? entry.token = some entry.entity :=
  Filed.mem_table_iff h.filed

theorem Sound.nodup_table (h : Sound program bubble ledger) :
    (ledger.table.entries.map TableEntry.token).Nodup :=
  Filed.nodup_table h.filed

theorem pairwise_table (ledger : Ledger) :
    ledger.table.entries.Pairwise fun a b => a.token ≤ b.token := by
  refine (List.pairwise_mergeSort ?_ ?_ _).imp of_decide_eq_true
  · intro a b c hab hbc
    rw [decide_eq_true_eq] at *
    exact Std.le_trans hab hbc
  · intro a b
    simpa using Std.le_total (a := a.token) (b := b.token)

/-- The table is determined by who holds the tokens. -/
theorem Sound.table_eq {other : Ledger} (h : Sound program bubble ledger)
    (hother : Sound program bubble other)
    (hholders : ∀ token, ledger.holder? token = other.holder? token) :
    ledger.table = other.table := by
  have hperm : ledger.table.entries.Perm other.table.entries := by
    rw [List.perm_ext_iff_of_nodup (List.Nodup.of_map _ h.nodup_table)
      (List.Nodup.of_map _ hother.nodup_table)]
    intro entry
    rw [h.mem_table_iff, hother.mem_table_iff, hholders]
  refine congrArg TokenTable.mk
    (hperm.eq_of_pairwise ?_ (pairwise_table ledger) (pairwise_table other))
  intro a b ha hb hab hba
  have hmem := hperm.mem_iff.mpr hb
  exact List.inj_on_of_nodup_map h.nodup_table ha hmem (Std.le_antisymm hab hba)

theorem Sound.lists_holder (h : Sound program bubble ledger)
    (hholder : ledger.holder? token = some entity) : ledger.table.Lists token entity := by
  have hentry : ⟨token, entity⟩ ∈ ledger.table.entries := h.mem_table_iff.mpr hholder
  have honce := (List.Nodup.of_map _ h.nodup_table).filter fun entry => entry.token = token
  refine List.perm_singleton.mp ((List.perm_ext_iff_of_nodup honce (List.nodup_singleton _)).mpr ?_)
  intro entry
  rw [List.mem_filter, List.mem_singleton, decide_eq_true_eq]
  constructor
  · rintro ⟨hmem, htoken⟩
    exact List.inj_on_of_nodup_map h.nodup_table hmem hentry htoken
  · rintro rfl
    exact ⟨hentry, rfl⟩

theorem token?_of_issue (h : (issue program bubble entity origin ledger).1 = .ok token) :
    (issue program bubble entity origin ledger).2.token? (bubble.home entity origin) entity =
      some token := by
  unfold issue at h ⊢
  cases hfind : ledger.token? (bubble.home entity origin) entity with
  | some given =>
    simp only [hfind] at h ⊢
    rw [Except.ok.inj h]
  | none =>
    cases hgiven : program.portableToken bubble entity origin with
    | error fault =>
      simp only [hfind, hgiven] at h
      cases h
    | ok given =>
      simp only [hfind, hgiven] at h ⊢
      rw [token?_record, if_pos ⟨rfl, rfl⟩, hfind, Option.getD_none, Except.ok.inj h]

/-- What was recorded stays recorded, whatever is asked. -/
theorem token?_issue {home : ModuleIndex} {owner : Entity}
    (h : ledger.token? home owner = some token) (program : Program) (bubble : Bubble)
    (entity : Entity) (origin : ModuleIndex) :
    (issue program bubble entity origin ledger).2.token? home owner = some token := by
  rcases issue_snd program bubble entity origin ledger with ⟨hsame, _⟩ | ⟨given, _, hrecord⟩
  · rwa [hsame]
  · rw [hrecord, token?_record]
    split
    · rename_i hkey
      rw [← hkey.1, ← hkey.2, h, Option.getD_some]
    · exact h

/-- The token has been the answer to a question. -/
def Issued (ledger : Ledger) (token : PortableToken) : Prop :=
  ∃ home entity, ledger.token? home entity = some token

theorem issued_of_issue (h : (issue program bubble entity origin ledger).1 = .ok token) :
    (issue program bubble entity origin ledger).2.Issued token :=
  ⟨bubble.home entity origin, entity, token?_of_issue h⟩

/-- What has been given out stays given out. -/
theorem Issued.step (h : ledger.Issued token) (hstep : Step program bubble ledger later) :
    later.Issued token := by
  obtain ⟨home, owner, hfind⟩ := h
  cases hstep with
  | issue entity origin => exact ⟨home, owner, token?_issue hfind program bubble entity origin⟩

/-- A token that has been given out stands in the table, once, with the entity that is found for
it. -/
theorem Sound.lists_issued (h : Sound program bubble ledger) (hissued : ledger.Issued token) :
    ∃ entity, ledger.table.Lists token entity ∧ ledger.holder? token = some entity := by
  obtain ⟨home, entity, hfind⟩ := hissued
  obtain ⟨holder, hholder⟩ := Option.isSome_iff_exists.mp (h.held home entity token hfind)
  exact ⟨holder, h.lists_holder hholder, hholder⟩

end Ledger

end PortableImage
