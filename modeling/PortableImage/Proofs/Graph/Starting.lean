import PortableImage.Proofs.Graph.Twins
/-!
# How an analysis starts

Before its first round an analysis has done nothing but mark its roots.  `Listed` says of such an
analysis everything but the handles and their order, and it depends on the roots as a set.  So two
analyses of the same roots are twins, in whatever order and however often the roots are named.
-/

namespace PortableImage.Graph

variable {κ σ : Type} [DecidableEq κ]

namespace Analysis

/-- Nothing has been done but to mark these keys. -/
structure Listed (keys : List κ) (analysis : Analysis κ σ) : Prop where
  known : ∀ node ∈ analysis.worklist, (analysis.arena.key? node).isSome
  once : (analysis.worklist.map analysis.arena.key?).Nodup
  listed : ∀ key, some key ∈ analysis.worklist.map analysis.arena.key? ↔ key ∈ keys
  marked : ∀ key ∈ keys, analysis.arena.stage key = .marked
  unmarked : ∀ key ∉ keys, analysis.arena.stage key = .unmarked
  pending : analysis.pending = []
  edges : analysis.edges = []
  markedCount : analysis.markedCount = analysis.worklist.length
  expandedCount : analysis.expandedCount = 0
  deferredCount : analysis.deferredCount = 0
  activatedCount : analysis.activatedCount = 0
  batchCount : analysis.batchCount = 0
  rescanCount : analysis.rescanCount = 0

omit [DecidableEq κ] in
/-- Where nothing is pending, nothing else gets marked with a node. -/
theorem mark_of_pending_eq_nil {analysis : Analysis κ σ} (h : analysis.pending = [])
    (node : Handle) :
    analysis.mark node = if analysis.arena.isFresh node then analysis.enter node else analysis := by
  have hfire : (analysis.enter node).fireAt node = ([], analysis.enter node) := by
    simp [fireAt, fire, enter, h]
  rw [mark, markAll]
  split
  · rw [hfire, markAll.eq_def]
    rfl
  · rw [markAll]

namespace Listed

variable {keys more : List κ} {analysis left right : Analysis κ σ} {node : Handle} {key : κ}

theorem initial {site : Site κ σ} (h : ∀ node, site.arena.progress node = .unmarked) :
    Listed [] ({ toSite := site } : Analysis κ σ) where
  known _ hnode := by cases hnode
  once := List.nodup_nil
  listed _ := iff_of_false List.not_mem_nil List.not_mem_nil
  marked _ hkey := by cases hkey
  unmarked key _ := by
    show site.arena.stage key = .unmarked
    rw [Arena.stage]
    cases site.arena.find? key with
    | none => rfl
    | some node => exact h node
  pending := rfl
  edges := rfl
  markedCount := rfl
  expandedCount := rfl
  deferredCount := rfl
  activatedCount := rfl
  batchCount := rfl
  rescanCount := rfl

theorem grow (h : Listed keys analysis) {arena : Arena κ} (hgrows : analysis.arena.Grows arena) :
    Listed keys { analysis with arena } := by
  have hsame : analysis.worklist.map arena.key? = analysis.worklist.map analysis.arena.key? := by
    apply List.map_congr_left
    intro node hnode
    obtain ⟨key, hkey⟩ := Option.isSome_iff_exists.mp (h.known node hnode)
    rw [hkey, hgrows.keeps node key hkey]
  exact { h with
    known := fun node hnode => hgrows.keeps.isSome (h.known node hnode)
    once := by
      show (analysis.worklist.map arena.key?).Nodup
      rw [hsame]
      exact h.once
    listed := by
      show ∀ key, some key ∈ analysis.worklist.map arena.key? ↔ key ∈ keys
      rw [hsame]
      exact h.listed
    marked := fun key hkey => (hgrows.stage key).trans (h.marked key hkey)
    unmarked := fun key hkey => (hgrows.stage key).trans (h.unmarked key hkey) }

theorem enter (h : Listed keys analysis) (hkey : analysis.arena.key? node = some key)
    (hnew : key ∉ keys) : Listed (keys ++ [key]) (analysis.enter node) := by
  have hkeys : ∀ other, (analysis.enter node).arena.key? other = analysis.arena.key? other :=
    fun other => Arena.key?_raise ..
  have hworklist : (analysis.enter node).worklist.map (analysis.enter node).arena.key? =
      analysis.worklist.map analysis.arena.key? ++ [some key] := by
    show (analysis.worklist ++ [node]).map _ = _
    rw [List.map_append, List.map_singleton, hkeys, hkey, List.map_congr_left fun _ _ => hkeys _]
  have hstage : ∀ other, (analysis.enter node).arena.stage other =
      if other = key then (analysis.arena.stage key).max .marked
      else analysis.arena.stage other := fun other => Arena.stage_raise hkey .marked other
  exact { h with
    known := by
      intro other hother
      rw [hkeys]
      rcases List.mem_append.mp hother with hother | hother
      · exact h.known other hother
      · rw [List.mem_singleton.mp hother, hkey]
        rfl
    once := by
      rw [hworklist]
      refine List.nodup_append.mpr ⟨h.once, List.nodup_singleton _, ?_⟩
      rintro _ hold _ hmem rfl
      rw [List.mem_singleton.mp hmem] at hold
      exact hnew ((h.listed key).mp hold)
    listed := by
      intro other
      rw [hworklist, List.mem_append, List.mem_append, h.listed, List.mem_singleton,
        List.mem_singleton, Option.some.injEq]
    marked := by
      intro other hother
      rw [hstage]
      split
      · rw [h.unmarked key hnew]
        rfl
      · rename_i hne
        rcases List.mem_append.mp hother with hother | hother
        · exact h.marked other hother
        · exact absurd (List.mem_singleton.mp hother) hne
    unmarked := by
      intro other hother
      rw [List.mem_append, List.mem_singleton, not_or] at hother
      rw [hstage, if_neg hother.2, h.unmarked other hother.1]
    markedCount := by
      show analysis.markedCount + 1 = (analysis.worklist ++ [node]).length
      rw [h.markedCount, List.length_append, List.length_singleton] }

/-- A list of keys counts by its members only. -/
theorem congr (h : Listed keys analysis) (hkeys : ∀ key, key ∈ more ↔ key ∈ keys) :
    Listed more analysis :=
  { h with
    listed := fun key => (h.listed key).trans (hkeys key).symm
    marked := fun key hkey => h.marked key ((hkeys key).mp hkey)
    unmarked := fun key hkey => h.unmarked key fun hmem => hkey ((hkeys key).mpr hmem) }

theorem mark (h : Listed keys analysis) (hkey : analysis.arena.key? node = some key) :
    Listed (keys ++ [key]) (analysis.mark node) := by
  rw [mark_of_pending_eq_nil h.pending]
  have hstage := Arena.stage_of_key? hkey
  by_cases hmem : key ∈ keys
  · have hfresh : ¬ analysis.arena.isFresh node := by
      rw [Arena.isFresh_iff, ← hstage, h.marked key hmem]
      exact fun hfresh => by cases hfresh.2
    rw [if_neg hfresh]
    refine h.congr fun other => ?_
    rw [List.mem_append, List.mem_singleton]
    exact ⟨fun hor => hor.elim id fun hsame => hsame ▸ hmem, .inl⟩
  · have hfresh : analysis.arena.isFresh node := by
      rw [Arena.isFresh_iff, ← hstage, h.unmarked key hmem, hkey]
      exact ⟨rfl, rfl⟩
    rw [if_pos hfresh]
    exact h.enter hkey hmem

theorem markEach (h : Listed keys analysis) {nodes : List Handle}
    (hnodes : nodes.map analysis.arena.key? = more.map some) :
    Listed (keys ++ more) (analysis.markEach nodes) := by
  induction nodes generalizing keys more analysis with
  | nil =>
    rw [List.map_eq_nil_iff.mp hnodes.symm, List.append_nil]
    exact h
  | cons node nodes ih =>
    cases more with
    | nil => cases hnodes
    | cons key more =>
      obtain ⟨hkey, hrest⟩ := List.cons.inj hnodes
      have hafter : nodes.map (analysis.mark node).arena.key? = more.map some := by
        obtain ⟨_, _, hspread⟩ := spread_mark analysis node
        rw [← hrest]
        exact List.map_congr_left fun other _ => hspread.key? other
      rw [← List.singleton_append, ← List.append_assoc]
      exact ih (h.mark hkey) hafter

theorem idle (h : Listed keys analysis) : analysis.Idle := by
  intro deferred hmem
  rw [h.pending] at hmem
  cases hmem

theorem alike_arena (hleft : Listed keys left) (hright : Listed keys right) :
    left.arena.Alike right.arena := by
  intro key
  by_cases hkey : key ∈ keys
  · rw [hleft.marked key hkey, hright.marked key hkey]
  · rw [hleft.unmarked key hkey, hright.unmarked key hkey]

theorem alike (hleft : Listed keys left) (hright : Listed keys right)
    {kin : Site κ σ → Site κ σ → Prop} (hsite : kin left.toSite right.toSite) :
    Alike kin left right := by
  have hworklist : (left.worklist.map left.arena.key?).Perm
      (right.worklist.map right.arena.key?) := by
    rw [List.perm_ext_iff_of_nodup hleft.once hright.once]
    intro key?
    cases key? with
    | some key => rw [hleft.listed, hright.listed]
    | none =>
      have hnone {analysis : Analysis κ σ} (h : Listed keys analysis) :
          none ∉ analysis.worklist.map analysis.arena.key? := by
        intro hmem
        obtain ⟨node, hnode, hkey⟩ := List.mem_map.mp hmem
        have hknown := h.known node hnode
        rw [hkey] at hknown
        cases hknown
      exact iff_of_false (hnone hleft) (hnone hright)
  have hlength := hworklist.length_eq
  rw [List.length_map, List.length_map] at hlength
  exact {
    site := hsite
    known := hleft.known
    worklist := hworklist
    pending := by
      rw [hleft.pending, hright.pending]
      exact .nil
    edges := by
      rw [hleft.edges, hright.edges]
      exact .nil
    markedCount := by rw [hleft.markedCount, hright.markedCount, hlength]
    expandedCount := by rw [hleft.expandedCount, hright.expandedCount]
    deferredCount := by rw [hleft.deferredCount, hright.deferredCount]
    activatedCount := by rw [hleft.activatedCount, hright.activatedCount]
    batchCount := by rw [hleft.batchCount, hright.batchCount]
    rescanCount := by rw [hleft.rescanCount, hright.rescanCount] }

end Listed

end Analysis

end PortableImage.Graph
