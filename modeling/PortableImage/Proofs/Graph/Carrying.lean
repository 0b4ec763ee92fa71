import PortableImage.Proofs.Graph.Saturation
/-!
# What an analysis carries along

Between two expansions an analysis changes nothing of its site but the progress of nodes and the
dependencies recorded for them.  So a fact about the site, and about what the expander was asked so
far, is carried through an analysis if each single expansion carries it and it does not look at the
progress.
-/

namespace PortableImage.Graph

variable {κ σ ε : Type}

/-- The sites differ in the work on their nodes at most. -/
structure Site.Rearranges (old new : Site κ σ) : Prop where
  key? : ∀ node, new.arena.key? node = old.arena.key? node
  cancelled : new.cancelled = old.cancelled
  store : new.store = old.store

namespace Site.Rearranges

theorem refl (site : Site κ σ) : site.Rearranges site := ⟨fun _ => rfl, rfl, rfl⟩

theorem trans {a b c : Site κ σ} (hab : a.Rearranges b) (hbc : b.Rearranges c) : a.Rearranges c where
  key? node := (hbc.key? node).trans (hab.key? node)
  cancelled := hbc.cancelled.trans hab.cancelled
  store := hbc.store.trans hab.store

end Site.Rearranges

namespace Analysis

theorem Spread.rearranges {due entered : List Handle} {found fired : List Deferred}
    {before after : Analysis κ σ} (h : Spread due found before after entered fired) :
    before.toSite.Rearranges after.toSite :=
  ⟨h.key?, h.cancelled, h.store⟩

theorem rearranges_absorb (analysis : Analysis κ σ) (node : Handle) (expansion : Expansion) :
    analysis.toSite.Rearranges (analysis.absorb node expansion).toSite := by
  obtain ⟨considered, ⟨_, _, hfirst⟩, _, _, hsecond⟩ := spread_absorb analysis node expansion
  have hconcluded : considered.toSite.Rearranges
      (considered.conclude node (expansion.edges node)).toSite :=
    ⟨fun other => key?_conclude .., rfl, rfl⟩
  exact hfirst.rearranges.trans (hconcluded.trans hsecond.rearranges)

theorem rearranges_rescan (analysis : Analysis κ σ) :
    analysis.toSite.Rearranges analysis.rescan.2.toSite := by
  obtain ⟨_, _, hspread⟩ := spread_rescan analysis
  exact hspread.rearranges

theorem rearranges_settle (analysis : Analysis κ σ) (attempts : List (Handle × Attempt ε)) :
    analysis.toSite.Rearranges (analysis.settle attempts).2.toSite := by
  fun_induction settle analysis attempts with
  | case1 | case2 | case3 => exact Site.Rearranges.refl _
  | case4 analysis node expansion later ih => exact (rearranges_absorb ..).trans ih

end Analysis

/-- A fact about what the expander was asked so far, and about the site after it, that every further
expansion keeps true. -/
structure Expander.Carries (expander : Expander κ σ ε)
    (J : List (Handle × Site κ σ) → Site κ σ → Prop) : Prop where
  expand : ∀ past node site, J past site → J (past ++ [(node, site)]) (expander node site).2
  rearrange : ∀ past (old new : Site κ σ), old.Rearranges new → J past old → J past new

namespace Expander.Carries

variable {expander : Expander κ σ ε} {J : List (Handle × Site κ σ) → Site κ σ → Prop}
  {past : List (Handle × Site κ σ)}

theorem expandBatch (h : expander.Carries J) {site : Site κ σ} (hsite : J past site)
    (batch : List Handle) :
    J (past ++ surveys expander batch site) (expandBatch expander batch site).2 := by
  induction batch generalizing past site with
  | nil => rwa [surveys, List.append_nil]
  | cons node batch ih =>
    rw [surveys, Graph.expandBatch]
    by_cases hcancelled : site.cancelled
    · have hskipped : surveys expander batch site = [] := by
        cases batch with
        | nil => rfl
        | cons other batch => rw [surveys, if_pos hcancelled]
      have hrest := ih hsite
      rw [hskipped, List.append_nil] at hrest
      rwa [if_pos hcancelled, if_pos hcancelled, List.append_nil]
    · have hrest := ih (h.expand past node site hsite)
      rw [List.append_assoc, List.singleton_append] at hrest
      rw [if_neg hcancelled, if_neg hcancelled]
      cases hanswer : expander node site with
      | mk answer left =>
        rw [hanswer] at hrest
        cases answer <;> exact hrest

variable [LE κ] [DecidableLE κ] {analysis after : Analysis κ σ} {verdict : Verdict ε}

theorem round (h : expander.Carries J) (hsite : J past analysis.toSite) :
    J (past ++ surveys expander analysis.batch analysis.toSite)
      (analysis.round expander).2.toSite :=
  h.rearrange _ _ _ (Analysis.rearranges_settle ..) (h.expandBatch hsite analysis.batch)

/-- What every expansion carries, the whole analysis carries, however it ends. -/
theorem saturate (h : expander.Carries J) {bound : Nat} (hsite : J past analysis.toSite)
    (hsaturate : analysis.saturate expander bound = (verdict, after)) :
    J (past ++ analysis.expansions expander bound) after.toSite := by
  induction bound generalizing past analysis with
  | zero =>
    obtain rfl := (Prod.mk.inj hsaturate).2
    rwa [Analysis.expansions, List.append_nil]
  | succ bound ih =>
    rw [Analysis.saturate] at hsaturate
    rw [Analysis.expansions]
    have hrescanned := h.rearrange past _ _ (Analysis.rearranges_rescan analysis) hsite
    by_cases hworklist : analysis.worklist.isEmpty
    · rw [if_pos hworklist] at hsaturate ⊢
      by_cases hzero : analysis.rescan.1 = 0
      · simp only [if_pos hzero] at hsaturate ⊢
        obtain rfl := (Prod.mk.inj hsaturate).2
        rwa [List.append_nil]
      · simp only [if_neg hzero] at hsaturate ⊢
        exact ih hrescanned hsaturate
    · rw [if_neg hworklist] at hsaturate ⊢
      by_cases hcancelled : analysis.cancelled
      · rw [if_pos hcancelled] at hsaturate ⊢
        obtain rfl := (Prod.mk.inj hsaturate).2
        rwa [List.append_nil]
      · rw [if_neg hcancelled] at hsaturate ⊢
        have hround := h.round hsite
        cases hanswer : analysis.round expander with
        | mk answer next =>
          rw [hanswer] at hsaturate hround
          rw [← List.append_assoc]
          cases answer with
          | some verdict =>
            obtain rfl := (Prod.mk.inj hsaturate).2
            rwa [List.append_nil]
          | none => exact ih hround hsaturate

end Expander.Carries

/-- A fact about the site that every expansion keeps true. -/
def Expander.Keeps (expander : Expander κ σ ε) (I : Site κ σ → Prop) : Prop :=
  expander.Carries fun _ => I

namespace Expander.Keeps

variable [LE κ] [DecidableLE κ] {expander : Expander κ σ ε} {I : Site κ σ → Prop}
  {analysis : Analysis κ σ}

theorem round (h : expander.Keeps I) (hsite : I analysis.toSite) :
    I (analysis.round expander).2.toSite :=
  @Carries.round κ σ ε expander (fun _ => I) [] _ _ analysis h hsite

end Expander.Keeps

end PortableImage.Graph
