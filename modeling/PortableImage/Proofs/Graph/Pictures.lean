import PortableImage.Proofs.Graph.EdgeEnds
import PortableImage.Proofs.Graph.LeastFixedPoint
import PortableImage.Proofs.Graph.PictureText
/-!
# Faithful pictures

A picture shows an arena whatever its texts are: every marked node has one line, in the order of the
keys, every edge has one, and a reader finds each label where it was written.  In a picture of an
analysis, both ends of every edge are among the nodes.
-/

namespace PortableImage.Graph

variable {κ σ ε : Type}

/-- Known nodes, each with its key, are the nodes themselves. -/
theorem Arena.map_fst_filterMap {arena : Arena κ} {nodes : List Handle}
    (h : ∀ node ∈ nodes, (arena.key? node).isSome) :
    (nodes.filterMap fun node => (arena.key? node).map fun key => (node, key)).map Prod.fst =
      nodes := by
  induction nodes with
  | nil => rfl
  | cons node nodes ih =>
    obtain ⟨key, hkey⟩ := Option.isSome_iff_exists.mp (h node List.mem_cons_self)
    simp only [List.filterMap_cons, hkey, Option.map_some, List.map_cons]
    rw [ih fun other hother => h other (List.mem_cons_of_mem _ hother)]

namespace Dot

section Shown

variable [LE κ] [DecidableLE κ] {arena : Arena κ}

theorem mem_shownNodes {node : Handle} {key : κ} :
    (node, key) ∈ shownNodes arena ↔
      (arena.progress node).isMarked ∧ arena.key? node = some key := by
  rw [shownNodes, (List.mergeSort_perm _ _).mem_iff, List.mem_filterMap]
  constructor
  · rintro ⟨other, hmarked, hentry⟩
    obtain ⟨found, hkey, heq⟩ := Option.map_eq_some_iff.mp hentry
    obtain ⟨rfl, rfl⟩ := Prod.mk.inj heq
    exact ⟨Arena.mem_marked.mp hmarked, hkey⟩
  · rintro ⟨hmarked, hkey⟩
    exact ⟨node, Arena.mem_marked.mpr hmarked, by rw [hkey]; rfl⟩

theorem map_fst_shownNodes_perm (arena : Arena κ) :
    ((shownNodes arena).map Prod.fst).Perm arena.marked := by
  have hknown : ∀ node ∈ arena.marked, (arena.key? node).isSome := fun _ hnode =>
    Arena.isSome_key?_of_isMarked (Arena.mem_marked.mp hnode)
  have hsorted := (List.mergeSort_perm (arena.marked.filterMap fun node =>
    (arena.key? node).map fun key => (node, key)) fun a b => a.2 ≤ b.2).map Prod.fst
  rwa [Arena.map_fst_filterMap hknown] at hsorted

/-- No key is shown twice, so the keys ascend strictly. -/
theorem pairwise_shownNodes [Std.IsLinearOrder κ] (arena : Arena κ) :
    (shownNodes arena).Pairwise fun a b => a.2 ≤ b.2 ∧ a.2 ≠ b.2 := by
  have hascends : (shownNodes arena).Pairwise fun a b => a.2 ≤ b.2 := by
    refine (List.pairwise_mergeSort ?_ ?_ _).imp fun h => of_decide_eq_true h
    · exact fun a b c hab hbc =>
        decide_eq_true (Std.le_trans (of_decide_eq_true hab) (of_decide_eq_true hbc))
    · intro a b
      rw [Bool.or_eq_true]
      exact (Std.le_total (a := a.2) (b := b.2)).imp decide_eq_true decide_eq_true
  have honce : (shownNodes arena).Pairwise fun a b => a.1 ≠ b.1 :=
    List.pairwise_map.mp ((map_fst_shownNodes_perm arena).nodup_iff.mpr arena.nodup_marked)
  refine (hascends.and honce).imp_of_mem ?_
  rintro ⟨a, first⟩ ⟨b, second⟩ ha hb ⟨hle, hne⟩
  refine ⟨hle, fun hkeys => hne ?_⟩
  obtain rfl : first = second := hkeys
  exact Arena.eq_of_key? (mem_shownNodes.mp ha).2 (mem_shownNodes.mp hb).2

end Shown

section Text

def nodePieces (label : κ → String) (entry : Handle × κ) : List Piece :=
  labelled ("    " ++ entry.1.render ++ " [label=") (label entry.2) "];\n"

def edgePieces (edge : Edge) : List Piece :=
  labelled ("    " ++ edge.source.render ++ " -> " ++ edge.target.render ++ " [label=")
    edge.reason "];\n"

/-- What a reader makes of a picture of some nodes and edges. -/
def pieces (name : String) (label : κ → String) (nodes : List (Handle × κ)) (edges : List Edge) :
    List Piece :=
  labelled "digraph " name " \x7b\n" ++ bare "    node [shape=box];\n".toList ++
    nodes.flatMap (nodePieces label) ++ edges.flatMap edgePieces ++ bare "\x7d\n".toList

section Openings

variable {c : Char} (h : c = '"' ∨ c = '\n')
include h

/-- No quote and no line break stands in a handle, nor around it. -/
theorem not_mem_handle (node : Handle) : c ∉ node.render.toList := by
  rcases h with rfl | rfl
  · exact not_mem_render node (by decide) (by decide)
  · exact not_mem_render node (by decide) (by decide)

theorem not_mem_nodeOpening (node : Handle) : c ∉ ("    " ++ node.render ++ " [label=").toList := by
  have hnode := not_mem_handle h node
  rcases h with rfl | rfl <;> simpa using hnode

theorem not_mem_edgeOpening (edge : Edge) :
    c ∉ ("    " ++ edge.source.render ++ " -> " ++ edge.target.render ++ " [label=").toList := by
  have hsource := not_mem_handle h edge.source
  have htarget := not_mem_handle h edge.target
  rcases h with rfl | rfl <;> simpa using ⟨hsource, htarget⟩

end Openings

theorem lex_line {opening closing ending : String} (hopening : '"' ∉ opening.toList)
    (hending : '"' ∉ ending.toList) (hclosing : closing ++ "\n" = ending) (label : String)
    (rest : List Char) :
    lex none ((opening ++ quoted label ++ closing).toList ++ '\n' :: rest) =
      (lex none rest).map (labelled opening label ending ++ ·) := by
  rw [← lex_labelled hopening hending, ← hclosing]
  simp

theorem lex_nodeLine (label : κ → String) (entry : Handle × κ) (rest : List Char) :
    lex none ((nodeLine entry.1 (label entry.2)).toList ++ '\n' :: rest) =
      (lex none rest).map (nodePieces label entry ++ ·) :=
  lex_line (not_mem_nodeOpening (.inl rfl) entry.1) (by decide) rfl (label entry.2) rest

theorem lex_edgeLine (edge : Edge) (rest : List Char) :
    lex none ((edgeLine edge).toList ++ '\n' :: rest) =
      (lex none rest).map (edgePieces edge ++ ·) :=
  lex_line (not_mem_edgeOpening (.inl rfl) edge) (by decide) rfl edge.reason rest

variable [LE κ] [DecidableLE κ] (name : String) (label : κ → String) (arena : Arena κ)
  (edges : List Edge)

theorem newline_not_mem_lines : ∀ line ∈ lines name label arena edges, '\n' ∉ line.toList := by
  intro line hline
  simp only [lines, List.mem_append, List.mem_cons, List.mem_map, List.not_mem_nil, or_false] at hline
  rcases hline with (((rfl | rfl) | ⟨entry, _, rfl⟩) | ⟨edge, _, rfl⟩) | rfl
  · exact newline_not_mem_labelled (by decide) (by decide) name
  · decide
  · exact newline_not_mem_labelled (not_mem_nodeOpening (.inr rfl) entry.1) (by decide) _
  · exact newline_not_mem_labelled (not_mem_edgeOpening (.inr rfl) edge) (by decide) _
  · decide

theorem toList_render : (render name label arena edges).toList =
    (lines name label arena edges).flatMap fun line => line.toList ++ ['\n'] := by
  rw [render, String.toList_join, List.flatMap_map]
  simp

theorem lex_render : lex none (render name label arena edges).toList =
    some (pieces name label (shownNodes arena) edges) := by
  have hheader (rest : List Char) :
      lex none (("digraph " ++ quoted name ++ " \x7b").toList ++ '\n' :: rest) =
        (lex none rest).map (labelled "digraph " name " \x7b\n" ++ ·) :=
    lex_line (by decide) (by decide) rfl name rest
  have hstyle (rest : List Char) :
      lex none ("    node [shape=box];".toList ++ '\n' :: rest) =
        (lex none rest).map (bare "    node [shape=box];\n".toList ++ ·) := by
    have hplain : '"' ∉ "    node [shape=box];\n".toList := by decide
    exact lex_none_append hplain rest
  have hend : lex none ("\x7d".toList ++ ['\n']) = some (bare "\x7d\n".toList) := by decide
  rw [toList_render, lines]
  simp only [List.flatMap_append, List.flatMap_cons, List.flatMap_nil, List.append_nil,
    List.append_assoc, List.cons_append, List.nil_append]
  rw [hheader, hstyle, lex_none_flatMap (lex_nodeLine label), lex_none_flatMap lex_edgeLine, hend]
  simp [pieces]

end Text

/-- A picture of an arena and some edges, in which some nodes are shown. -/
structure WellDrawn [LE κ] [DecidableLE κ] (name : String) (label : κ → String) (arena : Arena κ)
    (edges : List Edge) (nodes : List (Handle × κ)) : Prop where
  /-- Every marked node is shown once, with its key, and nothing else is. -/
  shown : (nodes.map Prod.fst).Perm arena.marked
  keyed : ∀ entry ∈ nodes, arena.key? entry.1 = some entry.2
  ascending : nodes.Pairwise fun a b => a.2 ≤ b.2 ∧ a.2 ≠ b.2
  /-- Every line ends with a line break, and there are no others. -/
  split : (render name label arena edges).toList.splitOn '\n' =
    (["digraph " ++ quoted name ++ " \x7b", "    node [shape=box];"] ++
      nodes.map (fun entry => nodeLine entry.1 (label entry.2)) ++
      edges.map edgeLine ++ ["\x7d"]).map String.toList ++ [[]]
  count : (render name label arena edges).toList.count '\n' =
    3 + arena.marked.length + edges.length
  /-- A reader finds every label, escaped, between the quotes that were written around it. -/
  read : lex none (render name label arena edges).toList = some (pieces name label nodes edges)

theorem wellDrawn [LE κ] [DecidableLE κ] [Std.IsLinearOrder κ] (name : String) (label : κ → String)
    (arena : Arena κ) (edges : List Edge) :
    WellDrawn name label arena edges (shownNodes arena) := by
  have hbreaks : ∀ line ∈ (lines name label arena edges).map String.toList, '\n' ∉ line := by
    intro line hline
    obtain ⟨text, htext, rfl⟩ := List.mem_map.mp hline
    exact newline_not_mem_lines name label arena edges text htext
  have htext : (render name label arena edges).toList =
      ((lines name label arena edges).map String.toList).flatMap fun line => line ++ ['\n'] := by
    rw [toList_render, List.flatMap_map]
  constructor
  · exact map_fst_shownNodes_perm arena
  · exact fun entry hentry => (mem_shownNodes.mp hentry).2
  · exact pairwise_shownNodes arena
  · rw [htext, splitOn_flatMap_concat hbreaks]
    rfl
  · have hshown := (map_fst_shownNodes_perm arena).length_eq
    rw [List.length_map] at hshown
    rw [htext, count_flatMap_concat hbreaks]
    simp only [lines, List.length_map, List.length_append, List.length_cons, List.length_nil,
      hshown]
    omega
  · exact lex_render name label arena edges

/-- Pictures are faithful for every text, and a picture of an analysis shows both ends of all its
edges. -/
theorem faithful_pictures [LE κ] [DecidableLE κ] [Std.IsLinearOrder κ] {expander : Expander κ σ ε}
    (hnaming : expander.Naming) (name : String) (label : κ → String) :
    (∀ arena edges, WellDrawn name label arena edges (shownNodes arena)) ∧
      (∀ text : String,
        replacements.foldl replaceEach text.toList = (escape text).toList ∧
          (escape text).toList = text.toList.flatMap escapeChar ∧
          unescape (escape text).toList = text.toList.filter (· ≠ '\r')) ∧
      ∀ analysis bound after, Tended expander analysis →
        analysis.saturate expander bound = (.completed, after) →
        ∀ edge ∈ after.edges, ∀ node ∈ [edge.source, edge.target], ∃ key,
          (node, key) ∈ shownNodes after.arena ∧
            (nodeLine node (label key)).toList ∈
              (render name label after.arena after.edges).toList.splitOn '\n' := by
  refine ⟨wellDrawn name label, fun text => ?_, ?_⟩
  · exact ⟨foldl_replacements text, toList_escape text, by
      rw [toList_escape, unescape_flatMap_escapeChar]⟩
  · intro analysis bound after htended hcompleted edge hedge node hnode
    have hafter := htended.compute bound
    rw [hcompleted] at hafter
    have hanchored := (hafter.anchored hnaming).2
    have hmarked : (after.arena.progress node).isMarked := by
      simp only [List.mem_cons, List.not_mem_nil, or_false] at hnode
      rcases hnode with rfl | rfl
      · exact hanchored.source edge hedge
      · exact hanchored.target edge hedge
    obtain ⟨key, hkey⟩ := Option.isSome_iff_exists.mp (Arena.isSome_key?_of_isMarked hmarked)
    have hshown := mem_shownNodes.mpr ⟨hmarked, hkey⟩
    refine ⟨key, hshown, ?_⟩
    rw [(wellDrawn name label after.arena after.edges).split]
    apply List.mem_append_left
    apply List.mem_map_of_mem
    simp only [List.mem_append, List.mem_map]
    exact .inl (.inl (.inr ⟨(node, key), hshown, rfl⟩))

/-- Nodes that need each other and a sentinel, in a picture whose name has to be escaped. -/
theorem faithful_pictures_ring :
    let after := (ring.saturate (ringPlan.expander : Expander Nat Unit Empty) 4).2
    (ringPlan.expander : Expander Nat Unit Empty).Naming ∧
      Tended (ringPlan.expander : Expander Nat Unit Empty) ring ∧
      (ring.saturate (ringPlan.expander : Expander Nat Unit Empty) 4).1 = .completed ∧
      after.edges = [⟨⟨0⟩, ⟨1⟩, "next"⟩, ⟨⟨1⟩, ⟨2⟩, "sentinel"⟩, ⟨⟨1⟩, ⟨0⟩, "next"⟩] ∧
      WellDrawn "a \"ring\"\n" toString after.arena after.edges (shownNodes after.arena) ∧
      unescape (escape "a \"ring\"\n").toList = "a \"ring\"\n".toList ∧
      ∀ edge ∈ after.edges, ∀ node ∈ [edge.source, edge.target], ∃ key,
        (node, key) ∈ shownNodes after.arena ∧
          (nodeLine node (toString key)).toList ∈
            (render "a \"ring\"\n" toString after.arena after.edges).toList.splitOn '\n' := by
  have hnaming : (ringPlan.expander : Expander Nat Unit Empty).Naming :=
    ringPlan.follows_expander.quiet.naming
  have htended : Tended (ringPlan.expander : Expander Nat Unit Empty) ring :=
    .root ⟨0⟩ (.start { arena := (Arena.intern ∅ 0).2, store := () })
  have hcompleted : (ring.saturate (ringPlan.expander : Expander Nat Unit Empty) 4).1 =
      .completed := by decide +kernel
  obtain ⟨hdrawn, htext, hends⟩ := faithful_pictures hnaming "a \"ring\"\n" toString
  refine ⟨hnaming, htended, hcompleted, by decide +kernel, hdrawn _ _, ?_,
    hends ring 4 _ htended (Prod.ext hcompleted rfl)⟩
  exact (htext _).2.2

end Dot

end PortableImage.Graph
