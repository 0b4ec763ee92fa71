import PortableImage.Proofs.Session.CleanEmissions
import PortableImage.Proofs.Session.Rebinding
import PortableImage.Proofs.Session.Strays
/-!
# More roots

A session with more roots comes to an image with more artifacts.  What it has in common with the image
of fewer roots is the same there, byte by byte and place by place, except that slots which bore the
token of a method may point to its code.

Nothing is said about how the two analyses run, for their batches and handles have nothing to do with
each other.  Their ends are compared: the one has marked what its roots and needs force it to, and
roots and needs are among those of the other.
-/

namespace PortableImage

open PortableImage.Graph (Analysis Arena Expansion Handle Visit)

namespace Session

section Steps

variable {setting : Setting} {before after : Workspace} {node : Handle} {nodes : List Handle}
  {artifact : EmittedArtifact} {artifacts : List EmittedArtifact}

/-- The workspace in which a node is emitted, in the course of an emission. -/
structure EmittedFrom (setting : Setting) (before : Workspace) (node : Handle)
    (artifact : EmittedArtifact) (current : Workspace) : Prop where
  marked : (before.arena.progress node).isMarked
  key : before.arena.key? node = some artifact.key
  continues : before.Continues current
  orderly : current.Orderly setting
  emitted : ∃ later, Drafting.emit setting node (codeFor current node) current.draft =
    (.ok artifact, later)

theorem emittedFrom_of_emitNode (horderly : before.Orderly setting)
    (hmarked : (before.arena.progress node).isMarked)
    (h : emitNode setting node before = (.ok artifact, after)) :
    EmittedFrom setting before node artifact before := by
  have hanswer := (fst_emitNode setting node before).symm.trans (congrArg Prod.fst h)
  have hemitted := Prod.ext (y := (_, _)) hanswer rfl
  exact ⟨hmarked, (Drafting.emit_eq_ok hemitted).1, .refl before, horderly, _, hemitted⟩

/-- Every artifact of an emission is emitted from a workspace that continues the first one. -/
theorem emittedFrom_of_emitEach (horderly : before.Orderly setting)
    (hfurnished : before.Furnished setting)
    (hmarked : ∀ node ∈ nodes, (before.arena.progress node).isMarked)
    (h : nodes.mapM (emitNode setting) before = (.ok artifacts, after)) :
    List.Forall₂ (fun node artifact => ∃ current, EmittedFrom setting before node artifact current)
      nodes artifacts := by
  induction nodes generalizing before artifacts with
  | nil =>
    rw [List.mapM_nil] at h
    obtain rfl := Except.ok.inj (Prod.mk.inj h).1
    exact .nil
  | cons node nodes ih =>
    rw [List.mapM_cons] at h
    obtain ⟨artifact, middle, hfirst, hrest⟩ := bind_eq_ok h
    obtain ⟨others, later, hothers, hanswer⟩ := bind_eq_ok hrest
    obtain ⟨hartifacts, rfl⟩ := Prod.mk.inj hanswer
    obtain rfl := Except.ok.inj hartifacts
    have hnode := hmarked node List.mem_cons_self
    have hcontinues : before.Continues (emitNode setting node before).2 := continues_emitNode hnode
    have hmiddle := orderly_emitNode horderly hfurnished hnode
    have hfirst' : (emitNode setting node before).2 = middle := congrArg Prod.snd hfirst
    rw [hfirst'] at hcontinues hmiddle
    refine .cons ⟨before, emittedFrom_of_emitNode horderly hnode hfirst⟩ ?_
    refine (ih hmiddle (hfurnished.mono hcontinues) (fun other hother => ?_) hothers).imp ?_
    · exact (hcontinues.marked other).mpr (hmarked other (List.mem_cons_of_mem _ hother))
    · rintro other emitted ⟨current, hcurrent⟩
      exact ⟨current, { hcurrent with
        marked := (hcontinues.marked other).mp hcurrent.marked
        key := hcontinues.key? hcurrent.key hcurrent.marked
        continues := hcontinues.trans hcurrent.continues }⟩

end Steps

/-- The other session differs in its roots at most, and has all of them. -/
structure Widens (session other : Session) (program : Program) : Prop where
  compiler : other.compiler = session.compiler
  setting : other.setting program = session.setting program
  roots : ∀ root ∈ session.roots, root ∈ other.roots

variable {session other after after' : Session} {program : Program} {image image' : Image}
  {visits visits' : List (Visit ArtifactKey Shelf)} {visit visit' : Visit ArtifactKey Shelf}
  {analysis analysis' : Analysis ArtifactKey Shelf} {a b : Handle} {key : ArtifactKey}

/-- All that is known about a completed analysis of a fresh session. -/
structure Settled (session : Session) (program : Program)
    (visits : List (Visit ArtifactKey Shelf)) (analysis : Analysis ArtifactKey Shelf) : Prop where
  concluded : session.Concluded program visits analysis
  analysed : session.Analysed program visits analysis

theorem settled_of_analyse (hfresh : session.Fresh program)
    (h : session.analyse program = (.completed, analysis)) :
    ∃ visits, session.Settled program visits analysis := by
  obtain ⟨visits, hconcluded⟩ := concluded_of_analyse hfresh.untouched h
  obtain ⟨_, hanalysed⟩ := analysed_of_analyse hfresh h
  obtain ⟨first, roots, haccounts, _⟩ := hconcluded.accounts
  exact ⟨visits, hconcluded, ⟨first, roots, haccounts⟩, hconcluded.asked, hconcluded.drained,
    hanalysed.tracked⟩

theorem Settled.orderly (h : session.Settled program visits analysis) (hvisit : visit ∈ visits) :
    Workspace.Orderly (session.setting program) visit.before :=
  h.analysed.tracked.surveyed _ (h.analysed.mem_expansions hvisit)

/-- A table of virtual methods brings the table of its base along, if the base is in the bubble. -/
theorem Settled.mem_markedKeys_of_baseTable (h : session.Settled program visits analysis)
    (hmarked : key ∈ analysis.arena.markedKeys) {table : ArtifactKey}
    (hbase : Drafting.BaseTable (session.setting program) key table)
    (hinner : ∀ base, table = .vtable base → session.bubble.contains base) :
    table ∈ analysis.arena.markedKeys := by
  cases hbase with
  | vtable htype hbase =>
    obtain ⟨visit, hvisit, hbefore⟩ := h.concluded.exists_visit hmarked
    have hneeds := vtableNeeds_of_expand hbefore (h.concluded.answered hvisit)
    obtain ⟨dependency, hdependency, hkey⟩ := hneeds.base _ _ htype hbase (hinner _ rfl)
    exact h.concluded.mem_markedKeys_of_always hvisit hdependency hkey

section Comparison

variable (hblind : ∀ method body, (session.setting program).body? method = some body →
    (session.compiler.dialogue method body).Blind)
  (hwide : session.Widens other program) (h : session.Settled program visits analysis)
  (h' : other.Settled program visits' analysis')
include hblind hwide h h'

/-- Where both analyses have visited an artifact, they have found the same needs. -/
theorem alike_of_visits (hvisit : visit ∈ visits) (hvisit' : visit' ∈ visits')
    (hkey : visit.before.arena.key? visit.node = some key)
    (hkey' : visit'.before.arena.key? visit'.node = some key) :
    Expansion.Alike (Arena.Same visit.after.arena visit'.after.arena) visit.expansion
      visit'.expansion := by
  have hanswered := h.concluded.answered hvisit
  have hanswered' := h'.concluded.answered hvisit'
  have horderly := h'.orderly hvisit'
  rw [hwide.compiler, hwide.setting] at hanswered'
  rw [hwide.setting] at horderly
  have halike := alike_expand hblind (h.orderly hvisit) horderly ⟨key, hkey, hkey'⟩
    (congrArg Prod.fst hanswered) (congrArg Prod.fst hanswered')
  rwa [hanswered, hanswered'] at halike

/-- What is marked for some roots is marked for more. -/
theorem mem_markedKeys_of_widens :
    ∀ key ∈ analysis.arena.markedKeys, key ∈ analysis'.arena.markedKeys := by
  refine h.concluded.least ?roots ?always ?guarded
  case roots =>
    intro key hkey
    obtain ⟨root, hroot, hkey⟩ := List.mem_flatMap.mp hkey
    rw [← hwide.setting] at hkey
    exact h'.concluded.mem_markedKeys_of_root
      (List.mem_flatMap.mpr ⟨root, hwide.roots root hroot, hkey⟩)
  case always =>
    intro visit hvisit key hbefore hmarked dependency hdependency target htarget
    obtain ⟨visit', hvisit', hbefore'⟩ := h'.concluded.exists_visit hmarked
    have halike := alike_of_visits hblind hwide h h' hvisit hvisit' hbefore hbefore'
    obtain ⟨dependency', hdependency', ⟨_, hfound, htarget'⟩, _⟩ :=
      exists_of_mem_left halike.always hdependency
    obtain rfl := Option.some.inj (htarget.symm.trans hfound)
    exact h'.concluded.mem_markedKeys_of_always hvisit' hdependency' htarget'
  case guarded =>
    intro visit hvisit key hbefore hmarked dependency hdependency guard target hguard htarget _
      hguarding
    obtain ⟨visit', hvisit', hbefore'⟩ := h'.concluded.exists_visit hmarked
    have halike := alike_of_visits hblind hwide h h' hvisit hvisit' hbefore hbefore'
    obtain ⟨dependency', hdependency', ⟨_, hfound, htarget'⟩, ⟨_, hfound', hguard'⟩, _⟩ :=
      exists_of_mem_left halike.guarded hdependency
    obtain rfl := Option.some.inj (htarget.symm.trans hfound)
    obtain rfl := Option.some.inj (hguard.symm.trans hfound')
    have hhomebound := homebound_expand hbefore' (h'.concluded.answered hvisit')
    obtain ⟨_, _, _, _, _, _, hthreshold⟩ := hhomebound.guarded dependency' hdependency'
    exact h'.concluded.mem_markedKeys_of_guarded hvisit' hdependency' htarget' hguard' hthreshold
      hguarding

/-- What a method is compiled to for some roots it is compiled to for more. -/
theorem alike_code_of_widens {method : Entity} {compiled code : CompiledMethod}
    (hkey : analysis.arena.key? a = some (.methodCode method))
    (hkey' : analysis'.arena.key? b = some (.methodCode method))
    (hcompiled : analysis.store.compiled.find? a = some compiled)
    (hcode : analysis'.store.compiled.find? b = some code) :
    Layout.Alike (Arena.Same analysis.arena analysis'.arena) compiled.toLayout code.toLayout := by
  obtain ⟨visit, hvisit, rfl, hsource⟩ := h.analysed.exists_source hcompiled
  obtain ⟨visit', hvisit', rfl, hsource'⟩ := h'.analysed.exists_source hcode
  obtain ⟨_, hbefore, hfound, _⟩ := h.concluded.known hvisit
  obtain ⟨_, hbefore', hfound', _⟩ := h'.concluded.known hvisit'
  obtain rfl := Option.some.inj (hfound.symm.trans hkey)
  obtain rfl := Option.some.inj (hfound'.symm.trans hkey')
  have hanswered := h.concluded.answered hvisit
  have hanswered' := h'.concluded.answered hvisit'
  have horderly := h'.orderly hvisit'
  rw [hwide.compiler, hwide.setting] at hanswered' hsource'
  rw [hwide.setting] at horderly
  have halike := alike_code hblind (h.orderly hvisit) horderly ⟨_, hbefore, hbefore'⟩
    (congrArg Prod.fst hanswered) (congrArg Prod.fst hanswered') hsource hsource'
  rw [hanswered, hanswered'] at halike
  exact halike.imp fun _ _ hsame =>
    hsame.mono (h.concluded.keeps hvisit) (h'.concluded.keeps hvisit')

/-- An artifact that both images have is the same in both, but for slots that are rebound. -/
theorem rebinds_of_emittedFrom {artifact artifact' : EmittedArtifact} {current current' : Workspace}
    (hinner : ∀ type, .vtable type ∈ analysis'.arena.markedKeys → session.bubble.contains type)
    (hemitted : EmittedFrom (session.setting program) analysis.toSite a artifact current)
    (hemitted' : EmittedFrom (session.setting program) analysis'.toSite b artifact' current')
    (hsame : artifact'.key = artifact.key) : artifact.Rebinds (session.setting program) artifact' := by
  have hfurnished := h.analysed.furnished fun _ _ => Compiler.quotesAt_of_blind hblind
  have hcontinues := hemitted.continues
  have hcontinues' := hemitted'.continues
  have hkey := hemitted.key
  have hkey' : analysis'.arena.key? b = some artifact.key := hsame ▸ hemitted'.key
  have hmarks := hcontinues.keeps.mem_markedKeys hcontinues.marked
  have hmarks' := hcontinues'.keeps.mem_markedKeys hcontinues'.marked
  obtain ⟨_, hanswer⟩ := hemitted.emitted
  obtain ⟨_, hanswer'⟩ := hemitted'.emitted
  refine Drafting.rebinds_of_marks hemitted.orderly.draft hemitted'.orderly.draft ?marks
    ⟨hcontinues.keeps _ _ hkey, hcontinues'.keeps _ _ hkey'⟩ ?ready ?code ?shared hanswer hanswer'
  case marks =>
    intro key hmarked
    exact (hmarks' key).mpr (mem_markedKeys_of_widens hblind hwide h h' key ((hmarks key).mp hmarked))
  case ready =>
    exact (hfurnished.mono hcontinues).ready a _ (hcontinues.keeps _ _ hkey)
      ((hcontinues.marked a).mpr hemitted.marked)
  case code =>
    intro method hmethod
    rw [hmethod] at hkey hkey'
    obtain ⟨compiled, hcompiled⟩ :=
      Option.isSome_iff_exists.mp (h.analysed.compiled hkey hemitted.marked)
    obtain ⟨code, hcode⟩ :=
      Option.isSome_iff_exists.mp (h'.analysed.compiled hkey' hemitted'.marked)
    have halike := alike_code_of_widens hblind hwide h h' hkey hkey' hcompiled hcode
    rw [← hcontinues.compiled] at hcompiled
    rw [← hcontinues'.compiled] at hcode
    exact ⟨compiled.toLayout, code.toLayout, by rw [codeFor, hcompiled]; rfl,
      by rw [codeFor, hcode]; rfl, (hfurnished.mono hcontinues).fits a compiled hcompiled,
      halike.imp fun _ _ hsame => hsame.mono hcontinues.keeps hcontinues'.keeps⟩
  case shared =>
    intro table htable hbase
    have hmarked : artifact.key ∈ analysis.arena.markedKeys :=
      (Arena.mem_markedKeys_iff hkey).mpr hemitted.marked
    exact (hmarks table).mpr (h.mem_markedKeys_of_baseTable hmarked hbase fun type htype =>
      hinner type (htype ▸ (hmarks' table).mp htable))

end Comparison

/-- The artifacts of an image, each with the workspace from which it was emitted. -/
theorem Settled.exists_emittedFrom (h : session.Settled program visits analysis)
    (hquotes : session.Quotes program)
    (hemit : emitMarked (session.setting program) analysis.toSite =
      (.ok image.artifacts, after.workspace)) {artifact : EmittedArtifact}
    (hartifact : artifact ∈ image.artifacts) :
    ∃ node current, EmittedFrom (session.setting program) analysis.toSite node artifact current := by
  have hemitted := emittedFrom_of_emitEach h.analysed.tracked.orderly
    (h.analysed.furnished hquotes) (fun _ => mem_emissionOrder.mp) hemit
  obtain ⟨node, _, hfrom⟩ := exists_of_mem_right hemitted hartifact
  exact ⟨node, hfrom⟩

/-- A session with more roots emits what one with fewer roots does, but for slots that are rebound. -/
theorem rebinds_of_widens
    (hblind : ∀ method body, (session.setting program).body? method = some body →
      (session.compiler.dialogue method body).Blind)
    (hwide : session.Widens other program) (hfresh : session.Fresh program)
    (hfresh' : other.Fresh program) (h : session.emit program = (.ok (.completed image), after))
    (h' : other.emit program = (.ok (.completed image'), after')) :
    ∀ artifact ∈ image.artifacts, ∃ artifact' ∈ image'.artifacts,
      artifact.Rebinds (session.setting program) artifact' := by
  obtain ⟨analysis, hanalyse, hemit, hkeys⟩ := exists_analysis_of_emit h
  obtain ⟨analysis', hanalyse', hemit', hkeys'⟩ := exists_analysis_of_emit h'
  obtain ⟨visits, hsettled⟩ := settled_of_analyse hfresh hanalyse
  obtain ⟨visits', hsettled'⟩ := settled_of_analyse hfresh' hanalyse'
  have hquotes : session.Quotes program := fun _ _ => Compiler.quotesAt_of_blind hblind
  have hquotes' : other.Quotes program := by
    rw [Quotes, hwide.compiler, hwide.setting]
    exact fun _ _ => Compiler.quotesAt_of_blind hblind
  intro artifact hartifact
  have hmem' : artifact.key ∈ image'.keys := by
    rw [hkeys']
    exact mem_markedKeys_of_widens hblind hwide hsettled hsettled' _
      ((hkeys _).mp (List.mem_map_of_mem hartifact))
  obtain ⟨artifact', hartifact', hsame⟩ := List.mem_map.mp hmem'
  obtain ⟨a, current, hfrom⟩ := hsettled.exists_emittedFrom hquotes hemit hartifact
  obtain ⟨b, current', hfrom'⟩ := hsettled'.exists_emittedFrom hquotes' hemit' hartifact'
  rw [hwide.setting] at hfrom'
  refine ⟨artifact', hartifact', rebinds_of_emittedFrom hblind hwide hsettled hsettled' ?_ hfrom
    hfrom' hsame⟩
  intro type htype
  have hbubble : other.bubble = session.bubble := congrArg Setting.bubble hwide.setting
  exact hbubble ▸ contains_of_vtable hfresh' h' ((hkeys' _).mpr htype)

section Orders

variable {order : Order} {roots : List Root}

/-- Two orders that differ in the roots they name come to sessions that differ in their roots. -/
theorem widens_of_build (h : order.build program = .ok session)
    (h' : { order with roots }.build program = .ok other)
    (hroots : ∀ root ∈ session.roots, root ∈ other.roots) : session.Widens other program := by
  obtain ⟨input, backend, haccepted, rfl⟩ := Order.accepted_of_build h
  obtain ⟨input', backend', haccepted', rfl⟩ := Order.accepted_of_build h'
  obtain rfl := Option.some.inj (haccepted.supplied.symm.trans haccepted'.supplied)
  exact ⟨rfl, rfl, hroots⟩

/-- More roots only add to an image.  Every artifact is in the larger image as well, with the same data
and with relocations of the same kinds at the same offsets.  They have the same symbols, except that
the slot of a method in a table may bear the token of the method in the smaller image and point to its
code in the larger one.  An order that names no roots has all methods of its input for roots. -/
theorem rebinds_of_more_roots (hbuild : order.build program = .ok session)
    (hother : { order with roots }.build program = .ok other)
    (hroots : ∀ root ∈ session.roots, root ∈ other.roots)
    (hblind : ∀ method body, (session.setting program).body? method = some body →
      (session.compiler.dialogue method body).Blind)
    (h : session.emit program = (.ok (.completed image), after))
    (h' : other.emit program = (.ok (.completed image'), after')) :
    ∀ artifact ∈ image.artifacts, ∃ artifact' ∈ image'.artifacts,
      artifact.Rebinds (session.setting program) artifact' :=
  rebinds_of_widens hblind (widens_of_build hbuild hother hroots) (fresh_of_build hbuild)
    (fresh_of_build hother) h h'

end Orders

section Figures

theorem build_figures_of_known {roots : List Root}
    (hknown : ∀ root ∈ { figureOrder with roots }.effectiveRoots ⟨0⟩,
      root.isKnown figures figureOrder.bubble) :
    { figureOrder with roots }.build figures =
      .ok ({ figureOrder with roots }.sessionOf ⟨0⟩ (Bytecode.backend "bytes")) := by
  have hmodules : figures.modules = [⟨"App", "/App.dll"⟩] := rfl
  refine Order.Accepted.build ⟨?_, rfl, rfl, by simp [figureOrder], hknown⟩
  simp [Program.moduleAt?, Program.findModule?, hmodules, figureOrder]

/-- Discs alone, without the main method. -/
def discOrder : Order := { figureOrder with roots := [.type typeDisc] }

def discSession : Session := { figureSession with roots := [.type typeDisc] }

theorem build_discs : discOrder.build figures = .ok discSession :=
  build_figures_of_known (by decide +kernel)

theorem emit_discs : ∃ image after,
    discSession.emit figures = (.ok (.completed image), after) ∧
    image.keys =
      [.typeLayout typeFigure, .typeLayout typeDisc, .vtable typeFigure, .vtable typeDisc] :=
  exists_image_of_keys (by cbv)

theorem rebinds_figures : ∃ image after image' after',
    discOrder.build figures = .ok discSession ∧
    { discOrder with roots := figureOrder.roots }.build figures = .ok figureSession ∧
    (∀ root ∈ discSession.roots, root ∈ figureSession.roots) ∧
    discSession.emit figures = (.ok (.completed image), after) ∧
    figureSession.emit figures = (.ok (.completed image'), after') ∧
    .vtable typeDisc ∈ image.keys ∧ .methodCode discArea ∉ image.keys ∧
    .methodCode discArea ∈ image'.keys ∧
    ∀ artifact ∈ image.artifacts, ∃ artifact' ∈ image'.artifacts,
      artifact.Rebinds (discSession.setting figures) artifact' := by
  obtain ⟨image, after, hemit, hkeys⟩ := emit_discs
  obtain ⟨image', after', hemit', hkeys'⟩ := emit_figures
  have hother : { discOrder with roots := figureOrder.roots }.build figures = .ok figureSession :=
    build_figures
  have hroots : ∀ root ∈ discSession.roots, root ∈ figureSession.roots := by decide +kernel
  refine ⟨image, after, image', after', build_discs, hother, hroots, hemit, hemit', ?_, ?_, ?_,
    rebinds_of_more_roots build_discs hother hroots blind_figures hemit hemit'⟩
  · rw [hkeys]
    decide
  · rw [hkeys]
    decide
  · rw [hkeys']
    decide

/-- An order that names no roots. -/
def openOrder : Order := { figureOrder with roots := [] }

def openSession : Session := { figureSession with roots := [.allMethods ⟨0⟩] }

theorem build_open : openOrder.build figures = .ok openSession :=
  build_figures_of_known (by decide +kernel)

theorem emit_open : ∃ image after,
    openSession.emit figures = (.ok (.completed image), after) ∧
    image.keys =
      [.methodCode main, .methodCode figureArea, .methodCode discArea, .typeLayout typeProgram,
        .typeLayout typeFigure, .typeLayout typeDisc, .signature figureArea,
        .helperCell .delayLoadVirtualCall, .virtualMethodUse figureArea] :=
  exists_image_of_keys (by cbv)

def mainSession : Session := { figureSession with roots := [.method main] }

theorem build_main : { openOrder with roots := [.method main] }.build figures = .ok mainSession :=
  build_figures_of_known (by decide +kernel)

theorem emit_main : ∃ image after,
    mainSession.emit figures = (.ok (.completed image), after) ∧
    image.keys =
      [.methodCode main, .typeLayout typeProgram, .typeLayout typeFigure, .signature figureArea,
        .helperCell .delayLoadVirtualCall, .virtualMethodUse figureArea] :=
  exists_image_of_keys (by cbv)

/-- An order that names no roots comes to more than one that names the main method. -/
theorem not_forall_rebinds :
    ¬ ∀ (program : Program) (order : Order) (roots : List Root) (session other after after' : Session)
      (image image' : Image), order.build program = .ok session →
      { order with roots }.build program = .ok other → (∀ root ∈ order.roots, root ∈ roots) →
      (∀ method body, (session.setting program).body? method = some body →
        (session.compiler.dialogue method body).Blind) →
      session.emit program = (.ok (.completed image), after) →
      other.emit program = (.ok (.completed image'), after') →
      ∀ artifact ∈ image.artifacts, ∃ artifact' ∈ image'.artifacts,
        artifact.Rebinds (session.setting program) artifact' := by
  intro h
  obtain ⟨image, after, hemit, hkeys⟩ := emit_open
  obtain ⟨image', after', hemit', hkeys'⟩ := emit_main
  have hmem : .methodCode discArea ∈ image.keys := by
    rw [hkeys]
    decide
  obtain ⟨artifact, hartifact, hkey⟩ := List.mem_map.mp hmem
  obtain ⟨artifact', hartifact', hrebinds⟩ := h figures openOrder [.method main] openSession
    mainSession after after' image image' build_open build_main (List.forall_mem_nil _) blind_figures
    hemit hemit' artifact hartifact
  have hmem' : .methodCode discArea ∈ image'.keys :=
    List.mem_map.mpr ⟨artifact', hartifact', hrebinds.key.symm.trans hkey⟩
  rw [hkeys'] at hmem'
  revert hmem'
  decide

end Figures

end Session

end PortableImage
