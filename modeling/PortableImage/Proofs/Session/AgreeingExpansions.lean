import PortableImage.Proofs.Session.AgreeingReplies
/-!
# Expansions agree

Two workspaces are twins if they are alike and the same code has been compiled for the same
artifacts.  A blind backend compiles one method in twin workspaces to the same code, or fails in both
with one fault.  So the expander of a session respects twins.
-/

namespace PortableImage

open PortableImage.Graph (Arena Dependency Expander Expansion Handle Kinship Site)

/-- The same code has been compiled for the same nodes. -/
structure Workspace.CodeAlike (left right : Workspace) : Prop where
  forth : ∀ a compiled, left.store.compiled.find? a = some compiled → ∃ b other,
    Arena.Same left.arena right.arena a b ∧ right.store.compiled.find? b = some other ∧
      Layout.Alike (Arena.Same left.arena right.arena) compiled.toLayout other.toLayout
  back : ∀ b, (right.store.compiled.find? b).isSome → ∃ a,
    Arena.Same left.arena right.arena a b ∧ (left.store.compiled.find? a).isSome

namespace Workspace.CodeAlike

variable {left right left' right' : Workspace} {a b : Handle}

theorem mono (h : CodeAlike left right) (hleft : left.arena.Keeps left'.arena)
    (hright : right.arena.Keeps right'.arena) (hcode : left'.store.compiled = left.store.compiled)
    (hcode' : right'.store.compiled = right.store.compiled) : CodeAlike left' right' where
  forth a compiled hcompiled := by
    rw [hcode] at hcompiled
    obtain ⟨b, other, hsame, hother, halike⟩ := h.forth a compiled hcompiled
    refine ⟨b, other, hsame.mono hleft hright, by rw [hcode', hother], ?_⟩
    exact halike.imp fun _ _ hab => hab.mono hleft hright
  back b hb := by
    rw [hcode'] at hb
    obtain ⟨a, hsame, ha⟩ := h.back b hb
    exact ⟨a, hsame.mono hleft hright, by rwa [hcode]⟩

theorem find? (h : CodeAlike left right) (hab : Arena.Same left.arena right.arena a b) :
    Option.Rel (Layout.Alike (Arena.Same left.arena right.arena))
      ((left.store.compiled.find? a).map CompiledMethod.toLayout)
      ((right.store.compiled.find? b).map CompiledMethod.toLayout) := by
  cases ha : left.store.compiled.find? a with
  | some compiled =>
    obtain ⟨b', other, hsame, hother, halike⟩ := h.forth a compiled ha
    obtain rfl := (hsame.eq_iff hab).mp rfl
    rw [hother]
    exact .some halike
  | none =>
    cases hb : right.store.compiled.find? b with
    | none => exact .none
    | some other =>
      obtain ⟨a', hsame, ha'⟩ := h.back b (by rw [hb]; rfl)
      obtain rfl := (hsame.eq_iff hab).mpr rfl
      rw [ha] at ha'
      cases ha'

end Workspace.CodeAlike

structure Workspace.Twin (setting : Setting) (steady : Prop) (left right : Workspace) : Prop where
  alike : Workspace.Alike setting ⟨steady, left.store.compiled, right.store.compiled⟩ left right
  code : Workspace.CodeAlike left right

namespace Workspace.Twin

variable {setting : Setting} {steady : Prop} {left right left' right' : Workspace} {a b : Handle}

theorem progress (h : Twin setting steady left right)
    (hab : Arena.Same left.arena right.arena a b) :
    left.arena.progress a = right.arena.progress b :=
  h.alike.draft.arena.progress hab

/-- Twins stay twins while the code compiled for them is left alone. -/
theorem grow (h : Twin setting steady left right) (hleft : left ≤ left') (hright : right ≤ right')
    (halike : Workspace.Alike setting ⟨steady, left.store.compiled, right.store.compiled⟩
      left' right') : Twin setting steady left' right' where
  alike := { halike with
    left := rfl
    right := rfl }
  code := h.code.mono (Arena.Grows.keeps hleft) (Arena.Grows.keeps hright) halike.left halike.right

theorem keep (h : Twin setting steady left right) (hab : Arena.Same left.arena right.arena a b)
    {compiled other : CompiledMethod} (hlayout : Layout.Alike (Arena.Same left.arena right.arena)
      compiled.toLayout other.toLayout) :
    Twin setting steady (left.keep a compiled) (right.keep b other) where
  alike := { h.alike with
    draft := h.alike.draft
    left := rfl
    right := rfl }
  code := by
    constructor
    · intro node found hfound
      rw [find?_keep] at hfound
      split at hfound
      · rename_i hnode
        obtain rfl := Option.some.inj hfound
        exact ⟨b, other, hnode ▸ hab, by rw [find?_keep, if_pos rfl], hlayout⟩
      · rename_i hnode
        obtain ⟨node', found', hsame, hfound', halike⟩ := h.code.forth node found hfound
        refine ⟨node', found', hsame, ?_, halike⟩
        rw [find?_keep, if_neg, hfound']
        exact fun hnode' => hnode ((hsame.eq_iff hab).mpr hnode')
    · intro node hnode
      rw [find?_keep] at hnode
      by_cases hb : node = b
      · exact ⟨a, hb ▸ hab, by rw [find?_keep, if_pos rfl]; rfl⟩
      · rw [if_neg hb] at hnode
        obtain ⟨node', hsame, hnode'⟩ := h.code.back node hnode
        refine ⟨node', hsame, ?_⟩
        rw [find?_keep]
        split
        · rfl
        · exact hnode'

end Workspace.Twin

theorem Workspace.kinship_twin (setting : Setting) (steady : Prop) :
    Kinship (Workspace.Twin setting steady) where
  arena _ _ h := h.alike.draft.arena
  cancelled _ _ h := h.alike.cancelled
  rearrange left right left' right' h hleft hright harena := by
    have hkeeps : left.arena.Keeps left'.arena := Arena.Keeps.of_key?_eq hleft.key?
    have hkeeps' : right.arena.Keeps right'.arena := Arena.Keeps.of_key?_eq hright.key?
    have hcode := congrArg Shelf.compiled hleft.store
    have hcode' := congrArg Shelf.compiled hright.store
    refine ⟨?_, h.code.mono hkeeps hkeeps' hcode hcode'⟩
    exact {
      draft := {
        ledger := by
          show left'.store.ledger = right'.store.ledger
          rw [hleft.store, hright.store]
          exact h.alike.draft.ledger
        sound := by
          show left'.store.ledger.Sound _ _
          rw [hleft.store]
          exact h.alike.draft.sound
        arena := harena
        within := fun node key hkey => h.alike.draft.within node key ((hleft.key? node).symm.trans hkey)
        within_right := fun node key hkey =>
          h.alike.draft.within_right node key ((hright.key? node).symm.trans hkey) }
      rulings := by rw [hleft.store, hright.store, h.alike.rulings]
      ruled := by
        rw [hleft.store]
        exact h.alike.ruled
      cancelled := by rw [hleft.cancelled, hright.cancelled, h.alike.cancelled]
      steady := fun hsteady => by rw [hleft.cancelled, h.alike.steady hsteady]
      left := rfl
      right := rfl }

namespace Compiler

variable {setting : Setting} {custody : Custody} {pre : Workspace × Workspace → Prop}
  {method : Entity} {body : MethodBody}

/-- Two compiled methods have the same code and rely on the same artifacts. -/
structure AlikeCode (compiled other : CompiledMethod) (workspaces : Workspace × Workspace) :
    Prop where
  layout : Layout.Alike (Arena.Same workspaces.1.arena workspaces.2.arena)
    compiled.toLayout other.toLayout
  dependencies : List.Forall₂
    (Dependency.Alike (Arena.Same workspaces.1.arena workspaces.2.arena))
    compiled.dependencies other.dependencies

theorem AlikeCode.mono {compiled other : CompiledMethod} {workspaces later : Workspace × Workspace}
    (h : AlikeCode compiled other workspaces) (hle : workspaces ≤ later) :
    AlikeCode compiled other later := by
  have hsame (a b : Handle) (hab : Arena.Same workspaces.1.arena workspaces.2.arena a b) :
      Arena.Same later.1.arena later.2.arena a b :=
    hab.mono (Arena.Grows.keeps hle.1) (Arena.Grows.keeps hle.2)
  exact ⟨h.layout.imp hsame, h.dependencies.imp fun _ _ => Dependency.Alike.imp hsame⟩

variable (compiler : Compiler)

theorem agrees_converse (hblind : (compiler.dialogue method body).Blind)
    (hpatient : custody.steady → (compiler.dialogue method body).Patient) :
    Agrees (Working.bond setting custody) pre (compiler.converse setting method body)
      (compiler.converse setting method body) AlikeCode := by
  intro workspaces halike _
  have hdesks : Desk.Alike setting custody ⟨workspaces.1, []⟩ ⟨workspaces.2, []⟩ := ⟨halike, .nil⟩
  have hone : Dialogue.OneToOne (Arena.Same
      (compiler.held setting method body workspaces.1).2.workspace.arena
      (compiler.held setting method body workspaces.2).2.workspace.arena) :=
    fun _ _ _ _ hab hab' => hab.eq_iff hab'
  obtain ⟨hafter, hends⟩ := Answering.alike_hold (hblind _ hone) hpatient hdesks
    fun _ _ hcited => hcited.1
  have hgrows := (compiler.le_held setting method body workspaces.1).1
  have hgrows' := (compiler.le_held setting method body workspaces.2).1
  rw [converse_eq, converse_eq]
  change Layout.AlikeAnswers _ (compiler.held setting method body workspaces.1).1
    (compiler.held setting method body workspaces.2).1 at hends
  change Desk.Alike setting custody (compiler.held setting method body workspaces.1).2
    (compiler.held setting method body workspaces.2).2 at hafter
  generalize (compiler.held setting method body workspaces.1).1 = answer,
    (compiler.held setting method body workspaces.2).1 = other at hends
  cases hends with
  | error _ => exact ⟨⟨hgrows, hgrows'⟩, hafter.workspace, .error trivial⟩
  | ok hlayout =>
    refine ⟨⟨hgrows, hgrows'⟩, hafter.workspace, .ok fun later hlater => ?_⟩
    exact @AlikeCode.mono _ _ ((compiler.held setting method body workspaces.1).2.workspace,
      (compiler.held setting method body workspaces.2).2.workspace) _ ⟨hlayout, hafter.noted⟩ hlater

theorem misplaced?_alike {R : Handle → Handle → Prop} {layout other : Layout}
    (h : Layout.Alike R layout other) :
    Option.Rel (Relocation.Alike R) (misplaced? layout) (misplaced? other) := by
  have hfind : ∀ {relocations relocations' : List Relocation},
      List.Forall₂ (Relocation.Alike R) relocations relocations' →
      Option.Rel (Relocation.Alike R)
        (relocations.find? fun relocation => layout.data.length < relocation.stop)
        (relocations'.find? fun relocation => other.data.length < relocation.stop) := by
    intro relocations relocations' hrelocations
    induction hrelocations with
    | nil => exact .none
    | @cons relocation relocation' _ _ hfirst _ ih =>
      have hstop : relocation.stop = relocation'.stop := by
        rw [Relocation.stop, Relocation.stop, hfirst.offset, hfirst.kind]
      rw [List.find?_cons, List.find?_cons, h.data, hstop]
      split
      · exact .some hfirst
      · rw [h.data] at ih
        exact ih
  exact hfind h.relocations

theorem agrees_compile {a b : Handle} (hblind : ∀ body, setting.body? method = some body →
      (compiler.dialogue method body).Blind)
    (hpatient : custody.steady → ∀ body, setting.body? method = some body →
      (compiler.dialogue method body).Patient)
    (hpre : ∀ workspaces, pre workspaces →
      Drafting.Stands (.methodCode method) a b (workspaces.1.draft, workspaces.2.draft)) :
    Agrees (Working.bond setting custody) pre (compiler.compile setting a)
      (compiler.compile setting b) AlikeCode := by
  refine (agrees_plan (Drafting.agrees_keyOf fun _ h => h) hpre).bind_fact ?_
  rintro _ _ ⟨rfl, rfl⟩
  dsimp only
  cases hbody : setting.body? method with
  | none => exact Agrees.throw trivial
  | some body =>
    refine (compiler.agrees_converse (hblind body hbody) fun hsteady => hpatient hsteady body hbody).bind
      fun compiled other => ?_
    intro workspaces halike hworkspaces
    obtain ⟨_, hcode⟩ := hworkspaces.now
    have hmisplaced := misplaced?_alike hcode.layout
    cases hleft : misplaced? compiled.toLayout with
    | none =>
      rw [hleft] at hmisplaced
      cases hright : misplaced? other.toLayout with
      | none => exact Agrees.pure (fun _ h => h.2) workspaces halike hworkspaces
      | some relocation =>
        rw [hright] at hmisplaced
        cases hmisplaced
    | some relocation =>
      rw [hleft] at hmisplaced
      cases hright : misplaced? other.toLayout with
      | none =>
        rw [hright] at hmisplaced
        cases hmisplaced
      | some relocation' =>
        rw [hright] at hmisplaced
        cases hmisplaced with
        | some hsame =>
          dsimp only
          rw [hsame.offset, hcode.layout.data]
          exact Agrees.throw trivial workspaces halike hworkspaces

end Compiler

namespace Session

variable {compiler : Compiler} {setting : Setting} {steady : Prop}

/-- A blind backend makes the expander respect twins. -/
theorem respects_expand (hblind : ∀ method body, setting.body? method = some body →
      (compiler.dialogue method body).Blind)
    (hpatient : steady → ∀ method body, setting.body? method = some body →
      (compiler.dialogue method body).Patient) :
    (expand compiler setting).Respects (Workspace.Twin setting steady) := by
  rintro left right a b htwin ⟨key, ha, hb⟩
  obtain ⟨⟨hgrows, hgrows'⟩, hplanned, hneeded⟩ :=
    (agrees_planned (Drafting.agrees_needs setting key)).start htwin.alike
  rw [expand, bind_of_ok (plan_keyOf ha), expand, bind_of_ok (plan_keyOf hb)]
  cases hleft : Workspace.plan (Drafting.needs setting key) left with
  | mk answer planned =>
  cases hright : Workspace.plan (Drafting.needs setting key) right with
  | mk answer' planned' =>
  simp only [hleft, hright] at hgrows hgrows' hplanned hneeded
  have hplanned : Workspace.Twin setting steady planned planned' :=
    htwin.grow hgrows hgrows' hplanned
  cases hneeded with
  | error _ =>
    rw [bind_of_error hleft, bind_of_error hright]
    exact ⟨hplanned, .error trivial⟩
  | ok hneeded =>
    rename_i expansion expansion'
    have halike := hneeded.now.alike
    rw [bind_of_ok hleft, bind_of_ok hright]
    cases key with
    | methodCode method =>
      have hstands : Always (fun workspaces : Workspace × Workspace =>
          Drafting.Stands (.methodCode method) a b (workspaces.1.draft, workspaces.2.draft))
          (planned, planned') := fun later hlater =>
        ⟨Arena.Grows.keeps (hgrows.trans hlater.1) _ _ ha,
          Arena.Grows.keeps (hgrows'.trans hlater.2) _ _ hb⟩
      obtain ⟨⟨hgrown, hgrown'⟩, hcompiled, hanswers⟩ := compiler.agrees_compile
        (hblind method) (fun hsteady => hpatient hsteady method) (fun _ h => h) (planned, planned')
        hplanned.alike hstands
      dsimp only
      cases hcompile : compiler.compile setting a planned with
      | mk answer worked =>
      cases hcompile' : compiler.compile setting b planned' with
      | mk answer' worked' =>
      simp only [hcompile, hcompile'] at hgrown hgrown' hcompiled hanswers
      have hworked : Workspace.Twin setting steady worked worked' :=
        hplanned.grow hgrown hgrown' hcompiled
      have hsame : Arena.Same worked.arena worked'.arena a b :=
        (hstands (worked, worked') ⟨hgrown, hgrown'⟩).same
      cases hanswers with
      | error _ =>
        rw [bind_of_error hcompile, bind_of_error hcompile']
        exact ⟨hworked, .error trivial⟩
      | ok hcode =>
        rw [bind_of_ok hcompile, bind_of_ok hcompile']
        refine ⟨hworked.keep hsame hcode.now.layout, .ok ⟨?_, ?_⟩⟩
        · refine List.rel_append (halike.always.imp fun _ _ => Dependency.Alike.imp fun _ _ hab => ?_)
            hcode.now.dependencies
          exact hab.mono (Arena.Grows.keeps hgrown) (Arena.Grows.keeps hgrown')
        · refine halike.guarded.imp fun _ _ => Graph.GuardedDependency.Alike.imp fun _ _ hab => ?_
          exact hab.mono (Arena.Grows.keeps hgrown) (Arena.Grows.keeps hgrown')
    | _ => exact ⟨hplanned, .ok halike⟩

end Session

end PortableImage
