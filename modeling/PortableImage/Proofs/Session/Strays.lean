import PortableImage.Proofs.Session.Concluding
import PortableImage.Proofs.Session.UsedSlots
/-!
# What a bubble does not keep out

The artifacts of an image are about entities of its bubble, with one exception.  A table of virtual
methods takes the code of every method that fills one of its used slots, and does not ask where the
method is defined.  Such a method is a *stray* if it is defined outside the bubble.  Its code gets into
the image, and what an instantiated method needs on its own entity comes along; nothing else does.
-/

namespace PortableImage

open PortableImage.Graph (Analysis Visit)

namespace Session

/-- The method is defined outside the bubble, and it fills a used slot of a table in the image. -/
structure Stray (session : Session) (program : Program) (image : Image) (method : Entity) : Prop where
  outside : session.bubble.contains method = false
  fills : ∃ type, .vtable type ∈ image.keys ∧
    method ∈ Drafting.slotMethods (session.setting program) type
  used : .virtualMethodUse (program.introducer method) ∈ image.keys

/-- What comes with the code of a method: if it is instantiated, its dictionary and its signature. -/
inductive Baggage (program : Program) (method : Entity) : ArtifactKey → Prop
  | code : Baggage program method (.methodCode method)
  | dictionary {description} (hmethod : program.method? method = some description)
      (hinstantiation : description.instantiation.isSome) :
      Baggage program method (.genericDictionary method)
  | signature {description} (hmethod : program.method? method = some description)
      (hinstantiation : description.instantiation.isSome) :
      Baggage program method (.signature method)

variable {session after : Session} {program : Program} {image : Image} {key : ArtifactKey}

theorem inside_of_root {setting : Setting} {root : Root}
    (hknown : root.isKnown setting.program setting.bubble) (hkey : key ∈ setting.rootKeys root) :
    key.Inside setting.bubble := by
  cases root with
  | method entity =>
    obtain rfl := List.mem_singleton.mp hkey
    simp only [Root.isKnown, Root.names, Bool.and_eq_true] at hknown
    exact hknown.1.2
  | type entity =>
    simp only [Root.isKnown, Root.names, Bool.and_eq_true] at hknown
    rcases List.mem_pair.mp hkey with rfl | rfl
    · exact hknown.1.2
    · exact hknown.1.2
  | allMethods module =>
    obtain ⟨method, hmethod, rfl⟩ := List.mem_map.mp hkey
    have hmodule := (List.mem_filter.mp (mem_ascending.mp (List.mem_filter.mp hmethod).1)).2
    show setting.bubble.hasModule method.module
    rw [of_decide_eq_true hmodule]
    exact hknown

/-- The artifact lies inside the bubble or comes with a stray. -/
def Accounted (session : Session) (program : Program) (image : Image) (key : ArtifactKey) : Prop :=
  key.Inside session.bubble ∨
    ∃ method, session.Stray program image method ∧ Baggage program method key

theorem Accounted.own {target : ArtifactKey} (h : session.Accounted program image key)
    (hown : (session.setting program).Own key target) : session.Accounted program image target := by
  cases hown with
  | dictionary hmethod hinstantiation =>
    rcases h with hinside | ⟨method, hstray, hbaggage⟩
    · exact .inl hinside
    · cases hbaggage
      exact .inr ⟨_, hstray, .dictionary hmethod hinstantiation⟩
  | signature entity =>
    rcases h with hinside | ⟨method, hstray, hbaggage⟩
    · exact .inl hinside
    · cases hbaggage with
      | dictionary hmethod hinstantiation =>
        exact .inr ⟨_, hstray, .signature hmethod hinstantiation⟩
  | layout type =>
    rcases h with hinside | ⟨method, _, hbaggage⟩
    · exact .inl hinside
    · cases hbaggage

/-- An artifact outside the bubble is in the image if and only if it comes with a stray. -/
theorem mem_keys_iff_stray (hfresh : session.Fresh program)
    (h : session.emit program = (.ok (.completed image), after))
    (houtside : ¬ key.Inside session.bubble) :
    key ∈ image.keys ↔
      ∃ method, session.Stray program image method ∧ Baggage program method key := by
  obtain ⟨analysis, hanalyse, _, hkeys⟩ := exists_analysis_of_emit h
  obtain ⟨visits, hconcluded⟩ := concluded_of_analyse hfresh.untouched hanalyse
  constructor
  · intro hmem
    suffices haccounted : ∀ key ∈ analysis.arena.markedKeys, session.Accounted program image key from
      (haccounted key ((hkeys key).mp hmem)).resolve_left houtside
    refine hconcluded.least ?_ ?_ ?_
    · intro key hroot
      obtain ⟨root, hroot, hkey⟩ := List.mem_flatMap.mp hroot
      exact .inl (inside_of_root (hfresh.known root hroot) hkey)
    · intro visit hvisit key hbefore haccounted dependency hdependency target htarget
      rcases (homebound_expand hbefore (hconcluded.answered hvisit)).always dependency hdependency
        with ⟨found, hfound, hinside⟩ | ⟨found, hfound, hown⟩
      · obtain rfl := Option.some.inj (hfound.symm.trans htarget)
        exact .inl hinside
      · obtain rfl := Option.some.inj (hfound.symm.trans htarget)
        exact haccounted.own hown
    · intro visit hvisit key hbefore _ dependency hdependency guard target hguard htarget hmarked _
      obtain ⟨type, method, rfl, hmethod, htarget', hguard', _⟩ :=
        (homebound_expand hbefore (hconcluded.answered hvisit)).guarded dependency hdependency
      obtain rfl := Option.some.inj (htarget'.symm.trans htarget)
      obtain rfl := Option.some.inj (hguard'.symm.trans hguard)
      cases hinside : session.bubble.contains method with
      | true => exact .inl hinside
      | false =>
        have htable := (hkeys _).mpr (hconcluded.mem_markedKeys_of_visit hvisit hbefore)
        exact .inr ⟨method, ⟨hinside, ⟨type, htable, hmethod⟩, (hkeys _).mpr hmarked⟩, .code⟩
  · rintro ⟨method, hstray, hbaggage⟩
    obtain ⟨_, _, hfinished⟩ := finished_of_emit hfresh.untouched h
    obtain ⟨type, htable, hmethod⟩ := hstray.fills
    have hcode := (hkeys _).mp (hfinished.mem_keys_of_use htable hmethod hstray.used)
    rw [hkeys]
    cases hbaggage with
    | code => exact hcode
    | dictionary hfound hinstantiation =>
      exact hconcluded.mem_markedKeys_of_own hcode (.dictionary hfound hinstantiation)
    | signature hfound hinstantiation =>
      have hdictionary := hconcluded.mem_markedKeys_of_own hcode (.dictionary hfound hinstantiation)
      exact hconcluded.mem_markedKeys_of_own hdictionary (.signature method)

/-- A stray does not bring a table along. -/
theorem contains_of_vtable (hfresh : session.Fresh program)
    (h : session.emit program = (.ok (.completed image), after)) {type : Entity}
    (hmem : .vtable type ∈ image.keys) : session.bubble.contains type := by
  by_contra hcontains
  have houtside : ¬ ArtifactKey.Inside session.bubble (.vtable type) := hcontains
  obtain ⟨_, _, hbaggage⟩ := (mem_keys_iff_stray hfresh h houtside).mp hmem
  cases hbaggage

/-- What is outside the bubble and yet in the image is what comes with strays.  So an image keeps to
its bubble if and only if no used slot of its tables is filled from outside. -/
theorem inside_iff_of_emit (hfresh : session.Fresh program)
    (h : session.emit program = (.ok (.completed image), after)) :
    (∀ key, ¬ key.Inside session.bubble → (key ∈ image.keys ↔
      ∃ method, session.Stray program image method ∧ Baggage program method key)) ∧
    ((∀ key ∈ image.keys, key.Inside session.bubble) ↔
      ∀ method, ¬ session.Stray program image method) := by
  refine ⟨fun key => mem_keys_iff_stray hfresh h, fun hinside method hstray => ?_,
    fun hnone key hkey => ?_⟩
  · have houtside : ¬ ArtifactKey.Inside session.bubble (.methodCode method) := by
      show ¬ session.bubble.contains method = true
      rw [hstray.outside]
      exact Bool.false_ne_true
    exact houtside (hinside _ ((mem_keys_iff_stray hfresh h houtside).mpr ⟨method, hstray, .code⟩))
  · by_contra houtside
    obtain ⟨method, hstray, _⟩ := (mem_keys_iff_stray hfresh h houtside).mp hkey
    exact hnone method hstray

section Strangers

def strangerArea : Entity := ⟨⟨1⟩, ⟨0x06000001⟩⟩

/-- As before there are figures and discs, but what a disc does for its area is defined elsewhere. -/
def strangerRegistrations : List Registration :=
  [.module "App" "/App.dll", .module "Lib" "/Lib.dll",
    .type { id := typeProgram, name := "Program" },
    .type { id := typeFigure, name := "Figure" },
    .type { id := typeDisc, name := "Disc", base := some typeFigure },
    .method { id := main, owner := typeProgram, name := "Main",
              body := some { code := [0x6f, 2, 0, 0, 6, 0x2a] } },
    .method { id := figureArea, owner := typeFigure, name := "Area",
              flags := MethodFlags.dispatched, body := some { code := [0x2a] } },
    .method (MethodDescription.overriding
      { id := strangerArea, owner := typeDisc, name := "Area", body := some { code := [0x2a] } }
      figureArea)]

def strangers : Program := (Program.assemble strangerRegistrations).toOption.getD {}

theorem assemble_strangers : Program.assemble strangerRegistrations = .ok strangers := rfl

theorem build_strangers : figureOrder.build strangers = .ok figureSession := by
  have hinput : strangers.moduleAt? figureOrder.input = some ⟨0⟩ := by
    have hmodules : strangers.modules = [⟨"App", "/App.dll"⟩, ⟨"Lib", "/Lib.dll"⟩] := rfl
    simp [Program.moduleAt?, Program.findModule?, hmodules, figureOrder, List.findIdx?_cons]
  have hknown : figureOrder.roots.find? (fun root => !root.isKnown strangers figureOrder.bubble) =
      none := by decide +kernel
  have hroots : figureOrder.effectiveRoots ⟨0⟩ = figureOrder.roots := rfl
  unfold Order.build
  simp only [hinput, hroots, hknown]
  rfl

theorem emit_strangers : ∃ image after,
    figureSession.emit strangers = (.ok (.completed image), after) ∧
    image.keys =
      [.methodCode main, .methodCode figureArea, .methodCode strangerArea, .typeLayout typeProgram,
        .typeLayout typeFigure, .typeLayout typeDisc, .vtable typeFigure, .vtable typeDisc,
        .signature figureArea, .helperCell .delayLoadVirtualCall, .virtualMethodUse figureArea] :=
  exists_image_of_keys (by cbv)

theorem inside_iff_of_emit_strangers : ∃ image after,
    figureSession.Fresh strangers ∧
    figureSession.emit strangers = (.ok (.completed image), after) ∧
    (∀ key, ¬ key.Inside figureSession.bubble → (key ∈ image.keys ↔
      ∃ method, figureSession.Stray strangers image method ∧ Baggage strangers method key)) ∧
    ((∀ key ∈ image.keys, key.Inside figureSession.bubble) ↔
      ∀ method, ¬ figureSession.Stray strangers image method) := by
  obtain ⟨image, after, hemit, _⟩ := emit_strangers
  exact ⟨image, after, fresh_of_build build_strangers, hemit,
    inside_iff_of_emit (fresh_of_build build_strangers) hemit⟩

/-- The code of a method from another module gets into the image. -/
theorem not_forall_inside :
    ¬ ∀ (registrations : List Registration) (program : Program) (order : Order)
      (session after : Session) (image : Image),
      Program.assemble registrations = .ok program → order.build program = .ok session →
      session.emit program = (.ok (.completed image), after) →
      ∀ key ∈ image.keys, key.Inside session.bubble := by
  intro h
  obtain ⟨image, after, hemit, hkeys⟩ := emit_strangers
  have hinside : figureSession.bubble.contains strangerArea = true :=
    h _ _ _ _ after image assemble_strangers build_strangers hemit (.methodCode strangerArea)
      (by rw [hkeys]; decide)
  revert hinside
  decide +kernel

end Strangers

end Session

end PortableImage
