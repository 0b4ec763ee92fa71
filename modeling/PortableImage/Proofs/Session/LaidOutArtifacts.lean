import PortableImage.Proofs.Program.MemberIndices
import PortableImage.Proofs.Session.EmittedSlots
/-!
# What emitted artifacts look like

Every artifact but the code of a method is laid out by emission itself, and its data is tidy.  A
table of virtual methods has sixteen bytes and a slot for each method, a dictionary eight bytes and
a slot for each argument, a layout sixteen bytes and a slot for the base.
-/

namespace PortableImage

open PortableImage.Graph (Arena Handle)

namespace EmittedArtifact

open Drafting

variable {setting : Setting} {before middle after : Draft} {artifact : EmittedArtifact}
  {layout : Layout}

section Slots

variable {α : Type} {items : List α} {right : α → Symbol → Prop} {head : Layout}
  {targets : List Relocation.Target}

/-- A header that opens with the number of items, then one slot for each of them. -/
structure Tabulates (artifact : EmittedArtifact) (start : Nat) (items : List α)
    (right : α → Symbol → Prop) : Prop where
  length : artifact.data.length = start + 8 * items.length
  count : artifact.data.Counts items.length
  slots : artifact.SlotsFrom start items right

theorem Completes.tabulates (h : artifact.Completes layout after)
    (hslotted : head.Slotted targets layout) (hcount : head.data.Counts items.length)
    (hserves : List.Forall₂ (Serves middle.arena right) items targets)
    (hgrows : middle.arena.Grows after.arena) :
    artifact.Tabulates head.data.length items right := by
  have hkept := hserves.imp fun _ _ hold => hold.mono hgrows.keeps
  refine ⟨?_, ?_, h.slotsFrom hslotted hkept⟩
  · rw [h.data, hslotted.length, hserves.length_eq]
  · rw [h.data]
    exact hcount.of_isPrefix hslotted.opens

end Slots

section Tables

/-- A table of virtual methods in the image: a count, the table of the base if that is marked, then
one slot for each method. -/
structure IsTable (setting : Setting) (draft : Draft) (type : Entity)
    (description : TypeDescription) (artifact : EmittedArtifact) : Prop
    extends artifact.Tabulates 16 (virtualMethods setting type) (BoundTo setting draft type) where
  base : ∀ place, place ∈ artifact.placesAt 8 ↔ ∃ base, description.base = some base ∧
    .vtable base ∈ draft.arena.markedKeys ∧ place = ⟨8, .absolute64, .artifact (.vtable base)⟩

/-- The header of a table: sixteen bytes, the last eight for the table of the base. -/
structure TableHead (methods : Nat) (base : Option Handle) (head : Layout) : Prop where
  length : head.data.length = 16
  count : head.data.Counts methods
  tidy : head.Tidy
  base : ∀ relocation, relocation ∈ head.relocations ↔
    ∃ node, base = some node ∧ relocation = ⟨8, .absolute64, .node node⟩

theorem tableHead_of_slot {methods : Nat} {base : Option Handle} {first head : Layout}
    (hfirst : Layout.count {} methods = .ok first)
    (hhead : (first.word 0).slot (base.map .node) = .ok head) : TableHead methods base head := by
  have hcount := Layout.counts_of_count hfirst
  have hlength := (header_of_slot hfirst hhead).1
  obtain rfl := Layout.eq_of_count hfirst
  have htidy : ((Layout.word {} (UInt32.ofNat methods)).word 0).Tidy :=
    Layout.tidy_of_relocations_eq_nil rfl
  refine ⟨hlength, ?_, htidy.slot (Nat.dvd_refl 8) hhead, fun relocation => ?_⟩
  · obtain ⟨rfl, -⟩ := Layout.eq_of_slot hhead
    exact hcount.of_isPrefix ((List.prefix_append _ _).trans (List.prefix_append _ _))
  · rw [Layout.relocations_of_slot hhead]
    cases base <;> simp [Layout.word]

/-- At the offset of the base stands what the header has there: the slots are behind it. -/
theorem TableHead.mem_iff {methods : Nat} {base : Option Handle} {head : Layout}
    {targets : List Relocation.Target} (h : TableHead methods base head)
    (hslotted : head.Slotted targets layout) {relocation : Relocation} :
    relocation ∈ layout.relocations ∧ relocation.offset.toNat = 8 ↔
      ∃ node, base = some node ∧ relocation = ⟨8, .absolute64, .node node⟩ := by
  rw [hslotted.relocations, List.mem_append, h.base, Layout.mem_slotsFrom]
  constructor
  · rintro ⟨hbase | ⟨index, target, htarget, rfl⟩, hoffset⟩
    · exact hbase
    · have hindex : index < targets.length := (List.getElem?_eq_some_iff.mp htarget).1
      rw [hslotted.toNat_offset hindex, h.length] at hoffset
      omega
  · rintro ⟨node, hnode, rfl⟩
    exact ⟨.inl ⟨node, hnode, rfl⟩, rfl⟩

theorem layoutOfVTable_eq_ok {type : Entity}
    (h : layoutOfVTable setting type before = (.ok layout, after)) :
    ∃ description base head targets, setting.program.type? type = some description ∧
      (∀ node, base = some node ↔ ∃ type, description.base = some type ∧
        before.arena.key? node = some (.vtable type) ∧ .vtable type ∈ before.arena.markedKeys) ∧
      TableHead (virtualMethods setting type).length base head ∧ head.Slotted targets layout ∧
      List.Forall₂ (Serves after.arena (BoundTo setting before type)) (virtualMethods setting type)
        targets := by
  obtain ⟨description, hdescription, hrest⟩ := bind_described_eq_ok h
  obtain ⟨first, hfirst, hrest⟩ := bind_lift_eq_ok hrest
  obtain ⟨base, hbase, hrest⟩ := bind_baseTable?_eq_ok hrest
  obtain ⟨head, hhead, hslots⟩ := bind_lift_eq_ok hrest
  have htable := tableHead_of_slot hfirst hhead
  obtain ⟨-, targets, hslotted, hserves⟩ := slotted_of_foldlM
    (fun _ _ _ _ _ hstate happend => appendSlot_eq_ok hstate happend) htable.tidy
    (by simp [htable.length]) (.refl _) hslots
  exact ⟨description, base, head, targets, hdescription, hbase, htable, hslotted, hserves⟩

theorem Completes.isTable {type : Entity} (h : artifact.Completes layout after)
    (hlayout : layoutOfVTable setting type before = (.ok layout, middle))
    (hupholds : before.Upholds setting after) (hgrows : middle.arena.Grows after.arena) :
    ∃ description, setting.program.type? type = some description ∧
      artifact.IsTable setting before type description := by
  obtain ⟨description, base, head, targets, hdescription, hbase, hhead, hslotted, hserves⟩ :=
    layoutOfVTable_eq_ok hlayout
  have htabulates := h.tabulates hslotted hhead.count hserves hgrows
  rw [hhead.length] at htabulates
  refine ⟨description, hdescription, htabulates, fun place => ?_⟩
  rw [placesAt, List.mem_filter, h.mem_relocations, decide_eq_true_iff]
  constructor
  · rintro ⟨⟨target, hmem, hdenotes⟩, hoffset⟩
    obtain ⟨node, hnode, hplace⟩ := (hhead.mem_iff hslotted).mp ⟨hmem, hoffset⟩
    injection hplace with hoffset hkind htarget
    subst htarget
    obtain ⟨type, htype, hkey, hmarked⟩ := (hbase node).mp hnode
    have hsymbol := hdenotes.unique (.node (hupholds.grows.keeps _ _ hkey))
    refine ⟨type, htype, hmarked, ?_⟩
    calc place = ⟨place.offset, place.kind, place.symbol⟩ := rfl
      _ = ⟨8, .absolute64, .artifact (.vtable type)⟩ := by rw [hoffset, hkind, hsymbol]
  · rintro ⟨type, htype, hmarked, rfl⟩
    obtain ⟨node, hkey, -⟩ := Arena.mem_markedKeys.mp hmarked
    have hnode := (hbase node).mpr ⟨type, htype, hkey, hmarked⟩
    obtain ⟨hmem, hoffset⟩ := (hhead.mem_iff hslotted).mpr ⟨node, hnode, rfl⟩
    exact ⟨⟨.node node, hmem, .node (hupholds.grows.keeps _ _ hkey)⟩, hoffset⟩

end Tables

section Dictionaries

theorem layoutOfDictionary_eq_ok {entity : Entity}
    (h : layoutOfDictionary setting entity before = (.ok layout, after)) :
    ∃ (instantiation : Instantiation) (head : Layout) (targets : List Relocation.Target),
      setting.program.instantiation? entity = some instantiation ∧ head.data.length = 8 ∧
      head.data.Counts instantiation.arguments.length ∧ head.Slotted targets layout ∧
      List.Forall₂ (Serves after.arena
        (LeadsTo setting (.genericDictionary entity) entity.module before))
        instantiation.arguments targets := by
  obtain ⟨instantiation, hinstantiation, hrest⟩ := bind_described_eq_ok h
  obtain ⟨first, hfirst, hslots⟩ := bind_lift_eq_ok hrest
  have hcount := Layout.counts_of_count hfirst
  obtain rfl := Layout.eq_of_count hfirst
  have htidy : ((Layout.word {} (UInt32.ofNat instantiation.arguments.length)).word 0).Tidy :=
    Layout.tidy_of_relocations_eq_nil rfl
  obtain ⟨-, targets, hslotted, hserves⟩ := slotted_of_foldlM
    (fun _ _ _ _ _ hstate happend => appendArgument_eq_ok hstate happend) htidy (Nat.dvd_refl 8)
    (.refl _) hslots
  exact ⟨instantiation, _, targets, hinstantiation, rfl,
    hcount.of_isPrefix (List.prefix_append _ _), hslotted, hserves⟩

/-- A dictionary in the image: a count, then one slot for each argument. -/
theorem Completes.tabulates_arguments {entity : Entity} (h : artifact.Completes layout after)
    (hlayout : layoutOfDictionary setting entity before = (.ok layout, middle))
    (hgrows : middle.arena.Grows after.arena) : ∃ instantiation,
      setting.program.instantiation? entity = some instantiation ∧
        artifact.Tabulates 8 instantiation.arguments
          (LeadsTo setting (.genericDictionary entity) entity.module before) := by
  obtain ⟨instantiation, head, targets, hinstantiation, hlength, hcount, hslotted, hserves⟩ :=
    layoutOfDictionary_eq_ok hlayout
  have htabulates := h.tabulates hslotted hcount hserves hgrows
  rw [hlength] at htabulates
  exact ⟨instantiation, hinstantiation, htabulates⟩

end Dictionaries

section Types

/-- The layout of a type in the image: sixteen bytes, then a slot that is filled in if there is a
base. -/
structure IsTypeLayout (setting : Setting) (draft : Draft) (type : Entity)
    (description : TypeDescription) (artifact : EmittedArtifact) : Prop where
  length : artifact.data.length = 24
  root : description.base = none → artifact.relocations = []
  derived : ∀ base, description.base = some base → ∃ symbol,
    LeadsTo setting (.typeLayout type) type.module draft base symbol ∧
      artifact.relocations = [⟨16, .absolute64, symbol⟩]

theorem layoutOfType_eq_ok {type : Entity}
    (h : layoutOfType setting type before = (.ok layout, after)) :
    ∃ (description : TypeDescription) (head : Layout) (base : Option Handle),
      setting.program.type? type = some description ∧ head.data.length = 16 ∧
      head.relocations = [] ∧ head.slot (base.map .node) = .ok layout ∧
      (description.base.mapM fun base => anchor setting (.typeLayout type) base type.module)
        before = (.ok base, after) := by
  obtain ⟨description, hdescription, hrest⟩ := bind_described_eq_ok h
  obtain ⟨fields, hfields, hrest⟩ := bind_lift_eq_ok hrest
  obtain ⟨methods, hmethods, hrest⟩ := bind_lift_eq_ok hrest
  obtain ⟨head, hhead, hrest⟩ := bind_lift_eq_ok hrest
  obtain ⟨base, middle, hbase, hlast⟩ := bind_eq_ok hrest
  obtain ⟨hslot, rfl⟩ := lift_eq_ok hlast
  obtain rfl := Layout.eq_of_count hfields
  obtain rfl := Layout.eq_of_count hmethods
  obtain rfl := Layout.eq_of_count hhead
  exact ⟨description, _, base, hdescription, rfl, rfl, hslot, hbase⟩

theorem Completes.isTypeLayout {type : Entity} (h : artifact.Completes layout after)
    (hlayout : layoutOfType setting type before = (.ok layout, middle))
    (hgrows : middle.arena.Grows after.arena) : ∃ description,
      setting.program.type? type = some description ∧
        artifact.IsTypeLayout setting before type description := by
  obtain ⟨description, head, base, hdescription, hlength, hnone, hslot, hbase⟩ :=
    layoutOfType_eq_ok hlayout
  have hplaced := h.placed
  rw [Layout.relocations_of_slot hslot, hnone, hlength, List.nil_append] at hplaced
  refine ⟨description, hdescription, ?_, fun hroot => ?_, fun type hderived => ?_⟩
  · rw [h.data, Layout.length_of_slot hslot, hlength]
  · rw [hroot] at hbase
    cases hbase
    exact List.forall₂_nil_left_iff.mp hplaced
  · rw [hderived] at hbase
    obtain ⟨node, later, hanchor, hbase⟩ := bind_eq_ok hbase
    cases hbase
    obtain ⟨symbol, hdenotes, hleads⟩ := serves_of_anchor (.refl before) hanchor
    refine ⟨symbol, hleads, ?_⟩
    obtain ⟨place, rest, hplace, hrest, hall⟩ := List.forall₂_cons_left_iff.mp hplaced
    obtain rfl := List.forall₂_nil_left_iff.mp hrest
    rw [hall, hplace.eq_of_denotes (hdenotes.mono hgrows.keeps)]
    rfl

end Types

section Kinds

variable {compiled : Option Layout} {key : ArtifactKey} {node : Handle}

/-- What emission lays out itself is tidy. -/
theorem tidy_of_layoutOf (hkey : ∀ method, key ≠ .methodCode method)
    (h : layoutOf setting compiled key before = (.ok layout, after)) : layout.Tidy := by
  cases key with
  | methodCode method => exact absurd rfl (hkey method)
  | typeLayout type =>
    obtain ⟨_, head, base, _, hlength, hnone, hslot, _⟩ := layoutOfType_eq_ok h
    exact (Layout.tidy_of_relocations_eq_nil hnone).slot (by simp [hlength]) hslot
  | vtable type =>
    obtain ⟨_, _, _, _, _, _, _, hslotted, _⟩ := layoutOfVTable_eq_ok h
    exact hslotted.tidy
  | genericDictionary entity =>
    obtain ⟨_, _, _, _, _, _, hslotted, _⟩ := layoutOfDictionary_eq_ok h
    exact hslotted.tidy
  | signature entity =>
    obtain ⟨data, _, _, hdata⟩ := bind_eq_ok h
    cases hdata
    exact Layout.tidy_of_relocations_eq_nil rfl
  | importCell token =>
    obtain ⟨hslot, _⟩ := lift_eq_ok h
    have hempty : Layout.Tidy {} := Layout.tidy_of_relocations_eq_nil rfl
    exact hempty.slot (Nat.dvd_zero 8) hslot
  | helperCell helper =>
    cases h
    exact Layout.tidy_of_relocations_eq_nil rfl
  | virtualMethodUse slot =>
    cases h
    exact Layout.tidy_of_relocations_eq_nil rfl

/-- The artifact looks as its kind asks for. -/
structure LaidOut (setting : Setting) (draft : Draft) (artifact : EmittedArtifact) : Prop where
  tidy : (∀ method, artifact.key ≠ .methodCode method) → artifact.Tidy
  ascending : ∀ type, artifact.key = .vtable type →
    (virtualMethods setting type).Pairwise (· < ·)
  table : ∀ type, artifact.key = .vtable type → ∃ description,
    setting.program.type? type = some description ∧ artifact.IsTable setting draft type description
  dictionary : ∀ entity, artifact.key = .genericDictionary entity → ∃ instantiation,
    setting.program.instantiation? entity = some instantiation ∧
      artifact.Tabulates 8 instantiation.arguments
        (LeadsTo setting (.genericDictionary entity) entity.module draft)
  typeLayout : ∀ type, artifact.key = .typeLayout type → ∃ description,
    setting.program.type? type = some description ∧
      artifact.IsTypeLayout setting draft type description

/-- Whatever the program, the draft and the node, an artifact that is emitted looks as its kind asks
for, and what its slots hold is decided by the draft that emission starts with. -/
theorem laidOut_of_emit (registrations : List Registration) (bubble : Bubble) (bodies : BodySource)
    {node : Handle} {compiled : Option Layout} {before after : Draft} {artifact : EmittedArtifact}
    (h : emit ⟨({} : Program).registerAll registrations, bubble, bodies⟩ node compiled before =
      (.ok artifact, after)) :
    before.arena.key? node = some artifact.key ∧
      artifact.LaidOut ⟨({} : Program).registerAll registrations, bubble, bodies⟩ before := by
  obtain ⟨hnode, layout, middle, hlayout, hcompletes, hgrows⟩ := emit_eq_ok h
  refine ⟨hnode, fun hkey => ?_, fun type _ => ?_, fun type hkey => ?_, fun entity hkey => ?_,
    fun type hkey => ?_⟩
  · exact hcompletes.tidy (tidy_of_layoutOf hkey hlayout)
  · have hindexed := (Program.indexed_registerAll registrations).1
    exact (hindexed.ascending type).filter _
  · rw [hkey] at hlayout
    have hupholds := upholds_of_proceeds (proceeds_emit _ node compiled) h
    exact hcompletes.isTable hlayout hupholds hgrows
  · rw [hkey] at hlayout
    exact hcompletes.tabulates_arguments hlayout hgrows
  · rw [hkey] at hlayout
    exact hcompletes.isTypeLayout hlayout hgrows

end Kinds

section Shapes

def typeShape : Entity := ⟨⟨0⟩, .ofParts .typeDef 1⟩
def typeRound : Entity := ⟨⟨0⟩, .ofParts .typeDef 2⟩
def roundArea : Entity := ⟨⟨0⟩, .ofParts .methodDef 1⟩
def roundName : Entity := ⟨⟨0⟩, .ofParts .methodDef 2⟩

/-- A type with a base and two virtual methods, of which only one has a body. -/
def shapeRegistrations : List Registration :=
  [.module "App" "/App.dll",
    .type { id := typeShape, name := "Shape" },
    .type { id := typeRound, name := "Round", base := some typeShape },
    .method { id := roundName, owner := typeRound, name := "Name", flags := MethodFlags.dispatched },
    .method { id := roundArea, owner := typeRound, name := "Area", flags := MethodFlags.dispatched,
              body := some { code := [0x2a] } }]

def shapes : Setting :=
  ⟨({} : Program).registerAll shapeRegistrations, ⟨[⟨0⟩], false⟩, .declared⟩

def shapeKeys : List ArtifactKey := [.vtable typeRound, .vtable typeShape, .methodCode roundArea]

/-- Both tables and the code are marked. -/
def shapeDraft : Draft where
  arena := (List.range 3).foldl (fun arena index => arena.raise ⟨index⟩ .expanded)
    ((∅ : Arena ArtifactKey).internEach shapeKeys).2

def roundTable : EmittedArtifact where
  key := .vtable typeRound
  data := Bytes.ofWord 2 ++ Bytes.zeros 28
  relocations := [⟨8, .absolute64, .artifact (.vtable typeShape)⟩,
    ⟨16, .absolute64, .artifact (.methodCode roundArea)⟩,
    ⟨24, .absolute64, .token ⟨⟨0⟩, .method, 2⟩⟩]

theorem laidOut_roundTable : ∃ after,
    emit shapes ⟨0⟩ none shapeDraft = (.ok roundTable, after) ∧
      roundTable.LaidOut shapes shapeDraft := by
  have htable : (emit shapes ⟨0⟩ none shapeDraft).1.toOption = some roundTable :=
    of_decide_eq_true (by cbv)
  cases hemit : emit shapes ⟨0⟩ none shapeDraft with
  | mk answer after =>
    rw [hemit] at htable
    cases answer with
    | error fault => cases htable
    | ok artifact =>
      obtain rfl := Option.some.inj htable
      exact ⟨after, rfl, (laidOut_of_emit shapeRegistrations ⟨[⟨0⟩], false⟩ .declared hemit).2⟩

end Shapes

end EmittedArtifact

end PortableImage
