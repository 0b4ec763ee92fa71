import PortableImage.Portable.EntryForm
import PortableImage.Proofs.Portable.LedgerHistories
import PortableImage.Proofs.Portable.TypeSignatures
/-!
# The entries of methods and fields say what these are

Whatever a ledger was asked before, the entry of a method or a field is read back from the front of
any data: its flags announce what follows, and from what follows come the token that the ledger gives,
with its module, and the forms of the types in the entry.  What was on the sheet before stays there,
also when the entry cannot be written.
-/

namespace PortableImage

theorem Ledger.History.given {bubble : Bubble} {past : List Query} {program : Program}
    {ledger : Ledger} (h : Ledger.History bubble past program ledger) : ledger.Given := by
  induction h with
  | start program => exact .empty
  | register _ _ ih => exact ih
  | ask _ entity origin ih => exact .issue _ _ entity origin ih

/-- Also an answer from memory is the own token of an entity of the bubble. -/
theorem Ledger.Recalls.ofToken?_of_issue {bubble : Bubble} {past : List Query} {program : Program}
    {ledger : Ledger} {entity : Entity} {origin : ModuleIndex} {token : PortableToken}
    (h : Ledger.Recalls bubble past ledger) (hinside : bubble.contains entity)
    (hissue : (ledger.issue program bubble entity origin).1 = .ok token) :
    PortableToken.ofToken? entity.module entity.token = some token := by
  rcases issue_cases program bubble entity origin ledger with
    ⟨given, hfind, hanswer⟩ | ⟨given, _, hgiven, hanswer⟩ | ⟨fault, _, hanswer⟩
  · obtain ⟨query, hquery, rfl, hquoted⟩ := h.query _ _ _ hfind
    rw [hanswer] at hissue
    exact Except.ok.inj hissue ▸ h.own query hquery given hquoted hinside
  · rw [hanswer] at hissue
    exact Except.ok.inj hissue ▸ ofToken?_of_portableToken hinside hgiven
  · rw [hanswer] at hissue
    cases hissue

namespace Signature

variable {context : Context} {base ledger : Ledger} {module : ModuleIndex} {token : PortableToken}

/-- The data is a written form of something: it is read back from the front of any data it opens. -/
def Opens {α : Type} (read? : Bytes → Option (α × Bytes)) (item : α) (data : Bytes) : Prop :=
  ∀ rest, read? (data ++ rest) = some (item, rest)

section Reading

/-- Both entries have their special flag in the lowest bit. -/
theorem hasFlag_headByte (special elsewhere : Bool) :
    hasFlag (headByte special 0x01 elsewhere) 0x01 = special ∧
      hasFlag (headByte special 0x01 elsewhere) EntryFlag.otherModule = elsewhere := by
  cases special <;> cases elsewhere <;> decide

theorem ofMethodIndex_methodIndex {index : UInt32} (hindex : methodIndex token = .ok index)
    (hrow : token.row.toNat < 0x1000000) : ofMethodIndex token.module index = token := by
  obtain ⟨module, kind, row⟩ := token
  have hbound : row.toNat < 0x1000000 := hrow
  have hhalf (rest : Nat) (hrest : rest < 2) (hvalue : index.toNat = row.toNat * 2 + rest) :
      UInt32.ofNat (index.toNat / 2) = row ∧ index.toNat % 2 = rest := by
    refine ⟨UInt32.toNat_inj.mp ?_, by omega⟩
    rw [UInt32.toNat_ofNat']
    omega
  unfold methodIndex at hindex
  cases kind <;> simp only [Except.ok.injEq, reduceCtorEq] at hindex
  · obtain ⟨hhigh, hlow⟩ := hhalf 0 (by omega) (by rw [← hindex]; simp; omega)
    simp [ofMethodIndex, hhigh, hlow]
  · obtain ⟨hhigh, hlow⟩ := hhalf 1 (by omega) (by rw [← hindex]; simp; omega)
    simp [ofMethodIndex, hhigh, hlow]

theorem Reads.opens {form : TypeForm} {data : Bytes} (h : Reads module form data) :
    Opens (readType? module) form data := by
  intro rest
  apply h
  rw [List.length_append]
  exact Nat.le_add_right ..

theorem ReadsEach.opens {forms : List TypeForm} {count data : Bytes}
    (h : ReadsEach module forms data) (hlength : forms.length < 0x100000000)
    (hcount : Compressed.encode (UInt32.ofNat forms.length) = .ok count) :
    Opens (readArguments? module) forms (count ++ data) := by
  intro rest
  have hnumber : (UInt32.ofNat forms.length).toNat = forms.length := by
    rw [UInt32.toNat_ofNat']
    omega
  have hforms := h (data ++ rest).length rest (by rw [List.length_append]; omega)
  rw [readArguments?, List.append_assoc, Compressed.read?_encode hcount]
  simp only [Option.bind_eq_bind, Option.bind_some, hnumber]
  exact hforms

end Reading

section Writing

theorem renders_writeEntryHead (token : PortableToken) (special : Bool) (specialFlag : UInt8)
    (hflag : specialFlag = 0x01) :
    Renders context base (writeEntryHead context token special specialFlag) fun _ data =>
      Opens (readEntryHead? context.module specialFlag) (special, token.module) data := by
  subst hflag
  obtain ⟨hspecial, helsewhere⟩ := hasFlag_headByte special (isElsewhere context token)
  refine (renders_write _).bind ?_
  rintro _ _ rfl
  by_cases hother : isElsewhere context token
  · rw [if_pos hother]
    refine (renders_writeNumber _).imp fun _ bytes hbytes rest => ?_
    rw [List.append_assoc, List.singleton_append, readEntryHead?, if_pos (helsewhere.trans hother),
      Compressed.read?_encode hbytes, hspecial]
    rfl
  · rw [if_neg hother]
    refine (renders_pure _).imp ?_
    rintro _ _ ⟨rfl, _⟩ rest
    have hmodule : token.module = context.module := by
      simpa [isElsewhere] using hother
    rw [List.append_nil, List.singleton_append, readEntryHead?, if_neg (by rwa [helsewhere]),
      hspecial, hmodule]

end Writing

/-- The form of a type, if its parts are nested finitely; no other type has one. -/
def HandleOf (context : Context) (ledger : Ledger) (type : Entity) (form : TypeForm) : Prop :=
  Acc context.program.Part type → Denotes context ledger type form

theorem Spells.handleOf {type : Entity} {form : TypeForm}
    (h : Spells context ledger (context.program.shape type) form) :
    HandleOf context ledger type form :=
  fun hfinite => h.denotes hfinite

/-- The entry of a method: the token of its generic definition, with the forms of the arguments, or
else its own token. -/
inductive NamesMethod (context : Context) (ledger : Ledger) (method : Entity) : MethodForm → Prop
  | plain {token : PortableToken}
      (hplain : (context.program.method? method).bind MethodDescription.instantiation = none)
      (htoken : context.resolve ledger method = .ok token) :
      NamesMethod context ledger method ⟨token, none⟩
  | instantiated {instantiation : Instantiation} {token : PortableToken} {arguments : List TypeForm}
      (hinstantiation : (context.program.method? method).bind MethodDescription.instantiation =
        some instantiation)
      (htoken : context.resolve ledger instantiation.definition = .ok token)
      (harguments : List.Forall₂ (HandleOf context ledger) instantiation.arguments arguments) :
      NamesMethod context ledger method ⟨token, some arguments⟩

/-- The entry of a field: its token, with the form of its owner unless it is a reference. -/
inductive NamesField (context : Context) (ledger : Ledger) (field : Entity) : FieldForm → Prop
  | definition {token : PortableToken} {description : FieldDescription} {owner : TypeForm}
      (htoken : context.resolve ledger field = .ok token) (hkind : token.kind = .field)
      (hfield : context.program.field? field = some description)
      (howner : HandleOf context ledger description.owner owner) :
      NamesField context ledger field ⟨token, some owner⟩
  | reference {token : PortableToken} (htoken : context.resolve ledger field = .ok token)
      (hkind : token.kind = .memberImport) : NamesField context ledger field ⟨token, none⟩

section Entries

theorem renders_writeMethod (hbase : context.ShortRows base) (method : Entity) :
    Renders context base (writeMethod context method) fun _ data =>
      ∃ form, NamesMethod context base method form ∧
        Opens (readMethod? context.module) form data := by
  rw [writeMethod]
  refine (renders_issue _).bind ?_
  rintro token _ ⟨rfl, htoken⟩
  refine (renders_writeEntryHead token _ EntryFlag.instantiating rfl).bind fun _ head hhead => ?_
  refine (renders_lift _).bind ?_
  rintro index _ ⟨rfl, hindex⟩
  refine (renders_writeNumber index).bind fun _ row hrow => ?_
  have hmethod := ofMethodIndex_methodIndex hindex (hbase _ _ htoken)
  cases hinstantiation : (context.program.method? method).bind MethodDescription.instantiation with
  | none =>
    rw [hinstantiation] at htoken hhead
    refine (renders_pure _).imp ?_
    rintro _ _ ⟨rfl, _⟩
    refine ⟨_, .plain hinstantiation htoken, fun rest => ?_⟩
    simp [readMethod?, hhead _, Compressed.read?_encode hrow, hmethod]
  | some instantiation =>
    rw [hinstantiation] at htoken hhead
    refine (renders_writeCount method _).bind ?_
    rintro _ count ⟨hlength, hcount⟩
    refine (renders_writeShapes hbase _).imp ?_
    rintro _ data ⟨arguments, harguments, hdata⟩
    rw [List.forall₂_map_left_iff] at harguments
    rw [harguments.length_eq] at hlength hcount
    have hhandles : List.Forall₂ (HandleOf context base) instantiation.arguments arguments :=
      harguments.imp fun _ _ hspells => hspells.handleOf
    refine ⟨_, .instantiated hinstantiation htoken hhandles, fun rest => ?_⟩
    have hopens := hdata.opens hlength hcount rest
    rw [List.append_assoc] at hopens
    simp [readMethod?, hhead _, Compressed.read?_encode hrow, hmethod, hopens]

theorem renders_writeField (hbase : context.ShortRows base) (field : Entity) :
    Renders context base (writeField context field) fun _ data =>
      ∃ form, NamesField context base field form ∧
        Opens (readField? context.module) form data := by
  rw [writeField]
  refine (renders_issue _).bind ?_
  rintro token _ ⟨rfl, htoken⟩
  refine (renders_writeEntryHead token _ EntryFlag.memberReference rfl).bind fun _ head hhead => ?_
  split
  · rename_i hkind
    rw [hkind] at hhead
    cases hfield : context.program.field? field with
    | none => exact renders_throw _ _
    | some description =>
      refine (renders_writeShape hbase _).bind ?_
      rintro _ data ⟨owner, howner, hdata⟩
      refine (renders_writeNumber _).imp fun _ row hrow => ?_
      have hparts : PortableToken.mk token.module .field token.row = token := by rw [← hkind]
      refine ⟨_, .definition htoken hkind hfield howner.handleOf, fun rest => ?_⟩
      simp [readField?, hhead _, hdata.opens _, Compressed.read?_encode hrow, hparts]
  · rename_i hkind
    rw [hkind] at hhead
    refine (renders_writeNumber _).imp fun _ row hrow => ?_
    have hparts : PortableToken.mk token.module .memberImport token.row = token := by rw [← hkind]
    refine ⟨_, .reference htoken hkind, fun rest => ?_⟩
    simp [readField?, hhead _, Compressed.read?_encode hrow, hparts]
  · exact renders_throw _ _

end Entries

/-- Writing only adds data and changes no answer of the ledger.  If it does not fail, then what it has
added is read back from the front of any data it opens, as something of which the property holds. -/
def ReadBack {α : Type} (context : Context) (sheet : Sheet) (writing : Writing Unit)
    (read? : Bytes → Option (α × Bytes)) (property : α → Prop) : Prop :=
  ∃ data, (writing sheet).2.data = sheet.data ++ data ∧
    context.resolve (writing sheet).2.ledger = context.resolve sheet.ledger ∧
    ((writing sheet).1 = .ok () → ∃ item, property item ∧ Opens read? item data)

theorem Renders.readBack {α : Type} {sheet : Sheet} {writing : Writing Unit}
    {read? : Bytes → Option (α × Bytes)} {property : α → Prop}
    (h : Renders context sheet.ledger writing fun _ data =>
      ∃ item, property item ∧ Opens read? item data) :
    ReadBack context sheet writing read? property := by
  obtain ⟨data, hdata, hledger, hitem⟩ := h sheet rfl
  exact ⟨data, hdata, hledger, hitem ()⟩

/-- A field of the bubble is written with its owner. -/
theorem NamesField.isSome_owner {past : List Query} {field : Entity} {form : FieldForm}
    (h : NamesField context ledger field form)
    (hrecalls : Ledger.Recalls context.bubble past ledger)
    (hinside : context.bubble.contains field) (hkind : field.kind? = some .field) :
    form.owner.isSome := by
  cases h with
  | definition => rfl
  | reference htoken himport =>
    have hown := hrecalls.ofToken?_of_issue hinside htoken
    obtain ⟨table, htable, htoken⟩ := Option.map_eq_some_iff.mp hown
    subst htoken
    obtain rfl : table = .memberRef := PortableKind.ofTable_injective himport
    simp [Entity.kind?, htable, DefinitionKind.ofTable?] at hkind

/-- After any history of the ledger, whatever was written before: the entry of a method is read back
as its token and those of its arguments, and the entry of a field as its token, with its owner if the
field is in the bubble. -/
theorem readBack_entries {past : List Query} {sheet : Sheet}
    (h : Ledger.History context.bubble past context.program sheet.ledger) (entity : Entity) :
    ReadBack context sheet (writeMethod context entity) (readMethod? context.module)
      (NamesMethod context sheet.ledger entity) ∧
    ReadBack context sheet (writeField context entity) (readField? context.module) fun form =>
      NamesField context sheet.ledger entity form ∧
        (context.bubble.contains entity → entity.kind? = some .field → form.owner.isSome) := by
  have hrows : context.ShortRows sheet.ledger := fun _ _ htoken => h.given.row_lt htoken
  constructor
  · exact (renders_writeMethod hrows entity).readBack
  · refine ((renders_writeField hrows entity).imp ?_).readBack
    rintro _ data ⟨form, hform, hopens⟩
    exact ⟨form, ⟨hform, hform.isSome_owner h.recalls⟩, hopens⟩

section Parcels

def packing : Entity := ⟨⟨0⟩, ⟨0x06000001⟩⟩
def packingOfCrates : Entity := ⟨⟨2⟩, ⟨0x2B000001⟩⟩
def lid : Entity := ⟨⟨0⟩, ⟨0x04000001⟩⟩

/-- Crates with a lid, and packing of crates of weights with labels from outside of the bubble. -/
def parcels : Program :=
  ([.method { id := packing, owner := crate, name := "Pack" },
    .method { id := packingOfCrates, owner := crate, name := "",
              instantiation := some ⟨packing, [crateOfWeights, label]⟩ },
    .field { id := lid, owner := crate, name := "lid" }].foldlM Program.enter
      crates).toOption.getD {}

def parcelContext : Context := ⟨parcels, ⟨[⟨0⟩, ⟨2⟩], true⟩, ⟨2⟩⟩

/-- Both entries name the other module, the types in them are written for the own one, and the byte
that stood before stays. -/
theorem readBack_entries_parcels :
    (∃ form, NamesMethod parcelContext {} packingOfCrates form ∧ Opens (readMethod? ⟨2⟩) form
      [0x81, 0, 2, 2, 0x15, 0x3F, 0, 0x12, 4, 1, 0x11, 4, 0x12, 13]) ∧
    ∃ form, NamesField parcelContext {} lid form ∧ form.owner.isSome ∧
      Opens (readField? ⟨2⟩) form [0x80, 0, 0x3F, 0, 0x12, 4, 1] := by
  have hhistory : Ledger.History parcelContext.bubble [] parcelContext.program {} := .start parcels
  constructor
  · obtain ⟨data, hdata, _, hform⟩ :=
      (@readBack_entries parcelContext [] ⟨{}, [7]⟩ hhistory packingOfCrates).1
    have hwritten : (writeMethod parcelContext packingOfCrates ⟨{}, [7]⟩).2.data =
        [7] ++ [0x81, 0, 2, 2, 0x15, 0x3F, 0, 0x12, 4, 1, 0x11, 4, 0x12, 13] := by cbv
    obtain rfl := List.append_cancel_left (hdata.symm.trans hwritten)
    exact hform (by cbv)
  · obtain ⟨data, hdata, _, hform⟩ :=
      (@readBack_entries parcelContext [] ⟨{}, [7]⟩ hhistory lid).2
    have hwritten : (writeField parcelContext lid ⟨{}, [7]⟩).2.data =
        [7] ++ [0x80, 0, 0x3F, 0, 0x12, 4, 1] := by cbv
    obtain rfl := List.append_cancel_left (hdata.symm.trans hwritten)
    obtain ⟨form, ⟨hnames, howner⟩, hopens⟩ := hform (by cbv)
    exact ⟨form, hnames, howner (by decide +kernel) (by decide +kernel), hopens⟩

end Parcels

end Signature

end PortableImage
