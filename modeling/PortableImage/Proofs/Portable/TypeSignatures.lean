import PortableImage.Portable.TypeForm
import PortableImage.Proofs.Matching
import PortableImage.Proofs.Portable.SoundLedgers
import PortableImage.Proofs.Program.Assembly
import PortableImage.Proofs.Program.Shapes
/-!
# The signature of a type says what the type is

Whatever a ledger was asked before, its tokens have rows of three bytes and its answers do not change.
So the signature of a type is read back as the form of the type, from the front of any data: with the
tokens the ledger gives for its leaves, in their places.  What was on the sheet before stays there,
also when the type cannot be written.
-/

namespace PortableImage

theorem Program.row_lt_of_portableToken {program : Program} {bubble : Bubble} {entity : Entity}
    {origin : ModuleIndex} {token : PortableToken}
    (h : program.portableToken bubble entity origin = .ok token) :
    token.row.toNat < 0x1000000 := by
  have hportable (module : ModuleIndex) (row : Token)
      (h : Program.portable module row = .ok token) : token.row.toNat < 0x1000000 := by
    unfold Program.portable PortableToken.ofToken? at h
    cases htable : row.table? with
    | none =>
      rw [htable] at h
      cases h
    | some table =>
      rw [htable] at h
      cases h
      exact row.row_lt
  unfold Program.portableToken at h
  split at h
  · split at h
    · exact hportable _ _ h
    · cases h
  · split at h
    · exact hportable _ _ h
    · cases h

namespace Ledger

/-- What questions leave behind, whatever programs and bubbles they were about. -/
inductive Given : Ledger → Prop
  | empty : Given {}
  | issue {ledger : Ledger} (program : Program) (bubble : Bubble) (entity : Entity)
      (origin : ModuleIndex) (h : Given ledger) :
      Given (ledger.issue program bubble entity origin).2

variable {ledger : Ledger} {program : Program} {bubble : Bubble} {entity : Entity}
  {origin : ModuleIndex} {token : PortableToken}

theorem Given.row_lt_of_token? (h : ledger.Given) {home : ModuleIndex}
    (hfind : ledger.token? home entity = some token) : token.row.toNat < 0x1000000 := by
  induction h with
  | empty => cases hfind
  | @issue ledger program bubble other origin _ ih =>
    rcases issue_snd program bubble other origin ledger with ⟨hsame, _⟩ | ⟨given, hgiven, hrecord⟩
    · rw [hsame] at hfind
      exact ih hfind
    · rw [hrecord] at hfind
      rcases token?_of_record hfind with hold | ⟨_, rfl⟩
      · exact ih hold
      · exact Program.row_lt_of_portableToken hgiven

theorem Given.row_lt (h : ledger.Given)
    (hissue : (ledger.issue program bubble entity origin).1 = .ok token) :
    token.row.toNat < 0x1000000 := by
  unfold Ledger.issue at hissue
  cases hfind : ledger.token? (bubble.home entity origin) entity with
  | some given =>
    simp only [hfind, Except.ok.injEq] at hissue
    exact hissue ▸ h.row_lt_of_token? hfind
  | none =>
    cases hgiven : program.portableToken bubble entity origin with
    | ok given =>
      simp only [hfind, hgiven, Except.ok.injEq] at hissue
      exact hissue ▸ Program.row_lt_of_portableToken hgiven
    | error fault => simp [hfind, hgiven] at hissue

/-- An answer stands, whatever is asked in between. -/
theorem issue_fst_issue (program : Program) (bubble : Bubble) (entity other : Entity)
    (origin origin' : ModuleIndex) (ledger : Ledger) :
    ((ledger.issue program bubble other origin').2.issue program bubble entity origin).1 =
      (ledger.issue program bubble entity origin).1 := by
  rcases issue_snd program bubble other origin' ledger with ⟨hsame, _⟩ | ⟨given, hgiven, hrecord⟩
  · rw [hsame]
  · rw [hrecord]
    unfold issue
    have hfind := token?_record ledger (bubble.home other origin') (bubble.home entity origin) other
      entity given
    by_cases hkey : bubble.home entity origin = bubble.home other origin' ∧ entity = other
    · rw [if_pos hkey] at hfind
      obtain ⟨hhome, rfl⟩ := hkey
      rw [← hhome] at hfind
      cases hold : ledger.token? (bubble.home entity origin) entity with
      | some old =>
        rw [hold] at hfind
        simp only [← hhome, hfind, hold, Option.getD_some]
      | none =>
        -- The entity was not known before, and the program gives it the token just recorded.
        rw [← program.portableToken_home, ← hhome, program.portableToken_home] at hgiven
        rw [hold] at hfind
        simp only [← hhome, hfind, hold, hgiven, Option.getD_none]
    · rw [if_neg hkey] at hfind
      cases hold : ledger.token? (bubble.home entity origin) entity with
      | some old => simp only [hfind, hold]
      | none =>
        rw [hold] at hfind
        cases htoken : program.portableToken bubble entity origin with
        | ok token => simp only [hfind, hold]
        | error fault => simp only [hfind, hold]

end Ledger

namespace Signature

/-- The token a ledger gives for an entity, as the module of the context refers to it. -/
def Context.resolve (context : Context) (ledger : Ledger) (entity : Entity) :
    Except Fault PortableToken :=
  (ledger.issue context.program context.bubble entity context.module).1

/-- The form of a type: how it is instantiated, down to the tokens a ledger gives for its leaves. -/
inductive Denotes (context : Context) (ledger : Ledger) : Entity → TypeForm → Prop
  | plain {entity : Entity} {token : PortableToken}
      (hplain : context.program.typeInstantiation? entity = none)
      (htoken : context.resolve ledger entity = .ok token) :
      Denotes context ledger entity (.plain token (isValueType context entity))
  | instantiated {entity : Entity} {instantiation : Instantiation} {definition : TypeForm}
      {arguments : List TypeForm}
      (hinstantiation : context.program.typeInstantiation? entity = some instantiation)
      (hdefinition : Denotes context ledger instantiation.definition definition)
      (harguments : List.Forall₂ (Denotes context ledger) instantiation.arguments arguments) :
      Denotes context ledger entity (.instantiated definition arguments)

section Rendering

variable {α β : Type} {context : Context} {base : Ledger}

/-- On any sheet whose ledger answers like a given one the writing only adds data, after which the
ledger still answers so; and if it does not fail, it is known what it has added. -/
def Renders (context : Context) (base : Ledger) (writing : Writing α) (post : α → Bytes → Prop) :
    Prop :=
  ∀ sheet : Sheet, context.resolve sheet.ledger = context.resolve base →
    ∃ data, (writing sheet).2.data = sheet.data ++ data ∧
      context.resolve (writing sheet).2.ledger = context.resolve base ∧
      ∀ value, (writing sheet).1 = .ok value → post value data

theorem Renders.imp {writing : Writing α} {post post' : α → Bytes → Prop}
    (h : Renders context base writing post) (hpost : ∀ value data, post value data →
      post' value data) : Renders context base writing post' := by
  intro sheet hsheet
  obtain ⟨data, hdata, hledger, hvalue⟩ := h sheet hsheet
  exact ⟨data, hdata, hledger, fun value hok => hpost _ _ (hvalue value hok)⟩

theorem renders_pure (value : α) :
    Renders context base (pure value) fun result data => data = [] ∧ result = value :=
  fun _ hsheet => ⟨[], (List.append_nil _).symm, hsheet, fun _ hok =>
    ⟨rfl, (Except.ok.inj hok).symm⟩⟩

theorem renders_throw (fault : Fault) (post : α → Bytes → Prop) :
    Renders context base (throw fault) post :=
  fun _ hsheet => ⟨[], (List.append_nil _).symm, hsheet, fun _ hok => by cases hok⟩

theorem Renders.bind {writing : Writing α} {next : α → Writing β} {middle : α → Bytes → Prop}
    {post : β → Bytes → Prop} (h : Renders context base writing middle)
    (hnext : ∀ value first, middle value first →
      Renders context base (next value) fun result second => post result (first ++ second)) :
    Renders context base (writing >>= next) post := by
  intro sheet hsheet
  obtain ⟨first, hfirst, hledger, hmiddle⟩ := h sheet hsheet
  show ∃ data, (ExceptT.bindCont next (writing sheet).1 (writing sheet).2).2.data = _ ∧
    context.resolve (ExceptT.bindCont next (writing sheet).1 (writing sheet).2).2.ledger = _ ∧
    ∀ value, (ExceptT.bindCont next (writing sheet).1 (writing sheet).2).1 = .ok value → _
  cases hanswer : (writing sheet).1 with
  | ok value =>
    obtain ⟨second, hsecond, hend, hpost⟩ := hnext value first (hmiddle value hanswer) _ hledger
    exact ⟨first ++ second, by rw [← List.append_assoc, ← hfirst]; exact hsecond, hend, hpost⟩
  | error fault => exact ⟨first, hfirst, hledger, fun value hvalue => by cases hvalue⟩

theorem renders_lift (answer : Except Fault α) :
    Renders context base (liftM answer) fun value data => data = [] ∧ answer = .ok value := by
  cases answer with
  | ok value => exact (renders_pure value).imp fun _ _ ⟨hdata, hvalue⟩ => ⟨hdata, by rw [hvalue]⟩
  | error fault => exact renders_throw fault _

theorem renders_write (bytes : Bytes) :
    Renders context base (write bytes) fun _ data => data = bytes :=
  fun _ hsheet => ⟨bytes, rfl, hsheet, fun _ _ => rfl⟩

theorem renders_writeNumber (value : UInt32) :
    Renders context base (writeNumber value) fun _ data => Compressed.encode value = .ok data := by
  refine (renders_lift _).bind ?_
  rintro bytes _ ⟨rfl, hbytes⟩
  refine (renders_write bytes).imp ?_
  rintro _ _ rfl
  exact hbytes

theorem renders_issue (entity : Entity) :
    Renders context base (issue context entity) fun token data =>
      data = [] ∧ context.resolve base entity = .ok token := by
  intro sheet hsheet
  refine ⟨[], (List.append_nil _).symm, ?_, fun token htoken => ⟨rfl, ?_⟩⟩
  · rw [← hsheet]
    exact funext fun other => Ledger.issue_fst_issue ..
  · rw [← hsheet]
    exact htoken

end Rendering

section Reading

variable {context : Context} {module : ModuleIndex} {token : PortableToken} {index : UInt32}
  {bytes : Bytes}

theorem ofTypeIndex?_typeIndex (hindex : typeIndex token = .ok index)
    (hrow : token.row.toNat < 0x1000000) : ofTypeIndex? token.module index = some token := by
  obtain ⟨module, kind, row⟩ := token
  have hbound : row.toNat < 0x1000000 := hrow
  have hquotient (rest : Nat) (hrest : rest < 4) (hvalue : index.toNat = row.toNat * 4 + rest) :
      UInt32.ofNat (index.toNat / 4) = row ∧ index.toNat % 4 = rest := by
    refine ⟨UInt32.toNat_inj.mp ?_, by omega⟩
    rw [UInt32.toNat_ofNat']
    omega
  unfold typeIndex at hindex
  cases kind <;> simp only [Except.ok.injEq, reduceCtorEq] at hindex
  · obtain ⟨hhigh, hlow⟩ := hquotient 0 (by omega) (by rw [← hindex]; simp; omega)
    simp only [ofTypeIndex?, hhigh, hlow]
  · obtain ⟨hhigh, hlow⟩ := hquotient 2 (by omega) (by rw [← hindex]; simp; omega)
    simp only [ofTypeIndex?, hhigh, hlow]
  · obtain ⟨hhigh, hlow⟩ := hquotient 1 (by omega) (by rw [← hindex]; simp; omega)
    simp only [ofTypeIndex?, hhigh, hlow]

/-- The byte before the row of a type that is not instantiated. -/
def plainMark (isValueType : Bool) : UInt8 :=
  if isValueType then Mark.valueType else Mark.reference

theorem readPlain?_row (hindex : typeIndex token = .ok index) (hrow : token.row.toNat < 0x1000000)
    (hbytes : Compressed.encode index = .ok bytes) (isValueType : Bool) (rest : Bytes) :
    readPlain? token.module (plainMark isValueType :: bytes ++ rest) =
      some (.plain token isValueType, rest) := by
  have hread := Compressed.read?_encode hbytes rest
  have htoken := ofTypeIndex?_typeIndex hindex hrow
  cases isValueType <;>
    simp [readPlain?, plainMark, Mark.valueType, Mark.reference, hread, htoken]

/-- The data is the written form of a type for the code of a module: it is read back from the front
of any data it opens, on any number of levels that its length allows. -/
def Reads (module : ModuleIndex) (form : TypeForm) (data : Bytes) : Prop :=
  ∀ levels rest, data.length ≤ levels →
    readForm? module levels (data ++ rest) = some (form, rest)

theorem reads_row (hindex : typeIndex token = .ok index) (hrow : token.row.toNat < 0x1000000)
    (hbytes : Compressed.encode index = .ok bytes) (isValueType : Bool) :
    Reads token.module (.plain token isValueType) (plainMark isValueType :: bytes) := by
  intro levels rest hlevels
  cases levels with
  | zero => cases hlevels
  | succ levels =>
    have hplain := readPlain?_row hindex hrow hbytes isValueType rest
    cases isValueType <;> exact hplain

theorem reads_module_row {moduleBytes : Bytes}
    (hmodule : Compressed.encode token.module.value = .ok moduleBytes)
    (hindex : typeIndex token = .ok index) (hrow : token.row.toNat < 0x1000000)
    (hbytes : Compressed.encode index = .ok bytes) (isValueType : Bool) :
    Reads module (.plain token isValueType)
      (Mark.module :: moduleBytes ++ plainMark isValueType :: bytes) := by
  intro levels rest hlevels
  cases levels with
  | zero => cases hlevels
  | succ levels =>
    have hread := Compressed.read?_encode hmodule (plainMark isValueType :: bytes ++ rest)
    have hplain := readPlain?_row hindex hrow hbytes isValueType rest
    rw [List.cons_append, List.cons_append, List.append_assoc, readForm?, if_neg (by decide),
      if_pos rfl, hread]
    exact hplain

/-- The same for types one after another. -/
def ReadsEach (module : ModuleIndex) (forms : List TypeForm) (data : Bytes) : Prop :=
  ∀ levels rest, data.length ≤ levels →
    readMany? (readForm? module levels) forms.length (data ++ rest) = some (forms, rest)

theorem readsEach_nil : ReadsEach module [] [] := fun _ _ _ => rfl

theorem readsEach_cons {form : TypeForm} {forms : List TypeForm} {first others : Bytes}
    (hfirst : Reads module form first) (hothers : ReadsEach module forms others) :
    ReadsEach module (form :: forms) (first ++ others) := by
  intro levels rest hlevels
  rw [List.length_append] at hlevels
  have hform := hfirst levels (others ++ rest) (by omega)
  have hforms := hothers levels rest (by omega)
  rw [List.append_assoc, List.length_cons, readMany?, hform]
  exact congrArg (fun answer => Option.bind answer _) hforms

theorem reads_instantiated {definition : TypeForm} {arguments : List TypeForm}
    {head count tail : Bytes} (hdefinition : Reads module definition head)
    (hlength : arguments.length < 0x100000000)
    (hcount : Compressed.encode (UInt32.ofNat arguments.length) = .ok count)
    (harguments : ReadsEach module arguments tail) :
    Reads module (.instantiated definition arguments)
      (Mark.instantiation :: head ++ (count ++ tail)) := by
  intro levels rest hlevels
  cases levels with
  | zero => cases hlevels
  | succ levels =>
    simp only [List.cons_append, List.length_cons, List.length_append] at hlevels
    have hhead := hdefinition levels (count ++ (tail ++ rest)) (by omega)
    have hread := Compressed.read?_encode hcount (tail ++ rest)
    have htail := harguments levels rest (by omega)
    have hnumber : (UInt32.ofNat arguments.length).toNat = arguments.length := by
      rw [UInt32.toNat_ofNat']
      omega
    rw [List.cons_append, List.cons_append, List.append_assoc, List.append_assoc, readForm?,
      if_pos rfl]
    simp only [hhead, hread, hnumber, htail, Option.bind_eq_bind, Option.bind_some]
    rfl

end Reading

/-- The form of a shape, with the tokens a ledger gives for its leaves. -/
inductive Spells (context : Context) (ledger : Ledger) : TypeShape → TypeForm → Prop
  | plain {entity : Entity} {token : PortableToken}
      (htoken : context.resolve ledger entity = .ok token) :
      Spells context ledger (.plain entity) (.plain token (isValueType context entity))
  | instantiated {entity : Entity} {shape : TypeShape} {shapes : List TypeShape}
      {definition : TypeForm} {arguments : List TypeForm}
      (hdefinition : Spells context ledger shape definition)
      (harguments : List.Forall₂ (Spells context ledger) shapes arguments) :
      Spells context ledger (.instantiated entity shape shapes) (.instantiated definition arguments)

/-- Where parts are nested finitely, what spells the shape of a type is the form of the type. -/
theorem Spells.denotes {context : Context} {ledger : Ledger} {entity : Entity} {form : TypeForm}
    (hfinite : Acc context.program.Part entity)
    (h : Spells context ledger (context.program.shape entity) form) :
    Denotes context ledger entity form := by
  induction hfinite generalizing form with
  | intro entity hparts ih =>
    cases hinstantiation : context.program.typeInstantiation? entity with
    | none =>
      rw [Program.shape_of_none hinstantiation] at h
      cases h with
      | plain htoken => exact .plain hinstantiation htoken
    | some instantiation =>
      have hpart (part : Entity) (form : TypeForm)
          (hmem : part ∈ instantiation.definition :: instantiation.arguments)
          (hspells : Spells context ledger (context.program.shape part) form) :
          Denotes context ledger part form :=
        ih part ⟨instantiation, hinstantiation, hmem⟩ hspells
      rw [Program.shape_of_some (.intro _ hparts) hinstantiation] at h
      cases h with
      | instantiated hdefinition harguments =>
        refine .instantiated hinstantiation (hpart _ _ List.mem_cons_self hdefinition) ?_
        rw [List.forall₂_map_left_iff] at harguments
        exact (forall₂_mem harguments).imp fun part form ⟨hmem, hspells⟩ =>
          hpart part form (List.mem_cons_of_mem _ hmem) hspells

/-- The rows of all tokens a ledger gives have three bytes. -/
def Context.ShortRows (context : Context) (ledger : Ledger) : Prop :=
  ∀ entity token, context.resolve ledger entity = .ok token → token.row.toNat < 0x1000000

section Types

variable {context : Context} {base : Ledger} {entity : Entity}

theorem renders_plain (hbase : context.ShortRows base) (entity : Entity) :
    Renders context base (writeShape context (.plain entity)) fun _ data =>
      ∃ form, Spells context base (.plain entity) form ∧ Reads context.module form data := by
  rw [writeShape]
  refine (renders_issue entity).bind ?_
  rintro token _ ⟨rfl, htoken⟩
  have hrow := hbase entity token htoken
  have hform := Spells.plain htoken
  -- The mark and the row, behind what was written of the module.
  have hrest (first : Bytes) (hreads : ∀ index bytes, typeIndex token = .ok index →
      Compressed.encode index = .ok bytes → Reads context.module
        (.plain token (isValueType context entity))
        (first ++ plainMark (isValueType context entity) :: bytes)) :
      Renders context base (do
        write [plainMark (isValueType context entity)]
        writeNumber (← liftM (typeIndex token))) fun _ data =>
          ∃ form, Spells context base (.plain entity) form ∧
            Reads context.module form (first ++ data) := by
    refine (renders_write _).bind ?_
    rintro _ _ rfl
    refine (renders_lift _).bind ?_
    rintro index _ ⟨rfl, hindex⟩
    refine (renders_writeNumber index).imp fun _ bytes hbytes => ?_
    exact ⟨_, hform, hreads index bytes hindex hbytes⟩
  dsimp only
  by_cases helsewhere : isElsewhere context token
  · rw [if_pos helsewhere]
    refine (renders_write _).bind ?_
    rintro _ _ rfl
    refine (renders_writeNumber _).bind fun _ moduleBytes hmodule => ?_
    refine (hrest (Mark.module :: moduleBytes) fun index bytes hindex hbytes => ?_).imp ?_
    · exact reads_module_row hmodule hindex hrow hbytes _
    · intro _ data hdata
      rwa [List.nil_append, ← List.append_assoc]
  · rw [if_neg helsewhere]
    have hmodule : token.module = context.module := by
      simpa [isElsewhere] using helsewhere
    refine hrest [] fun index bytes hindex hbytes => ?_
    rw [← hmodule]
    exact reads_row hindex hrow hbytes _

theorem renders_writeCount (entity : Entity) (count : Nat) :
    Renders context base (writeCount entity count) fun _ data =>
      count < 0x100000000 ∧ Compressed.encode (UInt32.ofNat count) = .ok data := by
  unfold writeCount
  split
  · rename_i hcount
    exact (renders_writeNumber _).imp fun _ _ hdata => ⟨hcount, hdata⟩
  · exact renders_throw _ _

mutual

/-- Writing a shape adds the written form of what spells it. -/
theorem renders_writeShape (hbase : context.ShortRows base) : ∀ shape,
    Renders context base (writeShape context shape) fun _ data =>
      ∃ form, Spells context base shape form ∧ Reads context.module form data
  | .plain entity => renders_plain hbase entity
  | .instantiated entity shape shapes => by
    rw [writeShape]
    refine (renders_write _).bind ?_
    rintro _ _ rfl
    refine (renders_writeShape hbase shape).bind ?_
    rintro _ head ⟨definition, hdefinition, hhead⟩
    refine (renders_writeCount entity _).bind ?_
    rintro _ count ⟨hlength, hcount⟩
    refine (renders_writeShapes hbase shapes).imp ?_
    rintro _ tail ⟨arguments, harguments, htail⟩
    rw [harguments.length_eq] at hlength hcount
    have hreads := reads_instantiated hhead hlength hcount htail
    exact ⟨_, .instantiated hdefinition harguments, hreads⟩

theorem renders_writeShapes (hbase : context.ShortRows base) : ∀ shapes,
    Renders context base (writeShapes context shapes) fun _ data =>
      ∃ forms, List.Forall₂ (Spells context base) shapes forms ∧
        ReadsEach context.module forms data
  | [] => by
    rw [writeShapes]
    refine (renders_pure _).imp ?_
    rintro _ _ ⟨rfl, _⟩
    exact ⟨[], .nil, readsEach_nil⟩
  | shape :: shapes => by
    rw [writeShapes]
    refine (renders_writeShape hbase shape).bind ?_
    rintro _ first ⟨form, hform, hfirst⟩
    refine (renders_writeShapes hbase shapes).imp ?_
    rintro _ others ⟨forms, hforms, hothers⟩
    exact ⟨form :: forms, .cons hform hforms, readsEach_cons hfirst hothers⟩

end

/-- Writing a type whose parts are nested finitely adds the written form of what it denotes. -/
theorem renders_shape (hbase : context.ShortRows base)
    (hfinite : Acc context.program.Part entity) :
    Renders context base (writeShape context (context.program.shape entity)) fun _ data =>
      ∃ form, Denotes context base entity form ∧ Reads context.module form data :=
  (renders_writeShape hbase _).imp fun _ _ ⟨form, hspells, hreads⟩ =>
    ⟨form, hspells.denotes hfinite, hreads⟩

end Types

/-- Whatever was asked and written before: writing a type whose parts are nested finitely only adds
data, and changes no answer of the ledger.  If it does not fail, then what it has added is read back
from the front of any data it opens, as the form of the type with the tokens the ledger gives for its
leaves. -/
theorem readType?_writeType {context : Context} {entity : Entity} {sheet : Sheet}
    (hledger : sheet.ledger.Given) (hfinite : Acc context.program.Part entity) :
    ∃ data, (writeType context entity sheet).2.data = sheet.data ++ data ∧
      context.resolve (writeType context entity sheet).2.ledger = context.resolve sheet.ledger ∧
      ((writeType context entity sheet).1 = .ok () →
        ∃ form, Denotes context sheet.ledger entity form ∧
          ∀ rest, readType? context.module (data ++ rest) = some (form, rest)) := by
  obtain ⟨data, hdata, hanswers, hform⟩ :=
    renders_shape (fun _ _ htoken => hledger.row_lt htoken) hfinite sheet rfl
  refine ⟨data, hdata, hanswers, fun hok => ?_⟩
  obtain ⟨form, hdenotes, hreads⟩ := hform () hok
  refine ⟨form, hdenotes, fun rest => hreads _ rest ?_⟩
  rw [List.length_append]
  exact Nat.le_add_right ..

section Crates

def crate : Entity := ⟨⟨0⟩, ⟨0x02000001⟩⟩
def label : Entity := ⟨⟨1⟩, ⟨0x02000001⟩⟩
def weight : Entity := ⟨⟨2⟩, ⟨0x02000001⟩⟩
def crateOfWeights : Entity := ⟨⟨2⟩, ⟨0x1B000001⟩⟩
def crateOfCrates : Entity := ⟨⟨2⟩, ⟨0x1B000002⟩⟩

/-- Crates of weights, and crates of such crates with labels from outside of the bubble. -/
def crates : Program :=
  (Program.assemble [.module "Lib" "/Lib.dll", .module "Out" "/Out.dll", .module "App" "/App.dll",
    .type { id := crate, name := "Crate" },
    .type { id := label, name := "Label" },
    .reference ⟨2⟩ ⟨0x01000003⟩ label,
    .type { id := weight, name := "Weight", flags := TypeFlags.valueType },
    .type { id := crateOfWeights, name := "", instantiation := some ⟨crate, [weight]⟩ },
    .type { id := crateOfCrates, name := "",
            instantiation := some ⟨crate, [crateOfWeights, label]⟩ }]).toOption.getD {}

def crateContext : Context := ⟨crates, ⟨[⟨0⟩, ⟨2⟩], true⟩, ⟨2⟩⟩

theorem acc_crates (entity : Entity) : Acc crates.Part entity :=
  Program.acc_part_of_entries (by decide +kernel) entity

theorem shape_crates : crates.shape crateOfCrates =
    .instantiated crateOfCrates (.plain crate)
      [.instantiated crateOfWeights (.plain crate) [.plain weight], .plain label] := by
  have hcrates : crates.typeInstantiation? crateOfCrates =
      some ⟨crate, [crateOfWeights, label]⟩ := by decide +kernel
  have hweights : crates.typeInstantiation? crateOfWeights = some ⟨crate, [weight]⟩ := by
    decide +kernel
  have hplain : ∀ entity ∈ [crate, weight, label], crates.typeInstantiation? entity = none := by
    decide +kernel
  rw [Program.shape_of_some (acc_crates _) hcrates, List.map_cons, List.map_singleton,
    Program.shape_of_some (acc_crates _) hweights, List.map_singleton,
    Program.shape_of_none (hplain crate (by simp)), Program.shape_of_none (hplain weight (by simp)),
    Program.shape_of_none (hplain label (by simp))]

/-- The definition is named with its module, the label by the reference of the own module. -/
theorem readType?_writeType_crates :
    ∃ form, Denotes crateContext {} crateOfCrates form ∧
      ∀ rest, readType? ⟨2⟩
        ([0x15, 0x3F, 0, 0x12, 4, 2, 0x15, 0x3F, 0, 0x12, 4, 1, 0x11, 4, 0x12, 13] ++ rest) =
          some (form, rest) := by
  have hfinite : Acc crateContext.program.Part crateOfCrates := acc_crates crateOfCrates
  obtain ⟨data, hdata, _, hform⟩ :=
    @readType?_writeType crateContext crateOfCrates ⟨{}, []⟩ .empty hfinite
  have hshape : crateContext.program.shape crateOfCrates = _ := shape_crates
  rw [writeType, hshape] at hdata hform
  obtain rfl : data = [0x15, 0x3F, 0, 0x12, 4, 2, 0x15, 0x3F, 0, 0x12, 4, 1, 0x11, 4, 0x12, 13] := by
    rw [List.nil_append] at hdata
    rw [← hdata]
    decide +kernel
  exact hform rfl

end Crates

end Signature

end PortableImage
