import PortableImage.Backend.Dialogue
/-!
# A byte code

A small machine whose instructions stand for the questions of a backend.  An instruction is one
byte, followed by operands of four bytes each.  Every question about an entity leaves a slot in the
code: the byte of the machine instruction and zeros under a relocation.

A body is decoded first.  What cannot be decoded becomes an instruction that fails, so that all that
stands before it still takes effect.
-/

namespace PortableImage.Bytecode

open PortableImage.Graph (Handle)

/-- What an instruction does. -/
inductive Instruction
  | emit (byte : UInt8)
  | call (token : Token) (mode : CallMode)
  | allocate (token : Token)
  | locate (token : Token)
  | box (token : Token)
  | portable (token : Token)
  | describe (token : Token)
  | helper (number : UInt32)
  | ruling (token : Token)
  /-- Adds a relocation and no code. -/
  | relocate (offset size : UInt32) (target : Relocation.Target)
  /-- Appends what the backend was given. -/
  | echo
  | cancel
  | fail (fault : Fault)

/-- What is wrong where an operand does not fit in. -/
def truncated (offset : Nat) : Fault :=
  .backendFailure ("truncated operand at offset " ++ toString offset)

/-- What is wrong with a byte that is no instruction. -/
def unsupported (byte : UInt8) (offset : Nat) : Fault :=
  .backendFailure ("unsupported opcode 0x" ++ Hex.upper 2 byte.toNat ++ " at offset " ++
    toString offset)

/-- The operands at the front of the data, which starts at an offset of the body. -/
def operands : Nat → Nat → Bytes → Except Fault (List UInt32)
  | 0, _, _ => .ok []
  | count + 1, offset, data =>
    match Bytes.readWord? data with
    | none => .error (truncated offset)
    | some (word, rest) => (operands count (offset + 4) rest).map (word :: ·)

def operandCount (byte : UInt8) : Nat :=
  if [0x28, 0x6f, 0x73, 0x7b, 0x8c, 0xd0, 0xf5, 0xf1, 0xf0].contains byte then 1
  else if [0xf2, 0xf3].contains byte then 3
  else 0

/-- The instruction of a byte at an offset, with its operands. -/
def instruction (byte : UInt8) (offset : Nat) (operands : List UInt32) : Instruction :=
  match byte, operands with
  | 0x00, _ => .emit 0x90
  | 0x2a, _ => .emit 0xc3
  | 0x28, [token] => .call ⟨token⟩ .direct
  | 0x6f, [token] => .call ⟨token⟩ .dispatched
  | 0x73, [token] => .allocate ⟨token⟩
  | 0x7b, [token] => .locate ⟨token⟩
  | 0x8c, [token] => .box ⟨token⟩
  | 0xd0, [token] => .portable ⟨token⟩
  | 0xf5, [token] => .describe ⟨token⟩
  | 0xf1, [number] => .helper number
  | 0xf0, [token] => .ruling ⟨token⟩
  | 0xf2, [offset, size, node] => .relocate offset size (.node ⟨node.toNat⟩)
  | 0xf3, [offset, size, row] => .relocate offset size (.token ⟨⟨row⟩, .signature, row⟩)
  | 0xf4, _ => .echo
  | 0xf6, _ => .cancel
  | 0xf7, _ => .fail (.graph (.reported "backend gave up"))
  | _, _ => .fail (unsupported byte offset)

/-- The instructions of a body from an offset on, where some bytes still belong to operands. -/
def decodeFrom (offset skipped : Nat) : Bytes → List Instruction
  | [] => []
  | byte :: rest =>
    match skipped with
    | skipped + 1 => decodeFrom (offset + 1) skipped rest
    | 0 =>
      match operands (operandCount byte) (offset + 1) rest with
      | .ok words =>
        instruction byte offset words :: decodeFrom (offset + 1) (4 * words.length) rest
      | .error fault => [.fail fault]

def decode (code : Bytes) : List Instruction := decodeFrom 0 0 code

/-- Talk with the image, which ends where something fails. -/
abbrev Talk := ExceptT Fault Dialogue

/-- Appends an instruction byte and a place under a relocation. -/
def slot (layout : Layout) (byte : UInt8) (kind : Relocation.Kind) (target : Relocation.Target) :
    Layout :=
  { layout with data := layout.data ++ [byte] }.place kind (some target)

def rulingBytes : Ruling → Bytes
  | .unknown => [0]
  | .monomorphic target =>
    1 :: (Bytes.ofWord target.module.value ++ Bytes.ofWord target.token.value)

/-- The option whose value the description of a request ends with. -/
def trailerOption : String := "emit"

def requestBytes (request : Request) : Bytes :=
  let words := [request.method.token.value, request.method.token.value, request.module.value,
    request.body.maxStack.toUInt32, (request.body.locals.map Token.value).getD 0,
    UInt32.ofNat request.body.code.length, request.settings.flags,
    UInt32.ofNat request.settings.options.length]
  words.flatMap Bytes.ofWord ++
    ((request.settings.option? trailerOption).map fun value => value.toUTF8.toList).getD []

/-- The helper with a position in the list of all, counted around. -/
def helperAt (number : UInt32) : RuntimeHelper :=
  (RuntimeHelper.all[number.toNat % RuntimeHelper.all.length]?).getD .newObject

def step (request : Request) (layout : Layout) : Instruction → Talk Layout
  | .emit byte => return { layout with data := layout.data ++ [byte] }
  | .call token mode => do
    return slot layout 0xe8 .relative32 (← ExceptT.mk (Dialogue.put (.call token mode)))
  | .allocate token => do
    return slot layout 0xb8 .absolute64 (← ExceptT.mk (Dialogue.put (.allocate token)))
  | .locate token => do
    return slot layout 0x8b .absolute64 (← ExceptT.mk (Dialogue.put (.locate token)))
  | .box token => do
    let _ ← ExceptT.lift (Dialogue.put (.helper .box))
    return slot layout 0xb9 .absolute64 (← ExceptT.mk (Dialogue.put (.describe token)))
  | .portable token => do
    return slot layout 0xba .absolute64 (← ExceptT.mk (Dialogue.put (.portable token)))
  | .describe token => do
    return slot layout 0xbc .absolute64 (← ExceptT.mk (Dialogue.put (.describe token)))
  | .helper number => do
    return slot layout 0xbb .absolute64
      (← ExceptT.lift (Dialogue.put (.helper (helperAt number))))
  | .ruling token => do
    let ruling ← ExceptT.mk (Dialogue.put (.ruling token))
    return { layout with data := layout.data ++ rulingBytes ruling }
  | .relocate offset size target =>
    let kind := if size = 0 then Relocation.Kind.absolute64 else .relative32
    return { layout with relocations := layout.relocations ++ [⟨offset, kind, target⟩] }
  | .echo => return { layout with data := layout.data ++ requestBytes request }
  | .cancel => do
    ExceptT.lift (Dialogue.put .cancel)
    return layout
  | .fail fault => throw fault

/-- The code of a body, instruction by instruction. -/
def assemble (request : Request) : Talk Layout :=
  (decode request.body.code).foldlM (step request) {}

/-- The byte code as a backend, under a name of the host's choice. -/
def backend (name : String) : Backend where
  name
  compile request := (assemble request).run

end PortableImage.Bytecode
