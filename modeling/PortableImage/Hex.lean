/-!
# Hexadecimal digits

Tokens are shown with a fixed number of digits, byte strings with two digits a byte.  `number?`
and `bytes?` read these forms back; `bytes?_flatMap_digits` says so for byte strings.
-/

namespace PortableImage.Hex

/-- The digit of a number below sixteen. -/
def digit (n : Nat) : Char :=
  if n < 10 then Char.ofNat (0x30 + n) else Char.ofNat (0x57 + n)

/-- The last `width` digits of a number, the most significant one first. -/
def digits : Nat → Nat → List Char
  | 0, _ => []
  | width + 1, n => digits width (n / 16) ++ [digit (n % 16)]

/-- The last `width` digits of a number in small letters. -/
def lower (width n : Nat) : String := String.ofList (digits width n)

/-- The last `width` digits of a number in capital letters. -/
def upper (width n : Nat) : String := String.ofList ((digits width n).map Char.toUpper)

def ofBytes (data : List UInt8) : String :=
  String.ofList (data.flatMap fun byte => digits 2 byte.toNat)

/-- The number below sixteen a digit stands for, in small or capital letters. -/
def value? (c : Char) : Option Nat :=
  if '0' ≤ c ∧ c ≤ '9' then some (c.toNat - 0x30)
  else if 'a' ≤ c ∧ c ≤ 'f' then some (c.toNat - 0x57)
  else if 'A' ≤ c ∧ c ≤ 'F' then some (c.toNat - 0x37)
  else none

def number? (text : List Char) : Option Nat :=
  text.foldlM (fun n c => (value? c).map (16 * n + ·)) 0

/-- The bytes of a string with two digits for each byte. -/
def bytes? : List Char → Option (List UInt8)
  | [] => some []
  | [_] => none
  | high :: low :: rest => do
    let byte ← number? [high, low]
    let data ← bytes? rest
    return UInt8.ofNat byte :: data

@[simp] theorem length_digits (width n : Nat) : (digits width n).length = width := by
  induction width generalizing n with
  | zero => rfl
  | succ width ih => simp [digits, ih]

theorem value?_digit {n : Nat} (h : n < 16) : value? (digit n) = some n := by
  have hall : ∀ k : Fin 16, value? (digit k.val) = some k.val := by decide
  exact hall ⟨n, h⟩

theorem number?_digits_two {n : Nat} (h : n < 256) : number? (digits 2 n) = some n := by
  have hhigh : n / 16 % 16 < 16 := by omega
  have hlow : n % 16 < 16 := by omega
  have hsum : 16 * (n / 16 % 16) + n % 16 = n := by omega
  simp [number?, digits, value?_digit hhigh, value?_digit hlow, hsum]

theorem bytes?_flatMap_digits (data : List UInt8) :
    bytes? (data.flatMap fun byte => digits 2 byte.toNat) = some data := by
  induction data with
  | nil => rfl
  | cons byte data ih =>
    have hbyte := number?_digits_two byte.toNat_lt
    rw [List.flatMap_cons]
    simp only [digits, List.nil_append, List.cons_append] at hbyte ih ⊢
    simp [bytes?, hbyte, ih]

end PortableImage.Hex
