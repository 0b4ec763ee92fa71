import PortableImage.Graph.Dot
import Mathlib.Data.List.Basic
/-!
# The text of a picture

Names, keys and reasons are arbitrary texts, and one of them that were not escaped would spoil the
whole picture.  Escaping all at once is the same as a row of replacements, each of which leaves alone
what the earlier ones have put in; a reader for which a backslash escapes the next character finds
the quotes where they were written; and no line breaks inside.
-/

namespace PortableImage.Graph.Dot

/-! ## Escaping -/

section Escaping

/-- Every occurrence of a character replaced by a text. -/
def replaceEach (text : List Char) (replacement : Char × String) : List Char :=
  text.flatMap fun c => if c = replacement.1 then replacement.2.toList else [c]

/-- The replacements that make up escaping, in the order in which they are made. -/
def replacements : List (Char × String) :=
  [('\\', "\\\\"), ('"', "\\\""), ('\n', "\\n"), ('\r', ""), ('<', "\\<"), ('>', "\\>")]

/-- Characters do not wait for each other, however many replacements there are. -/
theorem foldl_replaceEach (row : List (Char × String)) (text : List Char) :
    row.foldl replaceEach text = text.flatMap fun c => row.foldl replaceEach [c] := by
  induction row generalizing text with
  | nil => simp
  | cons replacement row ih =>
    simp only [List.foldl_cons]
    rw [ih, replaceEach, List.flatMap_assoc]
    apply List.flatMap_congr
    intro c _
    rw [← ih]
    simp [replaceEach]

theorem foldl_replacements_singleton (c : Char) :
    replacements.foldl replaceEach [c] = escapeChar c := by
  unfold escapeChar
  split <;> simp_all [replacements, replaceEach]

@[simp] theorem toList_escape (text : String) :
    (escape text).toList = text.toList.flatMap escapeChar := by
  rw [escape, String.toList_ofList]

/-- Replacing one character after the other escapes each character on its own. -/
theorem foldl_replacements (text : String) :
    replacements.foldl replaceEach text.toList = (escape text).toList := by
  rw [foldl_replaceEach, toList_escape]
  exact List.flatMap_congr fun c _ => foldl_replacements_singleton c

/-- Undoes an escape: a backslash stands before what is meant. -/
def unescape : List Char → List Char
  | [] => []
  | '\\' :: 'n' :: text => '\n' :: unescape text
  | '\\' :: c :: text => c :: unescape text
  | c :: text => c :: unescape text

theorem unescape_cons {c : Char} (h : c ≠ '\\') (text : List Char) :
    unescape (c :: text) = c :: unescape text := by
  rw [unescape]
  · exact fun _ hc => absurd hc h
  · exact fun _ _ hc => absurd hc h

/-- What stands for a character is nothing, a backslash with a character, or the character. -/
theorem escapeChar_cases (c : Char) :
    escapeChar c = [] ∨ (∃ d, d ≠ '\n' ∧ escapeChar c = ['\\', d]) ∨
      escapeChar c = [c] ∧ c ≠ '\\' ∧ c ≠ '"' ∧ c ≠ '\n' := by
  unfold escapeChar
  split <;> simp_all

theorem unescape_append_escapeChar (c : Char) (text : List Char) :
    unescape (escapeChar c ++ text) = if c = '\r' then unescape text else c :: unescape text := by
  unfold escapeChar
  split
  case h_7 _ hbackslash _ _ hreturn _ _ =>
    rw [List.singleton_append, unescape_cons hbackslash, if_neg hreturn]
  all_goals rfl

theorem unescape_flatMap_escapeChar (text : List Char) :
    unescape (text.flatMap escapeChar) = text.filter (· ≠ '\r') := by
  induction text with
  | nil => rfl
  | cons c text ih =>
    rw [List.flatMap_cons, unescape_append_escapeChar, ih, List.filter_cons]
    by_cases h : c = '\r' <;> simp [h]

end Escaping

/-! ## Reading -/

/-- What a reader of pictures tells apart. -/
inductive Piece
  | bare (c : Char)
  | quoted (content : List Char)
  deriving DecidableEq

/-- Reads a text, outside quotes or after some content of an open quote.  A backslash inside quotes
escapes the next character, and an open quote at the end is an error. -/
def lex : Option (List Char) → List Char → Option (List Piece)
  | none, [] => some []
  | some _, [] => none
  | none, '"' :: text => lex (some []) text
  | none, c :: text => (lex none text).map (.bare c :: ·)
  | some content, '"' :: text => (lex none text).map (.quoted content :: ·)
  | some content, '\\' :: c :: text => lex (some (content ++ ['\\', c])) text
  | some content, c :: text => lex (some (content ++ [c])) text

def bare (text : List Char) : List Piece := text.map .bare

/-- A text with one quoted label, as a reader should see it. -/
def labelled (opening label closing : String) : List Piece :=
  bare opening.toList ++ .quoted (escape label).toList :: bare closing.toList

section Reading

theorem lex_none_append {text : List Char} (h : '"' ∉ text) (rest : List Char) :
    lex none (text ++ rest) = (lex none rest).map (bare text ++ ·) := by
  induction text with
  | nil => simp [bare]
  | cons c text ih =>
    rw [List.mem_cons, not_or] at h
    obtain ⟨hc, htext⟩ := h
    rw [List.cons_append, lex, ih htext, Option.map_map]
    · rfl
    · exact fun hquote => hc hquote.symm

theorem lex_some_append_escapeChar (content : List Char) (c : Char) (rest : List Char) :
    lex (some content) (escapeChar c ++ rest) = lex (some (content ++ escapeChar c)) rest := by
  rcases escapeChar_cases c with h | ⟨d, -, h⟩ | ⟨h, hbackslash, hquote, -⟩
  · rw [h, List.nil_append, List.append_nil]
  · rw [h]
    rfl
  · rw [h, List.singleton_append, lex]
    · exact hquote
    · exact fun _ _ hc => absurd hc hbackslash

/-- The quote that ends a label is found, whatever the label and whatever follows. -/
theorem lex_some_escape (content text rest : List Char) :
    lex (some content) (text.flatMap escapeChar ++ '"' :: rest) =
      (lex none rest).map (.quoted (content ++ text.flatMap escapeChar) :: ·) := by
  induction text generalizing content with
  | nil => rw [List.flatMap_nil, List.append_nil, List.nil_append, lex]
  | cons c text ih =>
    rw [List.flatMap_cons, List.append_assoc, lex_some_append_escapeChar, ih, List.append_assoc]

theorem toList_quoted (text : String) :
    (quoted text).toList = '"' :: ((escape text).toList ++ ['"']) := by
  simp [quoted]

theorem lex_labelled {opening closing : String} (hopening : '"' ∉ opening.toList)
    (hclosing : '"' ∉ closing.toList) (label : String) (rest : List Char) :
    lex none ((opening ++ quoted label ++ closing).toList ++ rest) =
      (lex none rest).map (labelled opening label closing ++ ·) := by
  have htext : (opening ++ quoted label ++ closing).toList ++ rest =
      opening.toList ++ '"' :: (label.toList.flatMap escapeChar ++
        '"' :: (closing.toList ++ rest)) := by
    simp [toList_quoted]
  rw [htext, lex_none_append hopening, lex, lex_some_escape, lex_none_append hclosing]
  cases lex none rest with
  | none => rfl
  | some pieces => simp [labelled, bare]

end Reading

/-! ## Lines -/

section Lines

theorem newline_not_mem_escape (text : String) : '\n' ∉ (escape text).toList := by
  rw [toList_escape, List.mem_flatMap]
  rintro ⟨c, -, hc⟩
  rcases escapeChar_cases c with h | ⟨d, hd, h⟩ | ⟨h, -, -, hbreak⟩
  · simp [h] at hc
  · simp [h, hd.symm] at hc
  · simp [h, hbreak.symm] at hc

theorem newline_not_mem_labelled {opening closing : String} (hopening : '\n' ∉ opening.toList)
    (hclosing : '\n' ∉ closing.toList) (label : String) :
    '\n' ∉ (opening ++ quoted label ++ closing).toList := by
  simp [toList_quoted, newline_not_mem_escape, hopening, hclosing, -toList_escape]

theorem not_mem_render (node : Handle) {c : Char} (hn : c ≠ 'n') (hdigit : c.isDigit = false) :
    c ∉ node.render.toList := by
  intro hmem
  have hchars : c ∈ 'n' :: Nat.toDigits 10 node.index := by
    simpa [Handle.render, toString, Nat.toList_repr] using hmem
  rcases List.mem_cons.mp hchars with rfl | hmem
  · exact hn rfl
  · rw [Nat.isDigit_of_mem_toDigits (by decide) (by decide) hmem] at hdigit
    cases hdigit

/-- Where no line has a break inside, the lines of a text are those it was put together from. -/
theorem splitOn_flatMap_concat {lines : List (List Char)} (h : ∀ line ∈ lines, '\n' ∉ line) :
    (lines.flatMap fun line => line ++ ['\n']).splitOn '\n' = lines ++ [[]] := by
  induction lines with
  | nil => rfl
  | cons line lines ih =>
    rw [List.flatMap_cons, List.append_assoc, List.singleton_append,
      List.splitOn_append_cons_self_of_not_mem (h line List.mem_cons_self),
      ih fun other hother => h other (List.mem_cons_of_mem _ hother), List.cons_append]

theorem count_flatMap_concat {lines : List (List Char)} (h : ∀ line ∈ lines, '\n' ∉ line) :
    (lines.flatMap fun line => line ++ ['\n']).count '\n' = lines.length := by
  induction lines with
  | nil => rfl
  | cons line lines ih =>
    rw [List.flatMap_cons, List.count_append, List.count_append,
      List.count_eq_zero_of_not_mem (h line List.mem_cons_self),
      ih fun other hother => h other (List.mem_cons_of_mem _ hother)]
    simp [Nat.add_comm]

/-- Lines that are read one by one are read as a whole. -/
theorem lex_none_flatMap {α : Type} {lineOf : α → String} {piecesOf : α → List Piece}
    (h : ∀ item rest, lex none ((lineOf item).toList ++ '\n' :: rest) =
      (lex none rest).map (piecesOf item ++ ·)) (items : List α) (rest : List Char) :
    lex none (((items.map lineOf).flatMap fun line => line.toList ++ ['\n']) ++ rest) =
      (lex none rest).map (items.flatMap piecesOf ++ ·) := by
  induction items with
  | nil => simp
  | cons item items ih =>
    rw [List.map_cons, List.flatMap_cons, List.append_assoc, List.append_assoc,
      List.singleton_append, h, ih, Option.map_map]
    simp [Function.comp_def, List.append_assoc]

end Lines

end PortableImage.Graph.Dot
