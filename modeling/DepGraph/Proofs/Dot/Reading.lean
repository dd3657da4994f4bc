import DepGraph.Graph.Dot
import DepGraph.Proofs.Text.Digits

/-!
# Reading dot texts

A reader for dot texts, on its own. A scan goes through the characters one by one and cuts them into quoted
texts, words and marks (`step`, `scan`); a quoted text ends at the first double quote that does not stand
behind an odd number of backslashes. Statements end at semicolons (`statements`).

* `decode_escape`: an escaped text stands for the text.
* `scan_escape`: an escaped text never ends the quotes that it stands in.
* `scan_append`, `statements_flatMap`: a text can be read part by part.
-/

namespace DepGraph.Dot

/-! ## Escapes -/

/-- What a text with escapes stands for: a backslash and a character stand for another character, as far as
`escapes` knows it. -/
def decode (escapes : List (Char × Char)) : List Char → Option (List Char)
  | [] => some []
  | '\\' :: c :: rest =>
    (escapes.lookup c).bind fun meant => (decode escapes rest).map (meant :: ·)
  | c :: rest => if c = '\\' then none else (decode escapes rest).map (c :: ·)

/-- A backslash and a double quote can stand behind a backslash. -/
def quoteEscapes : List (Char × Char) := [('\\', '\\'), ('"', '"')]

/-- The text that stands between quotes. -/
def unescape : List Char → Option (List Char) := decode quoteEscapes

/-- An escaped text stands for the text, wherever a backslash and a quote can be escaped. -/
theorem decode_escape {escapes : List (Char × Char)} (hslash : escapes.lookup '\\' = some '\\')
    (hquote : escapes.lookup '"' = some '"') (text : List Char) :
    decode escapes (escape text) = some text := by
  induction text with
  | nil => rfl
  | cons c rest ih =>
    unfold escape at ih ⊢
    rw [List.flatMap_cons]
    by_cases hc : c = '\\' ∨ c = '"'
    · rw [if_pos hc]
      have hlookup : escapes.lookup c = some c := by
        rcases hc with rfl | rfl
        · exact hslash
        · exact hquote
      simp [decode, hlookup, ih]
    · rw [if_neg hc]
      rw [not_or] at hc
      simp [decode, hc.1, ih]

/-! ## Scanning -/

/-- The pieces of a dot text. -/
inductive Token where
  /-- What stands between two double quotes, with its escapes. -/
  | quoted (text : List Char)
  /-- A name, a number or an arrow. -/
  | word (text : List Char)
  | mark (c : Char)
  deriving DecidableEq

/-- Where a scan stands, and what it has read of a piece. -/
inductive Mode where
  | between
  | inWord (text : List Char)
  | inQuotes (text : List Char)
  deriving DecidableEq

def isBlank (c : Char) : Bool := c = ' ' || c = '\t' || c = '\n' || c = '\r'

def isMark (c : Char) : Bool := ['\x7b', '\x7d', '[', ']', '=', ',', ';'].contains c

def isWord (c : Char) : Bool := !(isBlank c || isMark c || c = '"')

/-- Whether a text ends in an odd number of backslashes. -/
def endsEscaping (text : List Char) : Bool :=
  (text.reverse.takeWhile (· = '\\')).length % 2 = 1

/-- The piece that a character outside quotes and words is or begins. -/
def start (c : Char) : List Token × Mode :=
  if c = '"' then ([], .inQuotes [])
  else if isBlank c then ([], .between)
  else if isMark c then ([.mark c], .between)
  else ([], .inWord [c])

/-- The pieces that a character completes, and where the scan stands after it. -/
def step : Mode → Char → List Token × Mode
  | .between, c => start c
  | .inWord text, c =>
    if isWord c then ([], .inWord (text ++ [c]))
    else (.word text :: (start c).1, (start c).2)
  | .inQuotes text, c =>
    if c = '"' ∧ endsEscaping text = false then ([.quoted text], .between)
    else ([], .inQuotes (text ++ [c]))

/-- The pieces of a text, and where the scan stands at its end. -/
def scan (mode : Mode) : List Char → List Token × Mode
  | [] => ([], mode)
  | c :: rest =>
    ((step mode c).1 ++ (scan (step mode c).2 rest).1, (scan (step mode c).2 rest).2)

/-! ## Statements -/

/-- A statement of a dot text. -/
inductive Statement where
  | node (number : ℕ) (attributes : List (List Char × Token))
  | arc (arc : Arc)
  deriving DecidableEq

/-- What a dot text says: its title, with its escapes, and its statements. -/
structure Drawing where
  title : List Char
  statements : List Statement
  deriving DecidableEq

/-- Attributes with their values, up to the bracket behind them. -/
def attributes : List Token → Option (List (List Char × Token))
  | [.word name, .mark '=', value, .mark ']'] => some [(name, value)]
  | .word name :: .mark '=' :: value :: .mark ',' :: rest =>
    (attributes rest).map ((name, value) :: ·)
  | _ => none

/-- The statement that some pieces make. -/
def statement : List Token → Option Statement
  | .word number :: .mark '[' :: rest => do
    let number ← Text.number? 10 number
    let attributes ← attributes rest
    return .node number attributes
  | [.word definition, .word arrow, .word use] => do
    guard (arrow = ['-', '>'])
    let definition ← Text.number? 10 definition
    let use ← Text.number? 10 use
    return .arc ⟨definition, use⟩
  | _ => none

/-- The statements up to the brace that ends a text, each of them ended by a semicolon; one has begun with
`begun`. -/
def statements (begun : List Token) : List Token → Option (List Statement)
  | [] => none
  | token :: rest =>
    if token = .mark ';' then
      (statement begun).bind fun first => (statements [] rest).map (first :: ·)
    else if token = .mark '\x7d' ∧ begun = [] ∧ rest = [] then some []
    else statements (begun ++ [token]) rest

/-- What a list of pieces says. -/
def drawing : List Token → Option Drawing
  | .word keyword :: .quoted title :: .mark brace :: body => do
    guard (keyword = "digraph".toList ∧ brace = '\x7b')
    let statements ← statements [] body
    return ⟨title, statements⟩
  | _ => none

/-- Reads a dot text. -/
def read (text : String) : Option Drawing :=
  if (scan .between text.toList).2 = .between then drawing (scan .between text.toList).1 else none

/-! ## Scanning in parts -/

variable {mode mode' mode'' : Mode} {tokens tokens' : List Token} {text rest : List Char}

/-- A scan goes on where it stands. -/
theorem scan_append (h : scan mode text = (tokens, mode')) (h' : scan mode' rest = (tokens', mode'')) :
    scan mode (text ++ rest) = (tokens ++ tokens', mode'') := by
  induction text generalizing mode tokens with
  | nil =>
    cases h
    exact h'
  | cons c text ih =>
    have htokens : (step mode c).1 ++ (scan (step mode c).2 text).1 = tokens := congrArg Prod.fst h
    have hmode : (scan (step mode c).2 text).2 = mode' := congrArg Prod.snd h
    rw [List.cons_append, scan, ih (Prod.ext rfl hmode), ← htokens, List.append_assoc]

/-- The pieces of a text that is made of parts, each of which ends between pieces. -/
theorem scan_flatMap {α : Type} {f : α → List Char} {t : α → List Token}
    (h : ∀ a, scan .between (f a) = (t a, .between)) (l : List α) :
    scan .between (l.flatMap f) = (l.flatMap t, .between) := by
  induction l with
  | nil => rfl
  | cons a l ih => exact scan_append (h a) ih

theorem scan_inWord (h : text.all isWord = true) (read : List Char) :
    scan (.inWord read) text = ([], .inWord (read ++ text)) := by
  induction text generalizing read with
  | nil => simp [scan]
  | cons c text ih =>
    rw [List.all_cons, Bool.and_eq_true] at h
    simp [scan, step, h.1, ih h.2]

/-- A word, which has to be set off from what follows. -/
theorem scan_word (hne : text ≠ []) (h : text.all isWord = true) :
    scan .between text = ([], .inWord text) := by
  cases text with
  | nil => exact absurd rfl hne
  | cons c rest =>
    rw [List.all_cons, Bool.and_eq_true] at h
    obtain ⟨hc, hrest⟩ := h
    have hstart : start c = ([], .inWord [c]) := by
      simp only [isWord, Bool.not_eq_true', Bool.or_eq_false_iff, decide_eq_false_iff_not] at hc
      simp [start, hc]
    rw [scan, step, hstart, scan_inWord hrest]
    rfl

theorem isWord_digit {c : Char} (h : c.isDigit = true) : isWord c = true := by
  by_contra hword
  simp only [isWord, isBlank, isMark, List.contains_eq_mem, List.mem_cons, List.not_mem_nil,
    Bool.not_eq_true', Bool.not_eq_false, Bool.or_eq_true, decide_eq_true_eq, or_false, or_assoc] at hword
  rcases hword with rfl | rfl | rfl | rfl | rfl | rfl | rfl | rfl | rfl | rfl | rfl | rfl <;> cases h

/-- The digits of a number are a word. -/
theorem scan_number (n : ℕ) : scan .between (Nat.toDigits 10 n) = ([], .inWord (Nat.toDigits 10 n)) := by
  refine scan_word Nat.toDigits_ne_nil (List.all_eq_true.2 fun c hc => ?_)
  exact isWord_digit (Nat.isDigit_of_mem_toDigits (by decide) (by decide) hc)

/-! ## Quotes -/

theorem endsEscaping_other {c : Char} (h : c ≠ '\\') (text : List Char) :
    endsEscaping (text ++ [c]) = false := by
  simp [endsEscaping, h]

theorem endsEscaping_backslash (text : List Char) :
    endsEscaping (text ++ ['\\']) = !endsEscaping text := by
  rw [Bool.eq_iff_iff]
  simp only [endsEscaping, List.reverse_append, List.reverse_singleton, List.singleton_append,
    List.takeWhile_cons, decide_true, if_true, List.length_cons, Bool.not_eq_true', decide_eq_true_eq,
    decide_eq_false_iff_not]
  omega

/-- One escaped character does not end the quotes. -/
theorem scan_escape_one {read : List Char} (hread : endsEscaping read = false) (c : Char) :
    scan (.inQuotes read) (escape [c]) = ([], .inQuotes (read ++ escape [c])) ∧
      endsEscaping (read ++ escape [c]) = false := by
  by_cases hc : c = '\\' ∨ c = '"'
  · have hodd : endsEscaping (read ++ ['\\']) = true := by rw [endsEscaping_backslash, hread]; rfl
    have hescape : escape [c] = ['\\', c] := by simp [escape, hc]
    have hsplit : read ++ ['\\', c] = (read ++ ['\\']) ++ [c] := by simp
    rw [hescape]
    constructor
    · simp [scan, step, hodd]
    · rw [hsplit]
      rcases hc with rfl | rfl
      · rw [endsEscaping_backslash, hodd]; rfl
      · exact endsEscaping_other (by decide) _
  · have hescape : escape [c] = [c] := by simp [escape, hc]
    rw [not_or] at hc
    rw [hescape]
    exact ⟨by simp [scan, step, hc.2], endsEscaping_other hc.1 read⟩

/-- **An escaped text never ends the quotes that it stands in**, and leaves it to the next quote to do so. -/
theorem scan_escape (text : List Char) {read : List Char} (hread : endsEscaping read = false) :
    scan (.inQuotes read) (escape text) = ([], .inQuotes (read ++ escape text)) ∧
      endsEscaping (read ++ escape text) = false := by
  -- what is carried on from character to character: an even number of backslashes at the end
  induction text generalizing read with
  | nil => simp [escape, scan, hread]
  | cons c text ih =>
    obtain ⟨hone, heven⟩ := scan_escape_one hread c
    have hcons : escape (c :: text) = escape [c] ++ escape text := by simp [escape]
    rw [hcons, ← List.append_assoc]
    exact ⟨scan_append hone (ih heven).1, (ih heven).2⟩

/-- A quoted text is read as a whole, whatever it holds. -/
theorem scan_quoted (text : List Char) (h : scan .between rest = (tokens, mode)) :
    scan (.inQuotes []) (escape text ++ '"' :: rest) = (.quoted (escape text) :: tokens, mode) := by
  obtain ⟨hread, heven⟩ := scan_escape text (rfl : endsEscaping [] = false)
  have hclose : scan (.inQuotes (escape text)) ('"' :: rest) = (.quoted (escape text) :: tokens, mode) := by
    rw [scan, step, if_pos ⟨rfl, heven⟩, h]
    rfl
  exact scan_append hread hclose

/-! ## Statements in parts -/

/-- A piece that can stand inside a statement. -/
def Token.Inner (token : Token) : Prop := token ≠ .mark ';' ∧ token ≠ .mark '\x7d'

/-- The pieces up to a semicolon are one statement. -/
theorem statements_inner (h : ∀ token ∈ tokens, token.Inner) (begun : List Token) :
    statements begun (tokens ++ .mark ';' :: tokens') =
      (statement (begun ++ tokens)).bind fun first => (statements [] tokens').map (first :: ·) := by
  induction tokens generalizing begun with
  | nil => simp [statements]
  | cons token tokens ih =>
    obtain ⟨⟨hsemicolon, hbrace⟩, htokens⟩ := List.forall_mem_cons.1 h
    rw [List.cons_append, statements, if_neg hsemicolon, if_neg (fun hend => hbrace hend.1), ih htokens]
    simp

theorem statements_flatMap {α : Type} {t : α → List Token} {s : α → Statement}
    (hinner : ∀ a, ∀ token ∈ t a, token.Inner) (hs : ∀ a, statement (t a) = some (s a)) (l : List α)
    {more : List Statement} (hmore : statements [] tokens = some more) :
    statements [] (l.flatMap (fun a => t a ++ [.mark ';']) ++ tokens) = some (l.map s ++ more) := by
  induction l with
  | nil => exact hmore
  | cons a l ih =>
    rw [List.flatMap_cons, List.append_assoc, List.append_assoc, List.singleton_append,
      statements_inner (hinner a), List.nil_append, hs, Option.bind_some, ih]
    rfl

end DepGraph.Dot
