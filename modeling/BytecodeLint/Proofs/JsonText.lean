import BytecodeLint.Json
import Mathlib.Data.List.Basic

/-!
# Reading JSON text

A reader for JSON text, to say which value a text stands for.  It knows nothing
of the writer: blanks may stand between any two tokens, and a character may be
escaped where the writer does not.  Numbers are natural numbers, as in `Json`.

The reader works in two stages.  `lex` splits a text into tokens.  Then a machine
takes one token after another.  It keeps the arrays and objects that are still
open in a stack of frames, so it needs no recursion into values.

There are five groups.

* Texts in quotes.
* Tokens: marks, words, numbers and texts.
* The machine, and `parse?`.
* The tokens of a value.  A written value is split into them.
* From its tokens the machine puts a value together again.  `parse?_pretty` is the
  result.
-/

namespace BytecodeLint.Json

/-! ## Texts -/

/-- The character for a letter behind a backslash. -/
def unescape? : Char → Option Char
  | '"' => some '"'
  | '\\' => some '\\'
  | '/' => some '/'
  | 'n' => some '\n'
  | 't' => some '\t'
  | 'r' => some '\r'
  | 'b' => some '\x08'
  | 'f' => some '\x0c'
  | _ => none

def hexValue? (c : Char) : Option Nat :=
  if c.isDigit then some (c.toNat - '0'.toNat)
  else if 'a' ≤ c ∧ c ≤ 'f' then some (c.toNat - 'a'.toNat + 10)
  else if 'A' ≤ c ∧ c ≤ 'F' then some (c.toNat - 'A'.toNat + 10)
  else none

/-- The character with the code that four digits spell.  Half of a surrogate pair
is none. -/
def codePoint? (a b c d : Char) : Option Char := do
  let high := 16 * (← hexValue? a) + (← hexValue? b)
  let low := 16 * (← hexValue? c) + (← hexValue? d)
  let code := 256 * high + low
  if code.isValidChar then some (Char.ofNat code) else none

/-- Reads a character inside quotes. -/
def readChar : List Char → Option (Char × List Char)
  | '\\' :: 'u' :: a :: b :: c :: d :: rest => (codePoint? a b c d).map (·, rest)
  | '\\' :: c :: rest => (unescape? c).map (·, rest)
  | c :: rest => if c = '"' ∨ c = '\\' ∨ c.toNat < 0x20 then none else some (c, rest)
  | [] => none

theorem readChar_length {text after : List Char} {c : Char} (h : readChar text = some (c, after)) :
    after.length < text.length := by
  unfold readChar at h
  split at h
  · obtain ⟨_, _, ⟨⟩⟩ := Option.map_eq_some_iff.1 h
    simp only [List.length_cons]
    omega
  · obtain ⟨_, _, ⟨⟩⟩ := Option.map_eq_some_iff.1 h
    simp only [List.length_cons]
    omega
  · split at h
    · cases h
    · cases h
      exact Nat.lt_succ_self _
  · cases h

/-- Reads a text up to the closing quote. -/
def readText (text : List Char) : Option (List Char × List Char) :=
  if text.head? = some '"' then
    some ([], text.tail)
  else
    match _h : readChar text with
    | none => none
    | some (c, after) => (readText after).map fun (chars, rest) => (c :: chars, rest)
termination_by text.length
decreasing_by exact readChar_length _h

theorem readText_of_readChar {text after : List Char} {c : Char}
    (h : readChar text = some (c, after)) :
    readText text = (readText after).map fun (chars, rest) => (c :: chars, rest) := by
  have hquote : ¬text.head? = some '"' := by
    intro hhead
    obtain ⟨rest, rfl⟩ := List.head?_eq_some_iff.1 hhead
    cases h
  rw [readText, if_neg hquote]
  split
  · rename_i hnone
    rw [h] at hnone
    cases hnone
  · rename_i hsome
    rw [h] at hsome
    cases hsome
    rfl

/-- The four digits that stand for a control character. -/
theorem codePoint?_control : ∀ code < 0x20,
    codePoint? '0' '0' (Hex.digit (code / 16)) (Hex.digit (code % 16)) =
      some (Char.ofNat code) := by
  decide

/-- An escaped character is read, whatever stands behind it. -/
theorem readChar_escape (c : Char) (rest : List Char) :
    readChar (escape c ++ rest) = some (c, rest) := by
  unfold escape
  split
  -- Seven characters have an escape of their own.
  iterate 7 rfl
  split
  · rename_i hcontrol
    have hbyte : (UInt8.ofNat c.toNat).toNat = c.toNat := by
      rw [UInt8.toNat_ofNat']
      omega
    show (codePoint? '0' '0' (Hex.digit ((UInt8.ofNat c.toNat).toNat / 16))
      (Hex.digit ((UInt8.ofNat c.toNat).toNat % 16))).map (·, rest) = _
    rw [hbyte, codePoint?_control _ hcontrol, Char.ofNat_toNat]
    rfl
  · rw [List.singleton_append, readChar]
    · rw [if_neg (by simp_all)]
    · simp_all
    · simp_all

/-- The characters of a text, up to the quote that closes it. -/
theorem readText_escape (chars rest : List Char) :
    readText (chars.flatMap escape ++ '"' :: rest) = some (chars, rest) := by
  induction chars with
  | nil => rw [readText]; rfl
  | cons c chars ih =>
    rw [List.flatMap_cons, List.append_assoc, readText_of_readChar (readChar_escape c _), ih]
    rfl

/-! ## Tokens -/

inductive Token
  | openArray
  | closeArray
  | openObject
  | closeObject
  | comma
  | colon
  | bool (value : Bool)
  | number (value : Nat)
  | text (text : String)
  deriving DecidableEq, Repr

/-- Reads a number.  Only zero itself begins with a zero. -/
def readNumber (text : List Char) : Option (Token × List Char) :=
  let digits := text.takeWhile Char.isDigit
  if digits = [] ∨ digits.head? = some '0' ∧ digits ≠ ['0'] then none
  else some (.number (Nat.ofDigitChars 10 digits 0), text.dropWhile Char.isDigit)

/-- The tokens of one character. -/
def mark? : Char → Option Token
  | '[' => some .openArray
  | ']' => some .closeArray
  | '\x7b' => some .openObject
  | '\x7d' => some .closeObject
  | ',' => some .comma
  | ':' => some .colon
  | _ => none

/-- Reads the token that a text begins with. -/
def readToken : List Char → Option (Token × List Char)
  | [] => none
  | c :: rest =>
    if c.isDigit then readNumber (c :: rest)
    else if c = '"' then
      (readText rest).map fun (chars, after) => (.text (String.ofList chars), after)
    else if c = 't' then (['r', 'u', 'e'].isPrefixOf? rest).map (.bool true, ·)
    else if c = 'f' then (['a', 'l', 's', 'e'].isPrefixOf? rest).map (.bool false, ·)
    else (mark? c).map (·, rest)

theorem readText_length {text chars after : List Char} (h : readText text = some (chars, after)) :
    after.length ≤ text.length := by
  fun_induction readText text generalizing chars with
  | case1 text =>
    cases h
    simp
  | case2 => cases h
  | case3 text _ c later hread ih =>
    obtain ⟨_, hlater, ⟨⟩⟩ := Option.map_eq_some_iff.1 h
    have := ih hlater
    have := readChar_length hread
    omega

private theorem isPrefixOf?_length {first text after : List Char}
    (h : first.isPrefixOf? text = some after) : after.length ≤ text.length := by
  rw [← List.isPrefixOf?_eq_some_iff_append_eq.1 h, List.length_append]
  exact Nat.le_add_left ..

/-- A token takes at least one character. -/
theorem readToken_length {text after : List Char} {token : Token}
    (h : readToken text = some (token, after)) : after.length < text.length := by
  cases text with
  | nil => cases h
  | cons c rest =>
    rw [readToken] at h
    rw [List.length_cons, Nat.lt_succ_iff]
    split_ifs at h with hdigit
    · unfold readNumber at h
      simp only [List.dropWhile_cons_of_pos hdigit] at h
      split at h
      · cases h
      · cases h
        exact (List.dropWhile_suffix _).length_le
    · obtain ⟨_, htext, ⟨⟩⟩ := Option.map_eq_some_iff.1 h
      exact readText_length htext
    · obtain ⟨_, hword, ⟨⟩⟩ := Option.map_eq_some_iff.1 h
      exact isPrefixOf?_length hword
    · obtain ⟨_, hword, ⟨⟩⟩ := Option.map_eq_some_iff.1 h
      exact isPrefixOf?_length hword
    · obtain ⟨_, _, ⟨⟩⟩ := Option.map_eq_some_iff.1 h
      exact Nat.le_refl _

/-- Blanks between tokens. -/
def isBlank (c : Char) : Bool :=
  c = ' ' || c = '\n' || c = '\t' || c = '\r'

/-- Splits a text into tokens. -/
def lex (text : List Char) : Option (List Token) :=
  match text with
  | [] => some []
  | c :: rest =>
    if isBlank c then
      lex rest
    else
      match _h : readToken (c :: rest) with
      | none => none
      | some (token, after) => (lex after).map (token :: ·)
termination_by text.length
decreasing_by
  · exact Nat.lt_succ_self _
  · exact readToken_length _h

/-! ## The machine -/

/-- An array or an object that is still open, with what has been read of it, the
last first. -/
inductive Frame
  | array (items : List Json)
  /-- The value of the member with this name is being read. -/
  | object (members : List (String × Json)) (name : String)

/-- What comes next, and the frames around it from inside out. -/
inductive State
  | wantsValue (frames : List Frame)
  /-- The name of a member, behind these members. -/
  | wantsName (members : List (String × Json)) (frames : List Frame)
  | wantsColon (members : List (String × Json)) (name : String) (frames : List Frame)
  /-- This value has been read. -/
  | done (value : Json) (frames : List Frame)

/-- What the machine does with a token.  An array or object that is empty so far may
be closed, and behind a comma none is. -/
def State.step : State → Token → Option State
  | .wantsValue frames, .bool value => some (.done (.bool value) frames)
  | .wantsValue frames, .number value => some (.done (.number value) frames)
  | .wantsValue frames, .text text => some (.done (.string text) frames)
  | .wantsValue frames, .openArray => some (.wantsValue (.array [] :: frames))
  | .wantsValue frames, .openObject => some (.wantsName [] frames)
  | .wantsValue (.array [] :: frames), .closeArray => some (.done (.array []) frames)
  | .wantsName members frames, .text name => some (.wantsColon members name frames)
  | .wantsName [] frames, .closeObject => some (.done (.object []) frames)
  | .wantsColon members name frames, .colon => some (.wantsValue (.object members name :: frames))
  | .done item (.array items :: frames), .comma =>
    some (.wantsValue (.array (item :: items) :: frames))
  | .done item (.array items :: frames), .closeArray =>
    some (.done (.array (item :: items).reverse) frames)
  | .done value (.object members name :: frames), .comma =>
    some (.wantsName ((name, value) :: members) frames)
  | .done value (.object members name :: frames), .closeObject =>
    some (.done (.object ((name, value) :: members).reverse) frames)
  | _, _ => none

/-- The value that a text stands for. -/
def parse? (text : String) : Option Json := do
  let tokens ← lex text.toList
  match ← tokens.foldlM State.step (.wantsValue []) with
  | .done value [] => some value
  | _ => none

/-! ## The tokens of a value -/

mutual

def tokens : Json → List Token
  | bool value => [.bool value]
  | number value => [.number value]
  | string text => [.text text]
  | array [] => [.openArray, .closeArray]
  | array (item :: rest) => .openArray :: item.tokens ++ itemTokens rest ++ [.closeArray]
  | object [] => [.openObject, .closeObject]
  | object (member :: rest) =>
    .openObject :: memberTokens member ++ membersTokens rest ++ [.closeObject]
termination_by structural value => value

/-- The tokens of the items after the first. -/
def itemTokens : List Json → List Token
  | [] => []
  | item :: rest => .comma :: item.tokens ++ itemTokens rest
termination_by structural items => items

def memberTokens : String × Json → List Token
  | (name, value) => .text name :: .colon :: value.tokens
termination_by structural member => member

/-- The tokens of the members after the first. -/
def membersTokens : List (String × Json) → List Token
  | [] => []
  | member :: rest => .comma :: memberTokens member ++ membersTokens rest
termination_by structural members => members

end

/-! ### Splitting a text -/

theorem lex_blank {c : Char} (h : isBlank c = true) (rest : List Char) :
    lex (c :: rest) = lex rest := by
  rw [lex, if_pos h]

/-- A token is never blank, so it is read where it stands. -/
theorem lex_of_read {text after : List Char} {token : Token}
    (h : readToken text = some (token, after)) : lex text = (lex after).map (token :: ·) := by
  cases text with
  | nil => cases h
  | cons c rest =>
    have hblank : ¬isBlank c = true := by
      intro hblank
      simp only [isBlank, Bool.or_eq_true, decide_eq_true_eq] at hblank
      rcases hblank with ((rfl | rfl) | rfl) | rfl <;> cases h
    rw [lex, if_neg hblank]
    split
    · rename_i hnone
      rw [h] at hnone
      cases hnone
    · rename_i hsome
      rw [h] at hsome
      cases hsome
      rfl

/-- A line break and an indentation are blank. -/
theorem lex_newline (level : Nat) (rest : List Char) : lex (newline level ++ rest) = lex rest := by
  rw [newline, List.cons_append, lex_blank (by decide)]
  generalize 2 * level = count
  induction count with
  | zero => rfl
  | succ count ih => rw [List.replicate_succ, List.cons_append, lex_blank (by decide), ih]

/-- A number is not followed by another digit. -/
def EndsNumber (rest : List Char) : Prop :=
  ∀ c ∈ rest.head?, c.isDigit = false

/-- Only zero is written with a zero in front. -/
theorem head?_toDigits {value : Nat} (h : (Nat.toDigits 10 value).head? = some '0') :
    value = 0 := by
  induction value using Nat.strongRecOn with
  | ind value ih =>
    by_cases hsmall : value < 10
    · rw [Nat.toDigits_of_lt_base hsmall] at h
      exact Nat.digitChar_eq_zero.1 (Option.some_inj.1 h)
    · rw [Nat.toDigits_of_base_le (by decide) (by omega),
        List.head?_append_of_ne_nil _ Nat.toDigits_ne_nil] at h
      have := ih (value / 10) (by omega) h
      omega

theorem readNumber_toDigits (value : Nat) {rest : List Char} (h : EndsNumber rest) :
    readNumber (Nat.toDigits 10 value ++ rest) = some (.number value, rest) := by
  have hdigits : ∀ c ∈ Nat.toDigits 10 value, c.isDigit = true := fun c hc =>
    Nat.isDigit_of_mem_toDigits (by decide) (by decide) hc
  have hrest : rest.takeWhile Char.isDigit = [] ∧ rest.dropWhile Char.isDigit = rest := by
    cases rest with
    | nil => exact ⟨rfl, rfl⟩
    | cons c later =>
      have hc : ¬c.isDigit = true := by simp [h c rfl]
      exact ⟨List.takeWhile_cons_of_neg hc, List.dropWhile_cons_of_neg hc⟩
  have hzero : ¬(Nat.toDigits 10 value = [] ∨
      (Nat.toDigits 10 value).head? = some '0' ∧ Nat.toDigits 10 value ≠ ['0']) := by
    rintro (hempty | ⟨hhead, hmore⟩)
    · exact Nat.toDigits_ne_nil hempty
    · obtain rfl := head?_toDigits hhead
      exact hmore rfl
  unfold readNumber
  simp only [List.takeWhile_append_of_pos hdigits, List.dropWhile_append_of_pos hdigits, hrest.1,
    hrest.2, List.append_nil, if_neg hzero, Nat.ofDigitChars_ten_toDigits]

theorem readToken_number (value : Nat) {rest : List Char} (h : EndsNumber rest) :
    readToken (Nat.toDigits 10 value ++ rest) = some (.number value, rest) := by
  obtain ⟨c, later, hdigits⟩ :=
    List.exists_cons_of_ne_nil (Nat.toDigits_ne_nil (n := value) (b := 10))
  have hc : c.isDigit = true := Nat.isDigit_of_mem_toDigits (by decide) (by decide)
    (hdigits ▸ List.mem_cons_self ..)
  have hread := readNumber_toDigits value h
  rw [hdigits] at hread ⊢
  rw [List.cons_append, readToken, if_pos hc]
  exact hread

theorem readToken_quote (text : String) (rest : List Char) :
    readToken (quote text ++ rest) = some (.text text, rest) := by
  have hquote : quote text ++ rest = '"' :: (text.toList.flatMap escape ++ '"' :: rest) := by
    simp [quote]
  rw [hquote, readToken, if_neg (by decide), if_pos rfl, readText_escape]
  simp

/-- A token stands in front of what is split already. -/
theorem lex_cons {text rest : List Char} {token : Token} {later : List Token}
    (hread : readToken text = some (token, rest)) (h : lex rest = some later) :
    lex text = some (token :: later) := by
  rw [lex_of_read hread, h]
  rfl

theorem endsNumber_newline (level : Nat) (rest : List Char) :
    EndsNumber (newline level ++ rest) := by
  rintro c ⟨⟩
  rfl

theorem endsNumber_writeItems (level : Nat) (items : List Json) {rest : List Char}
    (h : EndsNumber rest) : EndsNumber (writeItems level items ++ rest) := by
  cases items with
  | nil => exact h
  | cons =>
    rintro c ⟨⟩
    rfl

theorem endsNumber_writeMembers (level : Nat) (members : List (String × Json)) {rest : List Char}
    (h : EndsNumber rest) : EndsNumber (writeMembers level members ++ rest) := by
  cases members with
  | nil => exact h
  | cons =>
    rintro c ⟨⟩
    rfl

mutual

/-- A value that is written is split into its tokens, whatever stands behind it. -/
theorem lex_write (value : Json) (level : Nat) {rest : List Char} {later : List Token}
    (h : lex rest = some later) (hend : EndsNumber rest) :
    lex (value.write level ++ rest) = some (value.tokens ++ later) := by
  match value with
  | .bool true => exact lex_cons rfl h
  | .bool false => exact lex_cons rfl h
  | .number value =>
    have hdigits : (toString value).toList = Nat.toDigits 10 value := by
      simp [Nat.toString_eq_repr]
    rw [write, hdigits]
    exact lex_cons (readToken_number value hend) h
  | .string text =>
    rw [write]
    exact lex_cons (readToken_quote text rest) h
  | .array [] =>
    show lex ('[' :: ']' :: rest) = some (.openArray :: .closeArray :: later)
    exact lex_cons rfl (lex_cons rfl h)
  | .array (item :: items) =>
    have hclose : lex (newline level ++ ']' :: rest) = some (.closeArray :: later) :=
      (lex_newline ..).trans (lex_cons rfl h)
    have hitems := lex_writeItems items (level + 1) hclose (endsNumber_newline _ _)
    have hitem := lex_write item (level + 1) hitems
      (endsNumber_writeItems _ _ (endsNumber_newline _ _))
    have hopen : lex ('[' :: (newline (level + 1) ++ _)) = some (.openArray :: _) :=
      lex_cons rfl ((lex_newline ..).trans hitem)
    simpa [write, tokens] using hopen
  | .object [] =>
    show lex ('\x7b' :: '\x7d' :: rest) = some (.openObject :: .closeObject :: later)
    exact lex_cons rfl (lex_cons rfl h)
  | .object (member :: members) =>
    have hclose : lex (newline level ++ '\x7d' :: rest) = some (.closeObject :: later) :=
      (lex_newline ..).trans (lex_cons rfl h)
    have hmembers := lex_writeMembers members (level + 1) hclose (endsNumber_newline _ _)
    have hmember := lex_writeMember member (level + 1) hmembers
      (endsNumber_writeMembers _ _ (endsNumber_newline _ _))
    have hopen : lex ('\x7b' :: (newline (level + 1) ++ _)) = some (.openObject :: _) :=
      lex_cons rfl ((lex_newline ..).trans hmember)
    simpa [write, tokens] using hopen
termination_by structural value

theorem lex_writeItems (items : List Json) (level : Nat) {rest : List Char} {later : List Token}
    (h : lex rest = some later) (hend : EndsNumber rest) :
    lex (writeItems level items ++ rest) = some (itemTokens items ++ later) := by
  match items with
  | [] => exact h
  | item :: items =>
    have hitems := lex_writeItems items level h hend
    have hitem := lex_write item level hitems (endsNumber_writeItems level items hend)
    have hcomma : lex (',' :: (newline level ++ _)) = some (.comma :: _) :=
      lex_cons rfl ((lex_newline ..).trans hitem)
    simpa [writeItems, itemTokens] using hcomma
termination_by structural items

theorem lex_writeMember (member : String × Json) (level : Nat) {rest : List Char}
    {later : List Token} (h : lex rest = some later) (hend : EndsNumber rest) :
    lex (writeMember level member ++ rest) = some (memberTokens member ++ later) := by
  match member with
  | (name, value) =>
    have hvalue := lex_write value level h hend
    have hcolon : lex (':' :: ' ' :: _) = some (.colon :: _) :=
      lex_cons rfl ((lex_blank (by decide) _).trans hvalue)
    have hname := lex_cons (readToken_quote name _) hcolon
    simpa [writeMember, memberTokens] using hname
termination_by structural member

theorem lex_writeMembers (members : List (String × Json)) (level : Nat) {rest : List Char}
    {later : List Token} (h : lex rest = some later) (hend : EndsNumber rest) :
    lex (writeMembers level members ++ rest) = some (membersTokens members ++ later) := by
  match members with
  | [] => exact h
  | member :: members =>
    have hmembers := lex_writeMembers members level h hend
    have hmember := lex_writeMember member level hmembers
      (endsNumber_writeMembers level members hend)
    have hcomma : lex (',' :: (newline level ++ _)) = some (.comma :: _) :=
      lex_cons rfl ((lex_newline ..).trans hmember)
    simpa [writeMembers, membersTokens] using hcomma
termination_by structural members

end

/-! ## A run of the machine -/

mutual

/-- The machine reads a value from its tokens, whatever is open around it. -/
theorem run_tokens (value : Json) (frames : List Frame) :
    value.tokens.foldlM State.step (.wantsValue frames) = some (.done value frames) := by
  match value with
  | .bool _ => rfl
  | .number _ => rfl
  | .string _ => rfl
  | .array [] => rfl
  | .array (item :: items) =>
    rw [tokens, List.cons_append, List.cons_append, List.append_assoc]
    show (item.tokens ++ (itemTokens items ++ [Token.closeArray])).foldlM State.step
      (.wantsValue (.array [] :: frames)) = _
    rw [List.foldlM_append, run_tokens item]
    exact run_itemTokens items [] item frames
  | .object [] => rfl
  | .object (member :: members) =>
    rw [tokens, List.cons_append, List.cons_append, List.append_assoc]
    show (memberTokens member ++ (membersTokens members ++ [Token.closeObject])).foldlM State.step
      (.wantsName [] frames) = _
    rw [List.foldlM_append, run_memberTokens member]
    exact run_membersTokens members [] member frames
termination_by structural value

/-- Behind an item, the machine reads the others and the bracket. -/
theorem run_itemTokens (items before : List Json) (item : Json) (frames : List Frame) :
    (itemTokens items ++ [Token.closeArray]).foldlM State.step
        (.done item (.array before :: frames)) =
      some (.done (.array (before.reverse ++ item :: items)) frames) := by
  match items with
  | [] =>
    show some (State.done (.array (item :: before).reverse) frames) = _
    rw [List.reverse_cons]
  | next :: items =>
    rw [itemTokens, List.cons_append, List.cons_append, List.append_assoc]
    show (next.tokens ++ (itemTokens items ++ [Token.closeArray])).foldlM State.step
      (.wantsValue (.array (item :: before) :: frames)) = _
    rw [List.foldlM_append, run_tokens next]
    have hitems := run_itemTokens items (item :: before) next frames
    rw [List.reverse_cons, List.append_assoc] at hitems
    exact hitems
termination_by structural items

theorem run_memberTokens (member : String × Json) (before : List (String × Json))
    (frames : List Frame) :
    (memberTokens member).foldlM State.step (.wantsName before frames) =
      some (.done member.2 (.object before member.1 :: frames)) := by
  match member with
  | (name, value) => exact run_tokens value (.object before name :: frames)
termination_by structural member

/-- Behind a member, the machine reads the others and the bracket. -/
theorem run_membersTokens (members before : List (String × Json)) (member : String × Json)
    (frames : List Frame) :
    (membersTokens members ++ [Token.closeObject]).foldlM State.step
        (.done member.2 (.object before member.1 :: frames)) =
      some (.done (.object (before.reverse ++ member :: members)) frames) := by
  match members with
  | [] =>
    show some (State.done (.object (member :: before).reverse) frames) = _
    rw [List.reverse_cons]
  | next :: members =>
    rw [membersTokens, List.cons_append, List.cons_append, List.append_assoc]
    show (memberTokens next ++ (membersTokens members ++ [Token.closeObject])).foldlM State.step
      (.wantsName (member :: before) frames) = _
    rw [List.foldlM_append, run_memberTokens next]
    have hmembers := run_membersTokens members (member :: before) next frames
    rw [List.reverse_cons, List.append_assoc] at hmembers
    exact hmembers
termination_by structural members

end

/-- What is written for a value is read as this value. -/
theorem parse?_pretty (value : Json) :
    parse? (String.ofList (value.pretty ++ ['\n'])) = some value := by
  have hbehind : lex ['\n'] = some [] := by
    rw [lex_blank (by decide), lex]
  have hlex := lex_write value 0 hbehind (endsNumber_newline 0 [])
  unfold parse? pretty
  rw [String.toList_ofList, hlex, List.append_nil]
  show (value.tokens.foldlM State.step (.wantsValue [])).bind _ = _
  rw [run_tokens]
  rfl

/-- Blanks and escapes that are never written. -/
example : lex " [1,\n\"\\u0041\\/\", true ]".toList =
    some [.openArray, .number 1, .comma, .text "A/", .comma, .bool true, .closeArray] := by
  decide +kernel

example : (parse? "[1,]").isNone := by decide +kernel

end BytecodeLint.Json
