import Mathlib.Tactic.Cases
import Mathlib.Tactic.ByContra
import ZodGen.Proofs.ParserRuns
import ZodGen.Text.Alphabetic

/-!
# The script of one constant

A word that is no keyword can be declared: `const word = 0;` parses to the declaration of that word
and nothing else (`parse_constant`). The parser is run on it token by token. What it does with a
production is said by equations for its state, in which only the token at hand and the one behind it
matter.
-/

namespace ZodGen

namespace Text

/-- A text that an identifier is spelled with. -/
def isIdentifier : List Char → Bool
  | [] => false
  | c :: cs => isIdStart c && cs.all isIdPart

theorem toNat_lt_of_isDigit {c : Char} (h : c.isDigit = true) : c.toNat < 0x80 := by
  simp only [Char.isDigit, Bool.and_eq_true, decide_eq_true_eq] at h
  have := UInt32.le_iff_toNat_le.1 h.2
  exact Nat.lt_of_le_of_lt this (by decide)

end Text

namespace Script

/-! ## Words of a script -/

namespace Token

open Text (isIdentifier)

/-- Text behind which a name does not go on. -/
def EndsName (more : List Char) : Prop := ∀ c ∈ more.head?, Text.isIdPart c = false ∧ c ≠ '\\'

theorem ne_backslash_of_isIdPart {c : Char} (h : Text.isIdPart c = true) : c ≠ '\\' := by
  rintro rfl
  exact absurd h (by decide)

theorem nameChars_cons {c : Char} (h : c ≠ '\\') (limit : Nat) (first : Bool) (acc cs : List Char)
    (offset : Nat) : nameChars (limit + 1) first false acc ⟨c :: cs, offset⟩
      = if (if first then Text.isIdStart c else Text.isIdPart c) then
          nameChars limit false false (c :: acc) ⟨cs, offset + c.utf8Size⟩
        else (acc, false, none, ⟨c :: cs, offset⟩) := by
  simp [nameChars, h]

/-- Reading a name stops in front of what does not go on with it. -/
theorem nameChars_append {more : List Char} (hmore : EndsName more) : ∀ {cs : List Char}
    (limit offset : Nat) (acc : List Char), cs.all Text.isIdPart = true → cs.length < limit →
    nameChars limit false false acc ⟨cs ++ more, offset⟩
      = (cs.reverse ++ acc, false, none, ⟨more, offset + Text.byteLength cs⟩)
  | [], limit + 1, offset, acc, _, _ => by
    cases more with
    | nil => rfl
    | cons c more =>
      obtain ⟨hpart, hslash⟩ := hmore c rfl
      rw [List.nil_append, nameChars_cons hslash, if_neg (by simp [hpart])]
      rfl
  | c :: cs, limit + 1, offset, acc, hall, hlimit => by
    rw [List.all_cons, Bool.and_eq_true] at hall
    rw [List.cons_append, nameChars_cons (ne_backslash_of_isIdPart hall.1),
      if_pos (by simp [hall.1]),
      nameChars_append hmore _ _ _ hall.2 (by simpa using hlimit), Text.byteLength, Nat.add_assoc,
      List.reverse_cons, List.append_assoc]
    rfl

/-- A name that is read to the end has only characters of names, if none of them is escaped. -/
theorem all_isIdPart_of_nameChars : ∀ {cs : List Char} {limit offset : Nat} {acc : List Char},
    '\\' ∉ cs → (nameChars limit false false acc ⟨cs, offset⟩).2.2.2.chars = [] →
    cs.all Text.isIdPart = true
  | [], _, _, _, _, _ => rfl
  | c :: cs, 0, _, _, _, h => absurd h (by simp [nameChars])
  | c :: cs, limit + 1, offset, acc, hslash, h => by
    rw [List.mem_cons, not_or] at hslash
    rw [nameChars_cons (Ne.symm hslash.1)] at h
    by_cases hpart : Text.isIdPart c = true
    · rw [if_pos (by simp [hpart])] at h
      rw [List.all_cons, hpart, all_isIdPart_of_nameChars hslash.2 h, Bool.true_and]
    · rw [if_neg (by simp [hpart])] at h
      exact absurd h (List.cons_ne_nil c cs)

theorem rest_scanName (limit : Nat) (kind : Kind) (c : Cursor) :
    (scanName limit kind c).rest = (nameChars limit true false [] c).2.2.2 := by
  unfold scanName
  rcases nameChars limit true false [] c with ⟨acc, escaped, bad, rest⟩
  cases bad <;> rfl

section Words

variable {c : Char} {cs : List Char}

/-- A letter or one of the marks that stand for letters in names. -/
def startsLike (c : Char) : Bool := Text.isAlphabetic c || c == '_' || c == '$'

theorem ne_of_startsLike (h : startsLike c = true) :
    c ≠ '#' ∧ c ≠ '"' ∧ c ≠ '\'' ∧ c ≠ '.' ∧ c ≠ '\\' ∧ c ≠ Char.ofNat 0x60 := by
  refine ⟨?_, ?_, ?_, ?_, ?_, ?_⟩ <;> (rintro rfl; exact absurd h (by decide))

theorem isDigit_of_startsLike (h : startsLike c = true) : c.isDigit = false := by
  have hdigits : ∀ n < 0x80, (Char.ofNat n).isDigit = true → startsLike (Char.ofNat n) = false := by
    decide +kernel
  by_contra hdigit
  rw [Bool.not_eq_false] at hdigit
  have hc := hdigits c.toNat (Text.toNat_lt_of_isDigit hdigit)
  rw [Char.ofNat_toNat, h] at hc
  exact absurd (hc hdigit) (by decide)

-- The branches of `scan` overlap, so a branch is reached only with the earlier ones ruled out.
theorem scan_of_isIdStart (h : startsLike c = true) (hstart : Text.isIdStart c = true)
    (limit offset : Nat) :
    scan limit ⟨c :: cs, offset⟩ = scanName limit .word ⟨c :: cs, offset⟩ := by
  obtain ⟨hhash, hdouble, hsingle, hpoint, -, -⟩ := ne_of_startsLike h
  simp [scan, hpoint, isDigit_of_startsLike h, startsName, hstart]

theorem kind_scan_ne_word (h : startsLike c = true) (hstart : Text.isIdStart c = false)
    (limit offset : Nat) : (scan limit ⟨c :: cs, offset⟩).kind ≠ .word := by
  obtain ⟨hhash, hdouble, hsingle, hpoint, hslash, htick⟩ := ne_of_startsLike h
  simp only [scan]
  cases mark? (c :: cs) <;>
    simp [hpoint, isDigit_of_startsLike h, startsName, hstart, hslash, htick]

end Words

/-- A script reads the text as one word, whatever follows that does not belong to a name. -/
def ReadsAsWord (cs : List Char) : Prop :=
  ∀ (more : List Char) (limit offset : Nat), EndsName more → cs.length < limit →
    scan limit ⟨cs ++ more, offset⟩
      = { kind := .word, text := String.ofList cs, rest := ⟨more, offset + Text.byteLength cs⟩ }

theorem readsAsWord_of_isIdentifier {c : Char} {cs : List Char} (hlike : startsLike c = true)
    (h : isIdentifier (c :: cs) = true) : ReadsAsWord (c :: cs) := by
  intro more limit offset hmore hlimit
  obtain ⟨limit, rfl⟩ : ∃ k, limit = k + 1 := ⟨limit - 1, by omega⟩
  obtain ⟨-, -, -, -, hc, -⟩ := ne_of_startsLike hlike
  rw [isIdentifier, Bool.and_eq_true] at h
  rw [List.cons_append, scan_of_isIdStart hlike h.1, scanName, nameChars_cons hc,
    if_pos (by simp [h.1]), nameChars_append hmore _ _ _ h.2 (by simpa using hlimit)]
  simp [Text.byteLength, Nat.add_assoc]

/-- Texts that start like a name are read as one word exactly if they are identifiers. -/
theorem readsAsWord_iff {c : Char} {cs : List Char} (hlike : startsLike c = true)
    (hslash : '\\' ∉ cs) : ReadsAsWord (c :: cs) ↔ isIdentifier (c :: cs) = true := by
  refine ⟨fun h => ?_, readsAsWord_of_isIdentifier hlike⟩
  obtain ⟨-, -, -, -, hc, -⟩ := ne_of_startsLike hlike
  have hread := h [] ((c :: cs).length + 1) 0 (by simp [EndsName]) (Nat.lt_succ_self _)
  rw [List.append_nil] at hread
  cases hstart : Text.isIdStart c with
  | false => exact absurd (congrArg Scan.kind hread) (kind_scan_ne_word hlike hstart _ _)
  | true =>
    have hrest := congrArg (·.rest.chars) hread
    simp only [scan_of_isIdStart hlike hstart, rest_scanName, nameChars_cons hc, hstart,
      if_true] at hrest
    rw [isIdentifier, hstart, all_isIdPart_of_nameChars hslash hrest, Bool.true_and]

end Token

namespace Parser

/-! ## A number in front of a semicolon -/

/-- A mark is at hand. -/
structure AtMark (text : String) (s : State) : Prop where
  kind : s.token.kind = .mark
  text : s.token.text = text
  plain : s.token.escaped = false

section Semicolon

variable {s : State}

theorem AtMark.isText {text : String} (h : AtMark text s) (other : String) :
    Token.isText s.token other = (text == other) := by
  simp [Token.isText, h.kind, h.text]

variable (h : AtMark ";" s) (g : Grammar) (start n : Nat) (left : Expr)

include h

theorem memberStep_semicolon (isOptional : Bool) :
    memberStep g start left isOptional s = .ok (none, s) := by
  simp [memberStep, h.isText, run_eat h.plain, atTemplate, h.kind, typeArgumentsInExpression,
    atOpenAngle]

theorem membersUpTo_semicolon (isOptional : Bool) :
    membersUpTo g start n left isOptional s = .ok ((left, isOptional), s) := by
  cases n <;> simp [membersUpTo, memberStep_semicolon h]

theorem callsUpTo_semicolon (isOptional : Bool) :
    callsUpTo g start n left isOptional s = .ok ((left, isOptional), s) := by
  cases n <;> simp [callsUpTo, membersUpTo_semicolon h, run_eat h.plain, h.isText, atOpenAngle]

theorem operatorsUpTo_semicolon (least : Nat) :
    operatorsUpTo g start least n left s = .ok (left, s) := by
  have hlevel : operatorLevel? s.token = none := by
    simp [operatorLevel?, operatorLevels, h.isText]
  cases n <;> simp [operatorsUpTo, operatorAbove, joinAngles, h.isText, hlevel]

theorem assignmentRest_semicolon (returnType : Bool) :
    assignmentRest g start left returnType s = .ok (left, s) := by
  simp [assignmentRest, assignmentOperators, h.isText, run_eat h.plain]

end Semicolon

/-- A number is at hand, with a semicolon behind it. -/
structure AtNumber (s : State) : Prop where
  kind : s.token.kind = .number
  follows : AtMark ";" s.next

section Number

variable {s : State}

theorem AtNumber.isText (h : AtNumber s) (text : String) : Token.isText s.token text = false := by
  simp [Token.isText, h.kind]

theorem simpleUnary_number (h : AtNumber s) (g : Grammar) :
    simpleUnary g s = .ok (.other s.token.span, s.next) := by
  simp [simpleUnary, h.isText, operandFollows, updateExpression, leftHandExpression,
    memberExpression, primary,
    h.kind, membersUpTo_semicolon h.follows, callsUpTo_semicolon h.follows, h.follows.isText]

theorem binaryExpression_number (h : AtNumber s) (n least : Nat) :
    binaryExpression (grammar (n + 1)) least s = .ok (.other s.token.span, s.next) := by
  simp [binaryExpression, h.kind, grammar, simpleUnary_number h, operatorsUpTo_semicolon h.follows]

/-- A number in front of a semicolon is a whole expression, which takes three levels of the
grammar. -/
theorem assignment_number (h : AtNumber s) (n : Nat) :
    assignment (grammar (n + 3)) s = .ok (.other s.token.span, s.next) := by
  simp [assignment, grammar, assignmentExpression, h.isText, operandFollows, arrowHere, arrowSign,
    startsAsyncArrow, binaryExpression_number h, assignmentRest_semicolon h.follows]

end Number

/-! ## A constant -/

/-- A word is at hand. -/
structure AtWord (text : String) (s : State) : Prop where
  kind : s.token.kind = .word
  text : s.token.text = text
  plain : s.token.escaped = false

/-- A word that is no keyword, and is spelled like no mark. -/
def IsFree (name : String) : Prop := ∀ other ∈ keywords ++ Token.marks, name ≠ other

/-- A name that is free is at hand, then `= number;` and the end. -/
structure AtConstant (name : String) (s : State) : Prop where
  word : AtWord name s
  free : IsFree name
  equals : AtMark "=" s.next
  number : AtNumber s.next.next
  ends : s.next.next.next.next.token.kind = .eof

section Constant

variable {s : State} {name : String}

theorem AtWord.isText {text : String} (h : AtWord text s) (other : String) :
    Token.isText s.token other = (text == other) := by
  simp [Token.isText, h.kind, h.text]

theorem IsFree.notMem_reservedWords (h : IsFree name) : name ∉ reservedWords := by
  have hsub : ∀ word ∈ reservedWords, word ∈ keywords ++ Token.marks := by decide
  exact fun hm => h name (hsub name hm) rfl

/-- The state behind the name of a constant. -/
def boundState (s : State) : State :=
  { s.next with items := .declare s.token.text s.token.span .ofValue .block :: s.items }

/-- A free name is a pattern, and declares itself in the scope at hand. -/
theorem pattern_word (h : AtWord name s) (hfree : IsFree name) (g : Grammar) :
    pattern g .block s = .ok (⟨true, s.token.span⟩, boundState s) := by
  have hbinding : Token.isBinding s.token = true := by
    simp [Token.isBinding, h.kind, h.text, hfree.notMem_reservedWords]
  have hbrace : name ≠ "\x7b" := hfree _ (by decide)
  have hbracket : name ≠ "[" := hfree _ (by decide)
  have hawait : name ≠ "await" := hfree _ (by decide)
  have hyield : name ≠ "yield" := hfree _ (by decide)
  simp [pattern, run_eat h.plain, h.isText, h.text, bindingName, checkName, hbinding, hbrace,
    hbracket, hawait, hyield, declare, emit, boundState]
  rfl

/-- The state behind the value of a constant. -/
def valueState (s : State) : State := (boundState s).next.next

theorem declarator_constant (h : AtConstant name s) (n : Nat) :
    declarator (grammar (n + 3)) .block true s
      = .ok (⟨⟨s.token.span.start, (valueState s).lastStop⟩, none⟩, valueState s) := by
  have hequals : AtMark "=" (boundState s) := ⟨h.equals.kind, h.equals.text, h.equals.plain⟩
  have hnumber : AtNumber (boundState s).next :=
    ⟨h.number.kind, h.number.follows.kind, h.number.follows.text, h.number.follows.plain⟩
  simp [declarator, grammar, pattern_word h.word h.free, hequals.isText, run_eat hequals.plain,
    annotation, assignment_number hnumber, valueState]

theorem variableStatement_constant (h : AtConstant name s.next) (hword : AtWord "const" s)
    (n : Nat) :
    variableStatement (grammar (n + 3)) .const s
      = .ok (⟨.const, ⟨s.token.span.start, (valueState s.next).token.span.stop⟩,
          [⟨s.next.token.span.start, (valueState s.next).lastStop⟩]⟩,
        (valueState s.next).next) := by
  have hends : AtMark ";" (valueState s.next) :=
    ⟨h.number.follows.kind, h.number.follows.text, h.number.follows.plain⟩
  simp [variableStatement, run_bump hword.plain, declarators, reachOf, declarator_constant h,
    collect_none, hends.isText, run_eat hends.plain, endStatement, canEnd]
  rfl

theorem statement_constant (h : AtConstant name s.next) (hword : AtWord "const" s) (n : Nat) :
    statement (grammar (n + 3)) .list s
      = .ok (.declares ⟨.const, ⟨s.token.span.start, (valueState s.next).token.span.stop⟩,
          [⟨s.next.token.span.start, (valueState s.next).lastStop⟩]⟩,
        (valueState s.next).next) := by
  have henum : name ≠ "enum" := h.free _ (by decide)
  simp [statement, hword.kind, hword.text, hword.isText, declarationHere, startsAsyncFunction,
    foreseen, h.word.isText, henum, variableKind?, VariableKind.keyword,
    variableStatement_constant h hword]

/-- A constant is the only statement of its script. -/
theorem topLevel_constant (h : AtConstant name s.next) (hword : AtWord "const" s) (n : Nat)
    (hlimit : 2 ≤ s.limit) :
    topLevel (grammar (n + 4)) s
      = .ok ([some ⟨.const, ⟨s.token.span.start, (valueState s.next).token.span.stop⟩,
          [⟨s.next.token.span.start, (valueState s.next).lastStop⟩]⟩],
        (valueState s.next).next) := by
  obtain ⟨l, hl⟩ : ∃ l, s.limit = l + 2 := ⟨s.limit - 2, by omega⟩
  have hends : (valueState s.next).next.token.kind = .eof := h.ends
  simp [topLevel, collect, hl, collectUpTo, hword.kind, grammar, statement_constant h hword, hends]

end Constant

end Parser

/-! ## Its tokens -/

namespace Token

open Text (isIdentifier byteLength)

/-- The code points of white space and line breaks. -/
def blankPoints : List Nat :=
  [0x09, 0x0A, 0x0B, 0x0C, 0x0D, 0x20, 0x85, 0xA0, 0x1680, 0x180E] ++ List.range' 0x2000 12 ++
    [0x2028, 0x2029, 0x202F, 0x205F, 0x3000, 0xFEFF]

theorem toNat_mem_blankPoints {c : Char} (h : (isSpace c || isLineBreak c) = true) :
    c.toNat ∈ blankPoints := by
  simp only [isSpace, isLineBreak, Bool.or_eq_true, beq_iff_eq, Bool.and_eq_true,
    decide_eq_true_eq, ← Char.toNat_inj, Char.reduceToNat] at h
  simp only [blankPoints, List.mem_append, List.mem_cons, List.not_mem_nil, or_false,
    List.mem_range'_1]
  omega

/-- White space is no letter. This is checked on the list of its code points. -/
theorem not_isSpace_of_startsLike {c : Char} (h : startsLike c = true) :
    (isSpace c || isLineBreak c) = false := by
  have hblank : ∀ n ∈ blankPoints, startsLike (Char.ofNat n) = false := by decide +kernel
  by_contra hspace
  have hc := hblank c.toNat (toNat_mem_blankPoints (Bool.not_eq_false _ ▸ hspace))
  rw [Char.ofNat_toNat, h] at hc
  exact absurd hc (by decide)

theorem gap_of_startsLike {c : Char} (h : startsLike c = true) (newline : Bool) (limit offset : Nat)
    (cs : List Char) :
    gap newline (limit + 1) ⟨c :: cs, offset⟩ = ⟨⟨c :: cs, offset⟩, newline, none⟩ := by
  have hslash : c ≠ '/' := by
    rintro rfl
    exact absurd h (by decide)
  obtain ⟨hspace, hbreak⟩ := Bool.or_eq_false_iff.1 (not_isSpace_of_startsLike h)
  simp [gap, hslash, hspace, hbreak]

/-- A word as a found token. -/
def foundWord (cs more : List Char) (offset : Nat) : Found :=
  ⟨⟨.word, String.ofList cs, ⟨offset, offset + byteLength cs⟩, false, false⟩, [],
    ⟨cs ++ more, offset⟩, ⟨more, offset + byteLength cs⟩⟩

/-- An identifier is the next token, at hand or behind a blank. -/
theorem next_word {c : Char} {cs more : List Char} (hlike : startsLike c = true)
    (h : isIdentifier (c :: cs) = true) (hmore : EndsName more) (limit offset : Nat)
    (hlimit : (c :: cs).length < limit) :
    next limit ⟨c :: cs ++ more, offset⟩ = foundWord (c :: cs) more offset
    ∧ next (limit + 1) ⟨' ' :: (c :: cs ++ more), offset⟩
      = foundWord (c :: cs) more (offset + 1) := by
  obtain ⟨limit, rfl⟩ : ∃ k, limit = k + 1 := ⟨limit - 1, by omega⟩
  have hread := fun (l o : Nat) (hl : (c :: cs).length < l) =>
    readsAsWord_of_isIdentifier hlike h more l o hmore hl
  simp only [List.cons_append] at hread ⊢
  have hspace : ∀ l, gap false (l + 1) ⟨' ' :: c :: (cs ++ more), offset⟩
      = gap false l ⟨c :: (cs ++ more), offset + 1⟩ := fun _ => rfl
  constructor
  · simp [next, gap_of_startsLike hlike, hread _ _ hlimit, Scan.found, foundWord]
  · simp [next, hspace, gap_of_startsLike hlike, hread _ _ (Nat.lt_succ_of_lt hlimit), Scan.found,
      foundWord]

section Tail

variable (limit offset : Nat)

theorem next_equals : next (limit + 4) ⟨[' ', '=', ' ', '0', ';'], offset⟩
    = ⟨⟨.mark, "=", ⟨offset + 1, offset + 2⟩, false, false⟩, [], ⟨['=', ' ', '0', ';'], offset + 1⟩,
      ⟨[' ', '0', ';'], offset + 2⟩⟩ := rfl

theorem next_zero : next (limit + 4) ⟨[' ', '0', ';'], offset⟩
    = ⟨⟨.number, "", ⟨offset + 1, offset + 2⟩, false, false⟩, [], ⟨['0', ';'], offset + 1⟩,
      ⟨[';'], offset + 2⟩⟩ := rfl

theorem next_semicolon : next (limit + 4) ⟨[';'], offset⟩
    = ⟨⟨.mark, ";", ⟨offset, offset + 1⟩, false, false⟩, [], ⟨[';'], offset⟩,
      ⟨[], offset + 1⟩⟩ := rfl

theorem next_nil : next (limit + 4) ⟨[], offset⟩
    = ⟨⟨.eof, "", ⟨offset, offset⟩, false, false⟩, [], ⟨[], offset⟩, ⟨[], offset⟩⟩ := rfl

end Tail

end Token

/-! ## The script -/

open Text (isIdentifier byteLength)

/-- What a script says that declares one constant. -/
def constantProgram (cs : List Char) : Program :=
  ⟨[some ⟨.const, ⟨0, byteLength cs + 11⟩, [⟨6, byteLength cs + 10⟩]⟩],
    [.declare (String.ofList cs) ⟨6, byteLength cs + 6⟩ .ofValue .block]⟩

theorem length_le_utf8ByteSize : ∀ cs : List Char, cs.length ≤ (String.ofList cs).utf8ByteSize
  | [] => Nat.zero_le _
  | c :: cs => by
    have hsplit : String.ofList (c :: cs) = String.singleton c ++ String.ofList cs := by
      rw [String.ofList_cons]
    have := length_le_utf8ByteSize cs
    have := c.utf8Size_pos
    rw [hsplit, String.utf8ByteSize_append, String.utf8ByteSize_singleton, List.length_cons]
    omega

/-- A script is read as its statements, if nothing was found wrong on the way. -/
theorem Program.parse_of_topLevel {source : String} {limit : Nat} {c : Cursor}
    {statements : List (Option Declaration)} {s : State} (hlimit : source.utf8ByteSize + 1 = limit)
    (hc : afterInterpreter ⟨source.toList, 0⟩ = c)
    (h : Parser.topLevel (Parser.grammar (8 * limit + 64)) (State.start limit c)
      = .ok (statements, s))
    (htokens : s.tokenFaults = []) (hfaults : s.faults = []) (hdefaults : s.loneDefaults = []) :
    Program.parse source = .ok ⟨statements, s.items.reverse⟩ := by
  subst hlimit hc
  have hfinish : Parser.finish s = .ok ((), s) := by
    simp [Parser.finish, htokens, hfaults, hdefaults]
  simp only [Program.parse_eq, Program.read, Parser.run_bind, h, Parser.ok_bind, hfinish,
    Parser.run_get, Parser.run_pure]
  rfl

section Tail

variable {s : State} {name : String} {k e : Nat} (hlimit : s.limit = k + 4)
  (hrest : s.rest = ⟨[' ', '=', ' ', '0', ';'], e⟩)

include hlimit hrest

theorem atConstant_of_rest (hword : Parser.AtWord name s) (hfree : Parser.IsFree name) :
    Parser.AtConstant name s := by
  refine ⟨hword, hfree, ⟨?_, ?_, ?_⟩, ⟨?_, ⟨?_, ?_, ?_⟩⟩, ?_⟩ <;>
    simp only [State.next, hlimit, hrest, Token.next_equals, Token.next_zero,
      Token.next_semicolon, Token.next_nil]

/-- Behind the value, one name has been declared and nothing was found wrong since. -/
theorem valueState_of_rest : (Parser.valueState s).lastStop = e + 4
    ∧ (Parser.valueState s).token.span.stop = e + 5
    ∧ (Parser.valueState s).next.tokenFaults = s.tokenFaults
    ∧ (Parser.valueState s).next.faults = s.faults
    ∧ (Parser.valueState s).next.loneDefaults = s.loneDefaults
    ∧ (Parser.valueState s).next.items
      = .declare s.token.text s.token.span .ofValue .block :: s.items := by
  simp [Parser.valueState, Parser.boundState, State.next, hlimit, hrest, Token.next_equals,
    Token.next_zero, Token.next_semicolon, Token.next_nil]

end Tail

theorem endsName_space (more : List Char) : Token.EndsName (' ' :: more) := by
  intro d hd
  obtain rfl : ' ' = d := by simpa using hd
  decide

/-- The text behind the keyword. -/
def constantTail (cs : List Char) : List Char := ' ' :: (cs ++ [' ', '=', ' ', '0', ';'])

/-- The state at the keyword. -/
def keywordState (limit : Nat) (cs : List Char) : State :=
  { limit, token := ⟨.word, "const", ⟨0, 5⟩, false, false⟩,
    here := ⟨['c', 'o', 'n', 's', 't'] ++ constantTail cs, 0⟩, rest := ⟨constantTail cs, 5⟩,
    lastStop := 0, context := {}, tokenFaults := [], faults := [], loneDefaults := [], items := [] }

section Start

variable {c : Char} {cs : List Char} {limit : Nat}

theorem start_constant (hlimit : 5 < limit) :
    State.start limit ⟨['c', 'o', 'n', 's', 't'] ++ constantTail cs, 0⟩
      = keywordState limit cs := by
  have hword := (Token.next_word (by decide)
    (by decide : isIdentifier ('c' :: ['o', 'n', 's', 't']) = true)
    (endsName_space (cs ++ [' ', '=', ' ', '0', ';'])) limit 0 (by simpa using hlimit)).1
  unfold State.start
  rw [constantTail, hword]
  rfl

theorem next_keywordState (hlike : Token.startsLike c = true) (h : isIdentifier (c :: cs) = true)
    (hlimit : (c :: cs).length + 1 < limit) : (keywordState limit (c :: cs)).next
      = { keywordState limit (c :: cs) with
          lastStop := 5
          token := ⟨.word, String.ofList (c :: cs), ⟨6, byteLength (c :: cs) + 6⟩, false, false⟩
          here := ⟨c :: cs ++ [' ', '=', ' ', '0', ';'], 6⟩
          rest := ⟨[' ', '=', ' ', '0', ';'], byteLength (c :: cs) + 6⟩ } := by
  obtain ⟨limit, rfl⟩ : ∃ k, limit = k + 1 := ⟨limit - 1, by omega⟩
  have hword := (Token.next_word hlike h (endsName_space ['=', ' ', '0', ';']) limit 5
    (by omega)).2
  simp only [State.next, keywordState, constantTail, hword, Token.foundWord, Nat.add_comm _ 6]
  rfl

end Start

/-- A constant can be declared by every identifier that is no keyword. -/
theorem parse_constant {c : Char} {cs : List Char} (hlike : Token.startsLike c = true)
    (h : isIdentifier (c :: cs) = true) (hfree : Parser.IsFree (String.ofList (c :: cs))) :
    parse ("const " ++ String.ofList (c :: cs) ++ " = 0;") = .ok (constantProgram (c :: cs)) := by
  obtain ⟨limit, hlimit⟩ :
      ∃ l, ("const " ++ String.ofList (c :: cs) ++ " = 0;").utf8ByteSize + 1 = l := ⟨_, rfl⟩
  have hlength : (c :: cs).length + 12 ≤ limit := by
    have hname := length_le_utf8ByteSize (c :: cs)
    have hfront : "const ".utf8ByteSize = 6 := by decide
    have hback : " = 0;".utf8ByteSize = 5 := by decide
    rw [String.utf8ByteSize_append, String.utf8ByteSize_append] at hlimit
    omega
  have hcursor : afterInterpreter ⟨("const " ++ String.ofList (c :: cs) ++ " = 0;").toList, 0⟩
      = ⟨['c', 'o', 'n', 's', 't'] ++ constantTail (c :: cs), 0⟩ := by
    have hchars : ("const " ++ String.ofList (c :: cs) ++ " = 0;").toList
        = ['c', 'o', 'n', 's', 't'] ++ constantTail (c :: cs) := by
      simp [String.toList_append, constantTail]
    rw [hchars]
    rfl
  have hnext := next_keywordState hlike h (show (c :: cs).length + 1 < limit by omega)
  obtain ⟨k, hk⟩ : ∃ k, (keywordState limit (c :: cs)).next.limit = k + 4 := ⟨limit - 4, by
    show limit = _
    omega⟩
  have hrest : (keywordState limit (c :: cs)).next.rest
      = ⟨[' ', '=', ' ', '0', ';'], byteLength (c :: cs) + 6⟩ := by rw [hnext]
  have hword : Parser.AtWord (String.ofList (c :: cs)) (keywordState limit (c :: cs)).next := by
    rw [hnext]
    exact ⟨rfl, rfl, rfl⟩
  obtain ⟨hlast, hstop, htokens, hfaults, hdefaults, hitems⟩ := valueState_of_rest hk hrest
  have htop := Parser.topLevel_constant (atConstant_of_rest hk hrest hword hfree) ⟨rfl, rfl, rfl⟩
    (8 * limit + 60) (by show 2 ≤ limit; omega)
  rw [hlast, hstop] at htop
  have hparse := Program.parse_of_topLevel hlimit hcursor
    (by rw [start_constant (by omega)]; exact htop) (by rw [htokens, hnext]; rfl)
    (by rw [hfaults, hnext]; rfl) (by rw [hdefaults, hnext]; rfl)
  rw [hitems, hnext] at hparse
  exact parse_eq_ok.2 hparse

end Script

end ZodGen
