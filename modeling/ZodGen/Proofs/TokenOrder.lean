import ZodGen.Script.Token

/-!
# Readers of tokens go forward

Every reader of a token leaves a rest that starts no earlier than what it was given, and later if
there is something to read (`offset_lt_scan`). So the token that `Token.next` finds stands behind
the place where the search began, it ends where the rest begins, and words, quoted texts and marks
take up some text. The same holds of the tokens that a parser asks for again at the place of the one
at hand.
-/

namespace ZodGen.Script

namespace Cursor

@[grind! .]
theorem offset_le_skip (c : Cursor) (n : Nat) : c.offset ≤ (c.skip n).offset :=
  Nat.le_add_right _ _

theorem offset_lt_skip {c : Cursor} (hc : c.chars ≠ []) {n : Nat} (hn : 0 < n) :
    c.offset < (c.skip n).offset := by
  obtain ⟨ch, rest, hc⟩ := List.exists_cons_of_ne_nil hc
  obtain ⟨n, rfl⟩ := Nat.exists_eq_add_one.2 hn
  have := ch.utf8Size_pos
  simp only [skip, hc, List.take_succ_cons, Text.byteLength]
  omega

@[grind! .]
theorem offset_le_skipWhile (c : Cursor) (p : Char → Bool) : c.offset ≤ (c.skipWhile p).offset :=
  Nat.le_add_right _ _

end Cursor

namespace Token

/-- A comment that does not end starts inside the gap. -/
theorem offset_le_gap (newline : Bool) (fuel : Nat) (c : Cursor) :
    c.offset ≤ (gap newline fuel c).cursor.offset
      ∧ ∀ start, (gap newline fuel c).open? = some start →
        c.offset ≤ start ∧ start ≤ (gap newline fuel c).cursor.offset := by
  fun_induction gap newline fuel c <;> grind

/-! ## Names and numbers -/

theorem offset_le_nameChars (fuel : Nat) (first escaped : Bool) (acc : List Char) (c : Cursor) :
    c.offset ≤ (nameChars fuel first escaped acc c).2.2.2.offset := by
  fun_induction nameChars fuel first escaped acc c <;> grind

@[grind! .]
theorem offset_le_scanName (limit : Nat) (kind : Kind) (c : Cursor) :
    c.offset ≤ (scanName limit kind c).rest.offset := by
  have := offset_le_nameChars limit true false [] c
  fun_cases scanName <;> simp_all

@[grind! .]
theorem offset_le_digitRun (isDigit : Char → Bool) (fuel : Nat) (c : Cursor) :
    c.offset ≤ (digitRun isDigit fuel c).2.offset := by
  fun_induction digitRun isDigit fuel c <;> grind

@[grind! .]
theorem offset_le_afterNumber (c : Cursor) : c.offset ≤ (afterNumber c).rest.offset := by
  cases hcs : c.chars with
  | nil => simp [afterNumber, hcs]
  | cons ch rest =>
    have := Cursor.offset_le_skipWhile ⟨rest, c.offset + ch.utf8Size⟩ Text.isIdStart
    simp only [afterNumber, hcs]
    grind

@[grind! .]
theorem offset_le_scanBased (limit : Nat) (isDigit : Char → Bool) (c : Cursor) :
    c.offset ≤ (scanBased limit isDigit c).rest.offset := by
  fun_cases scanBased <;> grind

@[grind! .]
theorem offset_le_scanExponent (limit : Nat) (c : Cursor) :
    c.offset ≤ (scanExponent limit c).rest.offset := by
  fun_cases scanExponent <;> grind

@[grind! .]
theorem offset_le_scanFraction (limit : Nat) (c : Cursor) :
    c.offset ≤ (scanFraction limit c).rest.offset := by
  fun_cases scanFraction <;> grind

@[grind! .]
theorem offset_le_scanNumber (limit : Nat) (c : Cursor) :
    c.offset ≤ (scanNumber limit c).rest.offset := by
  fun_cases scanNumber <;> grind

/-! ## Quoted texts -/

@[grind! .]
theorem offset_le_scanString (start : Nat) (quote : Char) (fuel : Nat) (faults : List Nat)
    (acc : List Char) (c : Cursor) :
    c.offset ≤ (scanString start quote fuel faults acc c).rest.offset := by
  fun_induction scanString start quote fuel faults acc c <;> grind

@[grind! .]
theorem offset_le_scanTemplate (start fuel : Nat) (cooked : Bool) (c : Cursor) :
    c.offset ≤ (scanTemplate start fuel cooked c).rest.offset := by
  fun_induction scanTemplate start fuel cooked c <;> grind

theorem offset_le_regexBody (start fuel : Nat) (inClass : Bool) (c : Cursor) :
    ∀ d ∈ regexBody start fuel inClass c, c.offset ≤ d.offset := by
  fun_induction regexBody start fuel inClass c <;> grind

/-! ## Tokens take up some text -/

theorem length_pos_of_mark? {cs : List Char} {m : String} (h : mark? cs = some m) :
    0 < m.length := by
  have hmarks : ∀ m ∈ marks, 0 < m.length := by decide
  exact hmarks m (List.mem_of_find?_eq_some h)

section Strict

variable {limit : Nat} {c : Cursor} (hlimit : 0 < limit)

include hlimit

theorem offset_lt_digitRun {isDigit : Char → Bool} (hc : (c.chars.head?.map isDigit) = some true) :
    c.offset < (digitRun isDigit limit c).2.offset := by
  have hskip : c.offset < (c.skip 1).offset :=
    Cursor.offset_lt_skip (by rintro hnil; simp [hnil] at hc) Nat.one_pos
  fun_cases digitRun isDigit limit c <;> grind

theorem offset_lt_scanNumber (hc : (c.chars.head?.map Char.isDigit) = some true) :
    c.offset < (scanNumber limit c).rest.offset := by
  have hskip : c.offset < (c.skip 2).offset :=
    Cursor.offset_lt_skip (by rintro hnil; simp [hnil] at hc) Nat.two_pos
  have hrun := offset_lt_digitRun hlimit hc
  fun_cases scanNumber <;> grind

theorem offset_lt_nameChars (hc : startsName c.chars = true) :
    c.offset < (nameChars limit true false [] c).2.2.2.offset := by
  have hne : c.chars ≠ [] := by rintro hnil; simp [hnil, startsName] at hc
  have h1 := Cursor.offset_lt_skip hne Nat.one_pos
  have h2 := Cursor.offset_lt_skip hne Nat.two_pos
  obtain ⟨fuel, rfl⟩ := Nat.exists_eq_add_one.2 hlimit
  have hrest := offset_le_nameChars fuel false
  have hsize := Char.utf8Size_pos
  rw [nameChars]
  split <;> grind [startsName]

theorem offset_lt_scanName (kind : Kind) (hc : startsName c.chars = true) :
    c.offset < (scanName limit kind c).rest.offset := by
  have hchars := offset_lt_nameChars hlimit hc
  fun_cases scanName <;> simp_all

/-- A token takes up some text, unless the text is at its end. -/
theorem offset_lt_scan (hc : c.chars ≠ []) : c.offset < (scan limit c).rest.offset := by
  have h1 := Cursor.offset_lt_skip hc Nat.one_pos
  have h2 := Cursor.offset_lt_skip hc Nat.two_pos
  have hname := offset_lt_scanName hlimit .word (c := c)
  have hnumber := offset_lt_scanNumber hlimit (c := c)
  have hmark : ∀ m, mark? c.chars = some m → c.offset < (c.skip m.length).offset :=
    fun m hm => Cursor.offset_lt_skip hc (length_pos_of_mark? hm)
  fun_cases scan <;> grind

end Strict

/-! ## Tokens with their places -/

theorem offset_le_scan (limit : Nat) (c : Cursor) : c.offset ≤ (scan limit c).rest.offset := by
  fun_cases scan <;> grind

/-- Words, quoted texts and marks. A single angle is left out: it may also be read as the first part
of what is at hand. -/
def Solid (t : Token) : Prop :=
  t.kind = .word ∨ t.kind = .string ∨ t.kind = .mark ∧ t.text ≠ "<" ∧ t.text ≠ ">"

/-- A token that stands behind a place, with its rest behind it. -/
structure Found.StandsFrom (place : Nat) (f : Found) : Prop where
  le_start : place ≤ f.token.span.start
  start_le_stop : f.token.span.start ≤ f.token.span.stop
  stop_le_rest : f.token.span.stop ≤ f.rest.offset
  start_le_here : f.token.span.start ≤ f.here.offset
  start_lt_stop : f.token.Solid → f.token.span.start < f.token.span.stop

theorem Scan.standsFrom_found {s : Scan} {here : Cursor} {newline : Bool}
    (h : here.offset ≤ s.rest.offset)
    (hlt : (s.found here newline).token.Solid → here.offset < s.rest.offset) :
    (s.found here newline).StandsFrom here.offset :=
  ⟨Nat.le_refl _, h, Nat.le_refl _, Nat.le_refl _, hlt⟩

/-- The next token stands behind the place where it is looked for, and a gap that does not end is a
token by itself. -/
theorem standsFrom_next {limit : Nat} (hlimit : 0 < limit) (c : Cursor) :
    (next limit c).StandsFrom c.offset := by
  obtain ⟨hcursor, hopen⟩ := offset_le_gap false limit c
  rw [next]
  cases hgap : (gap false limit c).open? with
  | some start =>
    obtain ⟨hstart, hstop⟩ := hopen start hgap
    exact ⟨hstart, hstop, Nat.le_refl _, hstop, by simp [Solid]⟩
  | none =>
    have h : ((scan limit (gap false limit c).cursor).found (gap false limit c).cursor
        (gap false limit c).newline).StandsFrom (gap false limit c).cursor.offset := by
      refine Scan.standsFrom_found (offset_le_scan limit _) fun hsolid => offset_lt_scan hlimit ?_
      intro hend
      simp [Scan.found, scan, hend, Solid] at hsolid
    exact ⟨Nat.le_trans hcursor h.le_start, h.start_le_stop, h.stop_le_rest, h.start_le_here,
      h.start_lt_stop⟩

/-- A slash may be read again as the start of a regular expression. -/
theorem standsFrom_regex (limit : Nat) (slash : Cursor) (newline : Bool) :
    (regex limit slash newline).StandsFrom slash.offset := by
  rw [regex]
  cases hbody : regexBody slash.offset limit false (slash.skip 1) with
  | none =>
    exact ⟨Nat.le_refl _, Cursor.offset_le_skipWhile _ _, Nat.le_refl _, Nat.le_refl _,
      by simp [Solid]⟩
  | some c =>
    have hc := Nat.le_trans (Cursor.offset_le_skip slash 1) (offset_le_regexBody _ _ _ _ c hbody)
    exact ⟨Nat.le_refl _, Nat.le_trans hc (Cursor.offset_le_skipWhile _ _), Nat.le_refl _,
      Nat.le_refl _, by simp [Solid]⟩

theorem not_solid_scanTemplate (start fuel : Nat) (cooked newline : Bool) (c here : Cursor) :
    ¬ ((scanTemplate start fuel cooked c).found here newline).token.Solid := by
  fun_induction scanTemplate start fuel cooked c <;> simp_all [Scan.found, Solid]

theorem standsFrom_templateRest (limit : Nat) (brace : Cursor) :
    (templateRest limit brace).StandsFrom brace.offset :=
  Scan.standsFrom_found (Nat.le_trans (Cursor.offset_le_skip _ _) (offset_le_scanTemplate ..))
    fun h => (not_solid_scanTemplate _ _ _ _ _ _ h).elim

/-- An angle may be read again together with the marks behind it. -/
theorem standsFrom_joinAngles (angle : Cursor) (newline : Bool) :
    (joinAngles angle newline).StandsFrom angle.offset := by
  rw [joinAngles]
  cases hfind : [">>>=", ">>>", ">>=", ">>", ">=", ">"].find? fun m =>
      m.toList.isPrefixOf angle.chars with
  | none => exact Scan.standsFrom_found (Cursor.offset_le_skip _ _) (by simp [Scan.found, Solid])
  | some m =>
    refine Scan.standsFrom_found (Cursor.offset_le_skip _ _) fun _ => ?_
    have hm : 0 < m.length := by
      have hall : ∀ m ∈ [">>>=", ">>>", ">>=", ">>", ">=", ">"], 0 < m.length := by decide
      exact hall m (List.mem_of_find?_eq_some hfind)
    have hpre := List.find?_some hfind
    refine Cursor.offset_lt_skip ?_ hm
    intro hend
    simp_all

theorem standsFrom_firstAngle (angle : Cursor) (newline : Bool) :
    (firstAngle angle newline).StandsFrom angle.offset :=
  Scan.standsFrom_found (Cursor.offset_le_skip _ _) (by simp [Scan.found, Solid])

end Token

end ZodGen.Script
