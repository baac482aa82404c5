import ZodGen.Proofs.Decimals
import ZodGen.Proofs.OperationParts

/-!
# Which response keys are accepted

A response key is `default`, a code, or a class of codes such as `4XX`, and an operation with any
other key does not compile. Codes are meant to have three digits, but any number of digits is
accepted for a number below 65536 (`classify_spelled`). So codes of one length stand for different
literals, while a code with a zero in front has the literal of the code without it.
-/

namespace ZodGen.Operation

open Outcome

/-! ## Spellings -/

/-- A code as it is meant to be: three digits. -/
def IsThreeDigits (cs : List Char) : Prop := cs.length = 3 ∧ ∀ c ∈ cs, c.isDigit = true

/-- A code as it is accepted: digits for a number of sixteen bits. -/
def IsShortNumeral (cs : List Char) : Prop :=
  cs ≠ [] ∧ (∀ c ∈ cs, c.isDigit = true) ∧ Nat.ofDigitChars 10 cs 0 < 65536

/-- A letter x, small or capital. -/
def IsX (c : Char) : Prop := c = 'x' ∨ c = 'X'

/-- The characters of a key that stands for a status, given what characters make a code. -/
inductive Status.Spelled (IsCode : List Char → Prop) : Status → List Char → Prop
  | default : Spelled IsCode .default "default".toList
  | code {cs : List Char} (h : IsCode cs) : Spelled IsCode (.code (Nat.ofDigitChars 10 cs 0)) cs
  | range {k : Nat} {a b : Char} (hlow : 1 ≤ k) (hhigh : k ≤ 5) (ha : IsX a) (hb : IsX b) :
    Spelled IsCode (.range k) [Nat.digitChar k, a, b]

theorem IsThreeDigits.isShortNumeral {cs : List Char} (h : IsThreeDigits cs) :
    IsShortNumeral cs := by
  obtain ⟨hlength, hdigits⟩ := h
  refine ⟨List.ne_nil_of_length_pos (by omega), hdigits, ?_⟩
  have hlt := Json.ofDigits_lt hdigits
  rw [Json.ofDigits_eq_ofDigitChars, hlength] at hlt
  omega

theorem spelled_threeDigits_iff {cs : List Char} {s : Status} : s.Spelled IsThreeDigits cs ↔
    s.Spelled IsShortNumeral cs ∧ ∀ n, s = .code n → cs.length = 3 := by
  constructor
  · intro h
    cases h with
    | default => exact ⟨.default, by simp⟩
    | code h => exact ⟨.code h.isShortNumeral, fun _ _ => h.1⟩
    | range hlow hhigh ha hb => exact ⟨.range hlow hhigh ha hb, by simp⟩
  · rintro ⟨h, hlength⟩
    cases h with
    | default => exact .default
    | code h => exact .code ⟨hlength _ rfl, h.2.1⟩
    | range hlow hhigh ha hb => exact .range hlow hhigh ha hb

/-! ## Reading a key -/

theorem code?_eq_some {cs : List Char} {n : Nat} :
    code? cs = some n ↔ IsShortNumeral cs ∧ n = Nat.ofDigitChars 10 cs 0 := by
  have hrefused : (cs.isEmpty || !cs.all Char.isDigit || decide (Json.ofDigits cs ≥ 65536)) = true
      ↔ ¬ IsShortNumeral cs := by
    simp only [IsShortNumeral, Json.ofDigits_eq_ofDigitChars, Bool.or_eq_true, List.isEmpty_iff,
      Bool.not_eq_true', List.all_eq_false, decide_eq_true_eq]
    grind
  unfold code?
  split_ifs with h
  · simp [hrefused.1 h]
  · simp [not_not.1 (mt hrefused.2 h), Json.ofDigits_eq_ofDigitChars, eq_comm]

theorem toNat_digitChar {k : Nat} (h : k ≤ 5) : (Nat.digitChar k).toNat = 48 + k := by
  rw [Nat.toNat_digitChar_of_lt_ten (by omega)]

/-- A class of codes is a digit from 1 to 5 with two letters behind it, each a small or a large
x. -/
theorem class?_eq_some {cs : List Char} {k : Nat} : class? cs = some k ↔
    ∃ a b, cs = [Nat.digitChar k, a, b] ∧ 1 ≤ k ∧ k ≤ 5 ∧ IsX a ∧ IsX b := by
  have hzero : '0'.toNat = 48 := rfl
  constructor
  · intro h
    unfold class? at h
    split at h
    · rename_i d a b
      split_ifs at h with hc
      obtain ⟨hlow, hhigh, ha, hb⟩ := hc
      have hlow : 49 ≤ d.toNat := hlow
      have hhigh : d.toNat ≤ 53 := hhigh
      have hk : d.toNat - '0'.toNat = k := Option.some.inj h
      have hd : Nat.digitChar k = d := Char.toNat_inj.1 (by rw [toNat_digitChar] <;> omega)
      exact ⟨a, b, by rw [hd], by omega, by omega, ha, hb⟩
    · cases h
  · rintro ⟨a, b, rfl, hlow, hhigh, ha, hb⟩
    have hchar := toNat_digitChar hhigh
    have hone : '1' ≤ Nat.digitChar k := by
      show 49 ≤ (Nat.digitChar k).toNat
      omega
    have hfive : Nat.digitChar k ≤ '5' := by
      show (Nat.digitChar k).toNat ≤ 53
      omega
    rw [class?, if_pos ⟨hone, hfive, ha, hb⟩, hchar, hzero]
    simp

/-- A class has a letter, so it is no code. -/
theorem not_isShortNumeral_of_isX {c a b : Char} (ha : IsX a) : ¬ IsShortNumeral [c, a, b] := by
  rintro ⟨-, hdigits, -⟩
  have hdigit := hdigits a (by simp)
  rcases ha with rfl | rfl <;> simp at hdigit

/-- The keys that the program takes for a status: `default`, a short numeral, or a class of codes.
They are tried in this order, and no key is spelled in two ways. -/
theorem classify_eq_ok_iff {key : String} {s : Status} :
    classify key = .ok s ↔ s.Spelled IsShortNumeral key.toList := by
  constructor
  · intro h
    unfold classify at h
    split_ifs at h with hkey
    · cases h
      rw [hkey]
      exact .default
    · split at h
      · rename_i n hcode
        cases h
        obtain ⟨hnumeral, rfl⟩ := code?_eq_some.1 hcode
        exact .code hnumeral
      · rename_i k _ hclass
        cases h
        obtain ⟨a, b, hchars, hlow, hhigh, ha, hb⟩ := class?_eq_some.1 hclass
        rw [hchars]
        exact .range hlow hhigh ha hb
      · cases h
  · intro h
    obtain ⟨cs, rfl⟩ : ∃ cs, key = String.ofList cs := ⟨key.toList, String.ofList_toList.symm⟩
    rw [String.toList_ofList] at h
    cases h with
    | default => rfl
    | code hcode =>
      -- A code has only digits, so it is not the word.
      have hkey : String.ofList cs ≠ "default" := by
        intro he
        have hd := hcode.2.1 'd' (by rw [← String.toList_ofList (l := cs), he]; decide)
        simp at hd
      rw [classify, if_neg hkey, String.toList_ofList]
      simp only [code?_eq_some.2 ⟨hcode, rfl⟩]
    | @range k a b hlow hhigh ha hb =>
      -- The class is too short for the word, and its letters keep it from being a code.
      have hkey : String.ofList [Nat.digitChar k, a, b] ≠ "default" := by
        intro he
        have hlength := congrArg (fun t => t.toList.length) he
        simp at hlength
      have hcode : code? [Nat.digitChar k, a, b] = none :=
        Option.eq_none_iff_forall_ne_some.2 fun n hn =>
          not_isShortNumeral_of_isX ha (code?_eq_some.1 hn).1
      have hclass := class?_eq_some.2 ⟨a, b, rfl, hlow, hhigh, ha, hb⟩
      rw [classify, if_neg hkey, String.toList_ofList]
      simp only [hcode, hclass]

/-- A key that is not accepted is named in the error. -/
theorem classify_eq_fail {key : String} (h : ∀ s, classify key ≠ .ok s) :
    classify key = fail .unsupportedStatusCode key := by
  unfold classify at h ⊢
  split_ifs with hkey
  · exact (h .default (if_pos hkey)).elim
  · simp only [if_neg hkey] at h
    split at h
    · exact (h _ rfl).elim
    · exact (h _ rfl).elim
    · rfl

theorem bodies_ne_nil {c : Schema.Compiler} {op : Value} {bs : List Body}
    (h : bodies c op = .ok bs) : bs ≠ [] := by
  rintro rfl
  have htypes := contentTypes_of_bodies h
  split_ifs at htypes with hnil
  · simp at htypes
  · simp [hnil] at htypes

/-- The responses are compiled for every body, so for one at least, and each of their keys is read
then. -/
theorem exists_classify_of_compile {c : Schema.Compiler} {op : Document.Operation}
    {cs : List Compiled} (h : compile c op = .ok cs) {ms : Assoc Value}
    (hms : op.body.obj? "responses" = some ms) {key : String} (hkey : key ∈ Assoc.keys ms) :
    ∃ s, classify key = .ok s := by
  obtain ⟨_, _, bs, ms', -, -, hbs, hms', hall⟩ := compile_eq_ok h
  cases hms.symm.trans hms'
  obtain ⟨b, hb⟩ := List.exists_mem_of_ne_nil bs (bodies_ne_nil hbs)
  obtain ⟨v, -, response, hresponse, -⟩ := exists_right_of_forall₂ hall hb
  obtain ⟨found, hfound, -⟩ := bind_eq_ok.1 hresponse
  obtain ⟨m, hm, rfl⟩ := List.mem_map.1 hkey
  obtain ⟨f, -, hf⟩ := exists_of_mem_of_mapM hfound hm
  obtain ⟨s, hs, -⟩ := bind_eq_ok.1 hf
  exact ⟨s, hs⟩

theorem validator_code_inj {n m : Nat} :
    (Status.code n).validator = (Status.code m).validator ↔ n = m := by
  simp [Status.validator, Validator.plain]

theorem digits_of_classify {key : String} {n : Nat} (h : classify key = .ok (.code n)) :
    (∀ c ∈ key.toList, c.isDigit = true) ∧ n = Json.ofDigits key.toList := by
  obtain ⟨cs, hcs⟩ : ∃ cs, key.toList = cs := ⟨_, rfl⟩
  have hspelled := classify_eq_ok_iff.1 h
  rw [hcs] at hspelled ⊢
  cases hspelled with
  | code hcode => exact ⟨hcode.2.1, (Json.ofDigits_eq_ofDigitChars _).symm⟩

/-- A key is accepted exactly if it is spelled as a status, with a code of any number of digits. The
keys that are meant are those whose codes have three. Any other key is refused, and with it the
operation. Two codes have one literal exactly if they differ in zeros in front alone, so codes of
one length have it only if they are the same. -/
theorem classify_spelled (key : String) :
    (∀ s, classify key = .ok s ↔ s.Spelled IsShortNumeral key.toList)
    ∧ (∀ s : Status, s.Spelled IsThreeDigits key.toList ↔
      classify key = .ok s ∧ ∀ n, s = .code n → key.toList.length = 3)
    ∧ ((∀ s : Status, ¬ s.Spelled IsShortNumeral key.toList) →
      classify key = fail .unsupportedStatusCode key
      ∧ ∀ c op ms, op.body.obj? "responses" = some ms → key ∈ Assoc.keys ms →
        ∃ e, compile c op = .error e)
    ∧ ∀ other n m, classify key = .ok (.code n) → classify other = .ok (.code m) →
      ((Status.code n).validator = (Status.code m).validator ↔
        Json.significant key.toList = Json.significant other.toList)
      ∧ (key.toList.length = other.toList.length →
        (Status.code n).validator = (Status.code m).validator → key = other) := by
  refine ⟨fun s => classify_eq_ok_iff, fun s => ?_, fun hnone => ⟨?_, ?_⟩, ?_⟩
  · rw [spelled_threeDigits_iff, classify_eq_ok_iff]
  · exact classify_eq_fail fun s hs => hnone s (classify_eq_ok_iff.1 hs)
  · intro c op ms hms hkey
    rcases hcompile : compile c op with e | cs
    · exact ⟨e, rfl⟩
    · obtain ⟨s, hs⟩ := exists_classify_of_compile hcompile hms hkey
      exact (hnone s (classify_eq_ok_iff.1 hs)).elim
  · intro other n m hn hm
    obtain ⟨hkey, rfl⟩ := digits_of_classify hn
    obtain ⟨hother, rfl⟩ := digits_of_classify hm
    rw [validator_code_inj]
    refine ⟨Json.ofDigits_eq_iff hkey hother, fun hlength heq => ?_⟩
    exact String.toList_inj.1 (Json.eq_of_ofDigits_eq hkey hother hlength heq)

/-- Codes that are meant, and a class that is refused with its operation. -/
theorem classify_spelled_teapot :
    classify "418" = .ok (.code 418) ∧ classify "5xX" = .ok (.range 5)
    ∧ ∀ c op ms, op.body.obj? "responses" = some ms → "6XX" ∈ Assoc.keys ms →
      ∃ e, compile c op = .error e := by
  have hcode : IsThreeDigits "418".toList := ⟨by decide, List.all_eq_true.1 (by decide)⟩
  refine ⟨((classify_spelled "418").2.1 (.code 418)).1 (.code hcode) |>.1,
    ((classify_spelled "5xX").2.1 _).1 ?_ |>.1, ((classify_spelled "6XX").2.2.1 ?_).2⟩
  · exact .range (k := 5) (by decide) (by decide) (.inl rfl) (.inr rfl)
  · intro s hs
    generalize hchars : "6XX".toList = cs at hs
    cases hs with
    | default => simp at hchars
    | code hcode =>
      have hdigit := hcode.2.1 'X' (hchars ▸ by decide)
      simp at hdigit
    | @range k a b hlow hhigh =>
      have hsix : '6' = Nat.digitChar k := (List.cons.inj hchars).1
      have hchar : '6'.toNat = 48 + k := hsix ▸ toNat_digitChar hhigh
      have hnat : '6'.toNat = 54 := rfl
      omega

/-- A zero too many: the key is not meant, and it has the literal of another. -/
theorem classify_zero_in_front :
    classify "0200" = .ok (.code 200) ∧ classify "200" = .ok (.code 200)
    ∧ ∀ s, ¬ Status.Spelled IsThreeDigits s "0200".toList := by
  have hlong : IsShortNumeral "0200".toList :=
    ⟨by decide, List.all_eq_true.1 (by decide), by decide⟩
  have hcode : IsThreeDigits "200".toList := ⟨by decide, List.all_eq_true.1 (by decide)⟩
  refine ⟨classify_eq_ok_iff.2 (.code hlong),
    classify_eq_ok_iff.2 (.code hcode.isShortNumeral), fun s h => ?_⟩
  have hlength : "0200".toList.length = 4 := by decide
  generalize "0200".toList = cs at h hlength
  cases h with
  | default => simp at hlength
  | code h => simp [h.1] at hlength
  | range => simp at hlength

end ZodGen.Operation
