import Mathlib.Data.Set.Function
import ZodGen.Json.Printer
import ZodGen.Json.Reader
import ZodGen.Proofs.Members

/-!
# Taking texts apart

A text made of pieces can be taken apart where it is known where each piece ends. A quoted text ends
at the quote that closes it (`text?_flatMap_escape`), a number before a character that no number has
(`Number.isNumberChar_of_mem`), and a list of pieces with a mark in front of each where the mark is
missing (`flatMap_inj`). So two values of one compact text are one value, if only their numbers have
texts of their own (`Json.compact_inj`).
-/

namespace ZodGen

/-! ## Pieces -/

section Pieces

variable {C : Char → Bool} {a b x y : List Char}

/-- No character of a class stands in front. -/
def Ends (C : Char → Bool) (x : List Char) : Prop := ∀ c ∈ x.head?, C c = false

theorem ends_cons {c : Char} (h : C c = false) (x : List Char) : Ends C (c :: x) := by
  simpa [Ends] using h

theorem takeWhile_append_of_ends (ha : ∀ c ∈ a, C c = true) (hx : Ends C x) :
    (a ++ x).takeWhile C = a := by
  rw [List.takeWhile_append_of_pos ha]
  rcases x with _ | ⟨c, x⟩
  · simp
  · have hc : C c = false := hx c rfl
    simp [hc]

/-- Two texts with characters of a class in front are the same in front and behind, if the class
ends there. -/
theorem append_inj_of_ends (ha : ∀ c ∈ a, C c = true) (hb : ∀ c ∈ b, C c = true)
    (hx : Ends C x) (hy : Ends C y) (h : a ++ x = b ++ y) : a = b ∧ x = y := by
  have hab : a = b := by
    rw [← takeWhile_append_of_ends ha hx, h, takeWhile_append_of_ends hb hy]
  subst hab
  exact ⟨rfl, List.append_cancel_left h⟩

variable {α γ : Type} {f : α → List Char} {g : α → γ}

/-- The texts of two things are only the same, with rests of a kind behind, when `g` is. -/
def Apart (P : List Char → Prop) (f : α → List Char) (g : α → γ) (a b : α) : Prop :=
  ∀ x y, P x → P y → f a ++ x = f b ++ y → g a = g b ∧ x = y

/-- Pieces with a mark in front can be taken apart when each of them can. -/
theorem flatMap_inj {P : List Char → Prop} {mark : Char} (hf : ∀ a, ∃ cs, f a = mark :: cs)
    (hmark : ∀ z, P (mark :: z)) {x y : List Char} (hx : P x) (hy : P y)
    (hxm : x.head? ≠ some mark) (hym : y.head? ≠ some mark) :
    ∀ {as bs : List α}, (∀ a ∈ as, ∀ b ∈ bs, Apart P f g a b) →
      as.flatMap f ++ x = bs.flatMap f ++ y → as.map g = bs.map g ∧ x = y
  | [], [], _, h => ⟨rfl, h⟩
  | [], b :: bs, _, h => by
    obtain ⟨cs, hcs⟩ := hf b
    rw [List.flatMap_cons, hcs] at h
    exact absurd (congrArg List.head? h) hxm
  | a :: as, [], _, h => by
    obtain ⟨cs, hcs⟩ := hf a
    rw [List.flatMap_cons, hcs] at h
    exact absurd (congrArg List.head? h).symm hym
  | a :: as, b :: bs, hab, h => by
    have hrest : ∀ {z : List Char} (cs : List α), P z → P (cs.flatMap f ++ z) := by
      rintro z (_ | ⟨c, cs⟩) hz
      · exact hz
      · obtain ⟨ds, hds⟩ := hf c
        rw [List.flatMap_cons, hds]
        exact hmark _
    rw [List.flatMap_cons, List.flatMap_cons, List.append_assoc, List.append_assoc] at h
    obtain ⟨hg, h⟩ := hab a List.mem_cons_self b List.mem_cons_self _ _ (hrest as hx)
      (hrest bs hy) h
    obtain ⟨hgs, hxy⟩ := flatMap_inj hf hmark hx hy hxm hym
      (fun a ha b hb => hab a (List.mem_cons_of_mem _ ha) b (List.mem_cons_of_mem _ hb)) h
    exact ⟨by rw [List.map_cons, List.map_cons, hg, hgs], hxy⟩

theorem intercalate_cons (sep : List Char) : ∀ (a : α) (as : List α),
    sep.intercalate ((a :: as).map f) = f a ++ as.flatMap fun b => sep ++ f b
  | a, [] => by simp
  | a, b :: as => by
    have ih := intercalate_cons sep b as
    rw [List.map_cons] at ih
    rw [List.map_cons, List.map_cons, List.intercalate_cons_cons, ih]
    simp

/-- A list between a separator and a closing character can be taken apart when its items can. -/
theorem intercalate_inj {P : List Char → Prop} {sep close : Char} {tail : List Char}
    (hne : sep ≠ close) (hsep : ∀ z, P (sep :: z)) (hclose : ∀ z, P (close :: z))
    {as bs : List α} (hf : ∀ a ∈ as ++ bs, ∃ c cs, f a = c :: cs ∧ c ≠ close)
    (hab : ∀ a ∈ as, ∀ b ∈ bs, Apart P f g a b) {x y : List Char}
    (h : (sep :: tail).intercalate (as.map f) ++ close :: x
      = (sep :: tail).intercalate (bs.map f) ++ close :: y) : as.map g = bs.map g ∧ x = y := by
  have hstart : ∀ a ∈ as ++ bs, ∀ z, (f a ++ z).head? ≠ some close := by
    intro a ha z
    obtain ⟨c, cs, hcs, hc⟩ := hf a ha
    simpa [hcs] using hc
  rcases as with _ | ⟨a, as⟩ <;> rcases bs with _ | ⟨b, bs⟩
  · exact ⟨rfl, (List.cons.inj h).2⟩
  -- An empty list closes where the other has its first item.
  · rw [intercalate_cons, List.append_assoc] at h
    exact absurd (congrArg List.head? h).symm (hstart b (by simp) _)
  · rw [intercalate_cons, List.append_assoc] at h
    exact absurd (congrArg List.head? h) (hstart a (by simp) _)
  · have hrest : ∀ (cs : List α) (z : List Char),
        P ((cs.flatMap fun c => (sep :: tail) ++ f c) ++ close :: z) := by
      rintro (_ | ⟨c, cs⟩) z
      · exact hclose z
      · exact hsep _
    rw [intercalate_cons, intercalate_cons, List.append_assoc, List.append_assoc] at h
    obtain ⟨hg, h⟩ := hab a List.mem_cons_self b List.mem_cons_self _ _ (hrest as x) (hrest bs y) h
    have hmarked : ∀ c ∈ as, ∀ d ∈ bs, Apart P (fun c => (sep :: tail) ++ f c) g c d := by
      intro c hc d hd u v hu hv huv
      rw [List.append_assoc, List.append_assoc] at huv
      exact hab c (List.mem_cons_of_mem _ hc) d (List.mem_cons_of_mem _ hd) u v hu hv
        (List.append_cancel_left huv)
    obtain ⟨hgs, hxy⟩ := flatMap_inj (fun c => ⟨tail ++ f c, rfl⟩) hsep (hclose x) (hclose y)
      (by simpa using hne.symm) (by simpa using hne.symm) hmarked h
    exact ⟨by rw [List.map_cons, List.map_cons, hg, hgs], (List.cons.inj hxy).2⟩

end Pieces

/-! ## Numbers -/

section Numbers

def isNumberChar (c : Char) : Bool := c.isDigit || ['-', '+', '.', 'e'].contains c

theorem isNumberChar_of_mem_toDigits {n : Nat} {c : Char} (h : c ∈ Nat.toDigits 10 n) :
    isNumberChar c = true := by
  rw [isNumberChar, Nat.isDigit_of_mem_toDigits (by omega) le_rfl h, Bool.true_or]

theorem Double.all_text (x : Double) : x.text.toList.all isNumberChar = true := by
  have hpoint : isNumberChar '.' = true ∧ isNumberChar 'e' = true ∧ isNumberChar '0' = true := by
    decide
  have hsign : isNumberChar '-' = true ∧ isNumberChar '+' = true := by decide
  have hdigits : ∀ n, (Nat.toDigits 10 n).all isNumberChar = true :=
    fun n => List.all_eq_true.2 fun c => isNumberChar_of_mem_toDigits
  have htake : ∀ n k, ((Nat.toDigits 10 n).take k).all isNumberChar = true := fun n k =>
    List.all_eq_true.2 fun c hc => isNumberChar_of_mem_toDigits (List.mem_of_mem_take hc)
  have hdrop : ∀ n k, ((Nat.toDigits 10 n).drop k).all isNumberChar = true := fun n k =>
    List.all_eq_true.2 fun c hc => isNumberChar_of_mem_toDigits (List.mem_of_mem_drop hc)
  simp only [text]
  split_ifs <;>
    simp [-List.drop_one, -List.all_eq_true, hpoint, hsign, hdigits, htake, hdrop]

theorem Number.isNumberChar_of_mem {n : Number} {c : Char} (h : c ∈ n.text.toList) :
    isNumberChar c = true := by
  cases n with
  | int n =>
    rw [Number.text, Int.toString_eq_repr, Int.repr_eq_if] at h
    split at h <;> simp only [Nat.repr_eq_ofList_toDigits, String.toList_append,
      String.toList_ofList, List.mem_append] at h
    · exact isNumberChar_of_mem_toDigits h
    · rcases h with h | h
      · rw [List.mem_singleton.1 h]
        decide
      · exact isNumberChar_of_mem_toDigits h
  | double x => exact List.all_eq_true.1 x.all_text c h

theorem Number.text_ne_nil (n : Number) : n.text.toList ≠ [] := by
  cases n with
  | int n =>
    rw [Number.text, Int.toString_eq_repr, Int.repr_eq_if]
    split <;> simp [Nat.repr_eq_ofList_toDigits]
  | double x =>
    simp only [Number.text, Double.text]
    split_ifs <;> simp

/-- Numbers with texts of their own can be taken apart in front of anything else. -/
theorem Number.apart_text {N : Set Number} (hN : Set.InjOn Number.text N) {m n : Number}
    (hm : m ∈ N) (hn : n ∈ N) : Apart (Ends isNumberChar) (·.text.toList) id m n := by
  intro x y hx hy h
  obtain ⟨htext, hxy⟩ := append_inj_of_ends (fun _ => Number.isNumberChar_of_mem)
    (fun _ => Number.isNumberChar_of_mem) hx hy h
  exact ⟨hN hm hn (String.toList_injective htext), hxy⟩

end Numbers

namespace Json

/-! ## Quoted texts -/

section Quoted

theorem hexValue?_hexDigit (n : Nat) : hexValue? (hexDigit n) = some (n % 16) := by
  have hall : ∀ k < 16, hexValue? ((Nat.toDigits 16 k).headD '0') = some k := by decide
  exact hall (n % 16) (Nat.mod_lt n (by omega))

theorem unicode?_control {c : Char} (hc : c.toNat < 0x20) (rest : List Char) :
    unicode? ('0' :: '0' :: hexDigit (c.toNat / 16) :: hexDigit c.toNat :: rest)
      = some (c, rest) := by
  have hzero : hexValue? '0' = some 0 := by decide
  have hunit : unit? ('0' :: '0' :: hexDigit (c.toNat / 16) :: hexDigit c.toNat :: rest)
      = some (c.toNat, rest) := by
    simp only [unit?, hzero, hexValue?_hexDigit]
    simp
    omega
  have hhigh : ¬ (0xD800 ≤ c.toNat ∧ c.toNat < 0xDC00) := by omega
  have hlow : ¬ (0xDC00 ≤ c.toNat ∧ c.toNat < 0xE000) := by omega
  simp [unicode?, hunit, hhigh, hlow]

/-- What is written for a character is read as that character. -/
theorem text?_escape (fuel : Nat) (acc : List Char) (c : Char) (rest : List Char) :
    text? (fuel + 1) acc (escape c ++ rest) = text? fuel (c :: acc) rest := by
  unfold escape
  split
  case h_8 hquote hbackslash _ _ _ _ _ =>
    split
    · rename_i hc
      simp [text?, unicode?_control hc]
    · rename_i hc
      rw [List.singleton_append]
      conv_lhs => unfold text?
      rw [if_neg hquote, if_neg hbackslash, if_neg hc]
  all_goals simp [text?]

/-- Escaped characters are read one by one, up to the closing quote. -/
theorem text?_flatMap_escape (rest : List Char) : ∀ (cs acc : List Char) (fuel : Nat),
    cs.length < fuel →
      text? fuel acc (cs.flatMap escape ++ '"' :: rest)
        = some (String.ofList (acc.reverse ++ cs), rest)
  | [], acc, fuel + 1, _ => by simp [text?]
  | c :: cs, acc, fuel + 1, h => by
    have hfuel : cs.length < fuel := by simpa using h
    rw [List.flatMap_cons, List.append_assoc, text?_escape,
      text?_flatMap_escape rest cs (c :: acc) fuel hfuel]
    simp

theorem quote_eq_cons (s : String) : ∃ cs, (quote s).toList = '"' :: cs :=
  ⟨_, String.toList_ofList⟩

/-- Quoted texts can be taken apart in front of anything. -/
theorem apart_quote (s t : String) : Apart (fun _ => True) (fun s => (quote s).toList) id s t := by
  intro x y _ _ h
  simp only [quote, quoteChars, String.toList_ofList, List.cons_append, List.append_assoc,
    List.cons.injEq, true_and] at h
  -- with enough fuel for both, the reader reads both texts from the one
  have hs := text?_flatMap_escape x s.toList [] (s.toList.length + t.toList.length + 1) (by omega)
  have ht := text?_flatMap_escape y t.toList [] (s.toList.length + t.toList.length + 1) (by omega)
  simp only [List.nil_append] at h
  rw [h, ht] at hs
  simpa [eq_comm] using hs

end Quoted

/-! ## Values -/

section Values

mutual

/-- The numbers in a value. -/
def numbers : Value → List Number
  | .num n => [n]
  | .arr items => numbersOfItems items
  | .obj ms => numbersOfMembers ms
  | _ => []

def numbersOfItems : List Value → List Number
  | [] => []
  | v :: vs => numbers v ++ numbersOfItems vs

def numbersOfMembers : List (String × Value) → List Number
  | [] => []
  | (_, v) :: ms => numbers v ++ numbersOfMembers ms

end

theorem mem_numbersOfItems {n : Number} : ∀ {vs : List Value},
    n ∈ numbersOfItems vs ↔ ∃ v ∈ vs, n ∈ numbers v
  | [] => by simp [numbersOfItems]
  | v :: vs => by simp [numbersOfItems, mem_numbersOfItems]

theorem mem_numbersOfMembers {n : Number} : ∀ {ms : List (String × Value)},
    n ∈ numbersOfMembers ms ↔ ∃ m ∈ ms, n ∈ numbers m.2
  | [] => by simp [numbersOfMembers]
  | (k, v) :: ms => by simp [numbersOfMembers, mem_numbersOfMembers]

/-- The character that a value starts with, or `0` for all that a number can start with. -/
def lead : Value → Char
  | .null => 'n'
  | .bool true => 't'
  | .bool false => 'f'
  | .num _ => '0'
  | .str _ => '"'
  | .arr _ => '['
  | .obj _ => '\x7b'

def leadOf (c : Char) : Char := if isNumberChar c then '0' else c

theorem compact_eq_cons (v : Value) : ∃ c cs, (compact v).toList = c :: cs ∧ leadOf c = lead v := by
  cases v with
  | null => exact ⟨_, _, rfl, rfl⟩
  | bool b => cases b <;> exact ⟨_, _, rfl, rfl⟩
  | num n =>
    rcases h : n.text.toList with _ | ⟨c, cs⟩
    · exact absurd h n.text_ne_nil
    · have hc : isNumberChar c = true := Number.isNumberChar_of_mem (h ▸ List.mem_cons_self)
      exact ⟨c, cs, by rw [compact, h], by rw [leadOf, if_pos hc, lead]⟩
  | str s =>
    rw [compact, quote, String.toList_ofList, quoteChars]
    exact ⟨_, _, rfl, rfl⟩
  | arr items =>
    rw [compact, String.toList_append, String.toList_append]
    exact ⟨_, _, rfl, rfl⟩
  | obj ms =>
    rw [compact, String.toList_append, String.toList_append]
    exact ⟨_, _, rfl, rfl⟩

theorem compactItems_eq (vs : List Value) : compactItems vs = vs.map compact := by
  induction vs with
  | nil => rfl
  | cons v vs ih => rw [compactItems, ih, List.map_cons]

theorem compactMembers_eq (ms : List (String × Value)) :
    compactMembers ms = ms.map fun m => quote m.1 ++ ":" ++ compact m.2 := by
  induction ms with
  | nil => rfl
  | cons m ms ih => rw [compactMembers, ih, List.map_cons]

theorem cases_of_lead {v w : Value} (h : lead v = lead w) : v = w
    ∨ (∃ m n, v = .num m ∧ w = .num n) ∨ (∃ s t, v = .str s ∧ w = .str t)
    ∨ (∃ vs ws, v = .arr vs ∧ w = .arr ws) ∨ ∃ ms ns, v = .obj ms ∧ w = .obj ns := by
  rcases v with _ | (_ | _) | _ | _ | _ | _ <;> rcases w with _ | (_ | _) | _ | _ | _ | _ <;>
    simp_all [lead]

theorem lead_eq_of_append {v w : Value} {x y : List Char}
    (h : (compact v).toList ++ x = (compact w).toList ++ y) : lead v = lead w := by
  obtain ⟨c, cs, hc, hcv⟩ := compact_eq_cons v
  obtain ⟨d, ds, hd, hdw⟩ := compact_eq_cons w
  rw [hc, hd] at h
  rw [← hcv, ← hdw, (List.cons.inj h).1]

theorem compact_starts (v : Value) : ∃ c cs, (compact v).toList = c :: cs ∧ c ≠ ']' := by
  obtain ⟨c, cs, hc, hcv⟩ := compact_eq_cons v
  refine ⟨c, cs, hc, ?_⟩
  rintro rfl
  rcases v with _ | (_ | _) | _ | _ | _ | _ <;> simp [lead, leadOf, isNumberChar] at hcv

def memberChars (m : String × Value) : List Char :=
  (quote m.1).toList ++ ':' :: (compact m.2).toList

theorem toList_compact_arr (vs : List Value) : (compact (.arr vs)).toList
    = '[' :: ([','].intercalate (vs.map fun v => (compact v).toList) ++ [']']) := by
  simp [compact, compactItems_eq, Function.comp_def]

theorem toList_compact_obj (ms : List (String × Value)) : (compact (.obj ms)).toList
    = '\x7b' :: ([','].intercalate (ms.map memberChars) ++ ['\x7d']) := by
  have hchars : memberChars = fun m => (quote m.1).toList ++ ':' :: (compact m.2).toList := rfl
  simp [compact, compactMembers_eq, Function.comp_def, hchars]

/-- Members can be taken apart if their values can, since the keys are quoted. -/
theorem apart_memberChars {m n : String × Value}
    (h : Apart (Ends isNumberChar) (fun v => (compact v).toList) id m.2 n.2) :
    Apart (Ends isNumberChar) memberChars id m n := by
  intro x y hx hy hxy
  simp only [memberChars, List.append_assoc] at hxy
  obtain ⟨hkey, hxy⟩ := apart_quote m.1 n.1 _ _ trivial trivial hxy
  obtain ⟨hvalue, hxy⟩ := h x y hx hy (List.cons.inj hxy).2
  exact ⟨Prod.ext hkey hvalue, hxy⟩

/-- Values can be taken apart in front of anything that does not go on with a number, if only their
numbers have texts of their own. -/
theorem compact_inj {N : Set Number} (hN : Set.InjOn Number.text N) (v : Value) : ∀ w : Value,
    (∀ n ∈ numbers v, n ∈ N) → (∀ n ∈ numbers w, n ∈ N) →
      Apart (Ends isNumberChar) (fun v => (compact v).toList) id v w := by
  have hends : ∀ {c : Char}, isNumberChar c = false → ∀ z, Ends isNumberChar (c :: z) :=
    fun hc z => ends_cons hc z
  induction v using Value.induction_inside with
  | arr vs ih =>
    intro w hv hw x y hx hy h
    dsimp only at h
    -- The first character tells that the other value is a list as well.
    obtain ⟨ws, rfl⟩ : ∃ ws, w = .arr ws := by
      rcases cases_of_lead (lead_eq_of_append h) with rfl | h | h | h | h <;> simp_all
    rw [numbers] at hv hw
    have hitems : ∀ v ∈ vs, ∀ w ∈ ws,
        Apart (Ends isNumberChar) (fun v => (compact v).toList) id v w := fun v hvs w hws =>
      ih v hvs w (fun n hn => hv n (mem_numbersOfItems.2 ⟨v, hvs, hn⟩))
        (fun n hn => hw n (mem_numbersOfItems.2 ⟨w, hws, hn⟩))
    rw [toList_compact_arr, toList_compact_arr] at h
    simp only [List.cons_append, List.cons.injEq, true_and, List.append_assoc,
      List.nil_append] at h
    obtain ⟨hvw, hxy⟩ := intercalate_inj (by decide) (hends (by decide)) (hends (by decide))
      (fun v _ => compact_starts v) hitems h
    rw [List.map_id, List.map_id] at hvw
    exact ⟨congrArg Value.arr hvw, hxy⟩
  | obj ms ih =>
    intro w hv hw x y hx hy h
    dsimp only at h
    obtain ⟨ns, rfl⟩ : ∃ ns, w = .obj ns := by
      rcases cases_of_lead (lead_eq_of_append h) with rfl | h | h | h | h <;> simp_all
    rw [numbers] at hv hw
    have hmembers : ∀ m ∈ ms, ∀ n ∈ ns, Apart (Ends isNumberChar) memberChars id m n :=
      fun m hms n hns => apart_memberChars
        (ih m hms n.2 (fun k hk => hv k (mem_numbersOfMembers.2 ⟨m, hms, hk⟩))
          (fun k hk => hw k (mem_numbersOfMembers.2 ⟨n, hns, hk⟩)))
    have hstarts : ∀ m ∈ ms ++ ns, ∃ c cs, memberChars m = c :: cs ∧ c ≠ '\x7d' := by
      intro m _
      obtain ⟨cs, hcs⟩ := quote_eq_cons m.1
      rw [memberChars, hcs]
      exact ⟨'"', _, rfl, by decide⟩
    rw [toList_compact_obj, toList_compact_obj] at h
    simp only [List.cons_append, List.cons.injEq, true_and, List.append_assoc,
      List.nil_append] at h
    obtain ⟨hmn, hxy⟩ := intercalate_inj (by decide) (hends (by decide)) (hends (by decide))
      hstarts hmembers h
    rw [List.map_id, List.map_id] at hmn
    exact ⟨congrArg Value.obj hmn, hxy⟩
  | other v harr hobj =>
    intro w hv hw x y hx hy h
    dsimp only at h
    rcases cases_of_lead (lead_eq_of_append h) with rfl | ⟨m, n, rfl, rfl⟩ | ⟨s, t, rfl, rfl⟩
      | ⟨vs, ws, rfl, rfl⟩ | ⟨ms, ns, rfl, rfl⟩
    · exact ⟨rfl, List.append_cancel_left h⟩
    · have hm := hv m (by simp [numbers])
      have hn := hw n (by simp [numbers])
      rw [compact, compact] at h
      obtain ⟨hmn, hxy⟩ := Number.apart_text hN hm hn x y hx hy h
      exact ⟨congrArg Value.num hmn, hxy⟩
    · rw [compact, compact] at h
      obtain ⟨hst, hxy⟩ := apart_quote s t x y trivial trivial h
      exact ⟨congrArg Value.str hst, hxy⟩
    · simp [Value.asArr?] at harr
    · simp [Value.asObj?] at hobj

end Values

end Json

end ZodGen
