import ZodGen.Proofs.ParserOrder

/-!
# Declarators stand in order

The declarators that the parser keeps of a script stand in the order of the text, take up some of it
and do not overlap (`Program.inOrder_places`). A production whose answer holds places (`Keeps`)
finds them between where it starts and where it stops, and it never goes back.
-/

namespace ZodGen.Script

/-- Ranges between two places, each behind the one before. None of them is empty. -/
def Span.InOrder : Nat → List Span → Nat → Prop
  | start, [], stop => start ≤ stop
  | start, r :: rs, stop => start ≤ r.start ∧ r.start < r.stop ∧ InOrder r.stop rs stop

namespace Span.InOrder

theorem of_le_start {rs : List Span} {start start' stop : Nat} (hle : start' ≤ start)
    (h : InOrder start rs stop) : InOrder start' rs stop := by
  cases rs with
  | nil => exact Nat.le_trans hle h
  | cons r rs => exact ⟨Nat.le_trans hle h.1, h.2⟩

theorem append : ∀ {rs rs' : List Span} {start mid stop : Nat}, InOrder start rs mid →
    InOrder mid rs' stop → InOrder start (rs ++ rs') stop
  | [], _, _, _, _, h, h' => h'.of_le_start h
  | _ :: _, _, _, _, _, ⟨hstart, hr, h⟩, h' => ⟨hstart, hr, h.append h'⟩

theorem of_le_stop : ∀ {rs : List Span} {start stop stop' : Nat}, InOrder start rs stop →
    stop ≤ stop' → InOrder start rs stop'
  | [], _, _, _, h, hle => Nat.le_trans h hle
  | _ :: _, _, _, _, ⟨hstart, hr, h⟩, hle => ⟨hstart, hr, h.of_le_stop hle⟩

theorem bounds : ∀ {rs : List Span} {start stop : Nat}, InOrder start rs stop →
    ∀ r ∈ rs, start ≤ r.start ∧ r.start < r.stop
  | r :: rs, _, _, ⟨hstart, hr, h⟩, x, hx => by
    rcases List.mem_cons.1 hx with rfl | hx
    · exact ⟨hstart, hr⟩
    · obtain ⟨hle, hx⟩ := h.bounds x hx
      exact ⟨by omega, hx⟩

theorem pairwise : ∀ {rs : List Span} {start stop : Nat}, InOrder start rs stop →
    rs.Pairwise fun a b => a.stop ≤ b.start
  | [], _, _, _ => List.Pairwise.nil
  | _ :: _, _, _, ⟨_, _, h⟩ => List.Pairwise.cons (fun x hx => (h.bounds x hx).1) h.pairwise

end Span.InOrder

/-- Answers of a parser that hold places of the text. -/
class HasPlaces (α : Type) where
  places : α → List Span

instance : HasPlaces Pattern := ⟨fun p => [p.span]⟩

instance : HasPlaces Parser.Declarator := ⟨fun d => [d.span]⟩

instance : HasPlaces Declaration := ⟨Declaration.declarators⟩

instance : HasPlaces Statement where
  places
    | .declares d => d.declarators
    | .text | .erased | .other => []

instance {α : Type} [HasPlaces α] : HasPlaces (Option α) := ⟨fun a => a.elim [] HasPlaces.places⟩

instance {α : Type} [HasPlaces α] : HasPlaces (List α) := ⟨fun as => as.flatMap HasPlaces.places⟩

instance : HasPlaces Program := ⟨fun p => HasPlaces.places p.statements⟩

namespace Parser

-- Productions are long terms to search instances for.
set_option synthInstance.maxSize 4096

open HasPlaces (places)
open ZodGen.Script.Span (InOrder)

variable {α β : Type} [HasPlaces α] [HasPlaces β] {p q : Parser α}

/-- A parser whose answer holds places in order, between where it starts and where it stops. -/
class Keeps (p : Parser α) : Prop where
  run : ∀ {s : State}, s.Settled → Ensures (p s) fun a t => InOrder s.lastStop (places a) t.lastStop

namespace Keeps

section Bind

omit [HasPlaces β]

variable {p : Parser β} {f : β → Parser α}

theorem of_gives {good : β → Prop} (hp : Gives p good) (hf : ∀ b, good b → Keeps (f b)) :
    Keeps (p >>= f) where
  run hs := (hp _ hs).bind fun b _ hm h =>
    ((hf b h.2).run hm).mono fun _ _ h' => h'.of_le_start h.1

theorem andThen (hp : Forward p) (hf : ∀ b, Keeps (f b)) : Keeps (p >>= f) :=
  of_gives hp.gives fun b _ => hf b

instance [hp : Forward p] [hf : ∀ b, Keeps (f b)] : Keeps (p >>= f) := andThen hp hf

end Bind

instance {c : Prop} [Decidable c] [hp : Keeps p] [hq : Keeps q] : Keeps (if c then p else q) where
  run hs := Ensures.ite (hp.run hs) (hq.run hs)

theorem pure_nil {a : α} (h : places a = []) : Keeps (pure a) where
  run hs := Ensures.pure hs (h ▸ Nat.le_refl _)

instance : Keeps (pure Statement.text) := pure_nil rfl

instance : Keeps (pure Statement.erased) := pure_nil rfl

instance : Keeps (pure Statement.other) := pure_nil rfl

instance : Keeps (pure (none : Option α)) := pure_nil rfl

instance : Keeps (pure (some Statement.other)) := pure_nil rfl

theorem of_error (h : ∀ s, ∃ e, p s = .error e) : Keeps p where
  run {s} _ := by
    obtain ⟨e, he⟩ := h s
    rw [he]
    exact Ensures.error

instance (place : Nat) : Keeps (fault place : Parser α) := of_error fun _ => ⟨_, rfl⟩

instance : Keeps (unexpected : Parser α) := of_error exists_unexpected

/-- What follows a parser may change the answer as long as its places stay. -/
theorem map {f : α → β} (hp : Keeps p) (h : ∀ a, places (f a) = places a) :
    Keeps (p >>= fun a => pure (f a)) where
  run hs := (hp.run hs).bind fun a _ hm hplaces => Ensures.pure hm ((h a).symm ▸ hplaces)

instance [hp : Keeps p] : Keeps (p >>= fun a => pure (some a)) := map hp fun _ => rfl

instance {p : Parser Declaration} [hp : Keeps p] :
    Keeps (p >>= fun d => pure (Statement.declares d)) := map hp fun _ => rfl

/-- An answer that may be missing, with another parser in its place. -/
theorem orElse {p : Parser (Option α)} {f : Option α → Parser α} (hp : Keeps p)
    (hsome : ∀ a, f (some a) = pure a) (hnone : Keeps (f none)) : Keeps (p >>= f) where
  run hs := (hp.run hs).bind fun a _ hm hplaces => by
    cases a with
    | some a => exact hsome a ▸ Ensures.pure hm hplaces
    | none => exact (hnone.run hm).mono fun _ _ h => h.of_le_start hplaces

/-- By induction on the number of steps that may still come; `acc` is read before, in reverse
order. -/
theorem collectUpTo {step : Parser (Option α)} (hstep : Keeps step) (n : Nat) {acc : List α}
    {start : Nat} {s : State} (hs : s.Settled)
    (hacc : InOrder start (places acc.reverse) s.lastStop) :
    Ensures (collectUpTo step n acc s) fun found t => InOrder start (places found) t.lastStop := by
  induction n generalizing acc s with
  | zero => exact Ensures.pure hs hacc
  | succ n ih =>
    refine (hstep.run hs).bind fun a m hm hplaces => ?_
    cases a with
    | none => exact Ensures.pure hm (hacc.of_le_stop hplaces)
    | some a =>
      refine ih hm ?_
      have happend : places (a :: acc).reverse = places acc.reverse ++ places a := by
        simp [places]
      rw [happend]
      exact hacc.append hplaces

theorem collect {step : Parser (Option α)} (hstep : Keeps step) : Keeps (collect step) where
  run {s} hs := hstep.collectUpTo s.limit hs (Nat.le_refl _)

end Keeps

/-- A parser whose answer has one place, from `start` to where the parser stops. -/
class Spans (start : Nat) (p : Parser α) : Prop where
  run : ∀ {s : State}, s.Settled →
    Ensures (p s) fun a t => places a = [⟨start, t.lastStop⟩] ∧ s.lastStop ≤ t.lastStop

namespace Spans

variable {start : Nat}

omit [HasPlaces β] in
instance {p : Parser β} {f : β → Parser α} [hp : Forward p] [hf : ∀ b, Spans start (f b)] :
    Spans start (p >>= f) where
  run hs := (hp.run hs).bind fun b _ hm hle =>
    ((hf b).run hm).mono fun _ _ h => ⟨h.1, Nat.le_trans hle h.2⟩

instance {c : Prop} [Decidable c] [hp : Spans start p] [hq : Spans start q] :
    Spans start (if c then p else q) where
  run hs := Ensures.ite (hp.run hs) (hq.run hs)

theorem of_spanFrom {f : Span → α} (h : ∀ r, places (f r) = [r]) :
    Spans start (spanFrom start >>= fun r => pure (f r)) where
  run {s} hs := Ensures.pure hs ⟨h ⟨start, s.lastStop⟩, Nat.le_refl _⟩

instance (isName : Bool) : Spans start (spanFrom start >>= fun r => pure (Pattern.mk isName r)) :=
  of_spanFrom fun _ => rfl

instance (missing : Option Nat) :
    Spans start (spanFrom start >>= fun r => pure (Declarator.mk r missing)) :=
  of_spanFrom fun _ => rfl

/-- The place of the answer is in order if `start` is behind where the reading began. -/
theorem ensures {p : Parser α} (start : Nat) [hp : Spans start p] {place : Nat} {s : State}
    (hs : s.Settled) (hplace : place ≤ start) (hstart : start < s.lastStop) :
    Ensures (p s) fun a t => InOrder place (places a) t.lastStop := by
  refine (hp.run hs).mono fun a t ⟨ha, hle⟩ => ?_
  rw [ha]
  exact ⟨hplace, Nat.lt_of_lt_of_le hstart hle, Nat.le_refl _⟩

end Spans

/-! ## Patterns and declarators -/

theorem ensures_bump {s : State} (hs : s.Settled) :
    Ensures (bump s) fun _ t => t.lastStop = s.token.span.stop := by
  refine Ensures.ite ?_ (Forward.ensures_advance hs)
  exact Forward.ensures_advance (hs.of_samePlace {})

/-- A bracket that is passed takes up some text. -/
theorem ensures_eat {s : State} (hs : s.Settled) {text : String} (hleft : text ≠ "<")
    (hright : text ≠ ">") : Ensures (eat text s) fun eaten t =>
      if eaten then s.token.span.start < t.lastStop else t = s := by
  change Ensures ((if Token.isText s.token text = true then _ else _ : Parser Bool) s) _
  by_cases htext : Token.isText s.token text = true
  · rw [if_pos htext]
    simp only [Token.isText, Bool.and_eq_true, Bool.or_eq_true, beq_iff_eq] at htext
    obtain ⟨hkind, rfl⟩ := htext
    have hsolid : s.token.Solid := hkind.imp_right fun hmark => .inr ⟨hmark, hleft, hright⟩
    refine (ensures_bump hs).bind fun _ t ht hlast => Ensures.pure ht ?_
    simpa [hlast] using hs.start_lt_stop hsolid
  · rw [if_neg htext]
    exact Ensures.pure hs (by simp)

section Productions

variable (g : Grammar) [∀ {α : Type} (goal : Goal α), Forward (g goal)]

instance (reach : Reach) : Keeps (pattern g reach) where
  run {s} hs := by
    have hplace : Ensures (place s) fun start t => start = s.token.span.start ∧ t = s :=
      Ensures.pure hs ⟨rfl, rfl⟩
    unfold pattern
    refine hplace.bind ?_
    rintro _ s hs ⟨rfl, rfl⟩
    -- Behind an opening bracket, the answer reaches from the bracket on.
    refine (ensures_eat hs (by decide) (by decide)).bind fun eaten m hm heaten => ?_
    cases eaten with
    | true =>
      rw [if_pos rfl]
      exact Spans.ensures s.token.span.start hm hs.last_le_start heaten
    | false =>
      obtain rfl : m = s := heaten
      refine (ensures_eat hm (by decide) (by decide)).bind fun eaten n hn heaten => ?_
      cases eaten with
      | true =>
        rw [if_pos rfl]
        exact Spans.ensures m.token.span.start hn hm.last_le_start heaten
      | false =>
        obtain rfl : n = m := heaten
        refine (ensures_bindingName hn).bind fun name t ht ⟨hspan, hlt, hlast⟩ => ?_
        refine (Forward.run ht).bind fun _ u hu hle => Ensures.pure hu ?_
        change InOrder n.lastStop [name.2] u.lastStop
        rw [hspan]
        exact ⟨hn.last_le_start, hlt, hlast ▸ hle⟩

variable [∀ reach, Keeps (g (.pattern reach))]

instance (reach : Reach) (constant : Bool) : Keeps (declarator g reach constant) where
  run {s} hs := by
    unfold declarator
    refine (Keeps.run hs).bind fun p m hm ⟨hstart, hspan, hstop⟩ => ?_
    exact Spans.ensures p.span.start hm hstart (Nat.lt_of_lt_of_le hspan hstop)

omit [HasPlaces α] [HasPlaces β] in
theorem keeps_commas {one : Parser Declarator} [hone : Keeps one] :
    Keeps (one >>= fun first =>
      collect (eat "," >>= fun b => if b = true then one >>= fun d => pure (some d) else pure none)
        >>= fun rest => pure (first :: rest)) where
  run hs := by
    refine (hone.run hs).bind fun first m hm hfirst => ?_
    refine ((Keeps.collect inferInstance).run hm).bind fun rest t ht hrest => Ensures.pure ht ?_
    exact hfirst.append hrest

instance (reach : Reach) (constant strict : Bool) :
    Keeps (declarators g reach constant strict) := by
  unfold declarators
  refine @keeps_commas _ ⟨fun hs => ?_⟩
  refine (Keeps.run hs).bind fun d m hm hd => Ensures.ite ?_ (Ensures.pure hm hd)
  cases d.missing with
  | none => exact Ensures.pure hm hd
  | some start =>
    exact (Forward.run hm).bind fun _ t ht hle => Ensures.pure ht (hd.of_le_stop hle)

instance (kind : VariableKind) : Keeps (variableStatement g kind) := by
  unfold variableStatement
  refine Keeps.andThen inferInstance fun start => Keeps.andThen inferInstance fun _ => ?_
  refine ⟨fun hs => ?_⟩
  refine (Keeps.run hs).bind fun ds m hm hds => ?_
  refine (Forward.run hm).bind fun _ n hn hle => ?_
  refine (Forward.run hn).bind fun span t ht hle' => Ensures.pure ht ?_
  have hplaces : places ds = ds.map (·.span) := List.map_eq_flatMap.symm
  rw [hplaces] at hds
  exact (hds.of_le_stop hle).of_le_stop hle'

/-! ## Statements -/

instance (kind : VariableKind) (start : Nat) (wrong : Bool) :
    Keeps (variableStatement g kind >>= fun found =>
      if wrong = true then record start >>= fun _ => pure (some (Statement.declares found))
      else pure (some (Statement.declares found))) where
  run hs := (Keeps.run hs).bind fun d m hm hd => by
    refine Ensures.ite ((Forward.run hm).bind fun _ t ht hle => Ensures.pure ht ?_)
      (Ensures.pure hm hd)
    exact hd.of_le_stop hle

instance : Keeps (plainDeclaration g) := by
  unfold plainDeclaration
  repeat' first | infer_instance | refine Keeps.andThen ?_ fun _ => ?_ | split

instance : Keeps (declaration g) := by
  unfold declaration
  repeat' first | infer_instance | refine Keeps.andThen ?_ fun _ => ?_ | split

instance : Keeps (exportDeclaration g) := by
  unfold exportDeclaration
  repeat' first | infer_instance | refine Keeps.andThen ?_ fun _ => ?_ | split

instance : Keeps (decorated g) := by unfold decorated; infer_instance

instance : Keeps (expressionStatement g) := by
  unfold expressionStatement
  refine Keeps.of_gives Gives.get fun before hbefore => ?_
  refine Keeps.andThen inferInstance fun value => Keeps.andThen inferInstance fun _ => ?_
  split
  · exact Keeps.andThen (Forward.of_modify_items hbefore.items_wide) fun _ => inferInstance
  · infer_instance
  · infer_instance

instance (place : Place) : Keeps (declarationHere g place) := by
  unfold declarationHere
  repeat' first | infer_instance | refine Keeps.andThen ?_ fun _ => ?_ | split

instance (place : Place) : Keeps (statement g place) := by
  unfold statement
  repeat' first
    | infer_instance
    | exact Keeps.orElse inferInstance (fun _ => rfl) inferInstance
    | refine Keeps.andThen ?_ fun _ => ?_
    | split

end Productions

instance (n : Nat) (reach : Reach) : Keeps (grammar n (.pattern reach)) := by
  cases n with
  | zero => exact inferInstanceAs (Keeps unexpected)
  | succ n => exact inferInstanceAs (Keeps (pattern (grammar n) reach))

instance (n : Nat) (place : Place) : Keeps (grammar n (.statement place)) := by
  cases n with
  | zero => exact inferInstanceAs (Keeps unexpected)
  | succ n => exact inferInstanceAs (Keeps (statement (grammar n) place))

/-- Only statements without places are left out at the front of a script. -/
theorem places_kept {isText : Statement → Bool} {kept : Statement → Option Declaration}
    (htext : ∀ st, isText st = true → places st = []) (hkept : ∀ st, places (kept st) = places st)
    (found : List Statement) : places ((found.dropWhile isText).map kept) = places found := by
  induction found with
  | nil => rfl
  | cons st found ih =>
    by_cases hst : isText st = true
    · have hcons : places (st :: found) = places st ++ places found := List.flatMap_cons
      rw [List.dropWhile_cons_of_pos hst, ih, hcons, htext st hst, List.nil_append]
    · rw [List.dropWhile_cons_of_neg hst]
      simp only [places, List.flatMap_map] at hkept ⊢
      simp only [hkept]

instance (n : Nat) : Keeps (topLevel (grammar n)) := by
  unfold topLevel
  refine Keeps.map (Keeps.collect inferInstance) fun found => places_kept ?_ ?_ found
  · rintro (_ | _ | _ | _) h
    · cases h
    all_goals rfl
  · rintro (_ | _ | _ | _) <;> rfl

instance : Forward finish := by
  unfold finish
  repeat' first | infer_instance | refine Forward.andThen ?_ fun _ => ?_ | split

instance (limit : Nat) : Keeps (Program.read limit) where
  run hs := by
    refine (Keeps.run hs).bind fun statements m hm hplaces => ?_
    refine (Forward.run hm).bind fun _ n hn hle => ?_
    refine (Forward.run hn).bind fun _ t ht hle' => Ensures.pure ht ?_
    exact (hplaces.of_le_stop hle).of_le_stop hle'

end Parser

/-- A script that parses was read from the start of its text, with all in order. -/
theorem Program.exists_read {source : String} {p : Program} (h : Program.parse source = .ok p) :
    ∃ s t : State, s.Settled ∧ s.lastStop = 0
      ∧ Program.read (source.utf8ByteSize + 1) s = .ok (p, t) := by
  rw [Program.parse_eq] at h
  cases hread : Program.read (source.utf8ByteSize + 1) (State.start (source.utf8ByteSize + 1)
      (afterInterpreter ⟨source.toList, 0⟩)) with
  | error e => rw [hread] at h; cases h
  | ok r =>
    rw [hread] at h
    cases h
    exact ⟨_, r.2, State.settled_start (Nat.succ_pos _) _, rfl, hread⟩

/-- The declarators of a script stand in the order of the text, take up some of it and do not
overlap. -/
theorem Program.inOrder_places {source : String} {p : Program}
    (h : Program.parse source = .ok p) : ∃ stop, Span.InOrder 0 (HasPlaces.places p) stop := by
  obtain ⟨s, t, hs, hstart, hread⟩ := Program.exists_read h
  exact ⟨t.lastStop, hstart ▸ (Parser.Keeps.run hs p t hread).2⟩

end ZodGen.Script
