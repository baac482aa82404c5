import ZodGen.Proofs.TokenOrder
import ZodGen.Script.Prune

/-!
# Runs of the parser

Equations for the basic parsers, and what holds of the state wherever a parser gives an answer.
`Forward p` says that `p` keeps the token at hand behind the end of the token before, never moves
that end back, and notes only uses of names that take up some text. Parsers put together from such
parsers are such parsers, which is left to the search for instances. Where what follows relies on an
answer, `Gives p good` says that `p` gives only good ones.
-/

namespace ZodGen.Script

/-! ## Equations -/

/-- The state at the next token. -/
def State.next (s : State) : State :=
  let f := Token.next s.limit s.rest
  { s with lastStop := s.token.span.stop, token := f.token, here := f.here, rest := f.rest,
           tokenFaults := f.faults.reverse ++ s.tokenFaults }

namespace Parser

section Run

variable {α β : Type} (s : State)

@[simp] theorem run_bind (p : Parser α) (f : α → Parser β) :
    (p >>= f) s = (p s).bind fun r => f r.1 r.2 := rfl

@[simp] theorem run_map (f : α → β) (p : Parser α) :
    (f <$> p) s = (p s).bind fun r => .ok (f r.1, r.2) := rfl

@[simp] theorem ok_bind {ε : Type} (a : α) (f : α → Except ε β) :
    (Except.ok a : Except ε α).bind f = f a := rfl

@[simp] theorem run_pure (a : α) : (pure a : Parser α) s = .ok (a, s) := rfl

@[simp] theorem run_ite (c : Prop) [Decidable c] (p q : Parser α) :
    (if c then p else q) s = if c then p s else q s := by
  split <;> rfl

@[simp] theorem run_get : (get : Parser State) s = .ok (s, s) := rfl

@[simp] theorem run_modify (f : State → State) : (modify f : Parser Unit) s = .ok ((), f s) := rfl

@[simp] theorem run_token : token s = .ok (s.token, s) := rfl

@[simp] theorem run_context : context s = .ok (s.context, s) := rfl

@[simp] theorem run_place : place s = .ok (s.token.span.start, s) := rfl

@[simp] theorem run_spanFrom (start : Nat) : spanFrom start s = .ok (⟨start, s.lastStop⟩, s) := rfl

@[simp] theorem run_at_ (text : String) : at_ text s = .ok (Token.isText s.token text, s) := rfl

@[simp] theorem run_atAny (texts : List String) :
    atAny texts s = .ok (texts.any (Token.isText s.token), s) := rfl

@[simp] theorem run_atKind (kind : Token.Kind) :
    atKind kind s = .ok (s.token.kind == kind, s) := rfl

@[simp] theorem run_atEnd : atEnd s = .ok (s.token.kind == .eof, s) := rfl

@[simp] theorem run_atBinding : atBinding s = .ok (Token.isBinding s.token, s) := rfl

@[simp] theorem run_onNewLine : onNewLine s = .ok (s.token.newline, s) := rfl

@[simp] theorem run_advance : advance s = .ok ((), s.next) := rfl

/-- What a look ahead answers. -/
def foreseen (p : Parser Bool) : Bool :=
  match p s with
  | .ok (b, _) => b
  | .error _ => false

@[simp] theorem run_ahead (p : Parser Bool) : ahead p s = .ok (foreseen s p, s) := by
  unfold ahead lookAhead foreseen
  cases p s <;> rfl

variable {s}

theorem run_bump (h : s.token.escaped = false) : bump s = .ok ((), s.next) := by
  simp [bump, h]

theorem run_eat (h : s.token.escaped = false) (text : String) :
    eat text s
      = .ok (Token.isText s.token text, if Token.isText s.token text then s.next else s) := by
  cases htext : Token.isText s.token text <;> simp [eat, run_bump h, htext]

variable (s) in
theorem exists_unexpected : ∃ e, (unexpected : Parser α) s = .error e := by
  simp only [unexpected, run_bind, run_get, ok_bind]
  cases s.token.kind <;> cases s.tokenFaults <;> exact ⟨_, rfl⟩

theorem collect_none {step : Parser (Option α)} (h : step s = .ok (none, s)) :
    collect step s = .ok ([], s) := by
  simp only [collect, run_bind, run_get, ok_bind]
  cases s.limit <;> simp [collectUpTo, h]

end Run

end Parser

/-- The state in front of the first token. -/
def State.start (limit : Nat) (c : Cursor) : State :=
  let first := Token.next limit c
  { limit, token := first.token, here := first.here, rest := first.rest, lastStop := 0,
    context := {}, tokenFaults := first.faults.reverse, faults := [], loneDefaults := [],
    items := [] }

/-- What is read of a script whose text is shorter than `limit`. -/
def Program.read (limit : Nat) : Parser Program := do
  let statements ← Parser.topLevel (Parser.grammar (8 * limit + 64))
  Parser.finish
  return ⟨statements, (← get).items.reverse⟩

/-- Parsing a script is one run of a parser from the first token on. -/
theorem Program.parse_eq (source : String) :
    Program.parse source = (Program.read (source.utf8ByteSize + 1) (State.start
      (source.utf8ByteSize + 1) (afterInterpreter ⟨source.toList, 0⟩))).map Prod.fst := by
  cases hread : Program.read (source.utf8ByteSize + 1) (State.start (source.utf8ByteSize + 1)
    (afterInterpreter ⟨source.toList, 0⟩))
  all_goals
    unfold Program.read State.start at hread
    unfold Program.parse
    simp only [StateT.run]
    rw [hread]
    rfl

theorem parse_eq_ok {source : String} {p : Program} :
    parse source = .ok p ↔ Program.parse source = .ok p := by
  -- The equation of `parse` takes long to derive: it looks into the parser.
  delta parse
  cases Program.parse source with
  | ok q => simp
  | error offset => simp [fail]

/-! ## States in order -/

/-- Wherever an item uses a name, the name takes up some text. -/
inductive Item.Wide : Item → Prop
  | declare (name : String) (span : Span) (meaning : Meaning) (reach : Reach) :
      Wide (.declare name span meaning reach)
  | use (name : String) {span : Span} (how : Use) (h : span.start < span.stop) :
      Wide (.use name span how)
  | scope (kind : ScopeKind) {header body : List Item} (hheader : ∀ item ∈ header, Wide item)
      (hbody : ∀ item ∈ body, Wide item) : Wide (.scope kind header body)

theorem Item.Wide.asUse {item : Item} (h : item.Wide) {how : Use} :
    (Parser.asUse how item).Wide := by
  unfold Parser.asUse
  split
  · cases h with
    | use _ _ hspan => exact .use _ how hspan
  · exact h

/-- The token at hand stands behind the one before, and the rest of the text behind it. Names take
up some text, those at hand as well as those that were used. -/
structure State.Settled (s : State) : Prop where
  limit_pos : 0 < s.limit
  last_le_start : s.lastStop ≤ s.token.span.start
  start_le_stop : s.token.span.start ≤ s.token.span.stop
  stop_le_rest : s.token.span.stop ≤ s.rest.offset
  start_le_here : s.token.span.start ≤ s.here.offset
  start_lt_stop : s.token.Solid → s.token.span.start < s.token.span.stop
  items_wide : ∀ item ∈ s.items, item.Wide

/-- The text is read at the same place in two states, and the same names were used. -/
structure State.SamePlace (s t : State) : Prop where
  limit : t.limit = s.limit := by rfl
  token : t.token = s.token := by rfl
  here : t.here = s.here := by rfl
  rest : t.rest = s.rest := by rfl
  lastStop : t.lastStop = s.lastStop := by rfl
  items : t.items = s.items := by rfl

theorem State.Settled.of_samePlace {s t : State} (hs : s.Settled) (h : s.SamePlace t) :
    t.Settled where
  limit_pos := by rw [h.limit]; exact hs.limit_pos
  last_le_start := by rw [h.lastStop, h.token]; exact hs.last_le_start
  start_le_stop := by rw [h.token]; exact hs.start_le_stop
  stop_le_rest := by rw [h.token, h.rest]; exact hs.stop_le_rest
  start_le_here := by rw [h.token, h.here]; exact hs.start_le_here
  start_lt_stop := by rw [h.token]; exact hs.start_lt_stop
  items_wide := by rw [h.items]; exact hs.items_wide

/-- Names that take up some text may be put in the place of the names used. -/
theorem State.Settled.with_items {s : State} (hs : s.Settled) {items : List Item}
    (h : ∀ item ∈ items, item.Wide) : { s with items }.Settled :=
  { hs with items_wide := h }

theorem State.settled_start {limit : Nat} (hlimit : 0 < limit) (c : Cursor) :
    (State.start limit c).Settled :=
  have h := Token.standsFrom_next hlimit c
  ⟨hlimit, Nat.zero_le _, h.start_le_stop, h.stop_le_rest, h.start_le_here, h.start_lt_stop,
    by simp [State.start]⟩

namespace Parser

variable {α β : Type}

-- Productions are long terms to search instances for.
set_option synthInstance.maxSize 4096

/-- What holds of the answer and the state, where a parser gives an answer. -/
def Ensures (r : Except Nat (α × State)) (post : α → State → Prop) : Prop :=
  ∀ a t, r = .ok (a, t) → t.Settled ∧ post a t

theorem Ensures.mono {r : Except Nat (α × State)} {post post' : α → State → Prop}
    (h : Ensures r post) (himp : ∀ a t, post a t → post' a t) : Ensures r post' :=
  fun a t hr => ⟨(h a t hr).1, himp a t (h a t hr).2⟩

theorem Ensures.error {e : Nat} {post : α → State → Prop} : Ensures (.error e) post := by
  rintro _ _ ⟨⟩

/-- What the first parser ensures, the second may rely on. -/
theorem Ensures.bind {p : Parser α} {f : α → Parser β} {s : State} {mid : α → State → Prop}
    {post : β → State → Prop} (hp : Ensures (p s) mid)
    (hf : ∀ a m, m.Settled → mid a m → Ensures (f a m) post) : Ensures ((p >>= f) s) post := by
  intro b t hrun
  change (p s).bind (fun x => f x.1 x.2) = _ at hrun
  cases hmid : p s with
  | error e => rw [hmid] at hrun; cases hrun
  | ok x =>
    rw [hmid] at hrun
    obtain ⟨hsettled, hx⟩ := hp x.1 x.2 hmid
    exact hf x.1 x.2 hsettled hx b t hrun

theorem Ensures.pure {a : α} {s : State} {post : α → State → Prop} (hs : s.Settled)
    (h : post a s) : Ensures ((Pure.pure a : Parser α) s) post := by
  rintro _ _ ⟨⟩
  exact ⟨hs, h⟩

theorem Ensures.ite {c : Prop} [Decidable c] {p q : Parser α} {s : State}
    {post : α → State → Prop} (hp : Ensures (p s) post) (hq : Ensures (q s) post) :
    Ensures ((if c then p else q) s) post := by
  by_cases hc : c
  · rwa [if_pos hc]
  · rwa [if_neg hc]

/-- A parser that goes forward where it gives an answer. -/
class Forward (p : Parser α) : Prop where
  run : ∀ {s : State}, s.Settled → Ensures (p s) fun _ t => s.lastStop ≤ t.lastStop

/-- A parser that goes forward where it gives an answer, which is one of the `good` ones. -/
def Gives (p : Parser α) (good : α → Prop) : Prop :=
  ∀ s : State, s.Settled → Ensures (p s) fun a t => s.lastStop ≤ t.lastStop ∧ good a

/-! ## Ways to put parsers together -/

namespace Gives

variable {p q : Parser α} {f : α → Parser β} {good : α → Prop} {good' : β → Prop}

theorem forward (hp : Gives p good) : Forward p where
  run hs := (hp _ hs).mono fun _ _ h => h.1

theorem bind (hp : Gives p good) (hf : ∀ a, good a → Gives (f a) good') : Gives (p >>= f) good' :=
  fun _ hs => (hp _ hs).bind fun a _ hm h =>
    (hf a h.2 _ hm).mono fun _ _ h' => ⟨Nat.le_trans h.1 h'.1, h'.2⟩

theorem pure {a : α} (h : good a) : Gives (Pure.pure a) good :=
  fun _ hs => Ensures.pure hs ⟨Nat.le_refl _, h⟩

theorem ite {c : Prop} [Decidable c] (hp : Gives p good) (hq : Gives q good) :
    Gives (if c then p else q) good := fun _ hs => Ensures.ite (hp _ hs) (hq _ hs)

/-- A parser that is tried gives what it gives, or puts the state back and gives nothing. -/
theorem attempt (hp : Gives p good) : Gives (attempt p) fun found => ∀ a ∈ found, good a := by
  intro s hs a t h
  rw [Parser.attempt] at h
  cases hrun : p s with
  | error e => rw [hrun] at h; cases h; exact ⟨hs, Nat.le_refl _, by simp⟩
  | ok x =>
    rw [hrun] at h
    cases h
    obtain ⟨ht, hle, hx⟩ := hp s hs _ _ hrun
    exact ⟨ht, hle, by simpa using hx⟩

/-- The state that a parser asks for is in order. -/
theorem get : Gives (get : Parser State) State.Settled := fun _ hs => by
  rintro _ _ ⟨⟩
  exact ⟨hs, Nat.le_refl _, hs⟩

end Gives

theorem Forward.gives {p : Parser α} (hp : Forward p) : Gives p fun _ => True :=
  fun _ hs => (hp.run hs).mono fun _ _ hle => ⟨hle, trivial⟩

theorem Gives.andThen {p : Parser α} {f : α → Parser β} {good : β → Prop} (hp : Forward p)
    (hf : ∀ a, Gives (f a) good) : Gives (p >>= f) good := hp.gives.bind fun a _ => hf a

namespace Forward

variable {p q : Parser α} {f : α → Parser β}

theorem of_error (h : ∀ s, ∃ e, p s = .error e) : Forward p where
  run {s} _ := by
    obtain ⟨e, he⟩ := h s
    rw [he]
    exact Ensures.error

theorem of_samePlace (h : ∀ {s t a}, p s = .ok (a, t) → s.SamePlace t) : Forward p where
  run hs _ _ hrun := ⟨hs.of_samePlace (h hrun), Nat.le_of_eq (h hrun).lastStop.symm⟩

/-- What follows a parser may rely on its answer. -/
theorem of_gives {good : α → Prop} (hp : Gives p good) (hf : ∀ a, good a → Forward (f a)) :
    Forward (p >>= f) := (hp.bind fun a ha => (hf a ha).gives).forward

theorem andThen (hp : Forward p) (hf : ∀ a, Forward (f a)) : Forward (p >>= f) :=
  of_gives hp.gives fun a _ => hf a

instance [hp : Forward p] [hf : ∀ a, Forward (f a)] : Forward (p >>= f) := andThen hp hf

instance (a : α) : Forward (pure a) := of_samePlace fun h => by cases h; exact {}

instance : Forward (get : Parser State) := Gives.get.forward

instance (e : Nat) : Forward (throw e : Parser α) := of_error fun _ => ⟨e, rfl⟩

instance {c : Prop} [Decidable c] [hp : Forward p] [hq : Forward q] :
    Forward (if c then p else q) := (Gives.ite hp.gives hq.gives).forward

instance {p q : Parser Bool} [hp : Forward p] [hq : Forward q] : Forward (p <||> q) :=
  andThen hp fun b => by
    cases b with
    | true => exact inferInstanceAs (Forward (pure true))
    | false => exact hq

theorem of_forIn {γ : Type} {xs : List γ} {init : β} {step : γ → β → Parser (ForInStep β)}
    (hstep : ∀ x ∈ xs, ∀ b, Forward (step x b)) : Forward (forIn xs init step) := by
  induction xs generalizing init with
  | nil => rw [List.forIn_nil]; infer_instance
  | cons x xs ih =>
    obtain ⟨hx, hxs⟩ := List.forall_mem_cons.1 hstep
    rw [List.forIn_cons]
    refine andThen (hx init) fun r => ?_
    cases r with
    | done b => exact inferInstanceAs (Forward (pure b))
    | yield b => exact ih hxs

instance {γ : Type} {xs : List γ} {init : β} {step : γ → β → Parser (ForInStep β)}
    [hstep : ∀ x b, Forward (step x b)] : Forward (forIn xs init step) :=
  of_forIn fun x _ => hstep x

instance (p : Parser α) (otherwise : α) : Forward (lookAhead otherwise p) :=
  of_samePlace fun {s _ _} h => by
    rw [lookAhead] at h
    cases hrun : p s <;> rw [hrun] at h <;> cases h <;> exact {}

instance (p : Parser Bool) : Forward (ahead p) := inferInstanceAs (Forward (lookAhead false p))

theorem of_attempt (hp : Forward p) : Forward (attempt p) := (Gives.attempt hp.gives).forward

instance [hp : Forward p] : Forward (attempt p) := of_attempt hp

/-! ## Changes of the state -/

theorem of_modify {change : State → State} (h : ∀ s : State, s.SamePlace (change s)) :
    Forward (modify change : Parser PUnit) :=
  of_samePlace fun {s _ _} hrun => by cases hrun; exact h s

instance (change : State → Context) :
    Forward (modify fun s => { s with context := change s } : Parser PUnit) :=
  of_modify fun _ => {}

instance (change : State → List Nat) :
    Forward (modify fun s => { s with faults := change s } : Parser PUnit) :=
  of_modify fun _ => {}

instance (change : State → List Nat) :
    Forward (modify fun s => { s with loneDefaults := change s } : Parser PUnit) :=
  of_modify fun _ => {}

theorem of_modify_items {items : List Item} (h : ∀ item ∈ items, item.Wide) :
    Forward (modify fun s => { s with items } : Parser PUnit) where
  run hs := by
    rintro _ _ ⟨⟩
    exact ⟨hs.with_items h, Nat.le_refl _⟩

theorem of_emit {item : Item} (h : item.Wide) : Forward (emit item) where
  run hs := by
    rintro _ _ ⟨⟩
    exact ⟨hs.with_items (List.forall_mem_cons.2 ⟨h, hs.items_wide⟩), Nat.le_refl _⟩

instance (name : String) (span : Span) (meaning : Meaning) (reach : Reach) :
    Forward (declare name span meaning reach) := of_emit (.declare name span meaning reach)

theorem of_use (name : String) {span : Span} (how : Use) (h : span.start < span.stop) :
    Forward (use name span how) := of_emit (.use name how h)

/-- A token that is taken as the one at hand must stand behind the one before. -/
theorem ensures_settle {s t : State} {found : Token.Found} {place : Nat} (hs : s.Settled)
    (hlimit : t.limit = s.limit) (hitems : t.items = s.items) (hfound : found.StandsFrom place)
    (hlast : t.lastStop ≤ place) : Ensures (settle found t) fun _ u => u.lastStop = t.lastStop := by
  rintro _ _ ⟨⟩
  refine ⟨⟨?_, Nat.le_trans hlast hfound.le_start, hfound.start_le_stop, hfound.stop_le_rest,
    hfound.start_le_here, hfound.start_lt_stop, ?_⟩, rfl⟩
  · exact hlimit.symm ▸ hs.limit_pos
  · exact hitems.symm ▸ hs.items_wide

theorem ensures_advance {s : State} (hs : s.Settled) :
    Ensures (advance s) fun _ t => t.lastStop = s.token.span.stop :=
  ensures_settle hs rfl rfl (Token.standsFrom_next hs.limit_pos s.rest) hs.stop_le_rest

instance : Forward advance where
  run hs := (ensures_advance hs).mono fun _ _ ht =>
    ht ▸ Nat.le_trans hs.last_le_start hs.start_le_stop

/-- A token that is read again stands where the token at hand starts. -/
theorem ensures_reread {s : State} {found : Token.Found} (hs : s.Settled)
    (hfound : found.StandsFrom s.here.offset) :
    Ensures (settle found s) fun _ t => t.lastStop = s.lastStop :=
  ensures_settle hs rfl rfl hfound (Nat.le_trans hs.last_le_start hs.start_le_here)

theorem reread {s : State} {found : Token.Found} {k : PUnit → Parser α} (hs : s.Settled)
    (hfound : found.StandsFrom s.here.offset) (hk : ∀ u, Forward (k u)) :
    Ensures ((settle found >>= k) s) fun _ t => s.lastStop ≤ t.lastStop :=
  (ensures_reread hs hfound).bind fun u _ hm heq => heq ▸ (hk u).run hm

/-- Reading the token at hand again goes forward, as it does not move. -/
theorem get_settle {found : State → Token.Found} {k : PUnit → Parser α}
    (hfound : ∀ s, (found s).StandsFrom s.here.offset) (hk : ∀ u, Forward (k u)) :
    Forward (get >>= fun s => settle (found s) >>= k) where
  run {s} hs := reread hs (hfound s) hk

instance {k : PUnit → Parser α} [hk : ∀ u, Forward (k u)] :
    Forward (get >>= fun s => settle (Token.regex s.limit s.here s.token.newline) >>= k) :=
  get_settle (fun _ => Token.standsFrom_regex ..) hk

instance {k : PUnit → Parser α} [hk : ∀ u, Forward (k u)] :
    Forward (get >>= fun s => settle (Token.templateRest s.limit s.here) >>= k) :=
  get_settle (fun _ => Token.standsFrom_templateRest ..) hk

instance : Forward (get >>= fun s => settle (Token.joinAngles s.here s.token.newline)) where
  run {s} hs := (ensures_reread hs (Token.standsFrom_joinAngles s.here s.token.newline)).mono
    fun _ _ ht => Nat.le_of_eq ht.symm

instance {k : PUnit → Parser α} [hk : ∀ u, Forward (k u)] [hq : Forward q] :
    Forward (get >>= fun s => at_ ">" >>= fun b =>
      if b = true then settle (Token.joinAngles s.here s.token.newline) >>= k else q) where
  run {s} hs := by
    change Ensures ((if Token.isText s.token ">" = true then _ else q : Parser α) s) _
    exact Ensures.ite (reread hs (Token.standsFrom_joinAngles ..) hk) (hq.run hs)

instance : Forward splitAngle where
  run {s} hs := by
    change Ensures ((if (s.token.kind == .mark && s.token.text == "<<") = true then _ else _ :
      Parser Unit) s) _
    exact Ensures.ite ((ensures_reread hs (Token.standsFrom_firstAngle ..)).mono fun _ _ ht =>
      Nat.le_of_eq ht.symm) (Ensures.pure hs (Nat.le_refl _))

/-! ## Tokens -/

instance (place : Nat) : Forward (fault place : Parser α) := by unfold fault; infer_instance

instance : Forward (unexpected : Parser α) := of_error exists_unexpected

instance : Forward token := by unfold token; infer_instance
instance : Forward context := by unfold context; infer_instance
instance : Forward place := by unfold place; infer_instance
instance : Forward lastStop := by unfold lastStop; infer_instance
instance (place : Nat) : Forward (record place) := by unfold record; infer_instance
instance (start : Nat) : Forward (spanFrom start) := by unfold spanFrom; infer_instance
instance : Forward bump := by unfold bump; infer_instance
instance (text : String) : Forward (at_ text) := by unfold at_; infer_instance
instance (texts : List String) : Forward (atAny texts) := by unfold atAny; infer_instance
instance (kind : Token.Kind) : Forward (atKind kind) := by unfold atKind; infer_instance
instance : Forward atEnd := by unfold atEnd; infer_instance
instance : Forward onNewLine := by unfold onNewLine; infer_instance
instance : Forward atBinding := by unfold atBinding; infer_instance
instance : Forward atName := by unfold atName; infer_instance
instance (text : String) : Forward (eat text) := by unfold eat; infer_instance
instance (text : String) : Forward (expect text) := by unfold expect; infer_instance
instance : Forward canEnd := by unfold canEnd; infer_instance
instance : Forward endStatement := by unfold endStatement; infer_instance

/-! ## Loops and scopes -/

instance {step : Parser Bool} [Forward step] (n : Nat) : Forward (repeatUpTo step n) := by
  induction n with
  | zero => exact inferInstanceAs (Forward (pure ()))
  | succ n ih => unfold repeatUpTo; infer_instance

instance {step : Parser Bool} [Forward step] : Forward (repeatWhile step) := by
  unfold repeatWhile
  infer_instance

instance {step : Parser (Option α)} [hstep : Forward step] (n : Nat) (acc : List α) :
    Forward (collectUpTo step n acc) := by
  induction n generalizing acc with
  | zero => exact inferInstanceAs (Forward (pure acc.reverse))
  | succ n ih =>
    refine andThen hstep fun found => ?_
    cases found with
    | none => exact inferInstanceAs (Forward (pure acc.reverse))
    | some a => exact ih (a :: acc)

theorem of_collect {step : Parser (Option α)} (_ : Forward step) : Forward (collect step) := by
  unfold collect
  infer_instance

instance {step : Parser (Option α)} [hstep : Forward step] : Forward (collect step) :=
  of_collect hstep

instance (change : Context → Context) [Forward p] : Forward (inContext change p) := by
  unfold inContext
  infer_instance

instance [Forward p] : Forward (allowIn p) := by unfold allowIn; infer_instance

end Forward

namespace Gives

variable {p : Parser α} {good : α → Prop}

/-- By induction on the number of items that may still come; `acc` are those read before. -/
theorem separatedUpTo (close : String) (hp : Gives p good) (n : Nat) {acc : List α}
    (hacc : ∀ a ∈ acc, good a) :
    Gives (separatedUpTo close p n acc) fun found => ∀ a ∈ found.1, good a := by
  induction n generalizing acc with
  | zero => exact pure (by simpa using hacc)
  | succ n ih =>
    have hend (comma : Option Nat) :
        Gives (Pure.pure (acc.reverse, comma)) fun found => ∀ a ∈ found.1, good a :=
      pure (by simpa using hacc)
    have hmore : Gives (place >>= fun comma => bump >>= fun _ => at_ close >>= fun closed =>
        if closed = true then Pure.pure (acc.reverse, some comma)
        else p >>= fun a => Parser.separatedUpTo close p n (a :: acc))
        fun found => ∀ a ∈ found.1, good a := by
      refine andThen inferInstance fun _ => andThen inferInstance fun _ => ?_
      refine andThen inferInstance fun _ => ite (hend _) (hp.bind fun a ha => ?_)
      exact ih (List.forall_mem_cons.2 ⟨ha, hacc⟩)
    refine andThen inferInstance fun _ => ite (hend none) (andThen inferInstance fun _ => ?_)
    exact ite hmore (andThen inferInstance fun _ => andThen inferInstance fun _ => hmore)

theorem separated (close : String) (hp : Gives p good) :
    Gives (separated close p) fun found => ∀ a ∈ found.1, good a := by
  refine andThen inferInstance fun _ => ite (pure (by simp)) ?_
  refine hp.bind fun a ha => andThen inferInstance fun _ => ?_
  exact hp.separatedUpTo close _ (by simpa using ha)

/-- The names that a parser uses take up some text. -/
theorem capture (hp : Forward p) : Gives (capture p) fun r => ∀ item ∈ r.2, item.Wide := by
  refine get.bind fun saved hsaved => andThen (Forward.of_modify_items (by simp)) fun _ => ?_
  refine andThen hp fun a => get.bind fun s hs => ?_
  refine andThen (Forward.of_modify_items hsaved.items_wide) fun _ => pure ?_
  simpa using hs.items_wide

end Gives

namespace Forward

variable {p : Parser α} {f : α → Parser β}

instance (close : String) [hp : Forward p] : Forward (separated close p) :=
  (hp.gives.separated close).forward

instance [hp : Forward p] : Forward (capture p) := (Gives.capture hp).forward

theorem of_emitAs (how : Use) {items : List Item} (h : ∀ item ∈ items, item.Wide) :
    Forward (emitAs how items) := by
  refine andThen (of_forIn fun item hitem _ => ?_) fun _ => inferInstance
  exact andThen (of_emit (h item hitem).asUse) fun _ => inferInstance

theorem of_inScope (kind : ScopeKind) (hp : Forward p) : Forward (inScope kind p) :=
  of_gives (Gives.capture hp) fun _ hitems =>
    andThen (of_emit (.scope kind (by simp) hitems)) fun _ => inferInstance

instance (kind : ScopeKind) [hp : Forward p] : Forward (inScope kind p) := of_inScope kind hp

theorem of_inScopeWith (kind : ScopeKind) (hp : Forward p) (hf : ∀ a, Forward (f a)) :
    Forward (inScopeWith kind p f) :=
  of_gives (Gives.capture hp) fun a hfront => of_gives (Gives.capture (hf a.1)) fun _ hback =>
    andThen (of_emit (.scope kind hfront hback)) fun _ => inferInstance

instance (kind : ScopeKind) [hp : Forward p] [hf : ∀ a, Forward (f a)] :
    Forward (inScopeWith kind p f) := of_inScopeWith kind hp hf

end Forward

end Parser

end ZodGen.Script
