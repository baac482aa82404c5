import ZodGen.Proofs.ParserRuns

/-!
# The grammar goes forward

Every production of the grammar goes forward, at every depth. A production is put together from
parsers that go forward, so the search for instances finds this; only where a production looks at
what it has read, the cases are split.
-/

namespace ZodGen.Script

namespace Parser

-- Productions are long terms to search instances for.
set_option synthInstance.maxSize 4096

/-! ## Names -/

theorem ensures_checkName {s : State} (hs : s.Settled) :
    Ensures (checkName s) fun _ t => t.token = s.token := by
  refine Ensures.ite ?_ (Ensures.pure hs rfl)
  rintro _ _ ⟨⟩
  exact ⟨hs.of_samePlace {}, rfl⟩

/-- What holds behind a word: its place is known and not empty. -/
def IsWord (word : Token) (name : String × Span) (t : State) : Prop :=
  name.2 = word.span ∧ word.span.start < word.span.stop ∧ t.lastStop = word.span.stop

theorem ensures_word {s : State} (hs : s.Settled) (hword : s.token.kind = .word) :
    Ensures ((do let t ← token; advance; return (t.text, t.span)) s) (IsWord s.token) :=
  (Forward.ensures_advance hs).bind fun _ _ ht hlast =>
    Ensures.pure ht ⟨rfl, hs.start_lt_stop (.inl hword), hlast⟩

theorem Ensures.unexpected_bind {α β : Type} {f : α → Parser β} {s : State}
    (post : β → State → Prop) : Ensures ((unexpected >>= f) s) post := by
  obtain ⟨e, he⟩ := exists_unexpected (α := α) s
  rw [run_bind, he]
  exact Ensures.error

/-- A name that may be bound is the word at hand. -/
theorem ensures_bindingName {s : State} (hs : s.Settled) :
    Ensures (bindingName s) (IsWord s.token) := by
  change Ensures ((if Token.isBinding s.token = true then _ else _ : Parser (String × Span)) s) _
  by_cases hbinding : Token.isBinding s.token = true
  · rw [if_pos hbinding]
    refine (ensures_checkName hs).bind fun _ m hm htoken => ?_
    simp only [Token.isBinding, Bool.and_eq_true, beq_iff_eq] at hbinding
    exact htoken ▸ ensures_word hm (htoken.symm ▸ hbinding.1)
  · rw [if_neg hbinding]
    exact Ensures.unexpected_bind _

theorem ensures_anyName {s : State} (hs : s.Settled) : Ensures (anyName s) (IsWord s.token) := by
  change Ensures ((if Token.isName s.token = true then _ else _ : Parser (String × Span)) s) _
  by_cases hname : Token.isName s.token = true
  · rw [if_pos hname]
    exact ensures_word hs (by simpa [Token.isName] using hname)
  · rw [if_neg hname]
    exact Ensures.unexpected_bind _

/-- A name that was read takes up some text. -/
def NameWide (name : String × Span) : Prop := name.2.start < name.2.stop

theorem IsWord.forward {s t : State} {name : String × Span} (hs : s.Settled)
    (h : IsWord s.token name t) : s.lastStop ≤ t.lastStop ∧ NameWide name := by
  obtain ⟨hspan, hlt, hlast⟩ := h
  exact ⟨hlast ▸ Nat.le_trans hs.last_le_start hs.start_le_stop, by rwa [NameWide, hspan]⟩

theorem Gives.bindingName : Gives bindingName NameWide :=
  fun _ hs => (ensures_bindingName hs).mono fun _ _ h => h.forward hs

theorem Gives.anyName : Gives anyName NameWide :=
  fun _ hs => (ensures_anyName hs).mono fun _ _ h => h.forward hs

namespace Forward

variable {α : Type} {p : Parser α}

instance : Forward checkName := by unfold checkName; infer_instance
instance : Forward bindingName := Gives.bindingName.forward
instance : Forward anyName := Gives.anyName.forward

instance : Forward valueName :=
  of_gives Gives.bindingName fun name hname =>
    andThen (of_use name.1 .value hname) fun _ => inferInstance

instance : Forward canFollowModifier := by unfold canFollowModifier; infer_instance
instance : Forward isModifier := by unfold isModifier; infer_instance
instance (words : List String) : Forward (modifiers words) := by unfold modifiers; infer_instance
instance (word : String) : Forward (eatAccessor word) := by unfold eatAccessor; infer_instance

section Productions

variable (g : Grammar) [∀ {α : Type} (goal : Goal α), Forward (g goal)]

/-! ## Property names -/

instance : Forward (assignment g) := by unfold assignment; infer_instance
instance : Forward (expression g) := by unfold expression; infer_instance
instance : Forward ( annotation g) := by unfold annotation; infer_instance
instance : Forward (decorators g) := by unfold decorators; infer_instance

theorem gives_propertyName :
    Gives (propertyName g) fun found => ∀ name ∈ found, NameWide name := by
  have hnone : Gives (pure none) fun found : Option (String × Span) =>
      ∀ name ∈ found, NameWide name := Gives.pure (by simp)
  unfold propertyName
  refine Gives.andThen inferInstance fun t => ?_
  split
  · exact Gives.andThen inferInstance fun _ => hnone
  · exact Gives.andThen inferInstance fun _ => hnone
  · refine Gives.andThen inferInstance fun _ => Gives.ite ?_ ?_
    · exact Gives.andThen inferInstance fun _ => Gives.andThen inferInstance fun _ =>
        Gives.andThen inferInstance fun _ => hnone
    · exact Gives.anyName.bind fun name hname => Gives.pure (by simpa using hname)

instance : Forward (propertyName g) := (gives_propertyName g).forward

instance : Forward (memberName g) := by unfold memberName; infer_instance

/-! ## Patterns -/

instance : Forward (initializer g) := by unfold initializer; infer_instance

instance (reach : Reach) : Forward (patternWithDefault g reach) := by
  unfold patternWithDefault
  infer_instance

instance (close : String) {element rest : Parser Unit} [Forward element] [Forward rest] (n : Nat)
    (restAt : Option Nat) : Forward (elementsWithRest close element rest n restAt) := by
  induction n generalizing restAt with
  | zero => exact inferInstanceAs (Forward (pure ()))
  | succ n ih =>
    unfold elementsWithRest
    repeat' first | infer_instance | refine andThen ?_ fun _ => ?_ | split

instance (reach : Reach) : Forward (patternProperty g reach) := by
  unfold patternProperty
  repeat' first | infer_instance | refine andThen ?_ fun _ => ?_ | split

instance (reach : Reach) : Forward (patternElement g reach) := by
  unfold patternElement
  infer_instance

instance (reach : Reach) : Forward (patternRest g reach) := by unfold patternRest; infer_instance
instance (reach : Reach) : Forward (pattern g reach) := by unfold pattern; infer_instance
instance : Forward (parameter g) := by unfold parameter; infer_instance
instance : Forward (restParameter g) := by unfold restParameter; infer_instance
instance : Forward (parameters g) := by unfold parameters; infer_instance

/-! ## Types -/

instance : Forward atOpenAngle := by unfold atOpenAngle; infer_instance
instance : Forward (typeArguments g) := by unfold typeArguments; infer_instance
instance : Forward (typeArgumentsHere g) := by unfold typeArgumentsHere; infer_instance
instance : Forward (typeParameter g) := by unfold typeParameter; infer_instance
instance : Forward (typeParameters g) := by unfold typeParameters; infer_instance
instance : Forward (typeOrPredicate g) := by unfold typeOrPredicate; infer_instance
instance : Forward ( returnAnnotation g) := by unfold returnAnnotation; infer_instance
instance : Forward (signature g) := by unfold signature; infer_instance
instance : Forward (functionType g) := by unfold functionType; infer_instance
instance : Forward (opensParameters g) := by unfold opensParameters; infer_instance
instance : Forward (startsFunctionType g) := by unfold startsFunctionType; infer_instance

instance : Forward startsType := by
  unfold startsType
  repeat' first | infer_instance | refine andThen ?_ fun _ => ?_ | split

instance : Forward dottedRest := by unfold dottedRest; infer_instance

instance (single dotted : Use) : Forward (entityName single dotted) :=
  of_gives Gives.anyName fun name hname =>
    andThen inferInstance fun _ => of_use name.1 _ hname

instance : Forward (typeReference g) := by unfold typeReference; infer_instance
instance : Forward (importType g) := by unfold importType; infer_instance
instance : Forward (typeQuery g) := by unfold typeQuery; infer_instance
instance : Forward endMember := by unfold endMember; infer_instance
instance : Forward startsIndexSignature := by unfold startsIndexSignature; infer_instance
instance : Forward (indexSignature g) := by unfold indexSignature; infer_instance

instance : Forward (typeMemberKey g) :=
  of_gives (Gives.capture inferInstance) fun _ hitems => of_emitAs _ hitems

instance : Forward (typeMember g) := by unfold typeMember; infer_instance
instance : Forward (typeMembers g) := by unfold typeMembers; infer_instance
instance : Forward startsMappedType := by unfold startsMappedType; infer_instance

instance : Forward (mappedType g) := by
  unfold mappedType
  repeat' first
    | infer_instance
    | refine of_inScope _ ?_
    | refine of_inScopeWith _ ?_ fun _ => ?_
    | refine andThen ?_ fun _ => ?_
    | split

instance : Forward startsLabel := by unfold startsLabel; infer_instance
instance : Forward (tupleElement g) := by unfold tupleElement; infer_instance

instance (tagged : Bool) : Forward (templatePiece tagged) := by
  unfold templatePiece
  repeat' first | infer_instance | refine andThen ?_ fun _ => ?_ | split

instance (tagged : Bool) {hole : Parser Unit} [Forward hole] :
    Forward (templatePieces tagged hole) := by
  unfold templatePieces
  infer_instance

instance : Forward (primaryType g) := by
  unfold primaryType
  repeat' first | infer_instance | refine andThen ?_ fun _ => ?_ | split

instance : Forward (postfixType g) := by unfold postfixType; infer_instance
instance : Forward (inferConstraint g) := by unfold inferConstraint; infer_instance
instance : Forward (operatorType g) := by unfold operatorType; infer_instance

instance (mark : String) {part : Parser Unit} [Forward part] : Forward (joinedType mark part) := by
  unfold joinedType
  infer_instance

instance : Forward (typeExpression g) := by unfold typeExpression; infer_instance

/-! ## Functions -/

instance : Forward (statements g) := by unfold statements; infer_instance
instance : Forward (braced g) := by unfold braced; infer_instance
instance : Forward (functionBody g) := by unfold functionBody; infer_instance

instance (isAsync isGenerator : Bool) [Forward p] : Forward (inFunction isAsync isGenerator p) := by
  unfold inFunction
  infer_instance

instance (isAsync isGenerator : Bool) (self : Option (String × Span)) :
    Forward (functionTail g isAsync isGenerator self) := by
  unfold functionTail
  repeat' first
    | infer_instance
    | refine of_inScope _ ?_
    | refine of_inScopeWith _ ?_ fun _ => ?_
    | refine andThen ?_ fun _ => ?_
    | split

instance (required : Bool) : Forward (functionName required) := by
  unfold functionName
  infer_instance

instance : Forward functionHead := by unfold functionHead; infer_instance
instance : Forward (functionExpression g) := by unfold functionExpression; infer_instance

instance (place : Place) (nameRequired : Bool) :
    Forward (functionDeclaration g place nameRequired) := by
  unfold functionDeclaration
  repeat' first | infer_instance | refine andThen ?_ fun _ => ?_ | split

instance : Forward startsAsyncFunction := by unfold startsAsyncFunction; infer_instance

instance (isAsync returnType : Bool) : Forward (arrowBody g isAsync returnType) := by
  unfold arrowBody
  infer_instance

instance (start : Nat) (name : String) (span : Span) (isAsync returnType : Bool) :
    Forward (simpleArrow g start name span isAsync returnType) := by
  unfold simpleArrow
  infer_instance

instance : Forward startsAsyncArrow := by unfold startsAsyncArrow; infer_instance
instance : Forward arrowSign := by unfold arrowSign; infer_instance
instance : Forward (arrowHead g) := by unfold arrowHead; infer_instance

/-- The items of a head are kept back until it is clear that an arrow follows. -/
theorem gives_parenthesizedHead :
    Gives (parenthesizedHead g) fun head => ∀ item ∈ head.2.2, item.Wide :=
  Gives.andThen inferInstance fun _ => (Gives.capture inferInstance).bind fun _ h => Gives.pure h

/-- The items kept back go into the scope of the arrow function. -/
theorem of_arrowFrom (start : Nat) (isAsync returnType : Bool) {front : List Item}
    (hfront : ∀ item ∈ front, item.Wide) :
    Forward (arrowFrom g start isAsync returnType front) :=
  of_gives (Gives.capture inferInstance) fun _ hback =>
    andThen (of_emit (.scope .body hfront hback)) fun _ => inferInstance

instance (returnType : Bool) : Forward (parenthesizedArrow g returnType) :=
  andThen inferInstance fun _ => of_gives (gives_parenthesizedHead g) fun _ hfront =>
    of_arrowFrom g _ _ _ hfront

theorem gives_attempt_parenthesizedHead :
    Gives (attempt (parenthesizedHead g >>= fun head => at_ "=>" >>= fun arrow =>
      if arrow = true then pure head
      else place >>= fun start => (fault start : Parser PUnit) >>= fun _ => pure head))
      fun found => ∀ head ∈ found, ∀ item ∈ head.2.2, item.Wide := by
  refine Gives.attempt ((gives_parenthesizedHead g).bind fun head hhead => ?_)
  refine Gives.andThen inferInstance fun _ => Gives.ite (Gives.pure hhead) ?_
  exact Gives.andThen inferInstance fun _ => Gives.andThen inferInstance fun _ => Gives.pure hhead

/-- A head that turns out not to be one of an arrow function leaves the state as it was. -/
instance (returnType : Bool) : Forward (possibleArrow g returnType) where
  run {s} hsaved := by
    have hget : Ensures ((get : Parser State) s) fun a t => a = s ∧ t = s := by
      rintro _ _ ⟨⟩
      exact ⟨hsaved, rfl, rfl⟩
    unfold possibleArrow
    refine hget.bind ?_
    rintro _ saved - ⟨rfl, rfl⟩
    refine (gives_attempt_parenthesizedHead g _ hsaved).bind fun head m hm hhead => ?_
    cases head with
    | none => exact Ensures.pure hm hhead.1
    | some head =>
      have hfront := hhead.2 head rfl
      refine Ensures.bind ((of_arrowFrom g _ _ _ hfront).run hm) fun arrow u hu hle => ?_
      have hback : Ensures ((set saved >>= fun _ => pure none : Parser (Option Expr)) u)
          fun _ t => saved.lastStop ≤ t.lastStop := by
        rintro _ _ ⟨⟩
        exact ⟨hsaved, Nat.le_refl _⟩
      have hgo : Ensures ((pure (some arrow) : Parser (Option Expr)) u)
          fun _ t => saved.lastStop ≤ t.lastStop := Ensures.pure hu (Nat.le_trans hhead.1 hle)
      change Ensures ((if (!returnType && head.2.1 && !Token.isText u.token ":") = true then _
        else _ : Parser (Option Expr)) u) _
      exact Ensures.ite hback hgo

/-! ## Classes -/

instance : Forward (heritageType g) := by unfold heritageType; infer_instance
instance : Forward (heritageTypes g) := by unfold heritageTypes; infer_instance
instance : Forward (superClass g) := by unfold superClass; infer_instance
instance : Forward (heritage g) := by unfold heritage; infer_instance
instance : Forward memberModifiers := by unfold memberModifiers; infer_instance
instance : Forward (staticBlock g) := by unfold staticBlock; infer_instance
instance : Forward (classProperty g) := by unfold classProperty; infer_instance

instance : Forward (classMember g) := by
  unfold classMember
  repeat' first | infer_instance | refine andThen ?_ fun _ => ?_

instance : Forward (classBody g) := by unfold classBody; infer_instance

instance (self : Option (String × Span)) : Forward (classTail g self) := by
  unfold classTail
  repeat' first
    | infer_instance
    | refine of_inScope _ ?_
    | refine andThen ?_ fun _ => ?_
    | split

instance : Forward className := by unfold className; infer_instance

instance : Forward (classDeclaration g) := by
  unfold classDeclaration
  repeat' first | infer_instance | refine andThen ?_ fun _ => ?_ | split

instance : Forward (classExpression g) := by unfold classExpression; infer_instance

/-! ## Expressions -/

instance (e : Expr) : Forward (simpleTarget e) := by unfold simpleTarget; infer_instance

mutual

/-- Expressions that turn out to be targets are gone through once more, by their structure. -/
theorem of_target : ∀ e : Expr, Forward (target e)
  | .array items comma _ => by unfold target; exact of_targets comma items
  | .object values comma _ => by unfold target; exact of_targets comma values
  | .name _ _ | .member _ | .text _ | .spread _ _ | .hole | .withDefault _ | .assign _ | .paren _ _
  | .cast _ _ | .logical _ _ | .unary _ | .applied _ _ | .other _ => by
    unfold target
    infer_instance

theorem of_targets (comma : Option Nat) : ∀ es : List Expr, Forward (targets comma es)
  | [] => by unfold targets; infer_instance
  | e :: rest => by
    have he := of_target e
    have hrest := of_targets comma rest
    cases e with
    | spread inner _ =>
      have hinner := of_target inner
      unfold targets
      cases comma <;> infer_instance
    | _ =>
      unfold targets
      infer_instance

end

instance (e : Expr) : Forward (target e) := of_target e

instance : Forward (arguments g) := by unfold arguments; infer_instance
instance (tagged : Bool) : Forward (template g tagged) := by unfold template; infer_instance

instance : Forward atTemplate := by
  unfold atTemplate
  repeat' first | infer_instance | refine andThen ?_ fun _ => ?_ | split

instance : Forward (arrayElement g) := by unfold arrayElement; infer_instance
instance : Forward (arrayExpression g) := by unfold arrayExpression; infer_instance
instance : Forward atValueName := by unfold atValueName; infer_instance

instance : Forward (objectProperty g) := by
  unfold objectProperty
  repeat' first
    | infer_instance
    | refine of_gives (gives_propertyName g) fun _ hname => ?_
    | exact of_use _ _ (hname _ rfl)
    | refine andThen ?_ fun _ => ?_
    | split

instance : Forward (objectExpression g) := by unfold objectExpression; infer_instance

instance : Forward (parenthesized g) := by
  unfold parenthesized
  repeat' first | infer_instance | refine andThen ?_ fun _ => ?_ | split

instance : Forward (newExpression g) := by unfold newExpression; infer_instance

instance : Forward (importExpression g) := by
  unfold importExpression
  repeat' first | infer_instance | refine andThen ?_ fun _ => ?_

instance : Forward primary.regex := by unfold primary.regex; infer_instance

instance : Forward (primary g) := by
  unfold primary
  repeat' first | infer_instance | refine andThen ?_ fun _ => ?_ | split

instance : Forward atOperator := by unfold atOperator; infer_instance

instance : Forward startsExpression := by
  unfold startsExpression
  repeat' first | infer_instance | refine andThen ?_ fun _ => ?_ | split

instance : Forward (typeArgumentsInExpression g) := by
  unfold typeArgumentsInExpression
  repeat' first | infer_instance | refine of_attempt ?_ | refine andThen ?_ fun _ => ?_ | split

instance : Forward dottedName := by unfold dottedName; infer_instance
instance : Forward (bracketed g) := by unfold bracketed; infer_instance

instance (start : Nat) (left : Expr) (isOptional : Bool) :
    Forward (memberStep g start left isOptional) := by
  unfold memberStep
  infer_instance

instance (start n : Nat) (left : Expr) (isOptional : Bool) :
    Forward (membersUpTo g start n left isOptional) := by
  induction n generalizing left isOptional with
  | zero => exact inferInstanceAs (Forward (pure _))
  | succ n ih =>
    unfold membersUpTo
    repeat' first | infer_instance | refine andThen ?_ fun _ => ?_ | split

instance : Forward (memberExpression g) := by unfold memberExpression; infer_instance

instance (start n : Nat) (left : Expr) (isOptional : Bool) :
    Forward (callsUpTo g start n left isOptional) := by
  induction n generalizing left isOptional with
  | zero => exact inferInstanceAs (Forward (pure _))
  | succ n ih =>
    unfold callsUpTo
    infer_instance

instance : Forward (leftHandExpression g) := by unfold leftHandExpression; infer_instance
instance : Forward (updateExpression g) := by unfold updateExpression; infer_instance
instance : Forward operandFollows := by unfold operandFollows; infer_instance
instance : Forward (simpleUnary g) := by unfold simpleUnary; infer_instance
instance : Forward joinAngles := by unfold joinAngles; infer_instance

instance (least : Nat) : Forward (operatorAbove least) := by
  unfold operatorAbove
  repeat' first | infer_instance | refine andThen ?_ fun _ => ?_ | split

instance (operator : String) (left right : Expr) (span : Span) :
    Forward (binaryOf operator left right span) := by
  unfold binaryOf
  repeat' first | infer_instance | refine andThen ?_ fun _ => ?_ | split

instance (start least n : Nat) (left : Expr) : Forward (operatorsUpTo g start least n left) := by
  induction n generalizing left with
  | zero => exact inferInstanceAs (Forward (pure left))
  | succ n ih =>
    unfold operatorsUpTo
    repeat' first | infer_instance | refine andThen ?_ fun _ => ?_ | split

instance (least : Nat) : Forward (binaryExpression g least) := by
  unfold binaryExpression
  infer_instance

instance : Forward (yieldExpression g) := by unfold yieldExpression; infer_instance

instance (start : Nat) (left : Expr) (returnType : Bool) :
    Forward (assignmentRest g start left returnType) := by
  unfold assignmentRest
  infer_instance

instance (returnType : Bool) : Forward (arrowHere g returnType) := by
  unfold arrowHere
  repeat' first | infer_instance | refine andThen ?_ fun _ => ?_ | split

instance (returnType : Bool) : Forward (assignmentExpression g returnType) := by
  unfold assignmentExpression
  refine andThen inferInstance fun _ => andThen inferInstance fun _ => ?_
  refine andThen inferInstance fun _ => ?_
  split
  · infer_instance
  refine andThen inferInstance fun arrow => ?_
  split
  · infer_instance
  refine andThen inferInstance fun start => andThen inferInstance fun _ => ?_
  split
  · infer_instance
  refine of_gives Gives.get fun before hbefore => ?_
  refine andThen inferInstance fun left => andThen inferInstance fun _ => ?_
  split
  · exact andThen (of_modify_items hbefore.items_wide) fun _ => inferInstance
  · infer_instance

/-! ## Declarations -/

instance (reach : Reach) (constant : Bool) : Forward (declarator g reach constant) := by
  unfold declarator
  infer_instance

instance (reach : Reach) (constant strict : Bool) :
    Forward (declarators g reach constant strict) := by
  unfold declarators
  repeat' first | infer_instance | refine of_collect ?_ | refine andThen ?_ fun _ => ?_ | split

instance : Forward variableKind? := by unfold variableKind?; infer_instance

instance (kind : VariableKind) : Forward (variableStatement g kind) := by
  unfold variableStatement
  infer_instance

instance : Forward (usingVariables g) := by unfold usingVariables; infer_instance
instance : Forward startsUsing := by unfold startsUsing; infer_instance
instance : Forward (interfaceDeclaration g) := by unfold interfaceDeclaration; infer_instance
instance : Forward (typeAlias g) := by unfold typeAlias; infer_instance

instance : Forward (enumMemberName g) := by
  unfold enumMemberName
  repeat' first | infer_instance | refine andThen ?_ fun _ => ?_ | split

instance : Forward (enumDeclaration g) := by unfold enumDeclaration; infer_instance

instance : Forward (namespaceBlock g) := by
  unfold namespaceBlock
  repeat' first | infer_instance | refine of_collect ?_ | refine andThen ?_ fun _ => ?_ | split

instance (n : Nat) : Forward (namespaceFrom g n) := by
  induction n with
  | zero => exact inferInstanceAs (Forward unexpected)
  | succ n ih =>
    refine andThen inferInstance fun _ => of_gives (Gives.capture inferInstance) fun _ hitems => ?_
    refine andThen inferInstance fun _ => ?_
    exact andThen (of_emit (.scope .body (by simp) hitems)) fun _ => inferInstance

instance : Forward (namespaceDeclaration g) := by unfold namespaceDeclaration; infer_instance
instance : Forward startsDeclaration := by unfold startsDeclaration; infer_instance
instance : Forward startsClass := by unfold startsClass; infer_instance

instance : Forward (plainDeclaration g) := by
  unfold plainDeclaration
  repeat' first | infer_instance | refine andThen ?_ fun _ => ?_ | split

instance : Forward (declaration g) := by
  unfold declaration
  repeat' first | infer_instance | refine andThen ?_ fun _ => ?_ | split

/-! ## Imports and exports -/

instance : Forward moduleName := by unfold moduleName; infer_instance
instance : Forward (attributes g) := by unfold attributes; infer_instance
instance : Forward atModuleName := by unfold atModuleName; infer_instance

theorem gives_readModuleName :
    Gives readModuleName fun name => name.span.start < name.span.stop := by
  intro s hs
  change Ensures ((if (Token.isName s.token || s.token.kind == .string) = true then _ else _ :
    Parser ModuleName) s) _
  by_cases hname : (Token.isName s.token || s.token.kind == .string) = true
  · rw [if_pos hname]
    simp only [Token.isName, Bool.or_eq_true, beq_iff_eq] at hname
    have hsolid : s.token.Solid := hname.imp_right .inl
    refine (ensures_advance hs).bind fun _ t ht hlast => Ensures.pure ht ⟨?_, ?_⟩
    · exact hlast ▸ Nat.le_trans hs.last_le_start hs.start_le_stop
    · exact hs.start_lt_stop hsolid
  · rw [if_neg hname]
    exact Ensures.unexpected_bind _

instance : Forward readModuleName := gives_readModuleName.forward

theorem gives_specifierRest (typeOnly : Bool) {first : ModuleName}
    (hfirst : first.span.start < first.span.stop) :
    Gives (specifierRest typeOnly first) fun entry =>
      entry.first.span.start < entry.first.span.stop := by
  refine Gives.andThen inferInstance fun _ => Gives.ite ?_ (Gives.pure hfirst)
  exact Gives.andThen inferInstance fun _ => Gives.pure hfirst

theorem gives_specifier :
    Gives specifier fun entry => entry.first.span.start < entry.first.span.stop := by
  refine gives_readModuleName.bind fun first hfirst => Gives.ite ?_ ?_
  · exact gives_specifierRest _ hfirst
  refine Gives.andThen inferInstance fun _ => Gives.ite ?_ ?_
  · refine gives_readModuleName.bind fun second hsecond => ?_
    refine Gives.andThen inferInstance fun _ => Gives.ite ?_ ?_
    · refine Gives.andThen inferInstance fun _ => Gives.andThen inferInstance fun _ => ?_
      refine Gives.ite (Gives.andThen inferInstance fun _ => ?_) ?_
      · exact Gives.pure hsecond
      · exact Gives.pure hfirst
    · refine Gives.andThen inferInstance fun _ => Gives.ite ?_ (Gives.pure hsecond)
      exact Gives.andThen inferInstance fun _ => Gives.pure hfirst
  · refine Gives.andThen inferInstance fun _ => Gives.ite ?_ (Gives.pure hfirst)
    exact gives_readModuleName.bind fun _ hname => gives_specifierRest _ hname

instance : Forward specifier := gives_specifier.forward

instance (typeOnly : Bool) (name : ModuleName) : Forward (declareImport typeOnly name) := by
  unfold declareImport
  infer_instance

instance (typeOnly : Bool) : Forward (importList typeOnly) := by unfold importList; infer_instance

instance (typeOnly : Bool) : Forward (importNames typeOnly) := by
  unfold importNames
  infer_instance

instance : Forward (importSource g) := by unfold importSource; infer_instance

instance (name : String) (span : Span) (typeOnly : Bool) :
    Forward (importEquals name span typeOnly) := by
  refine andThen inferInstance fun _ => andThen inferInstance fun _ => ?_
  refine andThen inferInstance fun _ => andThen inferInstance fun _ => ?_
  dsimp only
  split
  · infer_instance
  · refine of_gives Gives.bindingName fun name hname => ?_
    exact andThen (of_use name.1 .value hname) fun _ => inferInstance

instance : Forward importsTypes := by unfold importsTypes; infer_instance
instance : Forward importsInPhase := by unfold importsInPhase; infer_instance

instance (typeOnly : Bool) : Forward (importClause g typeOnly) := by
  unfold importClause
  infer_instance

instance : Forward (importDeclaration g) := by unfold importDeclaration; infer_instance

instance (typeOnly : Bool) : Forward (exportList g typeOnly) := by
  refine andThen inferInstance fun _ => ?_
  refine of_gives (gives_specifier.separated _) fun found hfound => ?_
  refine andThen inferInstance fun _ => andThen inferInstance fun _ => ?_
  dsimp only
  split
  · infer_instance
  · refine andThen (of_forIn fun entry hentry _ => ?_) fun _ => inferInstance
    have huse := of_use entry.first.text
      (if (typeOnly || entry.typeOnly) = true then .type else .any) (hfound entry hentry)
    infer_instance

instance : Forward (exportAll g) := by unfold exportAll; infer_instance

instance : Forward (exportedExpression g) :=
  of_gives (Gives.capture inferInstance) fun _ hitems => of_emitAs _ hitems

instance : Forward (exportDefault g) := by unfold exportDefault; infer_instance

instance : Forward (exportDeclaration g) := by
  unfold exportDeclaration
  repeat' first | infer_instance | refine andThen ?_ fun _ => ?_ | split

/-! ## Statements -/

instance (place : Place) : Forward (subStatement g place) := by unfold subStatement; infer_instance
instance : Forward (condition g) := by unfold condition; infer_instance
instance : Forward (block g) := by unfold block; infer_instance
instance : Forward (ifStatement g) := by unfold ifStatement; infer_instance
instance : Forward (doStatement g) := by unfold doStatement; infer_instance
instance : Forward (whileStatement g) := by unfold whileStatement; infer_instance
instance : Forward (loopRest g) := by unfold loopRest; infer_instance
instance : Forward (loopOver g) := by unfold loopOver; infer_instance
instance : Forward startsLoopVariables := by unfold startsLoopVariables; infer_instance

instance : Forward (loopVariables g) := by
  unfold loopVariables
  repeat' first
    | infer_instance
    | refine of_forIn fun _ _ _ => ?_
    | refine andThen ?_ fun _ => ?_
    | split

instance : Forward (loopHead g) := by unfold loopHead; infer_instance
instance : Forward (forStatement g) := by unfold forStatement; infer_instance
instance : Forward jumpStatement := by unfold jumpStatement; infer_instance
instance : Forward (returnStatement g) := by unfold returnStatement; infer_instance
instance : Forward (throwStatement g) := by unfold throwStatement; infer_instance
instance : Forward (caseBody g) := by unfold caseBody; infer_instance
instance : Forward (switchStatement g) := by unfold switchStatement; infer_instance
instance : Forward (catchClause g) := by unfold catchClause; infer_instance
instance : Forward (tryStatement g) := by unfold tryStatement; infer_instance

instance : Forward (expressionStatement g) := by
  unfold expressionStatement
  refine of_gives Gives.get fun before hbefore => ?_
  refine andThen inferInstance fun value => andThen inferInstance fun _ => ?_
  split
  · exact andThen (of_modify_items hbefore.items_wide) fun _ => inferInstance
  · infer_instance
  · infer_instance

instance (place : Place) : Forward (letDeclares place) := by unfold letDeclares; infer_instance
instance : Forward (decorated g) := by unfold decorated; infer_instance

instance (place : Place) : Forward (declarationHere g place) := by
  unfold declarationHere
  repeat' first | infer_instance | refine andThen ?_ fun _ => ?_ | split

instance (place : Place) : Forward (statement g place) := by
  unfold statement
  repeat' first | infer_instance | refine andThen ?_ fun _ => ?_ | split

end Productions

instance (n : Nat) {α : Type} (goal : Goal α) : Forward (grammar n goal) := by
  induction n generalizing α with
  | zero => exact inferInstanceAs (Forward unexpected)
  | succ n ih => cases goal <;> unfold grammar <;> infer_instance

end Forward

end Parser

end ZodGen.Script
