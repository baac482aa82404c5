import ZodGen.Json.Basic
import ZodGen.Script.Scope

/-!
# Which declaration a name means

`Symbol.ofItems` gives the symbols of a script's outermost scope with the places that use them. A
name used in a scope means the symbol of that name in the scope, if the symbol stands for what the
use asks for; otherwise it means what it would mean around the scope. Names used in a header are
looked up when the header ends, all others when their scope ends, so a declaration may stand behind
its uses.
-/

namespace ZodGen.Script

/-- A declared name. All declarations of a name in one scope make one symbol, placed at the
first. -/
structure Symbol where
  name : String
  span : Span
  meaning : Meaning
  /-- Where it is used. -/
  uses : List Span
  deriving Repr

/-- A name that is used and not looked up yet. -/
structure Pending where
  name : String
  span : Span
  use : Use

/-- A scope that is being read. Symbols are numbers. -/
structure Frame where
  kind : ScopeKind
  bindings : List (String × Nat) := []
  /-- Names declared inside that live farther out. -/
  hoisted : List (String × Nat) := []
  pending : List Pending := []

namespace Frame

/-- The symbol that another declaration of the name would join. -/
def find? (f : Frame) (name : String) : Option Nat :=
  (Assoc.get? name f.bindings).or (Assoc.get? name f.hoisted)

def bind (f : Frame) (name : String) (id : Nat) : Frame :=
  { f with bindings := Assoc.set name id f.bindings }

def unbind (f : Frame) (name : String) : Frame :=
  { f with bindings := f.bindings.filter (·.1 != name) }

def hoist (f : Frame) (name : String) (id : Nat) : Frame :=
  { f with hoisted := (name, id) :: f.hoisted }

def wait (f : Frame) (ps : List Pending) : Frame := { f with pending := ps ++ f.pending }

end Frame

/-- Removes a name from the first of the scopes that knows it. -/
def unbindFirst (name : String) : List Frame → List Frame
  | [] => []
  | f :: fs => if (f.find? name).isSome then f.unbind name :: fs else f :: unbindFirst name fs

/-- How far a script is read: all symbols, the scope at hand and those around it. -/
structure Resolution where
  symbols : Array Symbol := #[]
  scope : Frame
  outer : List Frame := []

namespace Resolution

/-- Declares a name in one scope. Gives its symbol. -/
def declareIn (symbols : Array Symbol) (f : Frame) (name : String) (span : Span)
    (meaning : Meaning) : Array Symbol × Frame × Nat :=
  match f.find? name with
  | some id => (symbols.modify id fun s => { s with meaning := s.meaning.union meaning }, f, id)
  | none => (symbols.push ⟨name, span, meaning, []⟩, f.bind name symbols.size, symbols.size)

/-- Declares a name in the function or module around. A symbol of that name in a scope on the way
moves there. -/
def declareHoisted (symbols : Array Symbol) (passed : List Frame) (target : Frame) (name : String)
    (span : Span) (meaning : Meaning) : Array Symbol × List Frame × Frame :=
  match passed.findSome? (·.find? name) with
  | some id =>
    (symbols.modify id fun s => { s with meaning := s.meaning.union meaning },
      (unbindFirst name passed).map (·.hoist name id), target.bind name id)
  | none =>
    let (symbols, target, id) := declareIn symbols target name span meaning
    (symbols, passed.map (·.hoist name id), target)

/-- Puts scopes back, the innermost first. -/
def ofFrames (symbols : Array Symbol) (fallback : Resolution) : List Frame → Resolution
  | [] => fallback
  | f :: fs => ⟨symbols, f, fs⟩

/-- Declares a name in the scope at hand, or farther out. -/
def declare (r : Resolution) (name : String) (span : Span) (meaning : Meaning) :
    Reach → Resolution
  | .block =>
    let (symbols, scope, _) := declareIn r.symbols r.scope name span meaning
    { r with symbols, scope }
  | .hoisted =>
    match (r.scope :: r.outer).span (·.kind != .body) with
    | (passed, target :: rest) =>
      let (symbols, passed, target) := declareHoisted r.symbols passed target name span meaning
      ofFrames symbols r (passed ++ target :: rest)
    | (_, []) => r
  | .conditional =>
    match (r.scope :: r.outer).span (·.kind != .conditional) with
    | (passed, target :: rest) =>
      let (symbols, target, _) := declareIn r.symbols target name span meaning
      ofFrames symbols r (passed ++ target :: rest)
    | (_, []) =>
      let (symbols, scope, _) := declareIn r.symbols r.scope name span meaning
      { r with symbols, scope }

/-- The symbol of a scope that a pending use means. -/
def meant? (symbols : Array Symbol) (f : Frame) (p : Pending) : Option Nat := do
  let id ← Assoc.get? p.name f.bindings
  let s ← symbols[id]?
  if s.meaning.admits p.use then some id else none

/-- Looks up pending uses in a scope. Gives those that are not found. -/
def lookUp (f : Frame) : List Pending → Array Symbol → Array Symbol × List Pending
  | [], symbols => (symbols, [])
  | p :: ps, symbols =>
    match meant? symbols f p with
    | some id => lookUp f ps (symbols.modify id fun s => { s with uses := p.span :: s.uses })
    | none =>
      let (symbols, rest) := lookUp f ps symbols
      (symbols, p :: rest)

def enter (r : Resolution) (kind : ScopeKind) : Resolution :=
  { r with scope := { kind }, outer := r.scope :: r.outer }

/-- Looks up what is pending in the scope at hand; what is not found waits in the scope around. -/
def settle (r : Resolution) : Resolution :=
  let (symbols, rest) := lookUp r.scope r.scope.pending r.symbols
  let scope := { r.scope with pending := [] }
  match r.outer with
  | [] => { r with symbols, scope }
  | f :: fs => { symbols, scope, outer := f.wait rest :: fs }

def leave (r : Resolution) : Resolution :=
  match r.settle with
  | ⟨symbols, _, f :: fs⟩ => ⟨symbols, f, fs⟩
  | r => r

mutual

def read (r : Resolution) : Item → Resolution
  | .declare name span meaning reach => r.declare name span meaning reach
  | .use name span use => { r with scope := r.scope.wait [⟨name, span, use⟩] }
  | .scope kind header body =>
    let r := readAll (r.enter kind) header
    (readAll r.settle body).leave

def readAll (r : Resolution) : List Item → Resolution
  | [] => r
  | item :: items => readAll (r.read item) items

end

end Resolution

/-- The symbols of the outermost scope, in the order in which the scope has them. -/
def Symbol.declared (items : List Item) : List Symbol :=
  let r := (Resolution.readAll { scope := { kind := .body } } items).settle
  r.scope.bindings.filterMap fun (_, id) => r.symbols[id]?

/-- The symbols of the outermost scope, in the order of the text. -/
def Symbol.ofItems (items : List Item) : List Symbol :=
  (Symbol.declared items).mergeSort fun a b => a.span.start ≤ b.span.start

theorem Symbol.mem_ofItems {items : List Item} {s : Symbol} :
    s ∈ Symbol.ofItems items ↔ s ∈ Symbol.declared items :=
  List.mem_mergeSort

end ZodGen.Script
