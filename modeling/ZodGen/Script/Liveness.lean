import ZodGen.Script.Symbol

/-!
# Bindings that a script still needs

A binding is a declarator of a variable declaration that may be cut. Names used outside of all
bindings are seeds. A binding is live when one of its names is a seed, or is used in a live binding.
The search for live bindings goes out from the seeds and keeps the bindings not reached yet, so it
ends.
-/

namespace ZodGen.Script

/-- A declarator that may be cut. -/
structure Binding where
  /-- The statement it is in, and its place there. -/
  statement : Nat
  declarator : Nat
  span : Span
  names : List String
  /-- The names of the script that it uses. -/
  references : List String
  deriving DecidableEq, Repr

/-- Whether a binding has one of the names. -/
def Binding.declares (b : Binding) (names : List String) : Bool := b.names.any names.contains

/-- Bindings of a script in order, and the names used outside of them. -/
structure Liveness where
  seeds : List String
  bindings : List Binding
  deriving DecidableEq, Repr

namespace Liveness

/-- Declarators that may be cut, with their statements and places. -/
def declarators (statements : List (Option Declaration)) : List (Nat × Nat × Span) :=
  statements.zipIdx.flatMap fun (statement, i) =>
    match statement with
    | some d => d.declarators.zipIdx.map fun (span, j) => (i, j, span)
    | none => []

/-- How many of the ranges at the front pass a test, if none behind them does: bisects the `size`
ranges from `low` on. -/
@[semireducible]
def bisect (test : Span → Bool) (ranges : List Span) (low size : Nat) : Nat :=
  if size = 0 then low
  else
    let mid := low + size / 2
    if (ranges[mid]?).any test then bisect test ranges (mid + 1) (size - size / 2 - 1)
    else bisect test ranges low (size / 2)
termination_by size
decreasing_by all_goals omega

/-- Where the range that holds `s` stands among ranges in order: it is the last that does not start
behind `s`. -/
def ownerAt? (ranges : List Span) (s : Span) : Option Nat :=
  match bisect (·.start ≤ s.start) ranges 0 ranges.length with
  | 0 => none
  | i + 1 => if (ranges[i]?).any (s.stop ≤ ·.stop) then some i else none

/-- The range that holds `s`, of ranges in order. -/
def owner (ranges : List Span) (s : Span) : Option Span :=
  (ownerAt? ranges s).bind (ranges[·]?)

/-- A symbol by the ranges that declare and use it. -/
structure Placed where
  name : String
  home : Option Span
  users : List (Option Span)

def place (ranges : List Span) (s : Symbol) : Placed :=
  ⟨s.name, owner ranges s.span, s.uses.map (owner ranges)⟩

/-- The names used in a range, or outside of all ranges. -/
def usedIn (range : Option Span) (symbols : List Placed) : List String :=
  (symbols.filter fun s => s.users.contains range).map (·.name)

def declaredIn (range : Span) (symbols : List Placed) : List String :=
  (symbols.filter fun s => s.home == some range).map (·.name)

def ofProgram (p : Program) : Liveness :=
  let declarators := declarators p.statements
  let symbols := (Symbol.ofItems p.items).map (place (declarators.map (·.2.2)))
  { seeds := usedIn none symbols
    bindings := declarators.map fun (statement, declarator, span) =>
      { statement, declarator, span, names := declaredIn span symbols,
        references := usedIn (some span) symbols } }

/-- The bindings that have one of the names. -/
def hit (names : List String) (bs : List Binding) : List Binding := bs.filter (·.declares names)

/-- The bindings that have none of the names. -/
def missed (names : List String) (bs : List Binding) : List Binding :=
  bs.filter (!·.declares names)

theorem length_missed_lt {names : List String} {bs : List Binding} (h : hit names bs ≠ []) :
    (missed names bs).length < bs.length := by
  obtain ⟨b, hb⟩ := List.exists_mem_of_ne_nil _ h
  obtain ⟨hm, hd⟩ := List.mem_filter.1 hb
  unfold missed
  rw [List.length_filter_lt_length_iff_exists]
  exact ⟨b, hm, by simp [hd]⟩

/-- All names reached from `names` through bindings not reached yet. -/
def reach (names : List String) (pending : List Binding) : List String :=
  if _h : hit names pending = [] then names
  else names ++ reach ((hit names pending).flatMap (·.references)) (missed names pending)
termination_by pending.length
decreasing_by exact length_missed_lt _h

/-- The names that the script still needs. -/
def reached (l : Liveness) : List String := reach l.seeds l.bindings

/-- The bindings of a statement, each with whether it is live, in order. -/
def flags (l : Liveness) (statement : Nat) : List Bool :=
  let names := l.reached
  (l.bindings.filter (·.statement == statement)).map (·.declares names)

/-- Whether a live binding has this name. -/
def isLive (l : Liveness) (name : String) : Bool :=
  let names := l.reached
  l.bindings.any fun b => b.declares names && b.names.contains name

end Liveness

end ZodGen.Script
