import ZodGen.Error
import ZodGen.Json.Reader
import ZodGen.Validator.Basic

/-!
# Response keys

A response stands under a status code, a class of codes such as `4XX`, or `default`.
-/

namespace ZodGen.Operation

/-- What a response key stands for. -/
inductive Status where
  | code (n : Nat)
  | range (class_ : Nat)
  | default
  deriving DecidableEq, Repr

/-- A decimal number below 65536, leading zeros allowed. -/
def code? (cs : List Char) : Option Nat :=
  if cs.isEmpty || !cs.all Char.isDigit || Json.ofDigits cs ≥ 65536 then none
  else some (Json.ofDigits cs)

/-- A digit from 1 to 5 and two letters x. -/
def class? : List Char → Option Nat
  | [d, a, b] =>
    if '1' ≤ d ∧ d ≤ '5' ∧ (a = 'x' ∨ a = 'X') ∧ (b = 'x' ∨ b = 'X') then
      some (d.toNat - '0'.toNat)
    else none
  | _ => none

def classify (key : String) : Outcome Status :=
  if key = "default" then .ok .default
  else match code? key.toList, class? key.toList with
    | some n, _ => .ok (.code n)
    | none, some c => .ok (.range c)
    | none, none => fail .unsupportedStatusCode key

/-- A number between two bounds. -/
def between (low high : Nat) : Validator :=
  .plain (.number ⟨some (.int low), some (.int high)⟩)

/-- Which status codes a response is for. -/
def Status.validator : Status → Validator
  | .code n => .plain (.literal (.num (.int n)))
  | .range c => between (c * 100) (c * 100 + 99)
  | .default => between 100 599

end ZodGen.Operation
