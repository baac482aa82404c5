import ZodGen.Text.Utf8
import ZodGen.Json.Reader

/-!
# Percent-encoded text

A run of `%XX` triplets stands for bytes, and the bytes for characters. All other characters stand
for themselves, also a `%` that no two hexadecimal digits follow. A raw character never completes
the bytes of a run, so each run is read on its own.
-/

namespace ZodGen.Text.Percent

/-- A triplet at the start of the text, as its byte. -/
def triplet? : List Char → Option (Nat × List Char)
  | '%' :: a :: b :: rest =>
    match Json.hexValue? a, Json.hexValue? b with
    | some a, some b => some (a * 16 + b, rest)
    | _, _ => none
  | _ => none

/-- Decodes a text; `run` holds the bytes of the run that is being read, last first. -/
def decodeFrom (run : List Nat) : List Char → List Char
  | [] => Utf8.decode run.reverse
  | c :: cs =>
    match h : triplet? (c :: cs) with
    | some (b, rest) =>
      have : rest.length < cs.length + 1 := by
        unfold triplet? at h
        repeat' split at h
        all_goals simp_all
        omega
      decodeFrom (b :: run) rest
    | none => Utf8.decode run.reverse ++ c :: decodeFrom [] cs
termination_by cs => cs.length

/-- The text that a percent-encoded text stands for. -/
def decode (cs : List Char) : List Char := decodeFrom [] cs

end ZodGen.Text.Percent
