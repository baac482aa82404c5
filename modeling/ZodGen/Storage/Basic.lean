import ZodGen.Error

/-!
# Where files are kept

Commands read and write files through a `Storage`, which says how that is done: on a disk, or in
memory.
-/

namespace ZodGen

/-- Why a file cannot be read or written. -/
inductive Refusal where
  | notFound
  | exists_
  | notDirectory
  | isDirectory
  | nameTooLong
  | zeroInName
  | notText
  /-- Any other reason, in the words of the system. -/
  | other (text : String)
  deriving DecidableEq, Repr

/-- The words for a refusal, with the number that the system gives it. -/
def Refusal.text : Refusal → String
  | .notFound => "No such file or directory (os error 2)"
  | .exists_ => "File exists (os error 17)"
  | .notDirectory => "Not a directory (os error 20)"
  | .isDirectory => "Is a directory (os error 21)"
  | .nameTooLong => "File name too long (os error 36)"
  | .zeroInName => "file name contained an unexpected NUL byte"
  | .notText => "stream did not contain valid UTF-8"
  | .other text => text

/-- How files are read and written. -/
structure Storage (m : Type → Type) where
  /-- The text of a file. -/
  read : String → m (Except Refusal String)
  /-- Writes a file in place of any before it, and makes the directories around it. -/
  write : String → String → m (Except Refusal Unit)

namespace Storage

variable {m : Type → Type} [Monad m]

/-- An error for a refusal. -/
def outcome {α : Type} : Except Refusal α → Outcome α
  | .ok a => .ok a
  | .error r => fail .io r.text

def readText (s : Storage m) (path : String) : ExceptT Error m String :=
  ExceptT.mk (do return outcome (← s.read path))

def writeText (s : Storage m) (path text : String) : ExceptT Error m Unit :=
  ExceptT.mk (do return outcome (← s.write path text))

end Storage

end ZodGen
