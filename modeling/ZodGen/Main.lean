import ZodGen.Command.Run

/-!
# The command line
-/

namespace ZodGen

/-- The refusal that an error of the system stands for. -/
def Refusal.ofError : IO.Error → Refusal
  | .noFileOrDirectory _ _ _ => .notFound
  | .alreadyExists _ _ _ => .exists_
  | .inappropriateType _ code details =>
    if code == 21 then .isDirectory
    else if code == 20 then .notDirectory
    else .other (details ++ " (os error " ++ toString code ++ ")")
  | e => .other (toString e)

/-- Runs an action and takes its errors for refusals. -/
def refusing {α : Type} (action : IO α) : IO (Except Refusal α) :=
  try
    return .ok (← action)
  catch e => return .error (.ofError e)

def writeToDisk (path text : String) : IO Unit := do
  let parent := "/".intercalate (Storage.parentNames path)
  let parent := if Storage.isAbsolute path then "/" ++ parent else parent
  if !parent.isEmpty then IO.FS.createDirAll parent
  IO.FS.writeFile path text

def disk : Storage IO where
  read path := do
    match ← refusing (IO.FS.readBinFile path) with
    | .error r => return .error r
    | .ok bytes =>
      match String.fromUTF8? bytes with
      | some text => return .ok text
      | none => return .error .notText
  write path text := refusing (writeToDisk path text)

end ZodGen

open ZodGen in
def main (args : List String) : IO UInt32 := do
  let exported ← IO.getEnv Command.exportVariable
  let kept ← IO.getEnv Command.keepVariable
  let env (name : String) : Option String :=
    if name = Command.exportVariable then exported
    else if name = Command.keepVariable then kept
    else none
  let exit ← Command.run disk args env
  IO.print exit.output
  IO.eprint exit.errors
  return exit.status.toUInt32
