import ZodGen.Command.Run
import ZodGen.Proofs.Outcome
import ZodGen.Storage.Memory

/-!
# What a run writes

A command reads its input, makes all its files of the text, and only then writes them one after the
other (`execute_eq`). So a run that cannot read its input, or whose input cannot be made into all of
the files, leaves every file as it was (`kept_of_failsBeforeWriting`).
-/

namespace ZodGen

open Storage (Memory)

/-! ## Programs with a state -/

section Steps

variable {σ α β : Type} {x : ExceptT Error (StateM σ) α} {f : α → ExceptT Error (StateM σ) β}
  {st st' : σ}

theorem run_bind_of_ok {a : α} (h : x.run.run st = (.ok a, st')) :
    (x >>= f).run.run st = (f a).run.run st' := by
  show (do let p ← x.run.run st; (ExceptT.bindCont f p.1).run p.2 : Id _) = _
  rw [h]
  rfl

theorem run_bind_of_error {e : Error} (h : x.run.run st = (.error e, st')) :
    (x >>= f).run.run st = (.error e, st') := by
  show (do let p ← x.run.run st; (ExceptT.bindCont f p.1).run p.2 : Id _) = _
  rw [h]
  rfl

end Steps

namespace Command

/-! ## The files of a command -/

/-- The path of the file that a command reads. -/
def input : Command → String
  | .compile input _ _ => input
  | .split input _ => input
  | .generate input _ _ => input
  | .prune input _ => input

/-- The files for the paths of a document. -/
def partFiles (directory extension : String) (parts : List (String × String)) :
    List (String × String) :=
  parts.map fun part => (Storage.join directory (Document.fileStem part.1 ++ extension), part.2)

/-- The files that a command makes of the text it has read, in the order in which it writes them. -/
def files : Command → String → Outcome (List (String × String))
  | .compile _ output options, text => do
    .ok [(output, ← Module.generate (← Document.parse text) options)]
  | .split _ directory, text => do
    let parts ← Document.split (← Document.parse text)
    .ok (partFiles directory ".json" (parts.map fun part => (part.1, Json.pretty part.2)))
  | .generate _ directory options, text => do
    .ok (partFiles directory ".ts" (← Module.generatePaths (← Document.parse text) options))
  | .prune _ output, text => do .ok [(output, ← Script.prune text)]

/-- What a command says when it has written so many files. -/
def done : Command → Nat → String
  | .compile _ output _, _ => "Zod schemas written to " ++ output
  | .split _ directory, count => "Split " ++ toString count ++ " paths into " ++ directory
  | .generate _ directory _, count => "Generated " ++ toString count ++ " modules in " ++ directory
  | .prune _ output, _ => "Pruned module written to " ++ output

section Execute

variable {m : Type → Type} [Monad m] {α β γ : Type}

theorem writeParts_eq (s : Storage m) (directory extension : String)
    (parts : List (String × String)) : writeParts s directory extension parts
      = (partFiles directory extension parts).forM fun f => s.writeText f.1 f.2 := by
  induction parts with
  | nil => rfl
  | cons part parts ih =>
    show (s.writeText _ _ >>= fun _ => writeParts s directory extension parts) = _
    rw [ih]
    rfl

variable [LawfulMonad m]

theorem readDocument_bind (s : Storage m) (path : String) (f : Value → ExceptT Error m α) :
    readDocument s path >>= f
      = s.readText path >>= fun text => lift (Document.parse text) >>= f :=
  bind_assoc _ _ _

theorem lift_ok_bind (a : α) (f : α → ExceptT Error m β) : (lift (.ok a) >>= f) = f a := by
  simp [lift, bind, ExceptT.bind, ExceptT.mk, ExceptT.bindCont]

theorem lift_bind_bind (r : Outcome α) (f : α → Outcome β) (g : β → ExceptT Error m γ) :
    lift (r >>= f) >>= g = lift r >>= fun a => lift (f a) >>= g := by
  cases r <;> simp [lift, bind, ExceptT.bind, ExceptT.mk, ExceptT.bindCont, Except.bind]

theorem forM_singleton (s : Storage m) (path text message : String) :
    (do [(path, text)].forM fun f => s.writeText f.1 f.2; return message : ExceptT Error m String)
      = s.writeText path text >>= fun _ => pure message := by
  show ((s.writeText path text >>= fun _ => pure PUnit.unit) >>= fun _ => pure message) = _
  rw [bind_assoc]
  exact bind_congr fun _ => pure_bind _ _

/-- A command reads its input, makes all files of it, and only then writes them one by one. -/
theorem execute_eq (s : Storage m) (c : Command) : execute s c = do
    let text ← s.readText c.input
    let files ← lift (c.files text)
    files.forM fun f => s.writeText f.1 f.2
    return c.done files.length := by
  cases c with
  | compile input output options =>
    rw [execute, readDocument_bind]
    refine bind_congr fun text => ?_
    rw [files, lift_bind_bind]
    refine bind_congr fun doc => ?_
    rw [lift_bind_bind]
    refine bind_congr fun code => ?_
    rw [lift_ok_bind, forM_singleton]
    rfl
  | split input directory =>
    rw [execute, readDocument_bind]
    refine bind_congr fun text => ?_
    rw [files, lift_bind_bind]
    refine bind_congr fun doc => ?_
    rw [lift_bind_bind]
    refine bind_congr fun parts => ?_
    rw [lift_ok_bind, writeParts_eq, partFiles, List.length_map, List.length_map]
    rfl
  | generate input directory options =>
    rw [execute, readDocument_bind]
    refine bind_congr fun text => ?_
    rw [files, lift_bind_bind]
    refine bind_congr fun doc => ?_
    rw [lift_bind_bind]
    refine bind_congr fun parts => ?_
    rw [lift_ok_bind, writeParts_eq, partFiles, List.length_map]
    rfl
  | prune input output =>
    rw [execute]
    refine bind_congr fun text => ?_
    rw [files, lift_bind_bind]
    refine bind_congr fun code => ?_
    rw [lift_ok_bind, forM_singleton]
    rfl

end Execute

end Command

/-! ## Runs in memory -/

/-- Writes files one after another, up to the first that is refused. -/
def Storage.Memory.writeAll (d : Memory) : List (String × String) → Outcome Unit × Memory
  | [] => (.ok (), d)
  | f :: fs =>
    match d.write f.1 f.2 with
    | (.ok _, d) => writeAll d fs
    | (.error r, d) => (fail .io r.text, d)

namespace Command

section Runs

variable {c : Command} {d : Memory}

/-- The files that a command makes of its input in memory. -/
def outputs (c : Command) (d : Memory) : Outcome (List (String × String)) := do
  c.files (← Storage.outcome (d.read c.input))

/-- The input cannot be read, or something that the command makes of it is an error. -/
def FailsBeforeWriting (c : Command) (d : Memory) : Prop :=
  (∃ r, d.read c.input = .error r)
    ∨ ∃ text e, d.read c.input = .ok text ∧ c.files text = .error e

/-- A command fails before it writes exactly if it does not get to its files. -/
theorem failsBeforeWriting_iff : c.FailsBeforeWriting d ↔ ∃ e, c.outputs d = .error e := by
  unfold FailsBeforeWriting outputs
  rcases d.read c.input with r | text <;> simp [Storage.outcome, fail]

theorem run_writes : ∀ (fs : List (String × String)) (d : Memory),
    (fs.forM fun f => Memory.storage.writeText f.1 f.2).run.run d = d.writeAll fs
  | [], _ => rfl
  | f :: fs, d => by
    have hstep : (Memory.storage.writeText f.1 f.2).run.run d
        = (Storage.outcome (d.write f.1 f.2).1, (d.write f.1 f.2).2) := rfl
    show (Memory.storage.writeText f.1 f.2 >>= fun _ =>
      fs.forM fun f => Memory.storage.writeText f.1 f.2).run.run d = _
    rw [Storage.Memory.writeAll]
    rcases hw : d.write f.1 f.2 with ⟨r | u, d'⟩ <;> rw [hw] at hstep
    · exact run_bind_of_error hstep
    · rw [run_bind_of_ok hstep]
      exact run_writes fs d'

/-- A command that does not get to its files changes nothing. -/
theorem execute_of_error {e : Error} (h : c.outputs d = .error e) :
    (execute Memory.storage c).run.run d = (.error e, d) := by
  have hread : (Memory.storage.readText c.input).run.run d
      = (Storage.outcome (d.read c.input), d) := rfl
  rw [execute_eq]
  unfold outputs at h
  rcases hr : Storage.outcome (d.read c.input) with e' | text <;> rw [hr] at h hread
  · cases h
    exact run_bind_of_error hread
  · have hfiles : (lift (m := StateM Memory) (c.files text)).run.run d = (.error e, d) :=
      congrArg (·, d) h
    rw [run_bind_of_ok hread]
    exact run_bind_of_error hfiles

/-- A command that gets to its files writes them, up to the first that is refused. -/
theorem execute_of_ok {fs : List (String × String)} (h : c.outputs d = .ok fs) :
    (execute Memory.storage c).run.run d
      = ((d.writeAll fs).1.map fun _ => c.done fs.length, (d.writeAll fs).2) := by
  obtain ⟨text, htext, hfs⟩ := Outcome.bind_eq_ok.1 h
  have hread : (Memory.storage.readText c.input).run.run d = (.ok text, d) := congrArg (·, d) htext
  have hfiles : (lift (m := StateM Memory) (c.files text)).run.run d = (.ok fs, d) :=
    congrArg (·, d) hfs
  have hwrites := run_writes fs d
  rw [execute_eq, run_bind_of_ok hread, run_bind_of_ok hfiles]
  rcases hw : d.writeAll fs with ⟨e | u, d'⟩ <;> rw [hw] at hwrites
  · exact run_bind_of_error hwrites
  · rw [run_bind_of_ok hwrites]
    rfl

/-- How a run ends when its command has given a result. -/
def exitOf : Outcome String → Exit
  | .ok message => { status := 0, output := message ++ "\n" }
  | .error e => { status := 1, errors := "Error: " ++ e.message ++ "\n" }

theorem run_of_parse {args : List String} {env : String → Option String}
    (h : parse? args env = some c) : (run Memory.storage args env).run d
      = (exitOf ((execute Memory.storage c).run.run d).1,
          ((execute Memory.storage c).run.run d).2) := by
  unfold run
  rw [h]
  simp only [StateT.run_bind]
  rcases (execute Memory.storage c).run.run d with ⟨e | message, d'⟩ <;> rfl

/-- A run that fails before it writes leaves every file as it was, wherever it was to write. When a
run ends with status 1 for another reason, all its files were made and one could not be written. -/
theorem kept_of_failsBeforeWriting {args : List String} {env : String → Option String}
    (hparse : parse? args env = some c) {exit : Exit} {d' : Memory}
    (hrun : (run Memory.storage args env).run d = (exit, d')) :
    (c.FailsBeforeWriting d → exit.status = 1 ∧ d' = d)
      ∧ (exit.status = 1 → c.FailsBeforeWriting d
          ∨ ∃ fs e, c.outputs d = .ok fs ∧ (d.writeAll fs).1 = .error e) := by
  rw [run_of_parse hparse] at hrun
  rw [failsBeforeWriting_iff]
  constructor
  · rintro ⟨e, he⟩
    rw [execute_of_error he] at hrun
    cases hrun
    exact ⟨rfl, rfl⟩
  · intro hstatus
    rcases hout : c.outputs d with e | fs
    · exact .inl ⟨e, rfl⟩
    · refine .inr ⟨fs, ?_⟩
      rw [execute_of_ok hout] at hrun
      rcases hw : d.writeAll fs with ⟨e | u, d''⟩ <;> rw [hw] at hrun <;> cases hrun
      · exact ⟨e, rfl, rfl⟩
      · simp [exitOf, Except.map] at hstatus

section Workshop

/-- A document whose second path has an operation without responses. -/
def workshopText : String :=
  "\x7b\"paths\":\x7b\"/tools\":\x7b\x7d,\"/api\":\x7b\"get\":\x7b\x7d\x7d\x7d\x7d"

def workshop : Memory where
  files := [(["api.json"], Storage.bytesOf workshopText), (["tools.ts"], Storage.bytesOf "old")]

def workshopArguments : List String := ["generate", "api.json", ".", "--no-prune"]

end Workshop

/-- The module of the first path could be written, but that of the second path is an error. -/
theorem kept_of_failsBeforeWriting_workshop :
    (generate "api.json" "." ⟨false, false⟩).FailsBeforeWriting workshop
      ∧ ((run Memory.storage workshopArguments fun _ => none).run workshop).1.status = 1
      ∧ ((run Memory.storage workshopArguments fun _ => none).run workshop).2 = workshop := by
  have hparse : parse? workshopArguments (fun _ => none)
      = some (generate "api.json" "." ⟨false, false⟩) := by decide +kernel
  have hfails : (generate "api.json" "." ⟨false, false⟩).FailsBeforeWriting workshop := by
    refine .inr ⟨workshopText, ⟨.noResponsesDefined, "GET /api"⟩, ?_, ?_⟩
    · decide +kernel
    · decide +kernel
  exact ⟨hfails, (kept_of_failsBeforeWriting hparse rfl).1 hfails⟩

end Runs

end Command

end ZodGen
