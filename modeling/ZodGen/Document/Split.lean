import ZodGen.Document.Basic
import ZodGen.Reference.Basic

/-!
# One document for each path

`split` gives every path a document of its own: the top-level members, the one path item, and the
components that the path item reaches, in the order of the whole document. Reaching goes by `$ref`,
and by name for security schemes. The search keeps the components not reached yet, so each of them
is visited at most once.
-/

namespace ZodGen.Document

open Reference (Target componentTarget)

/-- Components with their targets, in document order. -/
abbrev Components := List (Target × Value)

def components (doc : Value) : Components :=
  ((doc.obj? "components").getD []).flatMap fun (kind, section_) =>
    (section_.asObj?.getD []).map fun (name, v) => (⟨kind, name⟩, v)

namespace Components

def find? (t : Target) (cs : Components) : Option Value :=
  (List.find? (fun (u, _) => u == t) cs).map Prod.snd

def without (t : Target) (cs : Components) : Components := cs.filter fun (u, _) => u != t

theorem length_without_lt {t : Target} {cs : Components} {v : Value} (h : find? t cs = some v) :
    (without t cs).length < cs.length := by
  unfold find? at h
  obtain ⟨⟨u, w⟩, hf, -⟩ := Option.map_eq_some_iff.1 h
  have hm := List.mem_of_find?_eq_some hf
  have hu := List.find?_some hf
  unfold without
  rw [List.length_filter_lt_length_iff_exists]
  exact ⟨(u, w), hm, by simpa using hu⟩

end Components

/-- Where the search stands: the components not reached yet, and the values still to be read. -/
structure Search where
  pending : Components
  queue : List Value

namespace Search

/-- What bounds the rest of the search. -/
def size (s : Search) : Nat := s.pending.length + s.queue.length

/-- Reaches a component: a pending one is queued, any other changes nothing. -/
def reach (s : Search) (t : Target) : Search :=
  match s.pending.find? t with
  | some v => ⟨s.pending.without t, s.queue ++ [v]⟩
  | none => s

theorem size_reach_le (s : Search) (t : Target) : (s.reach t).size ≤ s.size := by
  unfold reach
  split
  · rename_i v h
    have := Components.length_without_lt h
    simp [size]
    omega
  · exact Nat.le_refl _

/-- Reaches what the references lead to. A component that the document lacks is an error. -/
def reachAll (all : Components) : List String → Search → Outcome Search
  | [], s => .ok s
  | r :: rs, s =>
    match componentTarget r with
    | .error e => .error e
    | .ok none => reachAll all rs s
    | .ok (some t) =>
      if (all.find? t).isNone then fail .referenceNotFound r else reachAll all rs (s.reach t)

theorem size_reachAll_le {all : Components} {rs : List String} {s u : Search}
    (h : reachAll all rs s = .ok u) : u.size ≤ s.size := by
  induction rs generalizing s with
  | nil => simp only [reachAll, Except.ok.injEq] at h; simp [h]
  | cons r rs ih =>
    simp only [reachAll] at h
    split at h
    · simp at h
    · exact ih h
    · rename_i t _
      split at h
      · simp [fail] at h
      · exact Nat.le_trans (ih h) (size_reach_le s t)

/-- Reads queued values until none is left; gives the components not reached. -/
def run (all : Components) (pending : Components) (queue : List Value) : Outcome Components :=
  match queue with
  | [] => .ok pending
  | v :: rest =>
    match _h : reachAll all v.refs ⟨pending, rest⟩ with
    | .error e => .error e
    | .ok s => run all s.pending s.queue
termination_by pending.length + queue.length
decreasing_by
  have := size_reachAll_le (by assumption)
  simp [size] at this
  simp
  omega

end Search

/-- The scheme names in a list of security requirements. -/
def requirementNames (requirements : Value) : List String :=
  (requirements.asArr?.getD []).flatMap fun r => Assoc.keys (r.asObj?.getD [])

mutual

/-- The scheme names of all lists under `security` in a value. -/
def schemeNames : Value → List String
  | .arr items => schemeNamesOfItems items
  | .obj ms => schemeNamesOfMembers ms
  | _ => []

def schemeNamesOfItems : List Value → List String
  | [] => []
  | v :: vs => schemeNames v ++ schemeNamesOfItems vs

/-- The scheme names in the members of an object. A list under `security` is not searched
further. -/
def schemeNamesOfMembers : List (String × Value) → List String
  | [] => []
  | (key, v) :: ms =>
    (match key, v with
      | "security", .arr items => requirementNames (.arr items)
      | _, v => schemeNames v) ++ schemeNamesOfMembers ms

end

/-- The components that a path item does not reach. -/
def unreached (doc item : Value) : Outcome Components :=
  let all := components doc
  let names := schemeNames item ++ requirementNames ((doc.get? "security").getD .null)
  let start := names.foldl (fun s name => s.reach ⟨"securitySchemes", name⟩) (Search.mk all [item])
  Search.run all start.pending start.queue

/-- The components without those not reached; sections left empty are dropped. -/
def keepReached (doc : Value) (left : Components) : Assoc Value :=
  ((doc.obj? "components").getD []).filterMap fun (kind, section_) =>
    match section_ with
    | .obj entries =>
      let kept := entries.filter fun (name, _) => (left.find? ⟨kind, name⟩).isNone
      if kept.isEmpty then none else some (kind, .obj kept)
    | _ => none

/-- The document of one path. -/
def forPath (doc : Value) (path : String) (item : Value) : Outcome Value := do
  let top := (doc.asObj?.getD []).filterMap fun (key, v) =>
    if key = "paths" then some (key, .obj [(path, item)])
    else if key = "components" then none
    else some (key, v)
  let left ← unreached doc item
  if left.length = (components doc).length then .ok (.obj top)
  else .ok (.obj (top ++ [("components", .obj (keepReached doc left))]))

/-- A document for each path, in order. -/
def split (doc : Value) : Outcome (Assoc Value) := do
  let items ← paths doc
  items.mapM fun (path, item) => do .ok (path, ← forPath doc path item)

end ZodGen.Document
