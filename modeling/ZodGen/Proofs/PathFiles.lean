import Mathlib.Data.Set.Function
import ZodGen.Proofs.MemoryFiles

/-!
# The files of the paths

`split` and `generate` write one file for each path of a document, named by the path. Two paths can
have one file name, and then the file of the later path replaces that of the earlier one
(`not_hasText_twins`). What a run that succeeds leaves is the file of every path whose name no
later path has (`hasParts_of_run`). Paths without underscores have names of their own, but for
`/index` next to `/`.
-/

namespace ZodGen

open Storage (Memory)
open Storage.Memory (NamesFile)

namespace Document

/-! ## File names -/

section Stems

def stemChar (c : Char) : Char := if c = '/' then '_' else c

theorem slash_notMem_stemChars (cs : List Char) : '/' ∉ cs.map stemChar := by
  intro h
  obtain ⟨c, -, hc⟩ := List.mem_map.1 h
  by_cases hslash : c = '/' <;> simp [stemChar, hslash] at hc

theorem slash_notMem_fileStem (path : String) : '/' ∉ (fileStem path).toList := by
  have hchars := slash_notMem_stemChars path.toList
  obtain ⟨cs, hcs, hstem⟩ : ∃ cs, '/' ∉ cs
      ∧ fileStem path = if cs.isEmpty then "index" else String.ofList cs := by
    refine ⟨_, ?_, rfl⟩
    change '/' ∉ path.toList.map fun c => if c = '/' then '_' else c at hchars
    split
    · rename_i heq
      rw [heq] at hchars
      exact fun h => hchars (List.mem_cons_of_mem _ h)
    · exact hchars
  rw [hstem]
  split
  · decide
  · simpa using hcs

theorem fileStem_slash (s : String) : fileStem ("/" ++ s)
    = if s.toList.isEmpty then "index" else String.ofList (s.toList.map stemChar) := by
  simp [fileStem]
  rfl

/-- A path with a slash in front that has no underscore and is not `/index`. -/
def Plain (path : String) : Prop :=
  ∃ s : String, path = "/" ++ s ∧ '_' ∉ s.toList ∧ s ≠ "index"

/-- Plain paths have files of their own: without underscores, the slashes can be put back. -/
theorem fileStem_injOn_plain : Set.InjOn fileStem {path | Plain path} := by
  rintro _ ⟨s, rfl, hs, hsi⟩ _ ⟨t, rfl, ht, hti⟩ h
  -- without underscores the slashes can be put back
  have hback : ∀ cs : List Char, '_' ∉ cs →
      (cs.map stemChar).map (fun c => if c = '_' then '/' else c) = cs := by
    intro cs hcs
    rw [List.map_map]
    refine (List.map_congr_left fun c hc => ?_).trans (List.map_id cs)
    have hne : c ≠ '_' := fun he => hcs (he ▸ hc)
    by_cases hslash : c = '/' <;> simp [stemChar, hslash, hne]
  have hindex : ∀ u : String, '_' ∉ u.toList → u ≠ "index" →
      "index" ≠ String.ofList (u.toList.map stemChar) := by
    intro u hu hui he
    refine hui (String.toList_injective ?_)
    rw [← hback u.toList hu, ← String.toList_ofList (l := u.toList.map stemChar), ← he]
    decide
  rw [fileStem_slash, fileStem_slash] at h
  split_ifs at h with hse hte hte
  · rw [List.isEmpty_iff] at hse hte
    rw [String.toList_injective (hse.trans hte.symm)]
  · exact absurd h (hindex t ht hti)
  · exact absurd h.symm (hindex s hs hsi)
  · have hmap := String.ofList_injective h
    rw [String.toList_injective ((hback _ hs).symm.trans ((congrArg _ hmap).trans (hback _ ht)))]

end Stems

end Document

/-! ## What is left of the files -/

section Parts

open Document (fileStem forPath)

variable {directory extension : String} {write : Value → Outcome String} {doc : Value}

/-- The file of a path, with the text that is made of the part of the document for this path. -/
def Command.IsPartFile (doc : Value) (directory extension : String) (write : Value → Outcome String)
    (item : String × Value) (f : String × String) : Prop :=
  ∃ part text, forPath doc item.1 item.2 = .ok part ∧ write part = .ok text
    ∧ f = (Storage.join directory (fileStem item.1 ++ extension), text)

/-- Each path of a document whose file name no later path has, has the file of its part. -/
def Storage.Memory.HasParts (d : Memory) (doc : Value) (directory extension : String)
    (write : Value → Outcome String) : Prop :=
  ∃ items, Document.paths doc = .ok items ∧
    ∀ front path item rest, items = front ++ (path, item) :: rest →
      (∀ later ∈ rest, fileStem later.1 ≠ fileStem path) →
        ∃ part text, forPath doc path item = .ok part ∧ write part = .ok text
          ∧ d.HasText (Storage.join directory (fileStem path ++ extension)) text

theorem namesFile_part (directory : String) (hslash : '/' ∉ extension.toList)
    (hlong : 2 < extension.length) (path : String) :
    NamesFile (Storage.join directory (fileStem path ++ extension))
      (fileStem path ++ extension) := by
  have hne : ∀ s : String, s.length ≤ 2 → fileStem path ++ extension ≠ s := by
    intro s hs h
    have hlength := congrArg String.length h
    rw [String.length_append] at hlength
    omega
  refine Storage.Memory.namesFile_join directory (hne "" (by decide)) ?_ (hne "." (by decide))
    (hne ".." (by decide))
  rw [String.toList_append, List.mem_append, not_or]
  exact ⟨Document.slash_notMem_fileStem path, hslash⟩

theorem hasParts_of_writeAll {items : Assoc Value} {fs : List (String × String)} {d d' : Memory}
    (hslash : '/' ∉ extension.toList) (hlong : 2 < extension.length)
    (hitems : Document.paths doc = .ok items)
    (hfs : List.Forall₂ (Command.IsPartFile doc directory extension write) items fs)
    (h : d.writeAll fs = (.ok (), d')) : d'.HasParts doc directory extension write := by
  refine ⟨items, hitems, ?_⟩
  rintro front path item rest rfl hlater
  obtain ⟨front', f, rest', rfl, ⟨part, text, hpart, htext, rfl⟩, hrest⟩ :=
    Outcome.exists_split_of_forall₂ hfs
  refine ⟨part, text, hpart, htext, ?_⟩
  refine Storage.Memory.hasText_writeAll (namesFile_part directory hslash hlong path) ?_ h
  intro g hg
  obtain ⟨later, hmem, ⟨_, _, -, -, rfl⟩⟩ := Outcome.exists_right_of_forall₂ hrest.flip hg
  refine ⟨_, namesFile_part directory hslash hlong later.1, fun he => hlater later hmem ?_⟩
  have happend := congrArg String.toList he
  rw [String.toList_append, String.toList_append] at happend
  exact (String.toList_injective (List.append_left_injective _ happend)).symm

namespace Command

variable {input text : String} {options : Module.Options} {fs : List (String × String)}

/-- Splitting makes a file for each path item, in order, with the document of the path. -/
theorem files_split (h : (split input directory).files text = .ok fs) :
    ∃ doc items, Document.parse text = .ok doc ∧ Document.paths doc = .ok items
      ∧ List.Forall₂ (IsPartFile doc directory ".json" fun part => .ok (Json.pretty part))
          items fs := by
  obtain ⟨doc, hdoc, h⟩ := Outcome.bind_eq_ok.1 h
  obtain ⟨parts, hparts, h⟩ := Outcome.bind_eq_ok.1 h
  obtain ⟨items, hitems, hmap⟩ := Outcome.bind_eq_ok.1 hparts
  refine ⟨doc, items, hdoc, hitems, ?_⟩
  cases h
  rw [partFiles, List.map_map, List.forall₂_map_right_iff]
  refine (Outcome.mapM_eq_ok.1 hmap).imp fun item part hpart => ?_
  obtain ⟨part', hpart', h⟩ := Outcome.bind_eq_ok.1 hpart
  cases h
  exact ⟨part', _, hpart', rfl, rfl⟩

theorem files_generate (h : (generate input directory options).files text = .ok fs) :
    ∃ doc items, Document.parse text = .ok doc ∧ Document.paths doc = .ok items
      ∧ List.Forall₂ (IsPartFile doc directory ".ts" fun part => Module.generate part options)
          items fs := by
  obtain ⟨doc, hdoc, h⟩ := Outcome.bind_eq_ok.1 h
  obtain ⟨modules, hmodules, h⟩ := Outcome.bind_eq_ok.1 h
  obtain ⟨parts, hparts, hgenerate⟩ := Outcome.bind_eq_ok.1 hmodules
  obtain ⟨items, hitems, hmap⟩ := Outcome.bind_eq_ok.1 hparts
  refine ⟨doc, items, hdoc, hitems, ?_⟩
  cases h
  rw [partFiles, List.forall₂_map_right_iff]
  refine (Outcome.forall₂_comp (Outcome.mapM_eq_ok.1 hmap) (Outcome.mapM_eq_ok.1 hgenerate)).imp ?_
  rintro item named ⟨part, hpart, hnamed⟩
  obtain ⟨part', hpart', h⟩ := Outcome.bind_eq_ok.1 hpart
  cases h
  obtain ⟨code, hcode, h⟩ := Outcome.bind_eq_ok.1 hnamed
  cases h
  exact ⟨part', code, hpart', hcode, rfl⟩

variable {c : Command} {args : List String} {env : String → Option String} {exit : Exit}
  {d d' : Memory}

/-- A run that ends well has read its input and written all the files it makes of it. -/
theorem writeAll_of_run (hparse : parse? args env = some c)
    (hrun : (run Memory.storage args env).run d = (exit, d')) (hok : exit.status = 0) :
    ∃ text fs, d.read c.input = .ok text ∧ c.files text = .ok fs
      ∧ d.writeAll fs = (.ok (), d') := by
  rw [run_of_parse hparse] at hrun
  rcases hout : c.outputs d with e | fs
  · rw [execute_of_error hout] at hrun
    cases hrun
    simp [exitOf] at hok
  · rw [execute_of_ok hout] at hrun
    unfold outputs at hout
    rcases hread : d.read c.input with r | text <;> rw [hread] at hout
    · cases hout
    · refine ⟨text, fs, rfl, hout, ?_⟩
      rcases hw : d.writeAll fs with ⟨e | u, d''⟩ <;> rw [hw] at hrun <;> cases hrun
      · simp [exitOf, Except.map] at hok
      · rfl

/-- A run that succeeds leaves the file of each path whose file name no later path has. -/
theorem hasParts_of_run (hparse : parse? args env = some c)
    (hrun : (run Memory.storage args env).run d = (exit, d')) (hok : exit.status = 0) :
    (∀ input directory, c = split input directory →
        ∃ text doc, d.read input = .ok text ∧ Document.parse text = .ok doc
          ∧ d'.HasParts doc directory ".json" fun part => .ok (Json.pretty part))
      ∧ (∀ input directory options, c = generate input directory options →
        ∃ text doc, d.read input = .ok text ∧ Document.parse text = .ok doc
          ∧ d'.HasParts doc directory ".ts" fun part => Module.generate part options)
      ∧ Set.InjOn fileStem {path | Document.Plain path} := by
  obtain ⟨text, fs, hread, hfs, hwrite⟩ := writeAll_of_run hparse hrun hok
  refine ⟨?_, ?_, Document.fileStem_injOn_plain⟩
  · rintro input directory rfl
    obtain ⟨doc, items, hdoc, hitems, hparts⟩ := files_split hfs
    exact ⟨text, doc, hread, hdoc,
      hasParts_of_writeAll (by decide) (by decide) hitems hparts hwrite⟩
  · rintro input directory options rfl
    obtain ⟨doc, items, hdoc, hitems, hparts⟩ := files_generate hfs
    exact ⟨text, doc, hread, hdoc,
      hasParts_of_writeAll (by decide) (by decide) hitems hparts hwrite⟩

section Twins

/-- Two paths with one file name. -/
def twinsText : String :=
  "\x7b\"paths\":\x7b\"/a/b\":\x7b\x7d,\"/a_b\":\x7b\x7d\x7d\x7d"

def twins : Memory := .ofFiles [("a.json", Storage.bytesOf twinsText)]

def twinsArguments (directory : String) : List String := ["split", "a.json", directory]

/-- How a run of `split` on the twins into a directory ends, and what it leaves. -/
def twinsRun (directory : String) : Exit × Memory :=
  (run Memory.storage (twinsArguments directory) fun _ => none).run twins

def twinsFile (path : String) : String :=
  Json.pretty (.obj [("paths", .obj [(path, .obj [])])])

deriving instance DecidableEq for Storage.Spot

theorem find_twins : (twinsRun "out").2.find "out/a_b.json"
    = .ok (.file ["tmp", "work", "out", "a_b.json"] (Storage.bytesOf (twinsFile "/a_b"))) := by
  decide +kernel

theorem split_twins : (do
    let parts ← Document.split (← Document.parse twinsText)
    .ok (parts.map fun part => (part.1, Json.pretty part.2)))
      = (.ok [("/a/b", twinsFile "/a/b"), ("/a_b", twinsFile "/a_b")] : Outcome _) := by
  decide +kernel

end Twins

/-- The file of the later path is left, here in a directory that the root leads to. -/
theorem hasParts_of_run_twins : (twinsRun "/srv/out").1.status = 0
    ∧ (twinsRun "/srv/out").2.find "/srv/out/a_b.json"
      = .ok (.file ["srv", "out", "a_b.json"] (Storage.bytesOf (twinsFile "/a_b")))
    ∧ ∃ text doc, twins.read "a.json" = .ok text ∧ Document.parse text = .ok doc
      ∧ (twinsRun "/srv/out").2.HasParts doc "/srv/out" ".json"
          fun part => .ok (Json.pretty part) := by
  have hparse : parse? (twinsArguments "/srv/out") (fun _ => none)
      = some (split "a.json" "/srv/out") := by
    decide +kernel
  have hok : (twinsRun "/srv/out").1.status = 0 := by decide +kernel
  have hrun : (run Memory.storage (twinsArguments "/srv/out") fun _ => none).run twins
      = ((twinsRun "/srv/out").1, (twinsRun "/srv/out").2) := (Prod.eta _).symm
  exact ⟨hok, by decide +kernel, (hasParts_of_run hparse hrun hok).1 _ _ rfl⟩

/-- The run succeeds, but the file of the earlier path is lost. -/
theorem not_hasText_twins : ∃ doc parts part, Document.parse twinsText = .ok doc
    ∧ Document.split doc = .ok parts ∧ ("/a/b", part) ∈ parts ∧ (twinsRun "out").1.status = 0
    ∧ ¬ (twinsRun "out").2.HasText (Storage.join "out" (fileStem "/a/b" ++ ".json"))
        (Json.pretty part) := by
  obtain ⟨doc, hdoc, h⟩ := Outcome.bind_eq_ok.1 split_twins
  obtain ⟨parts, hsplit, h⟩ := Outcome.bind_eq_ok.1 h
  obtain ⟨⟨path, part⟩, rest, rfl, hpart, -⟩ := List.map_eq_cons_iff.1 (Except.ok.inj h)
  obtain ⟨rfl, htext⟩ := Prod.mk.inj hpart
  refine ⟨doc, _, part, hdoc, hsplit, List.mem_cons_self, by decide +kernel, ?_⟩
  have hpath : Storage.join "out" (fileStem "/a/b" ++ ".json") = "out/a_b.json" := by
    decide +kernel
  rw [hpath, htext]
  rintro ⟨there, hfile⟩
  rw [find_twins] at hfile
  injection hfile with hspot
  injection hspot with _ hbytes
  exact absurd hbytes (by decide +kernel)

end Command

end Parts

end ZodGen
