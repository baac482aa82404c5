import ZodGen.Proofs.CommandRun
import ZodGen.Proofs.Members

/-!
# Files that were written

A write makes directories and then puts a file where its path leads (`write_eq_ok`). What a path
leads to stays as it is while directories are made and files with other names are put
(`HasText.write_other`), so of files written one after the other, a path leads to the last that has
its name (`hasText_writeAll`).
-/

namespace ZodGen.Storage

/-! ## Names in a path -/

section Names

theorem pieces_ne_nil (cs : List Char) : pieces cs ≠ [] := by
  fun_cases pieces cs <;> simp

theorem pieces_append : ∀ a b : List Char, pieces (a ++ '/' :: b) = pieces a ++ pieces b
  | [], b => by simp [pieces]
  | c :: a, b => by
    rw [List.cons_append, pieces, pieces, pieces_append a b]
    split
    · rfl
    · rcases h : pieces a with _ | ⟨first, rest⟩
      · exact absurd h (pieces_ne_nil a)
      · rfl

theorem pieces_of_notMem : ∀ {cs : List Char}, '/' ∉ cs → pieces cs = [cs]
  | [], _ => rfl
  | c :: cs, h => by
    simp only [List.mem_cons, not_or] at h
    rw [pieces, if_neg (Ne.symm h.1), pieces_of_notMem h.2]

/-- A file in a directory is one name behind the names of the directory. -/
theorem names_join (directory : String) {file : String} (hne : file ≠ "")
    (hslash : '/' ∉ file.toList) : names (join directory file) = names directory ++ [file] := by
  have hfile : ((pieces file.toList).filter (!·.isEmpty)).map String.ofList = [file] := by
    rw [pieces_of_notMem hslash]
    simp [hne]
  have hjoin : ∃ cs, (join directory file).toList = cs ++ '/' :: file.toList
      ∧ names directory = ((pieces cs).filter (!·.isEmpty)).map String.ofList := by
    unfold join
    split
    · rename_i hends
      obtain ⟨cs, hcs⟩ : ∃ cs, directory.toList = cs ++ ['/'] := by
        unfold endsInSlash at hends
        exact List.getLast?_eq_some_iff.1 (by simpa using hends)
      refine ⟨cs, by simp [hcs], ?_⟩
      rw [names, hcs, pieces_append]
      simp [pieces]
    · exact ⟨directory.toList, by simp, rfl⟩
  obtain ⟨cs, hcs, hdirectory⟩ := hjoin
  rw [names, hcs, pieces_append, hdirectory, List.filter_append, List.map_append, hfile]

end Names

/-! ## Where a path leads -/

/-- The place of a file that is there or could be. -/
def Spot.place? : Spot → Option (List String)
  | .file at_ _ => some at_
  | .nothing at_ => some at_
  | _ => none

namespace Memory

section Walk

/-- A name that is looked up in a directory. -/
structure Proper (name : String) : Prop where
  ne_dot : name ≠ "."
  ne_dots : name ≠ ".."
  short : name.utf8ByteSize ≤ longestName

/-- Where the names of a path without a slash behind it lead from a directory. -/
inductive Walk (d : Memory) : List String → List String → Spot → Prop
  | arrive (here : List String) : Walk d here [] (.directory here)
  | stay {here rest : List String} {spot : Spot} (h : Walk d here rest spot) :
      Walk d here ("." :: rest) spot
  | up {here rest : List String} {spot : Spot} (h : Walk d here.dropLast rest spot) :
      Walk d here (".." :: rest) spot
  | down {here rest : List String} {name : String} {spot : Spot} (hname : Proper name)
      (hfile : Assoc.get? (here ++ [name]) d.files = none)
      (hdir : d.isDirectory (here ++ [name]) = true) (h : Walk d (here ++ [name]) rest spot) :
      Walk d here (name :: rest) spot
  | file {here : List String} {name : String} {bytes : Bytes} (hname : Proper name)
      (hfile : Assoc.get? (here ++ [name]) d.files = some bytes) :
      Walk d here [name] (.file (here ++ [name]) bytes)
  | nothing {here : List String} {name : String} (hname : Proper name)
      (hfile : Assoc.get? (here ++ [name]) d.files = none)
      (hdir : d.isDirectory (here ++ [name]) = false) :
      Walk d here [name] (.nothing (here ++ [name]))

variable {d d' : Memory}

/-- By induction on the names: a dot stays, two dots go up, and any other name is looked up. -/
theorem walk_of_follow : ∀ {ns here : List String} {spot : Spot},
    d.follow false here ns = .ok spot → Walk d here ns spot
  | [], here, spot, h => by
    cases h
    exact .arrive here
  | name :: rest, here, spot, h => by
    simp only [follow] at h
    by_cases hdot : name = "."
    · rw [if_pos hdot] at h
      subst hdot
      exact .stay (walk_of_follow h)
    rw [if_neg hdot] at h
    by_cases hdots : name = ".."
    · rw [if_pos hdots] at h
      subst hdots
      exact .up (walk_of_follow h)
    rw [if_neg hdots] at h
    by_cases hlong : longestName < name.utf8ByteSize
    · rw [if_pos hlong] at h
      cases h
    rw [if_neg hlong] at h
    -- Any other name is looked up, among the files before the directories.
    have hname : Proper name := ⟨hdot, hdots, Nat.le_of_not_lt hlong⟩
    rcases hfile : Assoc.get? (here ++ [name]) d.files with _ | bytes <;> rw [hfile] at h
    · dsimp only at h
      split_ifs at h with hdir hrest
      · exact .down hname hfile hdir (walk_of_follow h)
      · cases h
        obtain rfl : rest = [] := by simpa using hrest
        exact .nothing hname hfile (by simpa using hdir)
    · dsimp only at h
      split_ifs at h with hrest
      cases h
      obtain rfl : rest = [] := by simpa using hrest
      exact .file hname hfile

theorem Walk.follow_eq {here ns : List String} {spot : Spot} (h : Walk d here ns spot) :
    d.follow false here ns = .ok spot := by
  induction h with
  | arrive here => rfl
  | stay _ ih => simpa [follow] using ih
  | up _ ih => simpa [follow] using ih
  | down hname hfile hdir _ ih =>
    have hlong := Nat.not_lt.2 hname.short
    simpa [follow, hname.ne_dot, hname.ne_dots, hlong, hfile, hdir] using ih
  | file hname hfile =>
    have hlong := Nat.not_lt.2 hname.short
    simp [follow, hname.ne_dot, hname.ne_dots, hlong, hfile]
  | nothing hname hfile hdir =>
    have hlong := Nat.not_lt.2 hname.short
    simp [follow, hname.ne_dot, hname.ne_dots, hlong, hfile, hdir]

/-- Paths start alike in two memories, and what they go through in the first, they also go through
in the second. -/
structure Passes (d d' : Memory) : Prop where
  current : d'.current = d.current
  through : ∀ at_, d.isDirectory at_ = true → Assoc.get? at_ d.files = none →
    d'.isDirectory at_ = true ∧ Assoc.get? at_ d'.files = none

variable {here ns there : List String} {spot : Spot}

/-- A walk to a file, or to where one may be put, comes to the file that is there later. -/
theorem Walk.file_of_passes (hpass : d.Passes d') {bytes : Bytes}
    (hthere : Assoc.get? there d'.files = some bytes) (h : Walk d here ns spot)
    (hspot : spot.place? = some there) : Walk d' here ns (.file there bytes) := by
  induction h with
  | arrive here => simp [Spot.place?] at hspot
  | stay _ ih => exact .stay (ih hspot)
  | up _ ih => exact .up (ih hspot)
  | down hname hfile hdir _ ih =>
    obtain ⟨hdir', hfile'⟩ := hpass.through _ hdir hfile
    exact .down hname hfile' hdir' (ih hspot)
  | file hname hfile | nothing hname hfile =>
    cases hspot
    exact .file hname hthere

/-- No path goes through the place of a file that is there or could be. -/
theorem Walk.not_passed (h : Walk d here ns spot) (hspot : spot.place? = some there)
    (hdir : d.isDirectory there = true) : Assoc.get? there d.files ≠ none := by
  induction h with
  | arrive => simp [Spot.place?] at hspot
  | stay _ ih | up _ ih | down _ _ _ _ ih => exact ih hspot
  | file hname hfile =>
    cases hspot
    simp [hfile]
  | nothing hname hfile hnone =>
    cases hspot
    simp [hnone] at hdir

theorem Walk.place?_of_nil (h : Walk d here ns spot) (hns : ns = []) : spot.place? = none := by
  cases h with
  | arrive => rfl
  | _ => cases hns

/-- A place has the last name of the path that leads to it. -/
theorem Walk.getLast?_place {name : String} (hdot : name ≠ ".") (hdots : name ≠ "..")
    {ms : List String} (h : Walk d here ms spot) (hms : ms = ns ++ [name])
    (hspot : spot.place? = some there) : there.getLast? = some name := by
  induction h generalizing ns with
  | arrive => simp [Spot.place?] at hspot
  | stay _ ih =>
    rcases ns with _ | ⟨n, ns⟩
    · exact absurd (List.cons.inj hms).1.symm hdot
    · exact ih (List.cons.inj hms).2 hspot
  | up _ ih =>
    rcases ns with _ | ⟨n, ns⟩
    · exact absurd (List.cons.inj hms).1.symm hdots
    · exact ih (List.cons.inj hms).2 hspot
  | down _ _ _ h ih =>
    rcases ns with _ | ⟨n, ns⟩
    · simp [h.place?_of_nil (List.cons.inj hms).2] at hspot
    · exact ih (List.cons.inj hms).2 hspot
  | file | nothing =>
    cases hspot
    obtain ⟨rfl, rfl⟩ : ns = [] ∧ _ = name := by
      rcases ns with _ | ⟨n, ns⟩
      · exact ⟨rfl, (List.cons.inj hms).1⟩
      · simp at hms
    simp

theorem Walk.get?_of_file {bytes : Bytes} (h : Walk d here ns spot)
    (hspot : spot = .file there bytes) : Assoc.get? there d.files = some bytes := by
  induction h with
  | stay _ ih | up _ ih | down _ _ _ _ ih => exact ih hspot
  | file _ hfile =>
    cases hspot
    exact hfile
  | arrive | nothing => cases hspot

theorem Passes.start_eq (hpass : d.Passes d') (path : String) : d'.start path = d.start path := by
  unfold start
  rw [hpass.current]

theorem walk_of_find {path : String} (hslash : endsInSlash path = false)
    (h : d.find path = .ok spot) : Walk d (d.start path) (names path) spot := by
  unfold find at h
  split_ifs at h
  rw [hslash] at h
  exact walk_of_follow h

/-- A path that leads to the place of a file leads there as well in a memory that it passes
through, to the file that is there. -/
theorem find_of_passes {path : String} {bytes : Bytes} (hslash : endsInSlash path = false)
    (h : d.find path = .ok spot) (hspot : spot.place? = some there) (hpass : d.Passes d')
    (hthere : Assoc.get? there d'.files = some bytes) :
    d'.find path = .ok (.file there bytes) := by
  have hwalk := (walk_of_find hslash h).file_of_passes hpass hthere hspot
  unfold find at h ⊢
  split_ifs at h with hzero
  rw [if_neg hzero, hslash, hpass.start_eq, hwalk.follow_eq]

end Walk

/-! ## One write -/

section Write

variable {d d' : Memory} {path text : String}

/-- The same files and current directory, and at least the same directories. -/
structure Grown (d d' : Memory) : Prop where
  files : d'.files = d.files
  current : d'.current = d.current
  directories : ∀ at_, d.isDirectory at_ = true → d'.isDirectory at_ = true

theorem Grown.refl (d : Memory) : d.Grown d := ⟨rfl, rfl, fun _ h => h⟩

theorem Grown.trans {d'' : Memory} (h : d.Grown d') (h' : d'.Grown d'') : d.Grown d'' :=
  ⟨h'.files.trans h.files, h'.current.trans h.current,
    fun at_ hat => h'.directories at_ (h.directories at_ hat)⟩

theorem Grown.passes (h : d.Grown d') : d.Passes d' :=
  ⟨h.current, fun at_ hdir hfile => ⟨h.directories at_ hdir, by rw [h.files, hfile]⟩⟩

theorem grown_addDirectory (d : Memory) (there : List String) : d.Grown (d.addDirectory there) := by
  unfold addDirectory
  split
  · exact .refl d
  · refine ⟨rfl, rfl, fun at_ h => ?_⟩
    simp only [isDirectory, Bool.or_eq_true, List.contains_cons] at h ⊢
    exact h.imp id .inr

theorem grown_makeDirectory {start names : List String}
    (h : d.makeDirectory start names = .ok d') : d.Grown d' := by
  unfold makeDirectory at h
  rcases hfollow : d.follow false start names with e | spot <;> rw [hfollow] at h
  · cases h
  · cases spot <;> cases h
    exact grown_addDirectory d _

theorem grown_ensureDirectory {start names : List String}
    (h : d.ensureDirectory start names = .ok d') : d.Grown d' := by
  unfold ensureDirectory at h
  split at h
  · rename_i hmake
    cases h
    exact grown_makeDirectory hmake
  · split at h
    · cases h
      exact .refl d
    · cases h

/-- Whether or not all directories can be made, no file changes. -/
theorem grown_ensureDirectories (start : List String) : ∀ (names : List String) (d : Memory),
    d.Grown (d.ensureDirectories start names).2
  | [], d => .refl d
  | name :: around, d => by
    unfold ensureDirectories
    rcases hensure : d.ensureDirectory start (name :: around).reverse with e | d₁
    · cases e with
      | notFound =>
        have haround := grown_ensureDirectories start around d
        rcases hall : d.ensureDirectories start around with ⟨e | u, d₁⟩ <;> rw [hall] at haround
        · exact haround
        · dsimp only
          rcases hlast : d₁.ensureDirectory start (name :: around).reverse with e | d₂
          · exact haround
          · exact haround.trans (grown_ensureDirectory hlast)
      | _ => exact .refl d
    · exact grown_ensureDirectory hensure

theorem put_eq_ok (h : d.put path text = .ok d') :
    ∃ spot there, d.find path = .ok spot ∧ spot.place? = some there
      ∧ d' = d.putFile there (bytesOf text) := by
  unfold put at h
  rcases hfind : d.find path with e | spot <;> rw [hfind] at h
  · cases h
  · cases spot with
    | directory there => cases h
    | file there old =>
      cases h
      exact ⟨_, there, rfl, rfl, rfl⟩
    | nothing there =>
      change (if _ then _ else _) = _ at h
      split_ifs at h
      cases h
      exact ⟨_, there, rfl, rfl, rfl⟩

/-- A write makes directories, and then it puts the text where its path leads. -/
theorem write_eq_ok (h : d.write path text = (.ok (), d')) : ∃ d₁ spot there, d.Grown d₁
    ∧ d₁.find path = .ok spot ∧ spot.place? = some there
    ∧ d' = d₁.putFile there (bytesOf text) := by
  unfold write at h
  split at h
  · cases h
  have hgrown := grown_ensureDirectories (d.start path) (parentNames path).reverse d
  rcases hdirs : d.ensureDirectories (d.start path) (parentNames path).reverse with ⟨e | u, d₁⟩ <;>
    rw [hdirs] at h hgrown
  · cases h
  · dsimp only at h
    rcases hput : d₁.put path text with e | d₂ <;> rw [hput] at h <;> cases h
    obtain ⟨spot, there, hfind, hspot, rfl⟩ := put_eq_ok hput
    exact ⟨d₁, spot, there, hgrown, hfind, hspot, rfl⟩

/-- The path of a file with a name of its own. -/
structure NamesFile (path name : String) : Prop where
  slash : endsInSlash path = false
  last : ∃ ns, names path = ns ++ [name]
  ne_dot : name ≠ "."
  ne_dots : name ≠ ".."

theorem namesFile_join (directory : String) {file : String} (hne : file ≠ "")
    (hslash : '/' ∉ file.toList) (hdot : file ≠ ".") (hdots : file ≠ "..") :
    NamesFile (join directory file) file := by
  refine ⟨?_, ⟨_, names_join directory hne hslash⟩, hdot, hdots⟩
  have hcs : file.toList ≠ [] := by simpa using hne
  have hlast : (join directory file).toList.getLast? = file.toList.getLast? := by
    unfold join
    split <;>
      simp only [String.toList_append, List.getLast?_append_of_ne_nil _ hcs]
  rw [endsInSlash, hlast, beq_eq_false_iff_ne]
  exact fun h => hslash (List.mem_of_getLast? h)

variable {name : String} {spot : Spot} {there : List String} {bytes : Bytes}

/-- A file that is put stands in the way of no walk that there was. -/
theorem passes_putFile (hslash : endsInSlash path = false) (hfind : d.find path = .ok spot)
    (hspot : spot.place? = some there) : d.Passes (d.putFile there bytes) := by
  refine ⟨rfl, fun at_ hdir hfile => ?_⟩
  have hne : at_ ≠ there := by
    rintro rfl
    exact (walk_of_find hslash hfind).not_passed hspot hdir hfile
  exact ⟨hdir, (Assoc.get?_set_of_ne hne bytes d.files).trans hfile⟩

/-- A path leads to a file with a text. -/
def HasText (d : Memory) (path text : String) : Prop :=
  ∃ there, d.find path = .ok (.file there (bytesOf text))

theorem hasText_write (hslash : endsInSlash path = false) (h : d.write path text = (.ok (), d')) :
    d'.HasText path text := by
  obtain ⟨d₁, spot, there, -, hfind, hspot, rfl⟩ := write_eq_ok h
  exact ⟨there, find_of_passes hslash hfind hspot (passes_putFile hslash hfind hspot)
    (Assoc.get?_set_self there _ d₁.files)⟩

theorem HasText.of_passes (hd : d.HasText path text) (hslash : endsInSlash path = false)
    (hpass : d.Passes d') (hfile : ∀ there bytes, d.find path = .ok (.file there bytes) →
      Assoc.get? there d'.files = Assoc.get? there d.files) : d'.HasText path text := by
  obtain ⟨there, hthere⟩ := hd
  have hget := (hfile _ _ hthere).trans ((walk_of_find hslash hthere).get?_of_file rfl)
  exact ⟨there, find_of_passes hslash hthere rfl hpass hget⟩

/-- A path that names a file leads to a place with that name at its end. -/
theorem NamesFile.getLast? (hpath : NamesFile path name) (hfind : d.find path = .ok spot)
    (hspot : spot.place? = some there) : there.getLast? = some name := by
  obtain ⟨ns, hns⟩ := hpath.last
  exact (walk_of_find hpath.slash hfind).getLast?_place hpath.ne_dot hpath.ne_dots hns hspot

/-- A write leaves the files alone whose names differ from that of its own. -/
theorem HasText.write_other {path' text' name' : String} (hd : d.HasText path text)
    (hpath : NamesFile path name) (hpath' : NamesFile path' name') (hne : name ≠ name')
    (h : d.write path' text' = (.ok (), d')) : d'.HasText path text := by
  obtain ⟨d₁, spot, there', hgrown, hfind', hspot', rfl⟩ := write_eq_ok h
  have hd₁ : d₁.HasText path text :=
    hd.of_passes hpath.slash hgrown.passes fun there _ _ => by rw [hgrown.files]
  refine hd₁.of_passes hpath.slash (passes_putFile hpath'.slash hfind' hspot') ?_
  intro there bytes hfind
  -- the places differ, as their last names do
  have hlast := hpath.getLast? hfind rfl
  have hlast' := hpath'.getLast? hfind' hspot'
  refine Assoc.get?_set_of_ne (fun he => hne ?_) _ _
  rw [he, hlast'] at hlast
  exact (Option.some.inj hlast).symm

end Write

/-! ## Writes one after another -/

section WriteAll

variable {d d' : Memory}

theorem writeAll_cons {f : String × String} {fs : List (String × String)}
    (h : d.writeAll (f :: fs) = (.ok (), d')) :
    ∃ d₁, d.write f.1 f.2 = (.ok (), d₁) ∧ d₁.writeAll fs = (.ok (), d') := by
  rw [writeAll] at h
  rcases hw : d.write f.1 f.2 with ⟨r | u, d₁⟩ <;> rw [hw] at h
  · cases h
  · exact ⟨d₁, rfl, h⟩

theorem HasText.writeAll_others {path text name : String} (hpath : NamesFile path name) :
    ∀ {fs : List (String × String)} {d d' : Memory}, d.HasText path text →
      (∀ g ∈ fs, ∃ name', NamesFile g.1 name' ∧ name ≠ name') →
        d.writeAll fs = (.ok (), d') → d'.HasText path text
  | [], d, d', hd, _, h => by
    cases h
    exact hd
  | f :: fs, d, d', hd, hfs, h => by
    obtain ⟨d₁, hwrite, hrest⟩ := writeAll_cons h
    obtain ⟨name', hname', hne⟩ := hfs f List.mem_cons_self
    exact HasText.writeAll_others hpath (hd.write_other hpath hname' hne hwrite)
      (fun g hg => hfs g (List.mem_cons_of_mem _ hg)) hrest

/-- A path leads to the last of the files written that has its name. -/
theorem hasText_writeAll {path text name : String} {rest : List (String × String)}
    (hpath : NamesFile path name)
    (hrest : ∀ g ∈ rest, ∃ name', NamesFile g.1 name' ∧ name ≠ name') :
    ∀ {front : List (String × String)} {d d' : Memory},
      d.writeAll (front ++ (path, text) :: rest) = (.ok (), d') → d'.HasText path text
  | [], d, d', h => by
    obtain ⟨d₁, hwrite, h⟩ := writeAll_cons h
    exact (hasText_write hpath.slash hwrite).writeAll_others hpath hrest h
  | g :: front, d, d', h => by
    obtain ⟨d₁, -, h⟩ := writeAll_cons h
    exact hasText_writeAll hpath hrest h

end WriteAll

end Memory

end ZodGen.Storage
