import FormLetter.Package.Listing
import FormLetter.Package.Places
import FormLetter.Package.Saving
import FormLetter.Proofs.MergedPackages

/-!
# All or nothing

Checking paths, opening, merging, serializing and saving can each fail, for any of several parts.
None of them touches a file, and what comes after them writes a whole archive.

* **The last step.** `outcome_deliver` — an output takes an archive (`Output.Takes`) or refuses it
  (`Output.Refuses`). A file is as it was, unless writing fails once it has been opened: opening
  empties it.
* `AllOrNothing` — what saving an opened template comes to, and `MergesFile` — what merging one file
  into another comes to, where the checks of the paths come first.
* `saving_is_all_or_nothing` states both of any libraries and any system with the laws of
  `FileService.Laws`. `saving_blames_no_part` is a failure whose part is not named.
-/

namespace FormLetter

/-! ## Running operations -/

namespace Operation

variable {State α β : Type}

/-- The steps of an operation one after the other: the second starts in the state that the first
leaves behind, unless the first fails. -/
lemma outcome_bind (first : Operation State α) (next : α → Operation State β) (state : State) :
    (first >>= next).outcome state
      = match first.outcome state with
        | (.ok a, state) => (next a).outcome state
        | (.error error, state) => (.error error, state) := by
  simp only [outcome, ExceptT.run_bind, StateT.run_bind]
  generalize (StateT.run (ExceptT.run first) state : Id _) = result
  obtain ⟨_ | _, _⟩ := result <;> rfl

@[simp] lemma outcome_ofExcept (result : Except Raised α) (state : State) :
    (ofExcept result : Operation State α).outcome state = (result, state) := by
  cases result <;> rfl

@[simp] lemma outcome_get (state : State) :
    (get : Operation State State).outcome state = (.ok state, state) := rfl

@[simp] lemma outcome_ofStep (step : State → Except ForeignError α × State) (state : State) :
    (ofStep step).outcome state = ((step state).1.mapError .foreign, (step state).2) := by
  have hset : ∀ (result : Except ForeignError α) (after : State),
      (do set after; ofExcept (result.mapError .foreign) : Operation State α).outcome state
        = (result.mapError .foreign, after) := fun result after => by cases result <;> rfl
  exact (outcome_bind get _ state).trans (hset (step state).1 (step state).2)

end Operation

/-! ## Writing an archive -/

variable {lib : Libraries} {os : FileService lib.Archive}

namespace Output

/-- An output takes an archive, which leads from one state of the files to another: the file is there
and holds it, and no other file is touched, or a stream has done what it does. -/
inductive Takes (os : FileService lib.Archive) (archive : lib.Archive) (before : os.State) :
    Output lib.Archive os.State → os.State → Prop
  | file {path file between after} : os.openToWrite before path = (.ok file, between) →
      os.write between file archive = (.ok (), after) → os.content? after file = some archive →
        os.SameBut file before after → Takes os archive before (.file path) after
  | stream {write after} : write archive before = (.ok (), after) →
      Takes os archive before (.stream write) after

/-- An output refuses an archive over some error. -/
inductive Refuses (os : FileService lib.Archive) (archive : lib.Archive) (before : os.State)
    (error : ForeignError) : Output lib.Archive os.State → os.State → Prop
  /-- The file cannot be opened, and all files are as they were. -/
  | unopened {path after} : os.openToWrite before path = (.error error, after) →
      os.Same before after → Refuses os archive before error (.file path) after
  /-- Writing fails once the file is open, and all other files are as they were. -/
  | unwritten {path file between after} : os.openToWrite before path = (.ok file, between) →
      os.write between file archive = (.error error, after) → os.SameBut file before after →
        Refuses os archive before error (.file path) after
  | stream {write after} : write archive before = (.error error, after) →
      Refuses os archive before error (.stream write) after

end Output

/-- **An output takes an archive or refuses it.** -/
lemma outcome_deliver (laws : os.Laws) (archive : lib.Archive)
    (output : Output lib.Archive os.State) (before : os.State) :
    (∃ after, (deliver lib os archive output).outcome before = (.ok (), after)
        ∧ output.Takes os archive before after)
      ∨ ∃ error after,
        (deliver lib os archive output).outcome before = (.error (.foreign error), after)
        ∧ output.Refuses os archive before error after := by
  cases output with
  | stream write =>
      rw [deliver, Operation.outcome_ofStep]
      cases hwrite : write archive before with
      | mk result after =>
          cases result with
          | ok _ => exact .inl ⟨after, rfl, .stream hwrite⟩
          | error error => exact .inr ⟨error, after, rfl, .stream hwrite⟩
  | file path =>
      simp only [deliver, Operation.outcome_bind, Operation.outcome_ofStep]
      cases hopen : os.openToWrite before path with
      | mk opened between =>
          cases opened with
          | error error => exact .inr ⟨error, between, rfl, .unopened hopen (laws.refused hopen)⟩
          | ok file =>
              simp only [mapError_ok]
              have hbut : os.SameBut file before (os.write between file archive).2 :=
                fun other hother => (laws.apart between file archive other hother).trans
                  (laws.opened hopen other hother)
              cases hwrite : os.write between file archive with
              | mk result after =>
                  rw [hwrite] at hbut
                  cases result with
                  | ok _ =>
                      exact .inl ⟨after, rfl, .file hopen hwrite (laws.written hwrite) hbut⟩
                  | error error => exact .inr ⟨error, after, rfl, .unwritten hopen hwrite hbut⟩

/-! ## Saving a template -/

/-- What saving an opened template comes to, from the files before it to the outcome and the files
after it. -/
structure AllOrNothing (lib : Libraries) (os : FileService lib.Archive)
    (template : Template lib.Archive) (data : Value) (output : Output lib.Archive os.State)
    (before : os.State) (result : Except Raised Unit × os.State) : Prop where
  /-- A success delivers an archive with every part merged, and does nothing else. -/
  delivers : result.1 = .ok () →
    ∃ archive, template.Yields lib data archive ∧ output.Takes os archive before result.2
  /-- What keeps the template from being merged, be it a part or its tree, does nothing. -/
  spares : ∀ error, template.render lib data = .error error → result = (.error error, before)
  /-- Nothing else fails but the output. -/
  fails : ∀ error, result.1 = .error error →
    template.render lib data = .error error
      ∨ ∃ archive foreign, template.render lib data = .ok archive ∧ error = .foreign foreign
        ∧ output.Refuses os archive before foreign result.2
  /-- If some part cannot be merged, the first one in the order of the package decides, and the error
  names it unless it is a failure of the interpreter. -/
  blames : (∃ name ∈ template.partNames, (template.renderPart name data).isOk = false) →
    ∃ name error, template.FirstFailure data name error ∧ result = (.error (.own error), before)
      ∧ error.named? = if error.cause.isForeign then none else some name

/-- Saving merges first: what fails then has not touched anything. -/
lemma outcome_save (template : Template lib.Archive) (data : Value)
    (output : Output lib.Archive os.State) (state : os.State) :
    (template.save lib os data output).outcome state
      = match template.render lib data with
        | .ok archive => (deliver lib os archive output).outcome state
        | .error error => (.error error, state) := by
  simp only [Template.save, Operation.outcome_bind, Operation.outcome_ofExcept]
  cases template.render lib data <;> rfl

/-- **Saving a template delivers everything or does nothing.** -/
lemma allOrNothing_save (laws : os.Laws) {template : Template lib.Archive}
    {package : lib.OpenPackage} (hopened : template.IsOpened lib package) (data : Value)
    (output : Output lib.Archive os.State) (before : os.State) :
    AllOrNothing lib os template data output before
      ((template.save lib os data output).outcome before) := by
  rw [outcome_save]
  cases hmerged : template.render lib data with
  | error error =>
      refine ⟨nofun, fun e he => ?_, fun e he => .inl ?_, fun ⟨name, hname, hfails⟩ => ?_⟩
      · rw [Except.error.inj (hmerged.symm.trans he)]
      · rw [hmerged, Except.error.inj he]
      · obtain ⟨first, e, hfirst⟩ := Template.exists_firstFailure hname hfails
        obtain rfl := Except.error.inj (hmerged.symm.trans (Template.render_of_firstFailure hfirst))
        exact ⟨first, e, hfirst, rfl, hfirst.named?_eq⟩
  | ok archive =>
      have hyields := Template.yields_of_render hopened hmerged
      have hnone : ¬ ∃ name ∈ template.partNames, (template.renderPart name data).isOk = false := by
        rintro ⟨name, hname, hfails⟩
        obtain ⟨first, e, hfirst⟩ := Template.exists_firstFailure hname hfails
        rw [Template.render_of_firstFailure hfirst] at hmerged
        cases hmerged
      have hspares : ∀ e, template.render lib data ≠ .error e := by
        intro e he
        rw [hmerged] at he
        cases he
      rcases outcome_deliver laws archive output before with
        ⟨after, houtcome, htakes⟩ | ⟨error, after, houtcome, hrefuses⟩
      · simp only [houtcome]
        exact ⟨fun _ => ⟨archive, hyields, htakes⟩, fun e he => absurd he (hspares e), nofun,
          fun h => absurd h hnone⟩
      · simp only [houtcome]
        refine ⟨nofun, fun e he => absurd he (hspares e), fun e he => .inr ?_,
          fun h => absurd h hnone⟩
        exact ⟨archive, error, hmerged, (Except.error.inj he).symm, hrefuses⟩

/-! ## From file to file -/

/-- Merging one file into another does nothing before both paths are checked. -/
lemma outcome_renderFile (source : String) (data : Value) (target : String) (state : os.State) :
    (renderFile lib os source data target).outcome state
      = match openChecked lib os state source target with
        | .ok (template, path) => (template.save lib os data (.file path)).outcome state
        | .error error => (.error error, state) := by
  simp only [renderFile, Operation.outcome_bind, Operation.outcome_get, Operation.outcome_ofExcept]
  cases openChecked lib os state source target <;> rfl

/-- A template has been opened from a file under a path. -/
def OpensFrom (lib : Libraries) (os : FileService lib.Archive) (state : os.State) (path : String)
    (file : os.File) (template : Template lib.Archive) : Prop :=
  os.openToRead state path = .ok file ∧ ∃ source, os.read state file = .ok source
    ∧ Template.ofArchive lib source = .ok template

lemma openFile_eq_ok {state : os.State} {path : String} {template : Template lib.Archive}
    (h : openFile lib os state path = .ok template) :
    ∃ file, OpensFrom lib os state path file template := by
  simp only [openFile, bind_eq_ok, mapError_eq_ok] at h
  obtain ⟨file, hfile, source, hsource, hopened⟩ := h
  exact ⟨file, hfile, source, hsource, hopened⟩

lemma checkTemplatePath_eq_ok {state : os.State} {path normal : String}
    (h : checkTemplatePath lib os state path = .ok normal) : normal = FilePath.normal path := by
  simp only [checkTemplatePath, bind_eq_ok, throw_eq_error, error_bind] at h
  obtain ⟨found, -, h⟩ := h
  split at h
  · cases h
  · obtain ⟨isFile, -, h⟩ := bind_eq_ok.mp h
    split at h
    · cases h
    · exact (Except.ok.inj h).symm

lemma checkOutputPath_eq_ok {state : os.State} {template path normal : String}
    (h : checkOutputPath lib os state template path = .ok normal) :
    normal = FilePath.normal path ∧ ∃ target source, os.resolve state normal = .ok target
      ∧ os.resolve state template = .ok source ∧ target ≠ source := by
  simp only [checkOutputPath, bind_eq_ok, throw_eq_error, error_bind] at h
  obtain ⟨isDirectory, -, h⟩ := h
  split at h
  · cases h
  · obtain ⟨target, htarget, h⟩ := bind_eq_ok.mp h
    obtain ⟨source, hsource, h⟩ := bind_eq_ok.mp h
    split at h
    · cases h
    · next hother =>
        obtain rfl := Except.ok.inj h
        exact ⟨rfl, target, source, mapError_eq_ok.mp htarget, mapError_eq_ok.mp hsource, hother⟩

/-- Both paths have been checked: they resolve differently, and the template has been opened. -/
lemma openChecked_eq_ok {state : os.State} {source target path : String}
    {template : Template lib.Archive}
    (h : openChecked lib os state source target = .ok (template, path)) :
    path = FilePath.normal target
      ∧ (∃ file, OpensFrom lib os state (FilePath.normal source) file template)
      ∧ ∃ place place', os.resolve state path = .ok place
        ∧ os.resolve state (FilePath.normal source) = .ok place' ∧ place ≠ place' := by
  simp only [openChecked, bind_eq_ok, pure_eq_ok, Except.ok.injEq, Prod.mk.injEq] at h
  obtain ⟨source', hsource, target', htarget, opened, hopened, rfl, rfl⟩ := h
  obtain rfl := checkTemplatePath_eq_ok hsource
  obtain ⟨rfl, hother⟩ := checkOutputPath_eq_ok htarget
  exact ⟨rfl, openFile_eq_ok hopened, hother⟩

/-- What merging the template in one file into another comes to. -/
structure MergesFile (lib : Libraries) (os : FileService lib.Archive) (source : String)
    (data : Value) (target : String) (before : os.State)
    (result : Except Raised Unit × os.State) : Prop where
  /-- Where the paths or the template are refused, nothing happens. -/
  refuses : ∀ error, openChecked lib os before source target = .error error →
    result = (.error error, before)
  /-- Else the template in the file is saved. -/
  saves : ∀ template path, openChecked lib os before source target = .ok (template, path) →
    path = FilePath.normal target
      ∧ (∃ file, OpensFrom lib os before (FilePath.normal source) file template)
      ∧ AllOrNothing lib os template data (.file path) before result
  /-- The file of the template holds what it held, unless it has another name. -/
  keepsSource : os.OneNameEach → ∀ file, os.openToRead before (FilePath.normal source) = .ok file →
    os.content? result.2 file = os.content? before file

/-- What saving to a file changes, if anything: the one file that is opened for it. -/
lemma AllOrNothing.sameBut {template : Template lib.Archive} {data : Value} {path : String}
    {before : os.State} {result : Except Raised Unit × os.State}
    (h : AllOrNothing lib os template data (.file path) before result) :
    os.Same before result.2 ∨ ∃ file between, os.openToWrite before path = (.ok file, between)
      ∧ os.SameBut file before result.2 := by
  cases hresult : result.1 with
  | ok _ =>
      obtain ⟨archive, -, htakes⟩ := h.delivers hresult
      cases htakes with
      | file hopen _ _ hbut => exact .inr ⟨_, _, hopen, hbut⟩
  | error error =>
      rcases h.fails error hresult with hrender | ⟨archive, foreign, -, -, hrefuses⟩
      · rw [h.spares error hrender]
        exact .inl fun _ => rfl
      · cases hrefuses with
        | unopened _ hsame => exact .inl hsame
        | unwritten hopen _ hbut => exact .inr ⟨_, _, hopen, hbut⟩

/-- **Merging one file into another does everything or nothing, and spares the first.** -/
lemma mergesFile_renderFile (laws : os.Laws) (source : String) (data : Value) (target : String)
    (before : os.State) : MergesFile lib os source data target before
      ((renderFile lib os source data target).outcome before) := by
  rw [outcome_renderFile]
  cases hchecked : openChecked lib os before source target with
  | error error =>
      refine ⟨fun e he => ?_, fun t p ht => ?_, fun _ _ _ => rfl⟩
      · rw [Except.error.inj (hchecked.symm.trans he)]
      · rw [hchecked] at ht
        cases ht
  | ok checked =>
      obtain ⟨template, path⟩ := checked
      obtain ⟨hpath, ⟨file, hfile⟩, place, place', hplace, hplace', hother⟩ :=
        openChecked_eq_ok hchecked
      have ⟨_, archive, _, harchive⟩ := hfile
      obtain ⟨-, package, hopened⟩ := Template.isOpened_of_ofArchive harchive
      have hall := allOrNothing_save laws hopened data (.file path) before
      refine ⟨fun e he => ?_, fun t p ht => ?_, fun hnames file' hread => ?_⟩
      · rw [hchecked] at he
        cases he
      · obtain ⟨rfl, rfl⟩ := Prod.mk.inj (Except.ok.inj (hchecked.symm.trans ht))
        exact ⟨hpath, ⟨file, hfile⟩, hall⟩
      · rcases hall.sameBut with hsame | ⟨opened, between, hopen, hbut⟩
        · exact hsame file'
        · exact hbut file' (hnames hplace hplace' hother hopen hread)

/-! ## A system that can be relied on -/

namespace FileSystem

variable {Content : Type}

lemma lookup_store (place other : FilePlace) (content : Content)
    (entries : List (FilePlace × Entry Content)) :
    (store place content entries).lookup other
      = if other = place then some (.file content) else entries.lookup other := by
  induction entries with
  | nil =>
      by_cases h : other = place
      · simp [store, h]
      · simp [store, List.lookup_cons, h, beq_false_of_ne h]
  | cons entry rest ih =>
      obtain ⟨p, e⟩ := entry
      by_cases hp : p = place
      · subst hp
        by_cases h : other = p
        · simp [store, h]
        · simp [store, List.lookup_cons, h, beq_false_of_ne h]
      · rw [store, if_neg hp, List.lookup_cons, List.lookup_cons, ih]
        by_cases h : other = p
        · simp [h, hp]
        · simp [beq_false_of_ne h]

/-- Putting something into a file changes what that file holds only. -/
lemma content?_put (files : FileSystem Content) (place other : FilePlace) (content : Content) :
    (files.put place content).content? other
      = if other = place then some content else files.content? other := by
  by_cases h : other = place <;> simp [content?, put, lookup_store, h]

/-- Following parts one by one leads where they lead, whether they exist or not. -/
lemma walkFrom_eq_ok {files : FileSystem Content} {path : String} {parts : List String}
    {start place : FilePlace} {entry : Entry Content}
    (h : files.walkFrom path start parts = .ok (place, entry)) :
    place = parts.foldl FilePath.follow start := by
  induction parts generalizing start with
  | nil =>
      rw [walkFrom] at h
      split at h
      · obtain ⟨rfl, -⟩ := Prod.mk.inj (Except.ok.inj h)
        rfl
      · cases h
  | cons part rest ih =>
      rw [walkFrom] at h
      split at h
      · split at h
        · cases h
        · exact ih h
      · cases h
      · cases h

/-- A file is read at the place of its path. -/
lemma fileAt_eq_ok {files : FileSystem Content} {path : String} {place : FilePlace}
    (h : files.fileAt path = .ok place) : place = FilePath.place path := by
  obtain ⟨⟨found, entry⟩, hwalk, h⟩ := bind_eq_ok.mp h
  cases entry with
  | directory => cases h
  | file content =>
      obtain rfl := Except.ok.inj h
      unfold walk at hwalk
      split at hwalk
      · cases hwalk
      · split at hwalk
        · cases hwalk
        · split at hwalk
          · cases hwalk
          · exact walkFrom_eq_ok hwalk

end FileSystem

/-- Empty parts at the end of a path lead nowhere. -/
lemma FilePath.foldl_follow_dropWhile (reversed : List String) (start : FilePlace) :
    (reversed.dropWhile (· == "")).reverse.foldl FilePath.follow start
      = reversed.reverse.foldl FilePath.follow start := by
  induction reversed with
  | nil => rfl
  | cons part rest ih =>
      rw [List.dropWhile_cons]
      split
      · next hempty =>
          rw [ih, eq_of_beq hempty, List.reverse_cons, List.foldl_append]
          rfl
      · rfl

namespace FileSystem

variable {Content : Type}

/-- The place of a file in a directory is that of its name. -/
lemma fileIn_eq_ok {files : FileSystem Content} {path name : String}
    {directory place : FilePlace} (h : files.fileIn path directory name = .ok place) :
    place = FilePath.follow directory name := by
  unfold fileIn at h
  split at h
  · cases h
  · next hname =>
      split at h
      · cases h
      · split at h
        · cases h
        · simp only [Bool.or_eq_true, decide_eq_true_eq, not_or] at hname
          obtain ⟨⟨-, hidle⟩, hup⟩ := hname
          rw [← Except.ok.inj h, FilePath.follow, if_neg hidle, if_neg hup]

/-- A file is written at the place of its path. -/
lemma writable_eq_ok {files : FileSystem Content} {path : String} {place : FilePlace}
    (h : files.writable path = .ok place) : place = FilePath.place path := by
  have hend := FilePath.foldl_follow_dropWhile (FilePath.pieces path).reverse (FilePath.start path)
  unfold writable at h
  split at h
  · cases h
  · split at h
    · cases h
    · split at h
      · cases h
      · split at h
        · cases h
        · next name before hparts =>
            rw [hparts, List.reverse_cons, List.foldl_append, List.reverse_reverse] at hend
            obtain ⟨⟨directory, entry⟩, hwalk, hin⟩ := bind_eq_ok.mp h
            cases entry with
            | file content => cases hin
            | directory =>
                have hplace := fileIn_eq_ok hin
                rw [walkFrom_eq_ok hwalk] at hplace
                exact hplace.trans hend

/-- The files to run merges with can be relied on. -/
theorem laws_service (nothing : Content) : (service nothing).Laws where
  refused {before after path error} h := by
    change openToWrite nothing before path = _ at h
    unfold openToWrite at h
    split at h
    · cases h
    · obtain ⟨-, rfl⟩ := Prod.mk.inj h
      exact fun _ => rfl
  opened {before after path file} h other hother := by
    change openToWrite nothing before path = _ at h
    unfold openToWrite at h
    split at h
    · obtain ⟨hplace, rfl⟩ := Prod.mk.inj h
      obtain rfl := Except.ok.inj hplace
      exact (content?_put _ _ _ _).trans (if_neg hother)
    · cases h
  apart before file content other hother := (content?_put _ _ _ _).trans (if_neg hother)
  written {before after file content} h := by
    obtain ⟨-, rfl⟩ := Prod.mk.inj h
    exact (content?_put _ _ _ _).trans (if_pos rfl)

/-- Each file has one place, to which its paths resolve. -/
theorem oneNameEach_service (nothing : Content) : (service nothing).OneNameEach := by
  intro files path path' target target' file file' after htarget htarget' hother hopen hread heq
  have hplace : file = FilePath.place path := by
    change openToWrite nothing files path = _ at hopen
    unfold openToWrite at hopen
    split at hopen
    · next place hplace =>
        rw [← Except.ok.inj (Prod.mk.inj hopen).1]
        exact writable_eq_ok hplace
    · cases hopen
  have hplace' : file' = FilePath.place path' := fileAt_eq_ok (mapError_eq_ok.mp hread)
  change resolve path = .ok target at htarget
  change resolve path' = .ok target' at htarget'
  unfold resolve at htarget htarget'
  split at htarget
  · cases htarget
  · split at htarget'
    · cases htarget'
    · rw [← hplace, ← heq, hplace'] at htarget
      exact hother (Except.ok.inj (htarget.symm.trans htarget'))

end FileSystem

/-! ## The result -/

/-- **Merging is all or nothing.** Saving an opened template, and merging the template in one file
into another, writes an archive in which every templated part holds its merged tree and every other
part is unchanged, or fails and leaves all files as they were; only writing to a file that is open
already can fail otherwise. The first part in the order of the package that cannot be merged decides.
Its error names it, with one exception: failures of the interpreter, which know nothing of parts. -/
theorem saving_is_all_or_nothing (lib : Libraries) (os : FileService lib.Archive) (laws : os.Laws)
    (data : Value) (before : os.State) :
    (∀ source template, Template.ofArchive lib source = .ok template →
        (∃ package, lib.packages.openArchive source = .ok package
          ∧ template.partNames = (Template.templatedNames package.parts).eraseDups)
        ∧ ∀ output, AllOrNothing lib os template data output before
          ((template.save lib os data output).outcome before))
      ∧ ∀ source target, MergesFile lib os source data target before
        ((renderFile lib os source data target).outcome before) := by
  refine ⟨fun source template hopened => ?_, fun source target => ?_⟩
  · obtain ⟨rfl, package, h⟩ := Template.isOpened_of_ofArchive hopened
    exact ⟨⟨package, h.opens, h.partNames_eq⟩,
      fun output => allOrNothing_save laws h data output before⟩
  · exact mergesFile_renderFile laws source data target before

/-- A letter with one part, merged into a new file and, with nothing to fill in, into none. The new
file holds a package that opens to the merged part. -/
theorem saving_is_all_or_nothing_letter :
    let lib := Listing.libraries
    let os := FileSystem.service Listing.Archive.unreadable
    let letter := fun t : String =>
      Listing.Archive.package [⟨PartName.document, .main, ("<d>" ++ t ++ "</d>").toUTF8⟩]
    let template : Template lib.Archive :=
      ⟨letter "@a@", [(PartName.document, .element ⟨"d", [], []⟩ [.text "@a@".toList])]⟩
    let files : os.State := ⟨[(["letter.docx"], .file (letter "@a@"))]⟩
    let data : Value := .mapping [(.text ['a'], .text ['x'])]
    let output := Output.file "out.docx"
    let result := (template.save lib os data output).outcome files
    let body : String → lib.OpenPart := fun t =>
      ⟨"/word/document.xml", .element (.element ⟨⟨none, ['d']⟩, [], []⟩ [.text t.toList])⟩
    Template.ofArchive lib (letter "@a@") = .ok template
      ∧ (∃ archive again, output.Takes os archive files result.2
        ∧ lib.packages.openArchive archive = .ok again ∧ again.parts.Perm [body "x"])
      ∧ (∃ name error, template.FirstFailure .null name error
        ∧ (template.save lib os .null output).outcome files = (.error (.own error), files))
      ∧ os.content? ((renderFile lib os "letter.docx" data "./letter.docx").outcome files).2
          ["letter.docx"] = some (letter "@a@") := by
  intro lib os letter template files data output result body
  have laws : os.Laws := FileSystem.laws_service Listing.Archive.unreadable
  have hopened : Template.ofArchive lib (letter "@a@") = .ok template := by decide +kernel
  have hmerges := saving_is_all_or_nothing lib os laws data files
  obtain ⟨-, hsaves⟩ := hmerges.1 (letter "@a@") template hopened
  obtain ⟨-, hfails⟩ :=
    (saving_is_all_or_nothing lib os laws .null files).1 (letter "@a@") template hopened
  obtain ⟨name, error, hfirst, hfailed, -⟩ := (hfails output).blames (by decide +kernel)
  obtain ⟨archive, ⟨merged, ⟨package, hpackage, hrest, hparts⟩, -, hreopens⟩, htakes⟩ :=
    (hsaves output).delivers (by decide +kernel)
  let opened : lib.OpenPackage := ⟨[body "@a@"], [⟨PartName.document, .main, "<d>@a@</d>".toUTF8⟩]⟩
  obtain rfl : opened = package := Except.ok.inj (Eq.trans (by decide +kernel) hpackage)
  obtain ⟨part, rest, hpart, hnil, hmerged⟩ := List.forall₂_cons_left_iff.mp hparts
  obtain rfl := List.forall₂_nil_left_iff.mp hnil
  obtain rfl : body "x" = part := by
    cases hpart with
    | element _ _ htree hbytes hread =>
        let tree : Node := .element ⟨"d", [], []⟩ [.text ['x']]
        obtain rfl : tree = _ := Except.ok.inj (Eq.trans (by decide +kernel) htree)
        obtain rfl : (String.ofList (Xml.Markup.documentStart ++ "<d>x</d>".toList)).toUTF8 = _ :=
          Except.ok.inj (Eq.trans (by decide +kernel) hbytes)
        obtain rfl : Xml.Markup.element ⟨⟨none, ['d']⟩, [], []⟩ [.text ['x']] = _ :=
          Except.ok.inj (Eq.trans (by decide +kernel) hread)
        rfl
    | bytes hcontent => cases hcontent
    | other hother => exact absurd hother (by decide)
  have hset : lib.SavesAsSet merged := by
    obtain ⟨parts, entries⟩ := merged
    obtain rfl : parts = _ := hmerged
    obtain rfl : entries = _ := hrest
    intro saved hsaved
    obtain rfl := Except.ok.inj hsaved
    exact ⟨⟨[body "x"], [⟨PartName.document, .main, lib.blob (body "x").content⟩]⟩,
      by decide +kernel, .refl _⟩
  obtain ⟨again, hagain, hperm⟩ := hreopens hset
  refine ⟨hopened, ⟨archive, again, htakes, hagain, hmerged ▸ hperm⟩,
    ⟨name, error, hfirst, hfailed⟩, ?_⟩
  exact (hmerges.2 "letter.docx" "./letter.docx").keepsSource
    (FileSystem.oneNameEach_service Listing.Archive.unreadable) ["letter.docx"] (by decide +kernel)

/-- A condition whose value is a signalling number: nothing is written, but the error does not say
which part it is about. -/
theorem saving_blames_no_part :
    let lib := Listing.libraries
    let os := FileSystem.service Listing.Archive.unreadable
    let uri := Word.namespaceUri
    let source : lib.Archive := .package [⟨PartName.document, .main,
      ("<p xmlns=\"" ++ uri ++ "\">@if:a@x@endif@</p>").toUTF8⟩]
    let tree := Node.element ⟨Word.paragraph, [], [⟨none, uri⟩]⟩ [.text "@if:a@x@endif@".toList]
    let template : Template lib.Archive := ⟨source, [(PartName.document, tree)]⟩
    let data : Value := .mapping [(.text ['a'], .decimal (.nan false true 0))]
    let files : os.State := ⟨[]⟩
    let error := Cause.signal.inPart (some PartName.document)
    Template.ofArchive lib source = .ok template
      ∧ template.renderPart PartName.document data = .error (.own error)
      ∧ (template.save lib os data (.file "out.docx")).outcome files = (.error (.own error), files)
      ∧ error.named? = none := by
  decide +kernel

end FormLetter
