import FormLetter.Package.Template
import FormLetter.Proofs.Outcomes

/-!
# Merged packages

Opening a template and merging it go through the parts of a package one by one. This module says
what becomes of each part, and which part decides when one cannot be merged.

* `Template.isOpened_of_ofArchive` — what is known of a template that has been opened: the names of
  its trees, in the order of the package, and the parts of which they have been read.
* `Template.MergedPart` — what becomes of a part: the serialization of its merged tree if it is
  templated, and itself if not. `Template.yields_of_render` — an archive that is merged comes out of
  the opened package part by part.
* `Template.FirstFailure` — the first part that cannot be merged. It decides, and its error names it
  unless it is a failure of the interpreter.
-/

namespace FormLetter

namespace Template

variable {lib : Libraries}

/-! ## Opened templates -/

lemma keys_putEntry {β : Type} (key : String) (value : β) : ∀ entries : List (String × β),
    (putEntry key value entries).map Prod.fst
      = if key ∈ entries.map Prod.fst then entries.map Prod.fst else entries.map Prod.fst ++ [key]
  | [] => rfl
  | (k, v) :: rest => by
      by_cases hkey : k = key
      · simp [putEntry, hkey]
      · simp only [putEntry, beq_false_of_ne hkey, Bool.false_eq_true, ↓reduceIte, List.map_cons,
          keys_putEntry key value rest, List.mem_cons, Ne.symm hkey, false_or]
        split <;> rfl

lemma mem_putEntry {β : Type} {key : String} {value : β} : ∀ {entries : List (String × β)}
    {entry : String × β}, entry ∈ putEntry key value entries → entry = (key, value) ∨ entry ∈ entries
  | [], _, h => .inl (List.mem_singleton.mp h)
  | (k, v) :: rest, entry, h => by
      by_cases hkey : k = key
      · simp only [putEntry, hkey, BEq.rfl, ↓reduceIte, List.mem_cons] at h
        exact h.imp_right (List.mem_cons_of_mem _)
      · simp only [putEntry, beq_false_of_ne hkey, Bool.false_eq_true, ↓reduceIte,
          List.mem_cons] at h
        rcases h with h | h
        · exact .inr (h ▸ List.mem_cons_self)
        · exact (mem_putEntry h).imp_right (List.mem_cons_of_mem _)

/-- A new name comes first among those that are new, and not again. -/
lemma eraseDups_filter_cons {name : String} {names old : List String} (h : name ∉ old) :
    ((name :: names).filter fun n => n ∉ old).eraseDups
      = name :: (names.filter fun n => n ∉ old ++ [name]).eraseDups := by
  rw [List.filter_cons_of_pos (by simpa using h), List.eraseDups_cons, List.filter_filter]
  congr 3
  funext n
  by_cases hsame : n = name <;> simp [hsame]

/-- The names of the templated parts among the given ones. -/
def templatedNames {Element : Type} (parts : List (Part Element)) : List String :=
  (parts.map Part.name).filter PartName.isTemplated

/-- A tree is that of a part, with its runs joined. -/
def IsReadOf (lib : Libraries) (parts : List lib.OpenPart) (entry : String × Node) : Prop :=
  PartName.isTemplated entry.1 = true ∧ ∃ part ∈ parts, part.name = entry.1
    ∧ ∃ tree, lib.xml.parse (lib.blob part.content) (some entry.1) = .ok tree
      ∧ entry.2 = joinRuns tree

/-- The trees that are read are those that were there and those of the templated parts, each name
once. -/
lemma readParts_eq_ok : ∀ {parts : List lib.OpenPart} {trees result : List (String × Node)},
    readParts lib trees parts = .ok result →
      result.map Prod.fst = trees.map Prod.fst
          ++ ((templatedNames parts).filter fun name => name ∉ trees.map Prod.fst).eraseDups
        ∧ ∀ entry ∈ result, entry ∈ trees ∨ IsReadOf lib parts entry
  | [], trees, result, h => by
      obtain rfl := Except.ok.inj h
      exact ⟨by simp [templatedNames], fun entry hentry => .inl hentry⟩
  | part :: rest, trees, result, h => by
      rw [readParts] at h
      split at h
      · next hname =>
          obtain ⟨tree, htree, h⟩ := bind_eq_ok.mp h
          obtain ⟨hkeys, hread⟩ := readParts_eq_ok h
          refine ⟨?_, fun entry hentry => ?_⟩
          · rw [hkeys, keys_putEntry]
            split
            · next hmem => simp [templatedNames, hname, hmem]
            · next hmem =>
                have hnames : templatedNames (part :: rest) = part.name :: templatedNames rest :=
                  List.filter_cons_of_pos hname
                rw [hnames, eraseDups_filter_cons hmem, List.append_assoc, List.singleton_append]
          · rcases hread entry hentry with hold | ⟨htemplated, part', hpart', hof⟩
            · rcases mem_putEntry hold with rfl | hold
              · exact .inr ⟨hname, part, List.mem_cons_self, rfl, tree, htree, rfl⟩
              · exact .inl hold
            · exact .inr ⟨htemplated, part', List.mem_cons_of_mem _ hpart', hof⟩
      · next hname =>
          obtain ⟨hkeys, hread⟩ := readParts_eq_ok h
          refine ⟨by simpa [templatedNames, hname] using hkeys, fun entry hentry => ?_⟩
          exact (hread entry hentry).imp_right fun ⟨htemplated, part', hpart', hof⟩ =>
            ⟨htemplated, part', List.mem_cons_of_mem _ hpart', hof⟩

/-- What is known of a template that has been opened. -/
structure IsOpened (lib : Libraries) (template : Template lib.Archive) (package : lib.OpenPackage) :
    Prop where
  opens : lib.packages.openArchive template.source = .ok package
  /-- The templated parts are kept in the order of the package. -/
  partNames_eq : template.partNames = (templatedNames package.parts).eraseDups
  reads : ∀ entry ∈ template.trees, IsReadOf lib package.parts entry

lemma isOpened_of_ofArchive {source : lib.Archive} {template : Template lib.Archive}
    (h : ofArchive lib source = .ok template) :
    template.source = source ∧ ∃ package, template.IsOpened lib package := by
  rw [ofArchive] at h
  obtain ⟨package, hpackage, h⟩ := bind_eq_ok.mp h
  obtain ⟨trees, htrees, h⟩ := bind_eq_ok.mp h
  obtain rfl : (⟨source, trees⟩ : Template lib.Archive) = template := by
    split at h
    · cases h
    · exact Except.ok.inj h
  obtain ⟨hkeys, hread⟩ := readParts_eq_ok htrees
  refine ⟨rfl, package, mapError_eq_ok.mp hpackage, ?_, fun entry hentry => ?_⟩
  · change trees.map Prod.fst = _
    simpa using hkeys
  · exact (hread entry hentry).resolve_left List.not_mem_nil

/-- The template keeps a tree for a part of its package exactly if the part is templated. -/
lemma IsOpened.lookup_isSome {template : Template lib.Archive} {package : lib.OpenPackage}
    (h : template.IsOpened lib package) {part : lib.OpenPart} (hpart : part ∈ package.parts) :
    (template.trees.lookup part.name).isSome = PartName.isTemplated part.name := by
  have hnames : part.name ∈ template.partNames ↔ PartName.isTemplated part.name = true := by
    rw [h.partNames_eq, List.mem_eraseDups, templatedNames, List.mem_filter]
    exact and_iff_right (List.mem_map_of_mem hpart)
  rw [Bool.eq_iff_iff, ← hnames, List.lookup_isSome_iff, partNames, List.mem_map]
  simp only [beq_iff_eq, @eq_comm _ part.name]

/-! ## Parts that cannot be merged -/

/-- An error in a part carries its name. -/
lemma part_of_renderNamed {data : Value} {name : String} {tree : Node} {error : RenderError}
    (h : renderNamed data name tree = .error error) : error.part = some name := by
  unfold renderNamed boundedProperties boundedRender at h
  split at h
  all_goals
    obtain ⟨cause, -, rfl⟩ := mapError_eq_error.mp h
    rfl

/-- The part with this name is the first one, in the order of the package, that cannot be merged. -/
def FirstFailure {Archive : Type} (template : Template Archive) (data : Value) (name : String)
    (error : RenderError) : Prop :=
  ∃ earlier tree later, template.trees = earlier ++ (name, tree) :: later
    ∧ (∀ entry ∈ earlier, (renderNamed data entry.1 entry.2).isOk = true)
    ∧ renderNamed data name tree = .error error

/-- **The parts cannot all be merged exactly if there is a first one that cannot be,** and its error
is raised. -/
theorem renderParts_eq_error {Archive : Type} {template : Template Archive} {data : Value}
    {error : RenderError} :
    renderParts data template.trees = .error error
      ↔ ∃ name, template.FirstFailure data name error := by
  have hstep : ∀ entry : String × Node,
      ((renderNamed data entry.1 entry.2).map (entry.1, ·)).isOk
        = (renderNamed data entry.1 entry.2).isOk := fun entry => by
    cases renderNamed data entry.1 entry.2 <;> rfl
  rw [renderParts, mapM_eq_error]
  constructor
  · rintro ⟨earlier, ⟨name, tree⟩, later, htrees, hearlier, herror⟩
    refine ⟨name, earlier, tree, later, htrees, fun entry hentry => ?_, ?_⟩
    · rw [← hstep]
      exact hearlier entry hentry
    · simp only at herror
      cases hmerged : renderNamed data name tree with
      | error e =>
          rw [hmerged, map_error] at herror
          rw [Except.error.inj herror]
      | ok merged =>
          rw [hmerged] at herror
          cases herror
  · rintro ⟨name, earlier, tree, later, htrees, hearlier, herror⟩
    refine ⟨earlier, (name, tree), later, htrees, fun entry hentry => ?_, ?_⟩
    · exact (hstep entry).trans (hearlier entry hentry)
    · simp only [herror, map_error]

lemma lookup_renderParts {data : Value} {trees merged : List (String × Node)}
    (h : renderParts data trees = .ok merged) (name : String) :
    merged.lookup name = none ∧ trees.lookup name = none
      ∨ ∃ tree result, trees.lookup name = some tree ∧ merged.lookup name = some result
        ∧ renderNamed data name tree = .ok result := by
  rw [renderParts, mapM_eq_ok] at h
  induction h with
  | nil => exact .inl ⟨rfl, rfl⟩
  | @cons entry entry' _ _ hentry _ ih =>
      obtain ⟨result, hresult, rfl⟩ := map_eq_ok.mp hentry
      rw [List.lookup_cons, List.lookup_cons]
      by_cases hname : name = entry.1
      · subst hname
        exact .inr ⟨entry.2, result, by simp, by simp, hresult⟩
      · simpa only [beq_false_of_ne hname] using ih

/-- If some part cannot be merged, there is a first one. -/
lemma exists_firstFailure {Archive : Type} {template : Template Archive} {data : Value}
    {name : String} (hname : name ∈ template.partNames)
    (hfails : (template.renderPart name data).isOk = false) :
    ∃ first error, template.FirstFailure data first error := by
  cases hmerged : renderParts data template.trees with
  | error error =>
      obtain ⟨first, hfirst⟩ := renderParts_eq_error.mp hmerged
      exact ⟨first, error, hfirst⟩
  | ok merged =>
      rcases lookup_renderParts hmerged name with ⟨-, htree⟩ | ⟨tree, result, htree, -, hresult⟩
      · obtain ⟨entry, hentry, rfl⟩ := List.mem_map.mp hname
        rw [List.lookup_eq_none_iff] at htree
        exact absurd (htree entry hentry) (by simp)
      · rw [renderPart, htree] at hfails
        simp only [hresult] at hfails
        cases hfails

/-- The error of a part names it, unless it is a failure of the interpreter. -/
lemma FirstFailure.named?_eq {Archive : Type} {template : Template Archive} {data : Value}
    {name : String} {error : RenderError} (h : template.FirstFailure data name error) :
    error.named? = if error.cause.isForeign then none else some name := by
  obtain ⟨earlier, tree, later, -, -, herror⟩ := h
  rw [RenderError.named?, part_of_renderNamed herror]

/-! ## Merged packages -/

/-- What becomes of a part of a template that is merged with data. -/
inductive MergedPart (lib : Libraries) (template : Template lib.Archive) (data : Value) :
    lib.OpenPart → lib.OpenPart → Prop
  /-- A templated part that is kept as an element: the serialization of its merged tree is read. -/
  | element {part e e' tree bytes} : part.content = .element e →
      PartName.isTemplated part.name = true → template.renderPart part.name data = .ok tree →
        lib.xml.serialize tree = .ok bytes → lib.packages.readElement bytes = .ok e' →
          MergedPart lib template data part { part with content := .element e' }
  /-- A templated part that is kept as bytes holds the serialization of its merged tree. -/
  | bytes {part content tree bytes} : part.content = .bytes content →
      PartName.isTemplated part.name = true → template.renderPart part.name data = .ok tree →
        lib.xml.serialize tree = .ok bytes →
          MergedPart lib template data part { part with content := .bytes bytes }
  /-- Every other part is as it was. -/
  | other {part} : PartName.isTemplated part.name = false → MergedPart lib template data part part

/-- The package of a template with all its parts merged, and nothing else changed. -/
def IsMerged (lib : Libraries) (template : Template lib.Archive) (data : Value)
    (merged : lib.OpenPackage) : Prop :=
  ∃ package, lib.packages.openArchive template.source = .ok package ∧ merged.rest = package.rest
    ∧ List.Forall₂ (MergedPart lib template data) package.parts merged.parts

/-- An archive is a merged package that has been saved; if the package is saved as set, the archive
opens to the merged parts. -/
def Yields (lib : Libraries) (template : Template lib.Archive) (data : Value)
    (archive : lib.Archive) : Prop :=
  ∃ merged, template.IsMerged lib data merged ∧ lib.packages.save merged = .ok archive
    ∧ (lib.SavesAsSet merged →
      ∃ again, lib.packages.openArchive archive = .ok again ∧ again.parts.Perm merged.parts)

/-- What a merge takes: all parts are merged before any of them is set. -/
lemma render_eq_ok {template : Template lib.Archive} {data : Value} {archive : lib.Archive} :
    template.render lib data = .ok archive
      ↔ ∃ trees package parts, renderParts data template.trees = .ok trees
        ∧ lib.packages.openArchive template.source = .ok package
        ∧ package.parts.mapM (setPart lib trees) = .ok parts
        ∧ lib.packages.save { package with parts } = .ok archive := by
  simp only [render, openPackage, bind_eq_ok, mapError_eq_ok, exists_and_left]

lemma render_of_firstFailure {template : Template lib.Archive} {data : Value} {name : String}
    {error : RenderError} (h : template.FirstFailure data name error) :
    template.render lib data = .error (.own error) := by
  rw [render, renderParts_eq_error.mpr ⟨name, h⟩]
  rfl

lemma mergedPart_of_setPart {template : Template lib.Archive} {data : Value}
    {package : lib.OpenPackage} (hopened : template.IsOpened lib package)
    {merged : List (String × Node)} (hmerged : renderParts data template.trees = .ok merged)
    {part part' : lib.OpenPart} (hpart : part ∈ package.parts)
    (hset : setPart lib merged part = .ok part') : MergedPart lib template data part part' := by
  have hkept := hopened.lookup_isSome hpart
  rw [setPart] at hset
  rcases lookup_renderParts hmerged part.name with
    ⟨hnone, htree⟩ | ⟨tree, result, htree, hsome, hresult⟩
  · rw [htree] at hkept
    rw [hnone] at hset
    obtain rfl := Except.ok.inj hset
    exact .other hkept.symm
  · rw [htree] at hkept
    rw [hsome] at hset
    have hrender : template.renderPart part.name data = .ok result := by
      rw [renderPart, htree]
      exact mapError_eq_ok.mpr hresult
    obtain ⟨content, hcontent, rfl⟩ := map_eq_ok.mp hset
    obtain ⟨bytes, hbytes, hcontent⟩ := bind_eq_ok.mp hcontent
    split at hcontent
    · next e hold =>
        obtain ⟨e', he', hcontent⟩ := bind_eq_ok.mp hcontent
        obtain rfl := Except.ok.inj hcontent
        exact .element hold hkept.symm hrender hbytes he'
    · next old hold =>
        obtain rfl := Except.ok.inj hcontent
        exact .bytes hold hkept.symm hrender hbytes

/-- The package is merged once all of its parts are set. -/
lemma isMerged_of_mapM {template : Template lib.Archive} {data : Value} {package : lib.OpenPackage}
    (hopened : template.IsOpened lib package) {merged : List (String × Node)}
    (hmerged : renderParts data template.trees = .ok merged) {parts : List lib.OpenPart}
    (hparts : package.parts.mapM (setPart lib merged) = .ok parts) :
    template.IsMerged lib data { package with parts } := by
  have hall : List.Forall₂ (fun part part' => part ∈ package.parts
      ∧ setPart lib merged part = .ok part') package.parts parts :=
    (List.forall₂_and_left _ _).mpr ⟨fun _ hpart => hpart, mapM_eq_ok.mp hparts⟩
  exact ⟨package, hopened.opens, rfl, hall.imp fun _ _ ⟨hpart, hset⟩ =>
    mergedPart_of_setPart hopened hmerged hpart hset⟩

/-- **A merge that succeeds merges every part.** -/
theorem yields_of_render {template : Template lib.Archive} {data : Value}
    {package : lib.OpenPackage} (hopened : template.IsOpened lib package) {archive : lib.Archive}
    (h : template.render lib data = .ok archive) : template.Yields lib data archive := by
  obtain ⟨trees, package', parts, htrees, hpackage, hparts, hsave⟩ := render_eq_ok.mp h
  obtain rfl : package = package' := Except.ok.inj (hopened.opens.symm.trans hpackage)
  exact ⟨{ package with parts }, isMerged_of_mapM hopened htrees hparts, hsave,
    fun hsaves => hsaves _ hsave⟩

end Template

end FormLetter
