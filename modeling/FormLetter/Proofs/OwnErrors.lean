import FormLetter.Proofs.Interruptions
import FormLetter.Proofs.RoundTrip
import FormLetter.Proofs.Saving

/-!
# What rendering raises

Rendering a template should succeed or raise an error of its own that names a part. It does, but for
some leaks, and this file says where they are, for any libraries whose markup part reads characters
as `XmlLibrary.Reads` says.

* `Template.Ends` — the ways in which rendering ends, each with what it takes: a merge of all parts,
  an error that names one of them, a failure of the interpreter over a number or a numeral, a
  character of the data or a tag of the template that the library refuses, a part that cannot be read
  again, and a package that cannot be saved.
* `Template.ends_of_serialize` — what serializing a merged part may fail over. Since merged trees are
  escaped and bring no tags in, it fails over nothing that a merge has made: no reference that text of
  the template and text of the data happen to form, and no markup in the data.
* `rendering_ends` — every rendering ends in one of these ways, and saving to a stream ends as
  rendering does, or as the stream does.

The stack of the interpreter and texts that are no sequences of characters are left out here as they
are in `Data.Refusal`.
-/

namespace FormLetter

namespace Template

variable {lib : Libraries} {template : Template lib.Archive} {package : lib.OpenPackage}
  {data : Value}

/-! ## Opened templates -/

/-- The characters that the library lets into documents. -/
def Admitted (lib : Libraries) (c : Char) : Prop := lib.xml.textFault? [c] = none

lemma isElement_joinRuns (node : Node) : (joinRuns node).isElement = node.isElement := by
  cases node with
  | text value => rfl
  | element tag children =>
      rw [joinRuns]
      split <;> rfl

/-- **The trees of an opened template are joined, escaped and elements.** -/
theorem escaped_of_isOpened (hreads : lib.xml.Reads) (hopened : template.IsOpened lib package)
    {name : String} {tree : Node} (hmem : (name, tree) ∈ template.trees) :
    joinRuns tree = tree ∧ Escaped (Admitted lib) tree ∧ tree.isElement = true := by
  obtain ⟨-, part, -, -, source, hparse, rfl⟩ := hopened.reads _ hmem
  obtain ⟨e, hread, rfl⟩ := XmlLibrary.parse_eq_ok hparse
  refine ⟨joinRuns_joinRuns _, escaped_joinRuns _ fun t ht => ?_, isElement_joinRuns _⟩
  obtain ⟨s, hs, rfl⟩ := mem_texts_toNode ht
  have haccepted := (hreads.refuses s).mp (hreads.fair _ e hread s hs)
  exact isEscaped_escapeMarkup fun c hc _ _ => haccepted c hc

/-! ## How rendering ends -/

/-- The ways in which rendering a template with data ends. -/
inductive Ends (lib : Libraries) (template : Template lib.Archive) (data : Value) :
    Except Raised lib.Archive → Prop
  /-- All parts are merged. -/
  | merged {archive} : template.Yields lib data archive → Ends lib template data (.ok archive)
  /-- An error names one of the parts. -/
  | reported {error name} : error.named? = some name → name ∈ template.partNames →
      Ends lib template data (.error (.own error))
  /-- Comparing a number of the data signals. -/
  | signalled {error} : error.cause = .signal → Signals data →
      Ends lib template data (.error (.own error))
  /-- An integer of the data or a numeral has more digits than the interpreter converts. -/
  | refused {error refusal} : error.cause = .refused refusal → refusal.IsOver data →
      Ends lib template data (.error (.own error))
  /-- A text of the data holds a character that the library does not let into documents. -/
  | character {path t c s error} : traverse data path = .ok (.text t) → c ∈ t → ¬ Admitted lib c →
      lib.xml.textFault? s = some error → Ends lib template data (.error (.foreign error))
  /-- A tag of the template is refused. -/
  | tag {name tree tag error} : (name, tree) ∈ template.trees → tag ∈ tree.tags →
      lib.xml.tagFault? tag = some error → Ends lib template data (.error (.foreign error))
  /-- A part that is kept as an element cannot be read once it is merged and serialized. -/
  | unreadable {name tree result bytes error} : (name, tree) ∈ template.trees →
      renderNamed data name tree = .ok result → lib.xml.serialize result = .ok bytes →
        lib.packages.readElement bytes = .error error →
          Ends lib template data (.error (.foreign error))
  /-- The merged package cannot be saved. -/
  | unsaved {merged error} : template.IsMerged lib data merged →
      lib.packages.save merged = .error error → Ends lib template data (.error (.foreign error))

lemma ends_of_renderParts {error : RenderError}
    (h : renderParts data template.trees = .error error) :
    Ends lib template data (.error (.own error)) := by
  obtain ⟨name, hfirst⟩ := renderParts_eq_error.mp h
  have hnamed := hfirst.named?_eq
  obtain ⟨earlier, tree, later, htrees, -, herror⟩ := hfirst
  cases hforeign : error.cause.isForeign with
  | true =>
      rcases foreign_of_renderNamed herror hforeign with ⟨hcause, hsignals⟩ | ⟨refusal, hcause, hover⟩
      · exact .signalled hcause hsignals
      · exact .refused hcause hover
  | false =>
      rw [hforeign] at hnamed
      exact .reported hnamed (List.mem_map.mpr ⟨(name, tree), by simp [htrees], rfl⟩)

/-- **Serializing a merged part fails over the data only if they hold a character that is refused.** -/
theorem ends_of_serialize (hreads : lib.xml.Reads) (hopened : template.IsOpened lib package)
    {name : String} {tree result : Node} {error : ForeignError} (hmem : (name, tree) ∈ template.trees)
    (hmerged : renderNamed data name tree = .ok result)
    (h : lib.xml.serialize result = .error error) :
    Ends lib template data (.error (.foreign error)) := by
  have hascii : AdmitsAscii (Admitted lib) := hreads.accepts
  obtain ⟨hjoined, hescaped, helement⟩ := escaped_of_isOpened hreads hopened hmem
  obtain ⟨hresult, htags, hkept⟩ := renderNamed_escaped hascii hjoined
    (fun t ht => (hescaped t ht).mono fun c hc => Or.inl hc) hmerged
  rw [helement] at hkept
  obtain ⟨root, children, rfl⟩ : ∃ root children, result = .element root children := by
    cases result with
    | text value => cases hkept
    | element root children => exact ⟨root, children, rfl⟩
  cases XmlLibrary.hinders_of_build hreads (map_eq_error.mp h) with
  | tag htag hfault => exact .tag hmem (htags htag) hfault
  | digits ht hrefusal =>
      rw [(hresult _ ht).referenceRefusal?] at hrefusal
      cases hrefusal
  | character ht hc hfault hs =>
      have hnamed : ∀ c ∈ namedChars.map Prod.snd, Showable (Admitted lib) data c :=
        fun c hc => .inl (hascii.of_mem_namedChars hc)
      rcases (hresult _ ht).of_mem_unescape hnamed _ hc with hadmitted | ⟨path, t, hpath, hct⟩
      · exact absurd hadmitted hfault
      · exact .character hpath hct hfault hs

lemma ends_of_setPart (hreads : lib.xml.Reads) (hopened : template.IsOpened lib package)
    {merged : List (String × Node)} (hmerged : renderParts data template.trees = .ok merged)
    {part : lib.OpenPart} {error : ForeignError} (h : setPart lib merged part = .error error) :
    Ends lib template data (.error (.foreign error)) := by
  rw [setPart] at h
  rcases lookup_renderParts hmerged part.name with
    ⟨hnone, -⟩ | ⟨tree, result, htree, hsome, hresult⟩
  · rw [hnone] at h
    cases h
  · rw [hsome] at h
    have hmem : (part.name, tree) ∈ template.trees := by
      obtain ⟨earlier, later, htrees, -⟩ := List.lookup_eq_some_iff.mp htree
      simp [htrees]
    rcases bind_eq_error.mp (map_eq_error.mp h) with hserialize | ⟨bytes, hbytes, hcontent⟩
    · exact ends_of_serialize hreads hopened hmem hresult hserialize
    · split at hcontent
      · rcases bind_eq_error.mp hcontent with hread | ⟨e, -, hcontent⟩
        · exact .unreadable hmem hresult hbytes hread
        · cases hcontent
      · cases hcontent

end Template

/-- **How every rendering ends.** An opened template, whatever the data are, is merged or fails with
an error that names one of its parts, or something leaks out: a failure of the interpreter over a
number that signals or digits that are too many, a character of the data or a tag of the template
that the library for markup refuses, or an error of the library for packages. Saving to a stream ends
as rendering does, or as writing to the stream does. -/
theorem rendering_ends {lib : Libraries} (hreads : lib.xml.Reads) {source : lib.Archive}
    {template : Template lib.Archive} (hopened : Template.ofArchive lib source = .ok template)
    (data : Value) :
    template.Ends lib data (template.render lib data)
      ∧ ∀ (os : FileService lib.Archive) write before,
        (template.save lib os data (.stream write)).outcome before
          = match template.render lib data with
            | .ok archive =>
              ((write archive before).1.mapError .foreign, (write archive before).2)
            | .error error => (.error error, before) := by
  obtain ⟨-, package, hpackage⟩ := Template.isOpened_of_ofArchive hopened
  constructor
  · cases hrender : template.render lib data with
    | ok archive => exact .merged (Template.yields_of_render hpackage hrender)
    | error error =>
        rcases bind_eq_error.mp hrender with h | ⟨merged, hmerged, h⟩
        · obtain ⟨own, hown, rfl⟩ := mapError_eq_error.mp h
          exact Template.ends_of_renderParts hown
        · have hmerged := mapError_eq_ok.mp hmerged
          rcases bind_eq_error.mp h with h | ⟨package', hpackage', h⟩
          · obtain ⟨fault, hfault, -⟩ := mapError_eq_error.mp h
            rw [hpackage.opens] at hfault
            cases hfault
          · obtain rfl : package = package' :=
              Except.ok.inj (hpackage.opens.symm.trans (mapError_eq_ok.mp hpackage'))
            rcases bind_eq_error.mp h with h | ⟨parts, hparts, h⟩
            · obtain ⟨foreign, hforeign, rfl⟩ := mapError_eq_error.mp h
              obtain ⟨_, part, _, -, -, hpart⟩ := mapM_eq_error.mp hforeign
              exact Template.ends_of_setPart hreads hpackage hmerged hpart
            · obtain ⟨foreign, hforeign, rfl⟩ := mapError_eq_error.mp h
              exact .unsaved (Template.isMerged_of_mapM hpackage hmerged (mapError_eq_ok.mp hparts))
                hforeign
  · intro os write before
    rw [outcome_save]
    cases template.render lib data with
    | ok archive => exact Operation.outcome_ofStep _ _
    | error error => rfl

/-- A letter that is merged with a text full of markup characters, and fails with nothing to show. -/
theorem rendering_ends_letter :
    let lib := Listing.libraries
    let os := FileSystem.service Listing.Archive.unreadable
    let source : lib.Archive := .package [⟨PartName.document, .main, "<d>@a@</d>".toUTF8⟩]
    let template : Template lib.Archive :=
      ⟨source, [(PartName.document, .element ⟨"d", [], []⟩ [.text "@a@".toList])]⟩
    let data : Value := .mapping [(.text ['a'], .text "<&\x22".toList)]
    let write : lib.Archive → os.State → Except ForeignError Unit × os.State :=
      fun archive files => (.ok (), files.put ["letter.docx"] archive)
    Template.ofArchive lib source = .ok template
      ∧ template.Ends lib data (template.render lib data)
      ∧ template.Ends lib .null (template.render lib .null)
      ∧ ((template.save lib os data (.stream write)).outcome ⟨[]⟩).1 = .ok ()
      ∧ ((template.save lib os .null (.stream write)).outcome ⟨[]⟩).1.isOk = false := by
  intro lib os source template data write
  have hopened : Template.ofArchive lib source = .ok template := by decide +kernel
  obtain ⟨hends, hsaves⟩ := rendering_ends (Xml.reads_libraryWith []) hopened data
  obtain ⟨hends', hsaves'⟩ := rendering_ends (Xml.reads_libraryWith []) hopened .null
  have hok : (template.render lib data).isOk = true := by decide +kernel
  have herror : (template.render lib .null).isOk = false := by decide +kernel
  refine ⟨hopened, hends, hends', ?_, ?_⟩
  · obtain ⟨archive, harchive⟩ := isOk_eq_true.mp hok
    rw [hsaves os write, harchive]
    rfl
  · rw [hsaves' os write]
    cases hrender : template.render lib .null with
    | ok archive =>
        rw [hrender] at herror
        cases herror
    | error error => rfl

/-- A control character in the data is not escaped, and serializing refuses it: the error is one of
the library for markup and names no part. -/
theorem rendering_leaks_character :
    let lib := Listing.libraries
    let source : lib.Archive := .package [⟨PartName.document, .main, "<d>@a@</d>".toUTF8⟩]
    let template : Template lib.Archive :=
      ⟨source, [(PartName.document, .element ⟨"d", [], []⟩ [.text "@a@".toList])]⟩
    let data : Value := .mapping [(.text ['a'], .text ['\x01'])]
    let error : ForeignError := ⟨"ValueError", Xml.BuildError.unwritableText.message⟩
    Template.ofArchive lib source = .ok template
      ∧ template.renderPart PartName.document data
        = .ok (.element ⟨"d", [], []⟩ [.text ['\x01']])
      ∧ template.render lib data = .error (.foreign error)
      ∧ ∀ (os : FileService lib.Archive) write before,
        (template.save lib os data (.stream write)).outcome before
          = (.error (.foreign error), before) := by
  intro lib source template data error
  have hrender : template.render lib data = .error (.foreign error) := by decide +kernel
  refine ⟨by decide +kernel, by decide +kernel, hrender, fun os write before => ?_⟩
  rw [outcome_save, hrender]

end FormLetter
