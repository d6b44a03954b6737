import FormLetter.Proofs.BuiltTrees
import FormLetter.Proofs.ItemScope
import FormLetter.Proofs.Verbatim
import FormLetter.Xml.Library

/-!
# Round trips

A document that is parsed, serialized and parsed again comes back with its neighbouring texts joined,
and a second round trip changes nothing. This takes tags that can be built again: reading lets some
others pass, when the fault that it finds with them is followed by a warning.

What is asked of the library is that a tree which has been built and written is read with the same
names, attributes, texts and children (`XmlLibrary.Keeps`). It is asked of each tree by itself: an
element without a namespace can be put inside a default one, and what is written then is read as a
part of that namespace.

* `serialize_succeeds_iff` — which trees of documents can be serialized.
* `resettled_of_parse` — resettling the tree of a document joins its texts.
* `parse_undoes_serialize` — the round trips, and `parse_lets_pass_what_serialize_refuses` — a
  document that does not get through one.
-/

namespace FormLetter

/-! ## Attributes -/

lemma putEntry_of_not_mem {α β : Type} [BEq α] [LawfulBEq α] (key : α) (value : β) :
    ∀ {entries : List (α × β)}, key ∉ entries.map Prod.fst →
      putEntry key value entries = entries ++ [(key, value)]
  | [], _ => rfl
  | (k, v) :: rest, h => by
      rw [List.map_cons, List.mem_cons, not_or] at h
      have hkey : (k == key) = false := beq_false_of_ne (Ne.symm h.1)
      rw [putEntry, hkey, if_neg Bool.false_ne_true, putEntry_of_not_mem key value h.2,
        List.cons_append]

/-- Entries with different keys stay as they are. -/
lemma putEntries_of_nodup {α β : Type} [BEq α] [LawfulBEq α] {entries : List (α × β)}
    (h : (entries.map Prod.fst).Nodup) : putEntries entries = entries := by
  have hfrom : ∀ (rest done : List (α × β)), ((done ++ rest).map Prod.fst).Nodup →
      rest.foldl (fun done entry => putEntry entry.1 entry.2 done) done = done ++ rest := by
    intro rest
    induction rest with
    | nil => intro done _; rw [List.foldl_nil, List.append_nil]
    | cons entry rest ih =>
        intro done hnodup
        obtain ⟨key, value⟩ := entry
        have hnew : key ∉ done.map Prod.fst := by
          rw [List.map_append, List.map_cons, List.nodup_append] at hnodup
          exact fun hmem => hnodup.2.2 _ hmem _ List.mem_cons_self rfl
        rw [List.foldl_cons]
        change List.foldl _ (putEntry key value done) rest = _
        rw [putEntry_of_not_mem key value hnew, ih _ (by simpa using hnodup), List.append_assoc,
          List.singleton_append]
  exact hfrom entries [] (by simpa using h)

/-- No attribute is named twice. -/
def StartTag.HasDistinctAttributes (tag : StartTag) : Prop := (tag.attributes.map Prod.fst).Nodup

instance (tag : StartTag) : Decidable tag.HasDistinctAttributes :=
  inferInstanceAs (Decidable (List.Nodup _))

/-- Such a tag is built as it is, but for its declarations. -/
lemma undeclared_built {tag : StartTag} (h : tag.HasDistinctAttributes) :
    Node.undeclared tag.built = Node.undeclared tag := by
  rw [Node.undeclared, StartTag.built, putEntries_of_nodup h]
  rfl

mutual

lemma mapTags_mapTags {f g : StartTag → StartTag} : ∀ node : Node,
    (node.mapTags f).mapTags g = node.mapTags (g ∘ f)
  | .text _ => rfl
  | .element tag children => by
      rw [Node.mapTags, Node.mapTags, Node.mapTags, mapTagsOf_mapTagsOf children, Function.comp]

lemma mapTagsOf_mapTagsOf {f g : StartTag → StartTag} : ∀ nodes : List Node,
    Node.mapTagsOf g (Node.mapTagsOf f nodes) = Node.mapTagsOf (g ∘ f) nodes
  | [] => rfl
  | node :: rest => by
      rw [Node.mapTagsOf, Node.mapTagsOf, Node.mapTagsOf, mapTags_mapTags node,
        mapTagsOf_mapTagsOf rest]

end

mutual

lemma mapTags_congr {g g' : StartTag → StartTag} : ∀ node : Node,
    (∀ tag ∈ node.tags, g tag = g' tag) →
    node.mapTags g = node.mapTags g'
  | .text _, _ => rfl
  | .element tag children, h => by
      rw [Node.tags, List.forall_mem_cons] at h
      rw [Node.mapTags, Node.mapTags, h.1, mapTagsOf_congr children h.2]

lemma mapTagsOf_congr {g g' : StartTag → StartTag} : ∀ nodes : List Node,
    (∀ tag ∈ Node.tagsOf nodes, g tag = g' tag) → Node.mapTagsOf g nodes = Node.mapTagsOf g' nodes
  | [], _ => rfl
  | node :: rest, h => by
      rw [Node.tagsOf, List.forall_mem_append] at h
      rw [Node.mapTagsOf, Node.mapTagsOf, mapTags_congr node h.1, mapTagsOf_congr rest h.2]

end

/-! ## Trees of documents -/

namespace XmlLibrary

variable {lib : XmlLibrary} {document : ByteArray} {part : Option String} {tree : Node}

lemma parse_eq_ok (h : lib.parse document part = .ok tree) :
    ∃ e, lib.read document = .ok e ∧ tree = e.toNode := by
  unfold parse at h
  split at h
  · next e hread => exact ⟨e, hread, (Except.ok.inj h).symm⟩
  · cases h
  · cases h

lemma parse_of_read {e : Etree} (h : lib.read document = .ok e) :
    lib.parse document part = .ok e.toNode := by
  unfold parse
  rw [h]

/-- The texts of a document can be put into slots again. -/
lemma admits_of_parse (hreads : lib.Reads) (h : lib.parse document part = .ok tree) :
    ∀ t ∈ tree.texts, lib.Admits t := by
  intro t ht
  obtain ⟨e, hread, rfl⟩ := parse_eq_ok h
  obtain ⟨s, hs, rfl⟩ := mem_texts_toNode ht
  have hescaped : IsEscaped (fun _ => True) (escapeMarkup s) :=
    isEscaped_escapeMarkup fun _ _ _ _ => trivial
  refine ⟨hescaped.referenceRefusal?, ?_⟩
  rw [unescape_escapeMarkup]
  exact (hreads.refuses s).mp (hreads.fair document e hread s hs)

/-- **The tree of a document can be serialized exactly if its tags are accepted.** -/
theorem serialize_succeeds_iff (hreads : lib.Reads) (h : lib.parse document part = .ok tree) :
    (∃ bytes, lib.serialize tree = .ok bytes) ↔ ∀ tag ∈ tree.tags, lib.tagFault? tag = none := by
  have htexts := admits_of_parse hreads h
  obtain ⟨e, -, rfl⟩ := parse_eq_ok h
  rw [serialize]
  simp only [map_eq_ok]
  constructor
  · rintro ⟨bytes, built, hbuilt, -⟩
    exact ((build_succeeds_iff hreads).mp ⟨built, hbuilt⟩).1
  · intro htags
    obtain ⟨built, hbuilt⟩ := (build_succeeds_iff hreads).mpr ⟨htags, htexts⟩
    exact ⟨lib.write built, built, hbuilt, rfl⟩

/-- **Resettling the tree of a document joins its texts.** -/
theorem resettled_of_parse (h : lib.parse document part = .ok tree) :
    tree.resettled = tree.joined := by
  obtain ⟨e, -, rfl⟩ := parse_eq_ok h
  have hsame : ∀ t ∈ e.toNode.texts, escapeMarkup (unescape t) = id t := by
    intro t ht
    obtain ⟨s, -, rfl⟩ := mem_texts_toNode ht
    rw [unescape_escapeMarkup, id]
  rw [Node.resettled, ← Node.joined_mapText isBitwise_escapeMarkup, mapText_mapText _ hsame,
    mapText_id]

lemma resettled_mapTags (g : StartTag → StartTag) (node : Node) :
    (node.mapTags g).resettled = node.resettled.mapTags g := by
  rw [Node.resettled, Node.resettled, ← Node.mapTags_mapText, Node.joined_mapTags,
    Node.mapTags_mapText]

/-! ## Round trips -/

/-- What is parsed of any tree that has been built and written. -/
lemma parse_of_build (part : Option String) {built : Etree} (hbuilt : lib.build tree = .ok built)
    (hkeeps : lib.Keeps Node.undeclared built) : ∃ again,
      lib.parse (lib.write built) part = .ok again
        ∧ again.same (tree.mapTags StartTag.built).resettled = true := by
  obtain ⟨e, hread, hseen⟩ := hkeeps
  refine ⟨e.toNode, parse_of_read hread, Node.same_iff.mpr ?_⟩
  rw [mapTags_toNode (fun _ _ => rfl), hseen, plain_of_build hbuilt, ← resettled_mapTags,
    mapTags_mapTags]

/-- What is parsed of the tree of a document, if no tag of it has an attribute twice. -/
lemma same_joined_of_build {built : Etree} (h : lib.parse document part = .ok tree)
    (hdistinct : ∀ tag ∈ tree.tags, tag.HasDistinctAttributes)
    (hbuilt : lib.build tree = .ok built) (hkeeps : lib.Keeps Node.undeclared built) :
    ∃ again, lib.parse (lib.write built) part = .ok again ∧ again.same tree.joined = true := by
  obtain ⟨again, hparse, hsame⟩ := parse_of_build part hbuilt hkeeps
  refine ⟨again, hparse, Node.same_iff.mpr ?_⟩
  have htags : ∀ tag ∈ tree.tags, (Node.undeclared ∘ StartTag.built) tag = Node.undeclared tag :=
    fun tag htag => undeclared_built (hdistinct tag htag)
  rw [Node.same_iff.mp hsame, ← resettled_mapTags, mapTags_mapTags, mapTags_congr tree htags,
    resettled_mapTags, resettled_of_parse h]

/-- A tree that is the same as a joined one has no texts left to join. -/
lemma mapTags_joined_of_same {again : Node} (h : again.same tree.joined = true) :
    again.joined.mapTags Node.undeclared = again.mapTags Node.undeclared := by
  rw [Node.same_iff] at h
  rw [← Node.joined_mapTags, h, Node.joined_mapTags, Node.joined_joined]

lemma same_of_mem_tags {again : Node} (h : again.same tree.joined = true) {tag : StartTag}
    (htag : tag ∈ again.tags) :
    ∃ old ∈ tree.tags, old.name = tag.name ∧ old.attributes = tag.attributes := by
  have htags : again.tags.map Node.undeclared = tree.tags.map Node.undeclared := by
    rw [← Node.tags_mapTags, Node.same_iff.mp h, Node.tags_mapTags, Node.tags_joined]
  obtain ⟨old, hold, heq⟩ := List.mem_map.mp (htags ▸ List.mem_map_of_mem htag)
  simp only [Node.undeclared, StartTag.mk.injEq, and_true] at heq
  exact ⟨old, hold, heq⟩

/-- What has been parsed again can be built again. -/
lemma build_again (hreads : lib.Reads) {built : Etree} {again : Node}
    (hagain : lib.parse (lib.write built) part = .ok again) (hsame : again.same tree.joined = true)
    (htags : ∀ tag ∈ tree.tags, lib.tagFault? tag = none) (hremakes : lib.Remakes built) :
    ∃ built', lib.build again = .ok built' := by
  obtain ⟨e, hread, rfl⟩ := parse_eq_ok hagain
  refine (build_succeeds_iff hreads).mpr ⟨fun tag htag => ?_, admits_of_parse hreads hagain⟩
  obtain ⟨old, hold, -, hattributes⟩ := same_of_mem_tags hsame htag
  have haccepted := htags old hold
  rw [tagFault?, Option.or_eq_none_iff] at haccepted ⊢
  exact ⟨hremakes e hread tag htag, hattributes ▸ haccepted.2⟩

end XmlLibrary

/-! ## A library that can be relied on -/

lemma Xml.faultOf?_checkText {t : Text} :
    Xml.faultOf? (Xml.checkText t) = none ↔ ∀ c ∈ t, Xml.isChar c = true := by
  rw [← List.all_eq_true, Xml.checkText]
  split
  · next h => simp [Xml.faultOf?, h]
  · next h => simp [Xml.faultOf?, h]

/-- The library to run merges with can be relied on. -/
theorem Xml.reads_libraryWith (tables : Xml.Charset.Tables) :
    (Xml.libraryWith tables).Reads where
  refuses t := by
    rw [Xml.libraryWith, Xml.faultOf?_checkText]
    simp only [Xml.faultOf?_checkText, List.mem_singleton, forall_eq]
  accepts c hfirst hlast := by
    have hlow : 0x20 ≤ c.toNat := hfirst
    have hhigh : c.toNat ≤ 0x7e := hlast
    rw [Xml.libraryWith, Xml.faultOf?_checkText]
    simp only [List.mem_singleton, forall_eq, Xml.isChar, Bool.or_eq_true, Bool.and_eq_true,
      decide_eq_true_eq, bne_iff_ne]
    exact .inr ⟨⟨hlow, by omega⟩, by omega⟩
  fair bytes e h t ht := by
    have hall : e.texts.all (·.all Xml.isChar) = true := by
      change Xml.readTree tables bytes = .ok e at h
      unfold Xml.readTree at h
      split at h
      · split at h
        · next hall =>
            obtain rfl := Except.ok.inj h
            exact hall
        · cases h
      · cases h
    exact Xml.faultOf?_checkText.mpr (List.all_eq_true.mp (List.all_eq_true.mp hall t ht))

/-! ## Parsing undoes serializing -/

/-- **Parsing undoes serializing.** The tree of a document can be serialized exactly if its tags are
accepted. If none of them has an attribute twice, what is parsed again is the same tree with
neighbouring texts joined; it can be serialized in turn, and a second round trip changes nothing.
Whatever tree is serialized, what is parsed again has its elements as they are built and, for texts
that are neighbours, their characters after all references have been resolved, escaped. -/
theorem parse_undoes_serialize {lib : XmlLibrary} (hreads : lib.Reads) (part : Option String) :
    (∀ document tree, lib.parse document part = .ok tree →
      ((∃ bytes, lib.serialize tree = .ok bytes) ↔ ∀ tag ∈ tree.tags, lib.tagFault? tag = none)
        ∧ ∀ built, lib.build tree = .ok built → lib.Keeps Node.undeclared built →
          (∀ tag ∈ tree.tags, tag.HasDistinctAttributes) →
            ∃ again, lib.parse (lib.write built) part = .ok again
              ∧ again.same tree.joined = true
              ∧ (lib.Remakes built → ∃ built', lib.build again = .ok built'
                ∧ (lib.Keeps Node.undeclared built' →
                  ∃ again', lib.parse (lib.write built') part = .ok again'
                    ∧ again'.same again = true)))
      ∧ ∀ tree built, lib.build tree = .ok built → lib.Keeps Node.undeclared built →
        ∃ again, lib.parse (lib.write built) part = .ok again
          ∧ again.same (tree.mapTags StartTag.built).resettled = true := by
  refine ⟨fun document tree hparse => ⟨XmlLibrary.serialize_succeeds_iff hreads hparse,
    fun built hbuilt hkeeps hdistinct => ?_⟩,
    fun tree built hbuilt hkeeps => XmlLibrary.parse_of_build _ hbuilt hkeeps⟩
  obtain ⟨again, hagain, hsame⟩ :=
    XmlLibrary.same_joined_of_build hparse hdistinct hbuilt hkeeps
  refine ⟨again, hagain, hsame, fun hremakes => ?_⟩
  have htags : ∀ tag ∈ tree.tags, lib.tagFault? tag = none :=
    (XmlLibrary.serialize_succeeds_iff hreads hparse).mp
      ⟨lib.write built, by rw [XmlLibrary.serialize, hbuilt]; rfl⟩
  obtain ⟨built', hbuilt'⟩ := XmlLibrary.build_again hreads hagain hsame htags hremakes
  refine ⟨built', hbuilt', fun hkeeps' => ?_⟩
  have hdistinct' : ∀ tag ∈ again.tags, tag.HasDistinctAttributes := by
    intro tag htag
    obtain ⟨old, hold, -, hattributes⟩ := XmlLibrary.same_of_mem_tags hsame htag
    have hold' := hdistinct old hold
    rwa [StartTag.HasDistinctAttributes, hattributes] at hold'
  obtain ⟨again', hagain', hsame'⟩ :=
    XmlLibrary.same_joined_of_build hagain hdistinct' hbuilt' hkeeps'
  refine ⟨again', hagain', Node.same_iff.mpr ?_⟩
  rw [Node.same_iff.mp hsame', XmlLibrary.mapTags_joined_of_same hsame]

/-- A paragraph with a remark between its texts, and an element whose texts hold references of other
kinds and look like one more where they meet. -/
theorem parse_undoes_serialize_remark :
    let lib := Xml.library
    let tag : StartTag := ⟨"\x7bv\x7dp", [("\x7bv\x7dk", "<")], [⟨some "w", "v"⟩]⟩
    let tree : Node := .element tag [.text "x".toList, .text "&amp;y".toList]
    let document := "<w:p xmlns:w='v' w:k='&lt;'>x<!--c-->&amp;y</w:p>".toUTF8
    let other : Node :=
      .element ⟨"t", [], []⟩ [.text "O&#39;Brien &amp;".toList, .text "amp Co".toList]
    lib.parse document none = .ok tree
      ∧ (∃ bytes again, lib.serialize tree = .ok bytes ∧ lib.parse bytes none = .ok again
        ∧ again.same (.element tag [.text "x&amp;y".toList]) = true
        ∧ ∃ bytes' again', lib.serialize again = .ok bytes' ∧ lib.parse bytes' none = .ok again'
          ∧ again'.same again = true)
      ∧ ∃ bytes again, lib.serialize other = .ok bytes ∧ lib.parse bytes none = .ok again
        ∧ again.same (.element ⟨"t", [], []⟩ [.text "O'Brien &amp;amp Co".toList]) = true := by
  intro lib tag tree document other
  have hparse : lib.parse document none = .ok tree := by decide +kernel
  let joined : Node := .element tag [.text "x&amp;y".toList]
  let built : Etree := ⟨tag, some "x&y".toList, []⟩
  have hbuilt : lib.build tree = .ok built := by decide +kernel
  have hread : lib.read (lib.write built) = .ok built := by decide +kernel
  have hreads : lib.Reads := Xml.reads_libraryWith []
  obtain ⟨hdocuments, htrees⟩ := parse_undoes_serialize hreads none
  obtain ⟨again, hagain, hsame, hsecond⟩ := (hdocuments document tree hparse).2 built hbuilt
    ⟨built, hread, rfl⟩ (by decide)
  have hremakes : lib.Remakes built := by
    intro e he
    obtain rfl : built = e := Except.ok.inj (hread.symm.trans he)
    decide +kernel
  obtain rfl : joined = again :=
    Except.ok.inj (Eq.trans (by decide +kernel) hagain)
  obtain ⟨built', hbuilt', hthird⟩ := hsecond hremakes
  obtain rfl : built = built' := Except.ok.inj (Eq.trans (by decide +kernel) hbuilt')
  obtain ⟨again', hagain', hsame'⟩ := hthird ⟨built, hread, rfl⟩
  refine ⟨hparse, ⟨lib.write built, joined, ?_, hagain, hsame, lib.write built, again', ?_, hagain',
    hsame'⟩, ?_⟩
  · rw [XmlLibrary.serialize, hbuilt]
    rfl
  · rw [XmlLibrary.serialize, hbuilt']
    rfl
  let plain : Etree := ⟨⟨"t", [], []⟩, some "O'Brien &amp Co".toList, []⟩
  have hplain : lib.build other = .ok plain := by decide +kernel
  obtain ⟨again, hagain, hsame⟩ := htrees other plain hplain ⟨plain, by decide +kernel, rfl⟩
  refine ⟨lib.write plain, again, ?_, hagain, ?_⟩
  · rw [XmlLibrary.serialize, hplain]
    rfl
  · have hresettled : (other.mapTags StartTag.built).resettled
        = .element ⟨"t", [], []⟩ [.text "O'Brien &amp;amp Co".toList] := by
      decide +kernel
    rwa [hresettled] at hsame

/-- A fault with a name is forgotten over a warning, and the name cannot be used again. -/
theorem parse_lets_pass_what_serialize_refuses :
    let tree : Node := .element ⟨"r", [], []⟩ [.element ⟨"a:", [], []⟩ [],
      .element ⟨"c", [("\x7bhttp://www.w3.org/XML/1998/namespace\x7dspace", "foo")], []⟩ []]
    Xml.library.parse "<r><a:/><c xml:space=\"foo\"/></r>".toUTF8 none = .ok tree
      ∧ Xml.library.serialize tree = .error ⟨"ValueError", "Invalid tag name 'a:'"⟩ := by
  decide +kernel

end FormLetter
