import FormLetter.Proofs.Bands

/-!
# The two ways to find a key

Substitution and conditions look a key up, and hear why there is none.  Table expansion only asks
whether there is exactly one, and takes the null key for the answer that there is not.  So the two
see the same data, but for lists under the null key: these are found along paths, and no row is ever
repeated for them.

* `lookup_eq_ok`, `findUnique?_eq_some` — both ways come down to the entries that match a segment:
  there has to be one of them, of either flavour.
* `NamesList` — a row names the list under a key.  The bindings of a row tell keys apart by the
  segments that name them; that comes to the same, since a segment and the key that it finds have
  one folding (`pairwise_rowBindings`, `exists_rowBinding_iff`).
* `analyzeRow_leaves_iff`, `analyzeRow_binds_iff`, `analyzeRow_refuses_iff` — a row is left alone,
  repeated or refused as it names no list, one, or several.
* `findUnique?_agrees` — what the two ways have in common, as far as rows.
-/

namespace FormLetter

/-! ## One match -/

section

variable {entries : List (Key × Value)} {segment : Text} {entry : Key × Value}

/-- The entries that match are those of one flavour and then those of the other. -/
lemma perm_matchingEntries (entries : List (Key × Value)) (segment : Text) :
    ((matchingEntries entries segment).1 ++ (matchingEntries entries segment).2).Perm
      (matched entries segment) :=
  List.filter_append_perm (fun entry : Key × Value => entry.1.isSymbolic) _

/-- **A lookup finds what alone matches.** -/
lemma lookup_eq_ok {path : Path} :
    lookup entries segment path = .ok entry ↔ matched entries segment = [entry] := by
  refine ⟨fun h => ?_, fun h => lookup_of_matched h path⟩
  have hperm := perm_matchingEntries entries segment
  unfold lookup at h
  split at h
  · simp at h
  · next found heq =>
      rw [heq] at hperm
      rw [List.perm_singleton.mp hperm.symm, Except.ok.inj h]
  · next found heq =>
      rw [heq] at hperm
      rw [List.perm_singleton.mp hperm.symm, Except.ok.inj h]
  all_goals simp at h

/-- What alone matches is found, but for an entry under the null key. -/
lemma findUnique?_eq_some :
    findUnique? entries segment = some entry
      ↔ matched entries segment = [entry] ∧ entry.1 ≠ .null := by
  constructor
  · intro h
    refine ⟨matched_of_findUnique? h, fun hkey => ?_⟩
    obtain ⟨key, value⟩ := entry
    unfold findUnique? at h
    simp only at h
    split at h
    · simp at h
    · next found hnull heq =>
        rw [Option.some.inj h, show key = .null from hkey] at hnull
        exact hnull value rfl
    · simp at h
  · rintro ⟨hmatched, hkey⟩
    have hperm := perm_matchingEntries entries segment
    rw [hmatched] at hperm
    unfold findUnique?
    simp only
    rw [List.perm_singleton.mp hperm]
    split
    · next value heq => exact absurd (congrArg Prod.fst (List.singleton_inj.mp heq)) hkey
    · next found _ heq => rw [List.singleton_inj.mp heq]
    · next hnone => exact absurd rfl (hnone entry)

/-- The lists at the top of a mapping are those under keys that are found. -/
lemma listNamed?_eq_some {key : Key} {items : List Value} :
    listNamed? (.mapping entries) segment = some (key, items)
      ↔ ∃ value, findUnique? entries segment = some (key, value) ∧ value.items? = some items := by
  rw [listNamed?]
  cases findUnique? entries segment with
  | none => simp
  | some found =>
      obtain ⟨k, value⟩ := found
      simp only [Option.map_eq_some_iff, Prod.mk.injEq, Option.some.injEq]
      constructor
      · rintro ⟨members, hitems, rfl, rfl⟩
        exact ⟨value, ⟨rfl, rfl⟩, hitems⟩
      · rintro ⟨_, ⟨rfl, rfl⟩, hitems⟩
        exact ⟨items, hitems, rfl, rfl⟩

/-- A path of one segment leads to the value of the entry that is looked up. -/
lemma traverse_segment_eq_ok {value : Value} :
    traverse (.mapping entries) [segment] = .ok value
      ↔ ∃ key, matched entries segment = [(key, value)] := by
  have hstep : traverse (.mapping entries) [segment]
      = (lookup entries segment [segment]).map (·.2) := by
    rw [traverse, traverseFrom, descend]
    cases (lookup entries segment [segment]).map (·.2) <;> rfl
  rw [hstep, map_eq_ok]
  constructor
  · rintro ⟨⟨key, _⟩, hlookup, rfl⟩
    exact ⟨key, lookup_eq_ok.mp hlookup⟩
  · rintro ⟨key, hmatched⟩
    exact ⟨(key, value), lookup_eq_ok.mpr hmatched, rfl⟩

end

/-! ## The lists that a row names -/

/-- Some placeholder of the row's own text begins with a segment that names the list under this
key. -/
def NamesList (data : Value) (row : Node) (key : Key) : Prop :=
  ∃ p ∈ rowPlaceholders row, ∃ items, listNamed? data (p.path.headD []) = some (key, items)

/-- The row names lists under different keys. -/
def MixesLists (data : Value) (row : Node) : Prop :=
  ∃ key key', NamesList data row key ∧ NamesList data row key' ∧ key ≠ key'

section

variable {data : Value} {row : Node} {index : Nat}

/-- Segments of one folding name the same list. -/
lemma listNamed?_congr {s t : Text} (h : s.foldCase = t.foldCase) :
    listNamed? data s = listNamed? data t := by
  cases data with
  | mapping entries =>
      have hmatching : matchingEntries entries s = matchingEntries entries t := by
        simp only [matchingEntries, Text.sameFolded, h]
      rw [listNamed?, listNamed?, findUnique?, findUnique?, hmatching]
  | _ => rfl

/-- Each binding is kept, or another one whose segment has the same folding. -/
lemma exists_distinctBinding {binding : RowBinding} :
    ∀ {bindings : List RowBinding}, binding ∈ bindings →
      ∃ kept ∈ distinctBindings bindings, kept.segment.foldCase = binding.segment.foldCase
  | first :: rest, h => by
      rw [distinctBindings]
      by_cases hsame : first.segment.foldCase = binding.segment.foldCase
      · exact ⟨first, List.mem_cons_self, hsame⟩
      · have hrest : binding ∈ rest := (List.mem_cons.mp h).resolve_left fun heq =>
          hsame (congrArg (·.segment.foldCase) heq.symm)
        obtain ⟨kept, hkept, hfold⟩ := exists_distinctBinding hrest
        refine ⟨kept, List.mem_cons_of_mem _ (List.mem_filter.mpr ⟨hkept, ?_⟩), hfold⟩
        rw [Bool.not_eq_true', Bool.eq_false_iff, Ne, sameFolded_iff, hfold]
        exact fun heq => hsame heq.symm

/-- The segments of the bindings that are kept have different foldings. -/
lemma pairwise_distinctBindings : ∀ bindings : List RowBinding,
    (distinctBindings bindings).Pairwise fun a b => a.segment.foldCase ≠ b.segment.foldCase
  | [] => List.Pairwise.nil
  | first :: rest => by
      rw [distinctBindings]
      refine List.pairwise_cons.mpr ⟨fun other hother => ?_,
        (pairwise_distinctBindings rest).sublist List.filter_sublist⟩
      have hne := (List.mem_filter.mp hother).2
      rw [Bool.not_eq_true', Bool.eq_false_iff, Ne, sameFolded_iff] at hne
      exact fun heq => hne heq.symm

/-- The segment of a binding of a row names its list. -/
lemma listNamed?_of_mem_rowBindings {binding : RowBinding} (h : binding ∈ rowBindings data row) :
    (∃ p ∈ rowPlaceholders row, p.path.headD [] = binding.segment)
      ∧ listNamed? data binding.segment = some (binding.key, binding.items) := by
  obtain ⟨p, hp, hbound⟩ := List.mem_filterMap.mp (mem_of_mem_distinctBindings h)
  obtain ⟨⟨key, items⟩, hlist, rfl⟩ := Option.map_eq_some_iff.mp hbound
  exact ⟨⟨p, hp, rfl⟩, hlist⟩

/-- **A row has a binding for each list that it names,** and for no other. -/
lemma exists_rowBinding_iff {key : Key} :
    (∃ binding ∈ rowBindings data row, binding.key = key) ↔ NamesList data row key := by
  constructor
  · rintro ⟨binding, hmem, rfl⟩
    obtain ⟨⟨p, hp, hsegment⟩, hlist⟩ := listNamed?_of_mem_rowBindings hmem
    exact ⟨p, hp, binding.items, by rw [hsegment, hlist]⟩
  · rintro ⟨p, hp, items, hlist⟩
    have hbound : bindingOf? data (p.path.headD []) = some ⟨key, p.path.headD [], items⟩ := by
      rw [bindingOf?, hlist, Option.map_some]
    have hmem : (⟨key, p.path.headD [], items⟩ : RowBinding) ∈ (rowPlaceholders row).filterMap
        fun placeholder => bindingOf? data (placeholder.path.headD []) :=
      List.mem_filterMap.mpr ⟨p, hp, hbound⟩
    obtain ⟨kept, hkept, hfold⟩ := exists_distinctBinding hmem
    obtain ⟨-, hnamed⟩ := listNamed?_of_mem_rowBindings hkept
    rw [listNamed?_congr hfold, hlist] at hnamed
    exact ⟨kept, hkept, (Prod.mk.inj (Option.some.inj hnamed)).1.symm⟩

/-- **The bindings of a row are for different lists,** and their keys are shown differently. -/
lemma pairwise_rowBindings (data : Value) (row : Node) :
    (rowBindings data row).Pairwise fun a b => a.key.shown.foldCase ≠ b.key.shown.foldCase := by
  refine (pairwise_distinctBindings _).imp_of_mem fun ha hb hne heq => ?_
  obtain ⟨-, hlist⟩ := listNamed?_of_mem_rowBindings ha
  obtain ⟨-, hlist'⟩ := listNamed?_of_mem_rowBindings hb
  exact hne (by rw [← shown_of_listNamed? hlist, heq, shown_of_listNamed? hlist'])

/-- A row is left alone if it names no list. -/
theorem analyzeRow_leaves_iff :
    analyzeRow data index row = .ok none ↔ ∀ key, ¬ NamesList data row key := by
  simp only [← exists_rowBinding_iff]
  rw [analyzeRow]
  split
  · next hnone => simp [hnone]
  · next binding hone => simp [hone]
  · next hempty _ =>
      obtain ⟨binding, hmem⟩ := List.exists_mem_of_ne_nil _ hempty
      simpa using ⟨binding, hmem⟩

/-- A row is a template row if it names one list. -/
theorem analyzeRow_binds_iff :
    (∃ binding, analyzeRow data index row = .ok (some binding))
      ↔ ∃! key, NamesList data row key := by
  simp only [← exists_rowBinding_iff]
  have hpairwise := pairwise_rowBindings data row
  rw [analyzeRow]
  split
  · next hnone => simp [hnone, ExistsUnique]
  · next binding hone => simp [hone]
  · next hempty hsingle =>
      refine iff_of_false (by simp) ?_
      rintro ⟨key, -, hunique⟩
      rcases hbindings : rowBindings data row with _ | ⟨first, _ | ⟨second, rest⟩⟩
      · exact hempty hbindings
      · exact hsingle first hbindings
      · rw [hbindings] at hpairwise hunique
        have hfirst := hunique first.key ⟨first, by simp, rfl⟩
        have hsecond := hunique second.key ⟨second, by simp, rfl⟩
        refine (List.pairwise_cons.mp hpairwise).1 second List.mem_cons_self ?_
        rw [hfirst, hsecond]

/-- A row is refused if it names several lists, and the report lists their keys. -/
theorem analyzeRow_refuses_iff {cause : Cause} :
    analyzeRow data index row = .error cause ↔ MixesLists data row
      ∧ cause = .multipleLists index
        (Text.ordered ((rowBindings data row).map (·.key.shown))) := by
  have hmixes : MixesLists data row ↔ (∃ key, NamesList data row key)
      ∧ ¬ ∃! key, NamesList data row key := by
    constructor
    · rintro ⟨key, key', hkey, hkey', hne⟩
      exact ⟨⟨key, hkey⟩, fun hunique => hne (hunique.unique hkey hkey')⟩
    · rintro ⟨⟨key, hkey⟩, hnot⟩
      by_contra hsame
      refine hnot ⟨key, hkey, fun other hother => ?_⟩
      by_contra hne
      exact hsame ⟨other, key, hother, hkey, hne⟩
  have hleaves : analyzeRow data index row = .ok none ↔ ∀ key, ¬ NamesList data row key :=
    analyzeRow_leaves_iff
  have hbinds : (∃ binding, analyzeRow data index row = .ok (some binding))
      ↔ ∃! key, NamesList data row key := analyzeRow_binds_iff
  rw [hmixes, ← hbinds, ← not_forall_not, ← hleaves, analyzeRow]
  split
  · simp
  · simp
  · simp [eq_comm]

end

/-! ## What the two ways have in common -/

/-- The segment leads to a list at the top of the data. -/
def LeadsToList (data : Value) (segment : Text) : Prop :=
  ∃ value, traverse data [segment] = .ok value ∧ value.items?.isSome = true

/-- The only key that the segment matches is the null key. -/
def FindsNull (entries : List (Key × Value)) (segment : Text) : Prop :=
  ∃ value, matched entries segment = [(.null, value)]

section

variable {entries : List (Key × Value)} {segment : Text}

/-- A segment names a list if it leads to one, unless that is the list under the null key. -/
lemma isSome_listNamed?_iff : (listNamed? (.mapping entries) segment).isSome = true
    ↔ LeadsToList (.mapping entries) segment ∧ ¬ FindsNull entries segment := by
  rw [Option.isSome_iff_exists]
  constructor
  · rintro ⟨⟨key, items⟩, hlist⟩
    obtain ⟨value, hfind, hitems⟩ := listNamed?_eq_some.mp hlist
    obtain ⟨hmatched, hkey⟩ := findUnique?_eq_some.mp hfind
    refine ⟨⟨value, traverse_segment_eq_ok.mpr ⟨key, hmatched⟩, by simp [hitems]⟩, ?_⟩
    rintro ⟨other, hnull⟩
    rw [hmatched] at hnull
    exact hkey (congrArg Prod.fst (List.singleton_inj.mp hnull))
  · rintro ⟨⟨value, htraverse, hitems⟩, hnull⟩
    obtain ⟨key, hmatched⟩ := traverse_segment_eq_ok.mp htraverse
    obtain ⟨items, hitems⟩ := Option.isSome_iff_exists.mp hitems
    refine ⟨(key, items), listNamed?_eq_some.mpr
      ⟨value, findUnique?_eq_some.mpr ⟨hmatched, fun hkey => ?_⟩, hitems⟩⟩
    exact hnull ⟨value, by rw [hmatched, ← show key = .null from hkey]⟩

lemma exists_namesList_iff {row : Node} : (∃ key, NamesList (.mapping entries) row key)
    ↔ ∃ p ∈ rowPlaceholders row, LeadsToList (.mapping entries) (p.path.headD [])
      ∧ ¬ FindsNull entries (p.path.headD []) := by
  constructor
  · rintro ⟨key, p, hp, items, hlist⟩
    exact ⟨p, hp, isSome_listNamed?_iff.mp (Option.isSome_iff_exists.mpr ⟨_, hlist⟩)⟩
  · rintro ⟨p, hp, hleads⟩
    obtain ⟨⟨key, items⟩, hlist⟩ := Option.isSome_iff_exists.mp (isSome_listNamed?_iff.mpr hleads)
    exact ⟨key, p, hp, items, hlist⟩

end

/-- **Both ways to find a key agree, but for the null key.**  For every mapping and every segment:
an entry is found exactly if looking the segment up gives this entry and its key is not the null
key; nothing is found exactly if the lookup fails or gives the entry under the null key.  So a
segment names a list exactly if it leads to one along a path and the list is not the one under the
null key.  And a row is repeated, or refused because it names several lists, exactly if a
placeholder of its own text begins with such a segment; if there is none, the row is left alone. -/
theorem findUnique?_agrees (entries : List (Key × Value)) :
    (∀ segment path,
        (∀ entry, findUnique? entries segment = some entry
          ↔ lookup entries segment path = .ok entry ∧ entry.1 ≠ .null)
        ∧ (findUnique? entries segment = none
          ↔ (∃ reason, lookup entries segment path = .error reason)
            ∨ ∃ value, lookup entries segment path = .ok (.null, value))
        ∧ ((listNamed? (.mapping entries) segment).isSome = true
          ↔ LeadsToList (.mapping entries) segment ∧ ¬ FindsNull entries segment))
      ∧ ∀ row index,
        ((∃ binding, analyzeRow (.mapping entries) index row = .ok (some binding))
            ∨ (∃ cause, analyzeRow (.mapping entries) index row = .error cause)
          ↔ ∃ p ∈ rowPlaceholders row, LeadsToList (.mapping entries) (p.path.headD [])
            ∧ ¬ FindsNull entries (p.path.headD []))
        ∧ ((∃ cause, analyzeRow (.mapping entries) index row = .error cause)
          ↔ MixesLists (.mapping entries) row) := by
  refine ⟨fun segment path => ⟨fun entry => ?_, ?_, isSome_listNamed?_iff⟩,
    fun row index => ⟨?_, ?_⟩⟩
  · rw [findUnique?_eq_some, lookup_eq_ok]
  · have hlookup : ∀ entry, lookup entries segment path = .ok entry
        ↔ matched entries segment = [entry] := fun _ => lookup_eq_ok
    rw [Option.eq_none_iff_forall_not_mem]
    simp only [Option.mem_def, findUnique?_eq_some, ← hlookup]
    cases lookup entries segment path with
    | error reason => simp
    | ok found => simp [Prod.ext_iff]
  · have hnames : analyzeRow (.mapping entries) index row ≠ .ok none
        ↔ ∃ key, NamesList (.mapping entries) row key := by
      rw [Ne, analyzeRow_leaves_iff, not_forall_not]
    rw [← exists_namesList_iff, ← hnames]
    cases analyzeRow (.mapping entries) index row with
    | error cause => simp
    | ok binding? => cases binding? <;> simp
  · simp [analyzeRow_refuses_iff]

/-- A list under the null key is found along a path, but no row is repeated for it. -/
theorem findUnique?_misses_null_key :
    let items := Value.list [.int 1]
    let entries : List (Key × Value) := [(.null, items)]
    let row : Node := .element ⟨Word.row, [], []⟩ [.text "@none@".toList]
    lookup entries "none".toList ["none".toList] = .ok (.null, items)
      ∧ findUnique? entries "none".toList = none
      ∧ traverse (.mapping entries) ["none".toList] = .ok items
      ∧ listNamed? (.mapping entries) "none".toList = none
      ∧ (rowPlaceholders row).map (·.path) = [["none".toList]]
      ∧ analyzeRow (.mapping entries) 0 row = .ok none := by
  intro items entries row
  exact ⟨by rfl, by rfl, by rfl, by rfl, by rfl, by rfl⟩

end FormLetter
