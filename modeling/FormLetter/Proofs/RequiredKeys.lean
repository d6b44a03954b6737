import FormLetter.Merge.Inspection
import FormLetter.Proofs.Agreement
import FormLetter.Proofs.Residue

/-!
# Required keys are all that a template looks at

Inspection lists the first segments of all paths of a template without looking at any data.  Merging
follows paths that sections, rows and substitution have rewritten and put together, through data
whose keys may be in any letters.  Yet data that agree at the required keys are merged alike.

* **The list.** `mem_requiredKeys` — the required keys are the first segments of the placeholders
  and the conditions, in lower case.  For a name this is the folding by which keys are found
  (`foldCase_of_isName`), so the texts of a template ask for nothing else (`asksOnly_requiredKeys`).
* **Sections** make no tokens in a template whose at-signs all belong to tokens
  (`resolveSections_congr`).
* **Rows** are redirected through the key of a list, and a row that names the list asks for that key
  already (`AsksOnly.bound`).
* `mergeTree_congr` — so what comes of a merge depends on the entries at the required keys only, in
  the document as well as in the error.
-/

namespace FormLetter

/-! ## Mentions of tokens -/

lemma mem_foldl_addOnce {α : Type} [BEq α] [LawfulBEq α] {x : α} : ∀ {xs ys : List α},
    x ∈ ys.foldl addOnce xs ↔ x ∈ xs ∨ x ∈ ys
  | xs, [] => by simp
  | xs, y :: ys => by
      rw [List.foldl_cons, mem_foldl_addOnce, addOnce, List.mem_cons]
      by_cases hy : xs.contains y = true
      · rw [if_pos hy]
        rw [List.contains_iff_mem] at hy
        constructor
        · exact Or.imp_right Or.inr
        · rintro (hx | rfl | hx)
          · exact Or.inl hx
          · exact Or.inl hy
          · exact Or.inr hx
      · rw [if_neg hy, List.mem_append, List.mem_singleton, or_assoc]

lemma mem_requiredKeysOf {mentions : List Mention} {key : Text} :
    key ∈ requiredKeysOf mentions ↔ ∃ m ∈ mentions, Text.lower (m.path.headD []) = key := by
  rw [requiredKeysOf, Text.ordered, List.mem_mergeSort, mem_foldl_addOnce]
  simp

lemma mem_label_addMention {label : Text} {new : Mention} : ∀ {mentions : List Mention},
    label ∈ (addMention mentions new).map Mention.label
      ↔ label ∈ mentions.map Mention.label ∨ label = new.label
  | [] => by simp [addMention]
  | mention :: rest => by
      rw [addMention]
      split
      · next hsame =>
          simp only [List.map_cons, List.mem_cons]
          constructor
          · exact Or.inl
          · rintro (h | rfl)
            · exact h
            · exact Or.inl hsame.symm
      · simp only [List.map_cons, List.mem_cons, mem_label_addMention, or_assoc]

/-- Each token that is used is mentioned, and no other. -/
lemma mem_label_addMentions {label : Text} : ∀ {news mentions : List Mention},
    label ∈ (addMentions mentions news).map Mention.label
      ↔ label ∈ mentions.map Mention.label ∨ label ∈ news.map Mention.label
  | [], _ => by simp [addMentions]
  | new :: news, mentions => by
      have ih : label ∈ (addMentions (addMention mentions new) news).map Mention.label
          ↔ label ∈ (addMention mentions new).map Mention.label
            ∨ label ∈ news.map Mention.label := mem_label_addMentions
      rw [addMentions, List.foldl_cons, ← addMentions, ih, mem_label_addMention, List.map_cons,
        List.mem_cons, or_assoc]

section

variable {f : Text → Path}

lemma path_addMention {new : Mention} (hnew : new.path = f new.label) :
    ∀ {mentions : List Mention}, (∀ m ∈ mentions, m.path = f m.label) →
      ∀ m ∈ addMention mentions new, m.path = f m.label
  | [], _ => by simpa [addMention] using hnew
  | mention :: rest, h => by
      obtain ⟨hfirst, hrest⟩ := List.forall_mem_cons.mp h
      rw [addMention]
      split
      · exact List.forall_mem_cons.mpr ⟨hfirst, hrest⟩
      · exact List.forall_mem_cons.mpr ⟨hfirst, path_addMention hnew hrest⟩

lemma path_addMentions : ∀ {news mentions : List Mention},
    (∀ m ∈ mentions, m.path = f m.label) → (∀ m ∈ news, m.path = f m.label) →
      ∀ m ∈ addMentions mentions news, m.path = f m.label
  | [], _, h, _ => h
  | new :: news, mentions, h, hnews => by
      obtain ⟨hnew, hrest⟩ := List.forall_mem_cons.mp hnews
      rw [addMentions, List.foldl_cons, ← addMentions]
      exact path_addMentions (path_addMention hnew h) hrest

/-- **Mentions keep all paths,** if the spelling of a token tells its path. -/
lemma exists_mention_iff {news : List Mention} (hnews : ∀ m ∈ news, m.path = f m.label)
    {P : Path → Prop} : (∃ m ∈ addMentions [] news, P m.path) ↔ ∃ m ∈ news, P m.path := by
  have hpath : ∀ m ∈ addMentions [] news, m.path = f m.label :=
    path_addMentions (by simp) hnews
  have hlabel : ∀ label, label ∈ (addMentions [] news).map Mention.label
      ↔ label ∈ news.map Mention.label := by
    intro label
    rw [mem_label_addMentions]
    simp
  constructor
  · rintro ⟨m, hm, hP⟩
    obtain ⟨n, hn, heq⟩ := List.mem_map.mp ((hlabel m.label).mp (List.mem_map_of_mem hm))
    refine ⟨n, hn, ?_⟩
    rwa [hnews n hn, heq, ← hpath m hm]
  · rintro ⟨n, hn, hP⟩
    obtain ⟨m, hm, heq⟩ := List.mem_map.mp ((hlabel n.label).mpr (List.mem_map_of_mem hn))
    refine ⟨m, hm, ?_⟩
    rwa [hpath m hm, heq, ← hnews n hn]

end

/-! ## Paths of tokens -/

/-- A path that can be written is told by the way it is written. -/
lemma splitOn_dotted {path : Path} (h : path.isSpellable = true) :
    Text.splitOn '.' path.dotted = path :=
  (Path.ofText?_eq_some (Path.ofText?_dotted h)).1.symm

/-- The path in a token can be written. -/
lemma isSpellable_of_path? {body : Text} {meaning : Meaning}
    (h : Meaning.ofBody? body = some meaning) {path : Path} (hp : meaning.path? = some path) :
    path.isSpellable = true := by
  cases meaning with
  | placeholder other =>
      obtain rfl := Option.some.inj hp
      exact (dotted_of_placeholder h).2
  | opening other =>
      obtain rfl := Option.some.inj hp
      unfold Meaning.ofBody? at h
      split at h
      · obtain ⟨read, hread, heq⟩ := Option.map_eq_some_iff.mp h
        obtain rfl := Meaning.opening.inj heq
        exact (Path.ofText?_eq_some hread).2
      · split_ifs at h <;> simp at h
  | alternative => simp [Meaning.path?] at hp
  | closing => simp [Meaning.path?] at hp

/-- The character of a name is folded as its lower case. -/
lemma foldCase_of_isNameChar {c : Char} (h : isNameChar c = true) :
    CaseFold.char c = [c.toLower] := by
  have htable : ∀ n < 128, isNameChar (Char.ofNat n) = true →
      CaseFold.char (Char.ofNat n) = [(Char.ofNat n).toLower] := by decide +kernel
  have hascii : c.toNat < 128 := by
    rcases (Bool.or_eq_true _ _).mp h with hword | hunderscore
    · rcases (Bool.or_eq_true _ _).mp hword with hletter | hdigit
      · rcases (Bool.or_eq_true _ _).mp hletter with hupper | hlower
        · exact Nat.lt_of_le_of_lt (of_decide_eq_true hupper).2 (by decide)
        · have hlast := of_decide_eq_true ((Bool.and_eq_true _ _).mp hlower).2
          exact Nat.lt_of_le_of_lt hlast (by decide)
      · have hlast := of_decide_eq_true ((Bool.and_eq_true _ _).mp hdigit).2
        exact Nat.lt_of_le_of_lt hlast (by decide)
    · rw [eq_of_beq hunderscore]
      decide
  have hfolded := htable c.toNat hascii
  rw [Char.ofNat_toNat] at hfolded
  exact hfolded h

/-- **Names fold to lower case.** -/
lemma foldCase_of_isName {segment : Text} (h : isName segment = true) :
    segment.foldCase = Text.lower segment := by
  rw [Text.foldCase, Text.lower, List.map_eq_flatMap]
  exact List.flatMap_congr fun c hc => foldCase_of_isNameChar (isNameChar_of_isName h hc)

lemma foldCase_head {path : Path} (h : path.isSpellable = true) :
    (path.headD []).foldCase = Text.lower (path.headD []) := by
  cases path with
  | nil => rfl
  | cons head rest =>
      rw [Path.isSpellable, Bool.and_eq_true] at h
      exact foldCase_of_isName h.1

/-! ## The list of required keys -/

lemma exists_token_of_opening {t : Text} {here : Occurrence} {condition : Condition}
    (h : Marker.opening here condition ∈ markers t) :
    ∃ position token, (position, token) ∈ tokens t ∧ token.meaning = .opening condition.path
      ∧ condition = .ofPath condition.path := by
  obtain ⟨⟨position, body, meaning⟩, hmem, hm⟩ := List.mem_filterMap.mp h
  refine ⟨position, ⟨body, meaning⟩, hmem, ?_⟩
  cases meaning with
  | opening path =>
      simp only [Token.marker?, Option.some.injEq, Marker.opening.injEq] at hm
      obtain ⟨-, rfl⟩ := hm
      exact ⟨rfl, rfl⟩
  | placeholder path => simp [Token.marker?] at hm
  | alternative => simp [Token.marker?] at hm
  | closing => simp [Token.marker?] at hm

/-- The path that the spelling of a placeholder holds between its at-signs. -/
def placeholderPath (spelling : Text) : Path := Text.splitOn '.' (spelling.drop 1).dropLast

/-- The spelling of a placeholder tells its path. -/
lemma path_of_placeholder {t : Text} {p : Placeholder} (h : p ∈ placeholders t) :
    p.path = placeholderPath p.text := by
  obtain ⟨token, hmem, hmeaning, htext⟩ := exists_token_of_mem_placeholders h
  have hbody := meaning_of_mem_pieces hmem
  rw [hmeaning] at hbody
  obtain ⟨hdotted, hspell⟩ := dotted_of_placeholder hbody
  have hinner : (p.text.drop 1).dropLast = p.path.dotted := by
    rw [htext, hdotted]
    simp [Token.text]
  rw [placeholderPath, hinner, splitOn_dotted hspell]

/-- The spelling of a condition tells its path. -/
lemma path_of_opening {t : Text} {here : Occurrence} {condition : Condition}
    (h : Marker.opening here condition ∈ markers t) :
    condition.path = Text.splitOn '.' condition.spelling := by
  obtain ⟨position, token, hmem, hmeaning, hpath⟩ := exists_token_of_opening h
  have hbody := meaning_of_mem_pieces (mem_of_mem_tokensFrom hmem)
  rw [hmeaning] at hbody
  have hspell := isSpellable_of_path? hbody rfl
  have hspelling : condition.spelling = condition.path.dotted := congrArg Condition.spelling hpath
  rw [hspelling, splitOn_dotted hspell]

/-- The uses of placeholders in a tree. -/
def placedIn (tree : Node) (location : String) : List Mention :=
  tree.texts.flatMap fun t => (placeholders t).map (·.mention location)

/-- The uses of conditions in a tree. -/
def openedIn (tree : Node) (location : String) : List Mention :=
  (markers (flatText tree)).filterMap (·.mention? location)

lemma requiredKeys_inspectTree (tree : Node) (location : String) :
    (inspectTree tree location).requiredKeys
      = requiredKeysOf (addMentions [] (placedIn (joinRuns tree) location)
          ++ addMentions [] (openedIn (joinRuns tree) location)) := by
  simp [inspectTree, Report.combine, placedIn, openedIn]

lemma path_of_mem_placedIn {tree : Node} {location : String} :
    ∀ m ∈ placedIn tree location, m.path = placeholderPath m.label := by
  intro m hm
  obtain ⟨t, -, hm⟩ := List.mem_flatMap.mp hm
  obtain ⟨p, hp, rfl⟩ := List.mem_map.mp hm
  exact path_of_placeholder hp

lemma path_of_mem_openedIn {tree : Node} {location : String} :
    ∀ m ∈ openedIn tree location, m.path = Text.splitOn '.' m.label := by
  intro m hm
  obtain ⟨marker, hmarker, hm⟩ := List.mem_filterMap.mp hm
  cases marker with
  | opening here condition =>
      obtain rfl := Option.some.inj hm
      exact path_of_opening hmarker
  | alternative here => simp [Marker.mention?] at hm
  | closing here => simp [Marker.mention?] at hm

/-- **The required keys** are the first segments of placeholders and conditions, in lower case. -/
theorem mem_requiredKeys {tree : Node} {location : String} {key : Text} :
    key ∈ (inspectTree tree location).requiredKeys ↔
      (∃ m ∈ placedIn (joinRuns tree) location, Text.lower (m.path.headD []) = key)
        ∨ ∃ m ∈ openedIn (joinRuns tree) location, Text.lower (m.path.headD []) = key := by
  let P : Path → Prop := fun path => Text.lower (path.headD []) = key
  rw [requiredKeys_inspectTree, mem_requiredKeysOf]
  simp only [List.mem_append, or_and_right, exists_or]
  exact or_congr (exists_mention_iff (P := P) (f := placeholderPath) path_of_mem_placedIn)
    (exists_mention_iff (P := P) (f := Text.splitOn '.') path_of_mem_openedIn)

/-- **A tokenized template asks for its required keys only.** -/
theorem asksOnly_requiredKeys {tree : Node} (location : String) (ht : Tokenized (joinRuns tree)) :
    ∀ t ∈ (joinRuns tree).texts, AsksOnly (inspectTree tree location).requiredKeys t := by
  intro t hmem q hq
  cases q with
  | char c => trivial
  | token token =>
      intro path hpath
      have hbody := meaning_of_mem_pieces hq
      rw [foldCase_head (isSpellable_of_path? hbody hpath), mem_requiredKeys]
      obtain ⟨body, meaning⟩ := token
      cases meaning with
      | placeholder other =>
          obtain rfl := Option.some.inj hpath
          obtain ⟨before, after, hsplit⟩ := List.append_of_mem hq
          have htoken : (0 + spelledLength before, ⟨body, .placeholder other⟩) ∈ tokens t :=
            mem_tokensFrom.mpr ⟨before, after, hsplit, rfl⟩
          have hplaced : ⟨⟨0 + spelledLength before, '@' :: body ++ ['@']⟩, other⟩
              ∈ placeholders t :=
            List.mem_filterMap.mpr ⟨_, htoken, rfl⟩
          exact Or.inl ⟨_, List.mem_flatMap.mpr ⟨t, hmem, List.mem_map_of_mem hplaced⟩, rfl⟩
      | opening other =>
          obtain rfl := Option.some.inj hpath
          obtain ⟨position, htoken⟩ := ht.mem_tokens.mpr ⟨t, hmem, hq⟩
          have hmarker : Marker.opening ⟨position, '@' :: body ++ ['@']⟩ (.ofPath other)
              ∈ markers (flatText (joinRuns tree)) :=
            List.mem_filterMap.mpr ⟨_, htoken, rfl⟩
          exact Or.inr ⟨_, List.mem_filterMap.mpr ⟨_, hmarker, rfl⟩, rfl⟩
      | alternative => simp [Meaning.path?] at hpath
      | closing => simp [Meaning.path?] at hpath

/-! ## Sections -/

/-- The conditions of a tokenized tree are those that its texts ask for. -/
lemma opening_asks {keys : List Text} {tree : Node} (ht : Tokenized tree)
    (hasks : ∀ t ∈ tree.texts, AsksOnly keys t) {here : Occurrence} {condition : Condition}
    (h : .opening here condition ∈ markers (flatText tree)) :
    (condition.path.headD []).foldCase ∈ keys := by
  obtain ⟨position, token, hmem, hmeaning, -⟩ := exists_token_of_opening h
  obtain ⟨t, htext, hpiece⟩ := ht.mem_tokens.mp ⟨position, hmem⟩
  exact hasks t htext _ hpiece condition.path (by rw [hmeaning]; rfl)

section

variable {keys : List Text} {es es' : List (Key × Value)} (h : AgreeOn keys es es')

include h

/-- The loop over the passes takes the same course. -/
lemma LoopEnds.congr {tree : Node} {outcome : Except Cause Node}
    (hends : LoopEnds (.mapping es) tree outcome) (ht : Tokenized tree)
    (hasks : ∀ t ∈ tree.texts, AsksOnly keys t) : LoopEnds (.mapping es') tree outcome := by
  induction hends with
  | failed hpass =>
      rw [resolvePass_congr h fun _ _ => opening_asks ht hasks] at hpass
      exact .failed hpass
  | finished hpass =>
      rw [resolvePass_congr h fun _ _ => opening_asks ht hasks] at hpass
      exact .finished hpass
  | again hpass hcount _ ih =>
      have hnext := ih (ht.pass hpass hcount) fun t hmem q hq => by
        obtain ⟨u, hu, hqu⟩ := ht.pieces_pass hpass hcount t hmem q hq
        exact hasks u hu q hqu
      rw [resolvePass_congr h fun _ _ => opening_asks ht hasks] at hpass
      exact .again hpass hcount hnext

/-- Sections are resolved alike. -/
theorem resolveSections_congr {tree : Node} (ht : Tokenized tree)
    (hasks : ∀ t ∈ tree.texts, AsksOnly keys t) :
    resolveSections tree (.mapping es) = resolveSections tree (.mapping es') :=
  ((loopEnds_resolveSections tree (.mapping es)).congr h ht hasks).eq

end

/-! ## Rows -/

/-- A row that is redirected through a list asks for the key of the list already, if the list is
found among the entries at the keys. -/
lemma AsksOnly.bound {keys : List Text} {es : List (Key × Value)} {scope : RowScope} {key : Key}
    (hwithin : scope.Within key (.mapping (entriesAt keys es))) {t : Text} (ht : AsksOnly keys t) :
    AsksOnly keys (mapPlaceholders scope.token t) := by
  have hsegment : scope.segment.foldCase ∈ keys := by
    obtain ⟨value, items, hmatched, -, -⟩ := hwithin.matched_segment
    have hmem : (key, value) ∈ matched (entriesAt keys es) scope.segment := by
      rw [show entriesAt keys es = (Value.mapping (entriesAt keys es)).entries from rfl, hmatched]
      exact List.mem_singleton_self _
    have hkey := (List.mem_filter.mp (List.mem_filter.mp hmem).1).2
    rwa [List.contains_iff_mem, hwithin.key_matches] at hkey
  intro q hq
  rw [pieces_bound hwithin.isName] at hq
  obtain ⟨p, hp, rfl⟩ := List.mem_map.mp hq
  have hasks := ht p hp
  cases p with
  | char c => trivial
  | token token =>
      obtain ⟨body, meaning⟩ := token
      cases meaning with
      | placeholder path =>
          intro redirected hpath
          obtain rfl := Option.some.inj hpath
          cases path with
          | nil => exact hasks [] rfl
          | cons head rest =>
              rw [RowScope.resolve]
              split_ifs
              · exact hsegment
              · exact hsegment
              · exact hasks (head :: rest) rfl
      | opening path => exact hasks
      | alternative => exact hasks
      | closing => exact hasks

/-! ## The whole merge -/

/-- Resolving sections leaves a tree that asks for nothing new. -/
lemma asksOnly_resolveSections {keys : List Text} {tree resolved : Node} {data : Value}
    (h : resolveSections tree data = .ok resolved) (ht : Tokenized tree)
    (hasks : ∀ t ∈ tree.texts, AsksOnly keys t) : ∀ t ∈ resolved.texts, AsksOnly keys t := by
  intro t hmem q hq
  obtain ⟨u, hu, hqu⟩ := (resolveSections_eq_ok.mp h).1.pieces ht t hmem q hq
  exact hasks u hu q hqu

/-- Expanding tables leaves a tree that asks for nothing new. -/
lemma asksOnly_expandTables {keys : List Text} {es : List (Key × Value)} {tree expanded : Node}
    {aliases : List Alias} (h : expandTables tree (.mapping es) = .ok (expanded, aliases))
    (hasks : ∀ t ∈ tree.texts, AsksOnly keys t) : ∀ t ∈ expanded.texts, AsksOnly keys t := by
  -- rows are bound in the same way to what the data hold at the keys alone
  rw [expandTables_congr (agreeOn_entriesAt keys es) hasks] at h
  exact texts_expandTables (fun _ _ _ hwithin => AsksOnly.bound hwithin) h hasks

/-- **Data that agree at the keys a template asks for are merged alike.** -/
theorem mergeTree_congr {keys : List Text} {es es' : List (Key × Value)} (h : AgreeOn keys es es')
    {tree : Node} (ht : Tokenized (joinRuns tree))
    (hasks : ∀ t ∈ (joinRuns tree).texts, AsksOnly keys t) :
    mergeTree tree (.mapping es) = mergeTree tree (.mapping es') := by
  rw [mergeTree, mergeTree, ← resolveSections_congr h ht hasks]
  cases hsections : resolveSections (joinRuns tree) (.mapping es) with
  | error cause => rfl
  | ok resolved =>
      have hresolved := asksOnly_resolveSections hsections ht hasks
      simp only [ok_bind]
      rw [← expandTables_congr h hresolved]
      cases hrows : expandTables resolved (.mapping es) with
      | error cause => rfl
      | ok expansion =>
          simp only [ok_bind]
          rw [fillTree_congr h (asksOnly_expandTables hrows hresolved)]

end FormLetter
