import FormLetter.Proofs.Nesting
import FormLetter.Proofs.Tokenized

/-!
# When a pass keeps markers in balance

The rulings of a pass take the markers of the outermost sections out of the flat text, and with them
all markers of the branches that lose.  What they keep are the sections inside the branches that
win, and these pair among themselves.

* `Nested.filter_keeps` — the markers that rulings keep are sections side by side again.
* `Strands` — a passage goes although the rulings keep a marker in it.  It happens where a boundary
  paragraph of one section holds a marker of another.
* `paired_unless_stranded` — in a tokenized tree this is the only way to get out of balance: if it
  does not happen, the markers of the text that is left pair.
-/

namespace FormLetter

/-! ## The markers that rulings keep -/

/-- Whether the rulings leave a marker in the text. -/
def keeps (rulings : List Ruling) (m : Marker) : Bool := !covered (deletedBy rulings) m.here.start

lemma keeps_append (rs ss : List Ruling) (m : Marker) :
    keeps (rs ++ ss) m = (keeps rs m && keeps ss m) := by
  rw [keeps, keeps, keeps, deletedBy, List.flatMap_append, covered_append, Bool.not_or]
  rfl

lemma keeps_singleton (r : Ruling) (m : Marker) :
    keeps [r] m = !covered r.deleted m.here.start := by
  rw [keeps, deletedBy, List.flatMap_singleton]

/-- The markers stand one behind the other between two positions. -/
def Spread (low high : Nat) : List Marker → Prop
  | [] => low ≤ high
  | m :: rest => low ≤ m.here.start ∧ m.here.start < m.here.stop ∧ Spread m.here.stop high rest

lemma Spread.le {high : Nat} : ∀ {low : Nat} {ms : List Marker}, Spread low high ms → low ≤ high
  | _, [], h => h
  | _, _ :: _, ⟨hlow, hne, h⟩ => by
      have := h.le
      omega

lemma Spread.bounds {high : Nat} : ∀ {low : Nat} {ms : List Marker}, Spread low high ms →
    ∀ m ∈ ms, low ≤ m.here.start ∧ m.here.start < m.here.stop ∧ m.here.stop ≤ high
  | _, _ :: _, ⟨hlow, hne, h⟩, m, hm => by
      rcases List.mem_cons.mp hm with rfl | hm
      · exact ⟨hlow, hne, h.le⟩
      · obtain ⟨hfirst, hrest⟩ := h.bounds m hm
        exact ⟨by omega, hrest⟩

lemma Spread.append {high : Nat} {ns : List Marker} : ∀ {low : Nat} {ms : List Marker},
    Spread low high (ms ++ ns) → ∃ middle, Spread low middle ms ∧ Spread middle high ns
  | low, [], h => ⟨low, Nat.le_refl low, h⟩
  | _, _ :: _, ⟨hlow, hne, h⟩ => by
      obtain ⟨middle, hrest, hns⟩ := h.append
      exact ⟨middle, ⟨hlow, hne, hrest⟩, hns⟩

/-- What rulings delete lies between markers of their sections. -/
lemma bounds_of_not_keeps {ms : List Marker} {rulings : List Ruling}
    (h : Nested ms (rulings.map Ruling.block)) {m : Marker} (hm : keeps rulings m = false) :
    (∃ a ∈ ms, a.here.start ≤ m.here.start) ∧ ∃ b ∈ ms, m.here.start < b.here.stop := by
  rw [keeps, Bool.not_eq_false', covered_eq_true] at hm
  obtain ⟨range, hrange, hlow, hhigh⟩ := hm
  obtain ⟨r, hr, hrange⟩ := List.mem_flatMap.mp hrange
  obtain ⟨first, hfirst, last, hlast, rfl⟩ := exists_borders hrange
  have hmem : ∀ occurrence ∈ r.block.occurrences, ∃ marker ∈ ms, marker.here = occurrence :=
    fun occurrence ho => List.mem_map.mp <|
      (pair_occurrences (pair_eq_ok_iff.mpr h)).subset
        (List.mem_flatMap.mpr ⟨r.block, List.mem_map_of_mem hr, ho⟩)
  obtain ⟨a, ha, rfl⟩ := hmem first hfirst
  obtain ⟨b, hb, rfl⟩ := hmem last hlast
  exact ⟨⟨a, ha, hlow⟩, b, hb, hhigh⟩

/-- Rulings on sections that stand one behind the other do not meddle with each other. -/
lemma filter_keeps_append {ms ns : List Marker} (rs ss : List Ruling) {low high : Nat}
    (hms : Nested ms (rs.map Ruling.block)) (hns : Nested ns (ss.map Ruling.block))
    (h : Spread low high (ms ++ ns)) :
    (ms ++ ns).filter (keeps (rs ++ ss)) = ms.filter (keeps rs) ++ ns.filter (keeps ss) := by
  obtain ⟨middle, hfront, hbehind⟩ := h.append
  have hbefore : ∀ m ∈ ms, keeps ss m = true := fun m hm => by
    by_contra hne
    obtain ⟨⟨a, ha, hle⟩, -⟩ := bounds_of_not_keeps hns (Bool.eq_false_iff.mpr hne)
    have := hfront.bounds m hm
    have := hbehind.bounds a ha
    omega
  have hafter : ∀ m ∈ ns, keeps rs m = true := fun m hm => by
    by_contra hne
    obtain ⟨-, b, hb, hlt⟩ := bounds_of_not_keeps hms (Bool.eq_false_iff.mpr hne)
    have := hfront.bounds b hb
    have := hbehind.bounds m hm
    omega
  rw [List.filter_append]
  congr 1
  · exact List.filter_congr fun m hm => by rw [keeps_append, hbefore m hm, Bool.and_true]
  · exact List.filter_congr fun m hm => by rw [keeps_append, hafter m hm, Bool.true_and]

/-! ## One section -/

/-- A branch is kept as a whole or not at all. -/
lemma filter_branch {rulings : List Ruling} {ms : List Marker} {kept : Bool}
    (h : ∀ m ∈ ms, keeps rulings m = kept) :
    ms.filter (keeps rulings) = if kept then ms else [] := by
  cases kept with
  | true => exact List.filter_eq_self.mpr h
  | false => exact List.filter_eq_nil_iff.mpr fun m hm => by simp [h m hm]

/-- Of a section of one branch, the branch is kept if the condition holds. -/
lemma filter_keeps_plain {opening closing : Occurrence} {condition : Condition} {holds : Bool}
    {inner : List Marker} {low high : Nat}
    (h : Spread low high (.opening opening condition :: (inner ++ [.closing closing]))) :
    (Marker.opening opening condition :: (inner ++ [.closing closing])).filter
        (keeps [⟨⟨opening, condition, none, closing⟩, holds⟩])
      = if holds then inner else [] := by
  obtain ⟨-, hopening, hspread⟩ := h
  obtain ⟨middle, hinner, hmiddle, hclosing, -⟩ := hspread.append
  simp only [Marker.here] at hopening hinner hmiddle hclosing
  have hle := hinner.le
  have hkeeps : ∀ m : Marker, keeps [⟨⟨opening, condition, none, closing⟩, holds⟩] m = true ↔
      if holds then ¬ (opening.start ≤ m.here.start ∧ m.here.start < opening.stop)
          ∧ ¬ (closing.start ≤ m.here.start ∧ m.here.start < closing.stop)
        else ¬ (opening.start ≤ m.here.start ∧ m.here.start < closing.stop) := fun m => by
    rw [keeps_singleton, Bool.not_eq_true', Bool.eq_false_iff, Ne, Ruling.covered_deleted]
    cases holds <;> simp [Ruling.stripped, Ruling.lost?]
  have hmarkers : ∀ m : Marker, m.here = opening ∨ m.here = closing →
      ¬ keeps [⟨⟨opening, condition, none, closing⟩, holds⟩] m = true := by
    intro m hm
    rw [hkeeps]
    rcases hm with h | h <;> cases holds <;> simp [h] <;> omega
  have hbranch : ∀ m ∈ inner, keeps [⟨⟨opening, condition, none, closing⟩, holds⟩] m = holds := by
    intro m hm
    have := hinner.bounds m hm
    rw [Bool.eq_iff_iff, hkeeps]
    cases holds <;> simp <;> omega
  rw [List.filter_cons_of_neg (hmarkers _ (Or.inl rfl)), List.filter_append, filter_branch hbranch,
    List.filter_cons_of_neg (hmarkers _ (Or.inr rfl)), List.filter_nil, List.append_nil]

/-- Of a section of two branches, one branch is kept. -/
lemma filter_keeps_divided {opening middle closing : Occurrence} {condition : Condition}
    {holds : Bool} {first second : List Marker} {low high : Nat}
    (h : Spread low high (.opening opening condition
      :: (first ++ .alternative middle :: (second ++ [.closing closing])))) :
    (Marker.opening opening condition
        :: (first ++ .alternative middle :: (second ++ [.closing closing]))).filter
        (keeps [⟨⟨opening, condition, some middle, closing⟩, holds⟩])
      = if holds then first else second := by
  obtain ⟨-, hopening, hspread⟩ := h
  obtain ⟨end₁, hfirst, hmiddle, hdivides, hspread⟩ := hspread.append
  obtain ⟨end₂, hsecond, hend, hclosing, -⟩ := hspread.append
  simp only [Marker.here] at hopening hfirst hmiddle hdivides hsecond hend hclosing
  have hle := hfirst.le
  have hle' := hsecond.le
  have hkeeps : ∀ m : Marker,
      keeps [⟨⟨opening, condition, some middle, closing⟩, holds⟩] m = true ↔
      if holds then ¬ (opening.start ≤ m.here.start ∧ m.here.start < opening.stop)
          ∧ ¬ (middle.start ≤ m.here.start ∧ m.here.start < closing.stop)
        else ¬ (closing.start ≤ m.here.start ∧ m.here.start < closing.stop)
          ∧ ¬ (opening.start ≤ m.here.start ∧ m.here.start < middle.stop) := fun m => by
    rw [keeps_singleton, Bool.not_eq_true', Bool.eq_false_iff, Ne, Ruling.covered_deleted]
    cases holds <;> simp [Ruling.stripped, Ruling.lost?]
  have hmarkers : ∀ m : Marker, m.here = opening ∨ m.here = middle ∨ m.here = closing →
      ¬ keeps [⟨⟨opening, condition, some middle, closing⟩, holds⟩] m = true := by
    intro m hm
    rw [hkeeps]
    rcases hm with h | h | h <;> cases holds <;> simp [h] <;> omega
  have hbranch : ∀ m ∈ first,
      keeps [⟨⟨opening, condition, some middle, closing⟩, holds⟩] m = holds := by
    intro m hm
    have := hfirst.bounds m hm
    rw [Bool.eq_iff_iff, hkeeps]
    cases holds <;> simp <;> omega
  have hother : ∀ m ∈ second,
      keeps [⟨⟨opening, condition, some middle, closing⟩, holds⟩] m = !holds := by
    intro m hm
    have := hsecond.bounds m hm
    rw [Bool.eq_iff_iff, hkeeps]
    cases holds <;> simp <;> omega
  rw [List.filter_cons_of_neg (hmarkers _ (Or.inl rfl)), List.filter_append, filter_branch hbranch,
    List.filter_cons_of_neg (hmarkers _ (Or.inr (Or.inl rfl))), List.filter_append,
    filter_branch hother, List.filter_cons_of_neg (hmarkers _ (Or.inr (Or.inr rfl))),
    List.filter_nil, List.append_nil]
  cases holds <;> simp

/-- **The markers that rulings keep are sections side by side.** -/
theorem Nested.filter_keeps {ms : List Marker} {blocks : List Block} (h : Nested ms blocks)
    {low high : Nat} (hspread : Spread low high ms) {rulings : List Ruling}
    (hblocks : rulings.map Ruling.block = blocks) :
    ∃ inside, Nested (ms.filter (keeps rulings)) inside := by
  induction h generalizing low high rulings with
  | nil => exact ⟨[], .nil⟩
  | @plain opening closing condition inner rest _ _ hinner hrest _ ih =>
      obtain ⟨⟨block, holds⟩, others, rfl, hblock, rfl⟩ := List.map_eq_cons_iff.mp hblocks
      obtain rfl : block = ⟨opening, condition, none, closing⟩ := hblock
      -- the first ruling is about this section, the others are about what follows it
      have hsection : Nested (.opening opening condition :: (inner ++ [.closing closing]))
          [⟨opening, condition, none, closing⟩] := .plain hinner .nil
      have hsplit : Marker.opening opening condition :: (inner ++ .closing closing :: rest)
          = (.opening opening condition :: (inner ++ [.closing closing])) ++ rest := by simp
      rw [hsplit] at hspread ⊢
      obtain ⟨middle, hown, hbehind⟩ := hspread.append
      obtain ⟨after, hafter⟩ := ih hbehind rfl
      have hfilter := filter_keeps_append [⟨_, holds⟩] others hsection hrest hspread
      rw [List.singleton_append, filter_keeps_plain hown] at hfilter
      rw [hfilter]
      cases holds with
      | true => exact ⟨_, hinner.append hafter⟩
      | false => exact ⟨_, hafter⟩
  | @divided opening middle closing condition first second rest _ _ _ hfirst hsecond hrest _ _ ih =>
      obtain ⟨⟨block, holds⟩, others, rfl, hblock, rfl⟩ := List.map_eq_cons_iff.mp hblocks
      obtain rfl : block = ⟨opening, condition, some middle, closing⟩ := hblock
      have hsection : Nested (.opening opening condition
            :: (first ++ .alternative middle :: (second ++ [.closing closing])))
          [⟨opening, condition, some middle, closing⟩] := .divided hfirst hsecond .nil
      have hsplit : Marker.opening opening condition
            :: (first ++ .alternative middle :: (second ++ .closing closing :: rest))
          = (.opening opening condition
            :: (first ++ .alternative middle :: (second ++ [.closing closing]))) ++ rest := by simp
      rw [hsplit] at hspread ⊢
      obtain ⟨_, hown, hbehind⟩ := hspread.append
      obtain ⟨after, hafter⟩ := ih hbehind rfl
      have hfilter := filter_keeps_append [⟨_, holds⟩] others hsection hrest hspread
      rw [List.singleton_append, filter_keeps_divided hown] at hfilter
      rw [hfilter]
      cases holds with
      | true => exact ⟨_, hfirst.append hafter⟩
      | false => exact ⟨_, hsecond.append hafter⟩

/-! ## The markers of the text that is left -/

/-- What a piece says as a conditional marker, if it is one. -/
def Piece.sign? : Piece → Option Meaning
  | .char _ => none
  | .token t => (t.marker? 0).map Marker.meaning

lemma meaning_marker? (t : Token) (position : Nat) :
    (t.marker? position).map Marker.meaning = (Piece.token t).sign? := by
  obtain ⟨body, meaning⟩ := t
  cases meaning <;> rfl

/-- The markers among pieces that ranges leave are those among the pieces that are kept. -/
lemma signs_keepPieces (ranges : List Range) : ∀ (start : Nat) (ps : List Piece),
    (((tokensFrom start ps).filterMap fun (position, token) => token.marker? position).filter
        fun m => !covered ranges m.here.start).map Marker.meaning
      = (keepPieces ranges start ps).filterMap Piece.sign?
  | _, [] => rfl
  | start, .char c :: rest => by
      have ih := signs_keepPieces ranges (start + 1) rest
      rw [tokensFrom, keepPieces, ih]
      split <;> rfl
  | start, .token token :: rest => by
      have ih := signs_keepPieces ranges (start + token.text.length) rest
      have hsign := meaning_marker? token start
      rw [tokensFrom, keepPieces]
      cases hm : token.marker? start with
      | none =>
          rw [hm] at hsign
          rw [List.filterMap_cons_none (by exact hm), ih]
          split
          · rfl
          · rw [List.filterMap_cons_none hsign.symm]
            rfl
      | some m =>
          have hhere : m.here.start = start := by rw [Token.marker?_eq_some hm]
          rw [hm] at hsign
          rw [List.filterMap_cons_some (by exact hm), List.filter_cons, hhere]
          cases covered ranges start with
          | true => exact ih
          | false =>
              simp only [Bool.not_false, ↓reduceIte, Bool.false_eq_true, List.map_cons]
              rw [List.filterMap_cons_some hsign.symm, ih]
              rfl

lemma keepPieces_nil : ∀ (start : Nat) (ps : List Piece), keepPieces [] start ps = ps
  | _, [] => rfl
  | start, p :: rest => by
      rw [keepPieces, keepPieces_nil _ rest]
      rfl

lemma map_meaning_markersFrom (start : Nat) (t : Text) :
    (markersFrom start t).map Marker.meaning = (pieces t).filterMap Piece.sign? := by
  have h := signs_keepPieces [] start (pieces t)
  have hall : ∀ m : Marker, (!covered [] m.here.start) = true := fun _ => rfl
  rw [keepPieces_nil, List.filter_eq_self.mpr fun m _ => hall m] at h
  exact h

lemma map_meaning_joinWith : ∀ ts : List Text,
    (markers (Text.joinWith ['\n'] ts)).map Marker.meaning
      = ts.flatMap fun t => (pieces t).filterMap Piece.sign?
  | [] => rfl
  | [t] => by
      rw [Text.joinWith, markers_eq_markersFrom, map_meaning_markersFrom, List.flatMap_singleton]
  | t :: next :: rest => by
      have ih := map_meaning_joinWith (next :: rest)
      rw [markers_eq_markersFrom, map_meaning_markersFrom] at ih ⊢
      rw [Text.joinWith_cons _ _ (by simp), List.append_assoc, List.singleton_append,
        pieces_append_lineEnd, List.filterMap_append, List.filterMap_cons_none rfl, ih]
      rfl

lemma Spread.mono {low low' high : Nat} {ms : List Marker} (h : Spread low high ms)
    (hle : low' ≤ low) : Spread low' high ms := by
  cases ms with
  | nil => exact Nat.le_trans hle h
  | cons m rest => exact ⟨Nat.le_trans hle h.1, h.2⟩

lemma spread_tokensFrom : ∀ (start : Nat) (ps : List Piece), Spread start (start + spelledLength ps)
    ((tokensFrom start ps).filterMap fun (position, token) => token.marker? position)
  | start, [] => Nat.le_refl start
  | start, .char c :: rest => by
      have ih := spread_tokensFrom (start + 1) rest
      rw [Nat.add_assoc] at ih
      rw [tokensFrom, spelledLength_cons]
      exact ih.mono (Nat.le_add_right start 1)
  | start, .token token :: rest => by
      have ih := spread_tokensFrom (start + token.text.length) rest
      have hlen := token.length_text
      rw [Nat.add_assoc] at ih
      rw [tokensFrom, spelledLength_cons, Piece.text]
      cases hm : token.marker? start with
      | none =>
          rw [List.filterMap_cons_none (by exact hm)]
          exact ih.mono (Nat.le_add_right _ _)
      | some m =>
          have hhere := Token.marker?_eq_some hm
          rw [List.filterMap_cons_some (by exact hm)]
          simp only [Spread, hhere, Occurrence.stop]
          exact ⟨Nat.le_refl start, by omega, ih⟩

/-! ## Balance -/

/-- A passage goes although the rulings keep a marker in it. -/
def Strands (tree : Node) (rulings : List Ruling) : Prop :=
  ∃ p ∈ passages tree, p.Gone tree rulings
    ∧ ∃ m ∈ markersFrom p.start p.node.content, keeps rulings m = true

/-- The markers of what is left of a passage are those that the rulings keep. -/
lemma signs_remainder {tree : Node} {data : Value} {rulings : List Ruling} (ht : Tokenized tree)
    (hd : Decides tree data rulings) {p : Passage} (hp : p ∈ passages tree) :
    (pieces (p.remainder rulings).content).filterMap Piece.sign?
      = ((markersFrom p.start p.node.content).filter (keeps rulings)).map Marker.meaning := by
  have hcontent : IsTokenized p.node.content := IsTokenized.flatten (ht.passage hp)
  have hspell := keepOutside_spell (respectsTokens_deletedBy hd hp)
  rw [spelled_pieces] at hspell
  rw [Passage.remainder, content_cut, hspell,
    pieces_spell fun q hq => hcontent q ((keepPieces_sublist _ _ _).subset hq),
    ← signs_keepPieces]
  rfl

lemma flatMap_filter {α β : Type} {f : α → List β} {q : α → Bool} {l : List α}
    (h : ∀ x ∈ l, q x = false → f x = []) : (l.filter q).flatMap f = l.flatMap f := by
  induction l with
  | nil => rfl
  | cons x rest ih =>
      obtain ⟨hx, hrest⟩ := List.forall_mem_cons.mp h
      rw [List.filter_cons, List.flatMap_cons]
      cases hq : q x with
      | true => rw [if_pos rfl, List.flatMap_cons, ih hrest]
      | false => rw [if_neg (by simp), ih hrest, hx hq, List.nil_append]

/-- **Unless a pass strands a marker, it leaves markers that pair.** -/
theorem paired_unless_stranded {tree : Node} {data : Value} {rulings : List Ruling}
    (ht : Tokenized tree) (hd : Decides tree data rulings) (hstrands : ¬ Strands tree rulings) :
    ∃ blocks, pair (markers (textLeft tree rulings)) = .ok blocks := by
  classical
  have hgone : ∀ p ∈ passages tree, decide (¬ p.Gone tree rulings) = false →
      ((markersFrom p.start p.node.content).filter (keeps rulings)).map Marker.meaning = [] := by
    intro p hp hgone
    rw [List.map_eq_nil_iff, List.filter_eq_nil_iff]
    intro m hm hkeeps
    exact hstrands ⟨p, hp, by simpa using hgone, m, hm, hkeeps⟩
  have hsame : (markers (textLeft tree rulings)).map Marker.meaning
      = ((markers (flatText tree)).filter (keeps rulings)).map Marker.meaning := by
    rw [textLeft, map_meaning_joinWith, List.flatMap_map, markers_flatText, List.filter_flatMap,
      List.map_flatMap,
      List.flatMap_congr fun p hp => signs_remainder ht hd (mem_survivors.mp hp).1, survivors]
    exact flatMap_filter hgone
  obtain ⟨inside, hinside⟩ := (pair_eq_ok_iff.mp hd.sections).filter_keeps
    (spread_tokensFrom 0 (pieces (flatText tree))) rfl
  obtain ⟨blocks, hblocks⟩ := hinside.congr hsame
  exact ⟨blocks, pair_eq_ok_iff.mpr hblocks⟩

end FormLetter
