import Mathlib.Data.List.Induction
import FormLetter.Package.Template
import FormLetter.Proofs.RequiredKeys

/-!
# Reports of reports

The report of a package is made of the reports of its parts, and these are made of mentions that
have been put together already.  Putting mentions together is done one use at a time, and what comes
of it is looked up by spelling while it grows.  Still it makes no difference which reports are
combined first.

* `eraseDups_append_eraseDups` — removing repetitions from a stretch of a list changes nothing if
  they are removed from the whole list afterwards.
* `gathered` — what mentions come to when they are put together, token by token.  After any number of
  uses the mentions that have grown are just that (`addMentions_eq_gathered`), so they may stand for
  the uses that they came from (`gathered_append_gathered`).
* `combine_nested` — the same of a report in the place of the reports that it is made of.
* `Grouping` — reports combined in any manner.
* `combine_ignores_grouping` — only the parts and their order count.
-/

namespace FormLetter

/-! ## Repetitions -/

section

variable {α : Type} [BEq α] [LawfulBEq α]

lemma nodup_eraseDups : ∀ l : List α, l.eraseDups.Nodup
  | [] => List.nodup_nil
  | a :: l => by
      rw [List.eraseDups_cons, List.nodup_cons]
      refine ⟨fun hmem => ?_, nodup_eraseDups _⟩
      have := (List.mem_filter.mp (List.mem_eraseDups.mp hmem)).2
      simp at this
termination_by l => l.length
decreasing_by
  exact Nat.lt_succ_of_le (List.length_filter_le ..)

lemma addOnce_of_mem {xs : List α} {x : α} (h : x ∈ xs) : addOnce xs x = xs :=
  if_pos (List.contains_iff_mem.mpr h)

lemma addOnce_of_not_mem {xs : List α} {x : α} (h : x ∉ xs) : addOnce xs x = xs ++ [x] :=
  if_neg fun hcontains => h (List.contains_iff_mem.mp hcontains)

lemma eraseDups_concat (xs : List α) (x : α) :
    (xs ++ [x]).eraseDups = addOnce xs.eraseDups x := by
  rw [List.eraseDups_append, List.removeAll]
  by_cases h : x ∈ xs
  · rw [addOnce_of_mem (List.mem_eraseDups.mpr h)]
    simp [h]
  · rw [addOnce_of_not_mem (mt List.mem_eraseDups.mp h)]
    simp [h, List.eraseDups_cons]

/-- Adding each member once leaves out repetitions. -/
lemma foldl_addOnce_nil (xs : List α) : xs.foldl addOnce [] = xs.eraseDups := by
  induction xs using List.reverseRecOn with
  | nil => rfl
  | append_singleton xs x ih =>
      rw [List.foldl_append, ih, eraseDups_concat, List.foldl_cons, List.foldl_nil]

/-- Repetitions are added in vain. -/
lemma foldl_addOnce_eraseDups (seen xs : List α) :
    xs.eraseDups.foldl addOnce seen = xs.foldl addOnce seen := by
  induction xs using List.reverseRecOn with
  | nil => rfl
  | append_singleton xs x ih =>
      rw [eraseDups_concat, List.foldl_append, List.foldl_cons, List.foldl_nil]
      by_cases h : x ∈ xs
      · rw [addOnce_of_mem (List.mem_eraseDups.mpr h), ih,
          addOnce_of_mem (mem_foldl_addOnce.mpr (Or.inr h))]
      · rw [addOnce_of_not_mem (mt List.mem_eraseDups.mp h), List.foldl_append, ih,
          List.foldl_cons, List.foldl_nil]

lemma eraseDups_append (xs ys : List α) :
    (xs ++ ys).eraseDups = ys.foldl addOnce xs.eraseDups := by
  rw [← foldl_addOnce_nil, List.foldl_append, foldl_addOnce_nil]

lemma eraseDups_append_eraseDups (xs ys zs : List α) :
    (xs ++ ys.eraseDups ++ zs).eraseDups = (xs ++ ys ++ zs).eraseDups := by
  rw [eraseDups_append (xs ++ _), eraseDups_append xs, foldl_addOnce_eraseDups,
    ← eraseDups_append xs, ← eraseDups_append]

end

/-! ## Mentions put together -/

/-- The uses of a token among others. -/
def usesOf (news : List Mention) (label : Text) : List Mention :=
  news.filter fun mention => mention.label = label

/-- One mention for all uses of a token: it has the path of the first use, and every location once,
where it comes first. -/
def gather (label : Text) (uses : List Mention) : Mention :=
  ⟨label, (uses.head?.map (·.path)).getD [], (uses.flatMap (·.locations)).eraseDups⟩

/-- One mention for each token, in the order of their first uses. -/
def gathered (news : List Mention) : List Mention :=
  (news.map (·.label)).eraseDups.map fun label => gather label (usesOf news label)

section

variable {news : List Mention} {new : Mention} {label : Text}

lemma usesOf_append (front back : List Mention) (label : Text) :
    usesOf (front ++ back) label = usesOf front label ++ usesOf back label :=
  List.filter_append ..

lemma usesOf_eq_nil : usesOf news label = [] ↔ label ∉ news.map (·.label) := by
  simp [usesOf, List.filter_eq_nil_iff]

lemma map_label_gathered (news : List Mention) :
    (gathered news).map (·.label) = (news.map (·.label)).eraseDups := by
  rw [gathered, List.map_map]
  exact List.map_id _

/-- A token that has been gathered is mentioned once. -/
lemma usesOf_gathered (news : List Mention) (label : Text) :
    usesOf (gathered news) label
      = if usesOf news label = [] then [] else [gather label (usesOf news label)] := by
  have hfilter : ∀ labels : List Text, labels.Nodup →
      labels.filter (· = label) = if label ∈ labels then [label] else [] := by
    intro labels hnodup
    rw [List.filter_eq, hnodup.count]
    split <;> rfl
  rw [usesOf, gathered, List.filter_map]
  change ((news.map (·.label)).eraseDups.filter (· = label)).map _ = _
  rw [hfilter _ (nodup_eraseDups _)]
  simp only [List.mem_eraseDups, usesOf_eq_nil]
  split <;> simp_all

/-- One more use of a token adds its locations. -/
lemma gather_concat {uses : List Mention} (h : uses ≠ []) :
    gather label (uses ++ [new]) = ⟨label, (gather label uses).path,
      new.locations.foldl addOnce (gather label uses).locations⟩ := by
  obtain ⟨first, rest, rfl⟩ := List.exists_cons_of_ne_nil h
  simp [gather, eraseDups_append]

/-- A gathered mention may stand for the uses that it was gathered from. -/
lemma gather_append_gather (front back : List Mention) {uses : List Mention} (h : uses ≠ []) :
    gather label (front ++ [gather label uses] ++ back) = gather label (front ++ uses ++ back) := by
  obtain ⟨first, rest, rfl⟩ := List.exists_cons_of_ne_nil h
  have hpath : ((front ++ [gather label (first :: rest)] ++ back).head?.map (·.path))
      = ((front ++ first :: rest ++ back).head?.map (·.path)) := by
    cases front <;> rfl
  have hlocations := eraseDups_append_eraseDups (front.flatMap (·.locations))
    ((first :: rest).flatMap (·.locations)) (back.flatMap (·.locations))
  simpa [gather] using And.intro (congrArg (Option.getD · []) hpath) hlocations

/-- A first use of a token is mentioned at the end. -/
lemma addMention_of_not_mem : ∀ {mentions : List Mention}, new.label ∉ mentions.map (·.label) →
    addMention mentions new = mentions ++ [gather new.label [new]]
  | [], _ => by simp [addMention, gather, foldl_addOnce_nil]
  | mention :: rest, h => by
      obtain ⟨hne, hrest⟩ := not_or.mp (mt List.mem_cons.mpr h)
      rw [addMention, if_neg (Ne.symm hne), addMention_of_not_mem hrest, List.cons_append]

/-- A further use of a token changes what is said of this token. -/
lemma addMention_map {entry entry' : Text → Mention} (hlabel : ∀ label, (entry label).label = label)
    (hsame : ∀ label, label ≠ new.label → entry' label = entry label)
    (hnew : entry' new.label = ⟨new.label, (entry new.label).path,
      new.locations.foldl addOnce (entry new.label).locations⟩) :
    ∀ {labels : List Text}, labels.Nodup → new.label ∈ labels →
      addMention (labels.map entry) new = labels.map entry'
  | label :: rest, hnodup, hmem => by
      obtain ⟨hfirst, hrest⟩ := List.nodup_cons.mp hnodup
      rw [List.map_cons, addMention, hlabel, List.map_cons]
      split
      · next heq =>
          have htail : rest.map entry = rest.map entry' := List.map_congr_left fun other hother =>
            (hsame other fun h => hfirst (heq ▸ h ▸ hother)).symm
          rw [htail, heq, hnew]
      · next hne =>
          rw [hsame label hne, addMention_map hlabel hsame hnew hrest
            ((List.mem_cons.mp hmem).resolve_left fun h => hne h.symm)]

/-- **What has grown is what its uses come to,** after each use. -/
lemma gathered_concat (news : List Mention) (new : Mention) :
    gathered (news ++ [new]) = addMention (gathered news) new := by
  have huses : ∀ label, label ≠ new.label → usesOf (news ++ [new]) label = usesOf news label := by
    intro label hne
    have hnone : usesOf [new] label = [] := usesOf_eq_nil.mpr (by simpa using hne)
    rw [usesOf_append, hnone, List.append_nil]
  have hnew : usesOf (news ++ [new]) new.label = usesOf news new.label ++ [new] := by
    rw [usesOf_append, usesOf, usesOf, List.filter_singleton]
    simp
  rw [gathered, List.map_append, List.map_singleton, eraseDups_concat]
  by_cases h : new.label ∈ news.map (·.label)
  · rw [addOnce_of_mem (List.mem_eraseDups.mpr h), gathered]
    refine (addMention_map (fun _ => rfl) (fun label hne => ?_) ?_ (nodup_eraseDups _)
      (List.mem_eraseDups.mpr h)).symm
    · rw [huses label hne]
    · rw [hnew, gather_concat (mt usesOf_eq_nil.mp (not_not.mpr h))]
  · have hmention : new.label ∉ (gathered news).map (·.label) := by
      rwa [map_label_gathered, List.mem_eraseDups]
    rw [addOnce_of_not_mem (mt List.mem_eraseDups.mp h), addMention_of_not_mem hmention,
      List.map_append, List.map_singleton, hnew, usesOf_eq_nil.mpr h, List.nil_append, gathered]
    refine congrArg (· ++ _) (List.map_congr_left fun label hmem => ?_)
    rw [huses label fun heq => h (heq ▸ List.mem_eraseDups.mp hmem)]

lemma addMentions_eq_gathered (news : List Mention) : addMentions [] news = gathered news := by
  induction news using List.reverseRecOn with
  | nil => rfl
  | append_singleton news new ih =>
      rw [gathered_concat, ← ih, addMentions, List.foldl_append, List.foldl_cons, List.foldl_nil,
        addMentions]

/-- **Mentions that have been put together may stand for their uses.** -/
lemma gathered_append_gathered (front news back : List Mention) :
    gathered (front ++ gathered news ++ back) = gathered (front ++ news ++ back) := by
  have huses : ∀ label, gather label (usesOf (front ++ gathered news ++ back) label)
      = gather label (usesOf (front ++ news ++ back) label) := by
    intro label
    simp only [usesOf_append, usesOf_gathered]
    split
    · next hnone => rw [hnone]
    · next hsome => exact gather_append_gather _ _ hsome
  have hlabels : ((front ++ gathered news ++ back).map (·.label)).eraseDups
      = ((front ++ news ++ back).map (·.label)).eraseDups := by
    simp only [List.map_append, map_label_gathered, eraseDups_append_eraseDups]
  rw [gathered, hlabels, gathered]
  exact List.map_congr_left fun label _ => huses label

end

/-! ## Reports put together -/

/-- Reports come to the same if their mentions do, and if they have the same issues. -/
lemma combine_congr {reports reports' : List Report}
    (hplaceholders : gathered (reports.flatMap (·.placeholders))
      = gathered (reports'.flatMap (·.placeholders)))
    (hconditions : gathered (reports.flatMap (·.conditions))
      = gathered (reports'.flatMap (·.conditions)))
    (hissues : reports.flatMap (·.issues) = reports'.flatMap (·.issues)) :
    Report.combine reports = Report.combine reports' := by
  simp only [Report.combine, addMentions_eq_gathered, hplaceholders, hconditions, hissues]

/-- **A combined report may stand for the reports that it is made of.** -/
lemma combine_nested (front parts back : List Report) :
    Report.combine (front ++ Report.combine parts :: back)
      = Report.combine (front ++ parts ++ back) := by
  have hgathered : ∀ f : Report → List Mention,
      f (Report.combine parts) = gathered (parts.flatMap f) →
      gathered ((front ++ Report.combine parts :: back).flatMap f)
        = gathered ((front ++ parts ++ back).flatMap f) := by
    intro f hf
    simp only [List.flatMap_append, List.flatMap_cons, hf]
    rw [← List.append_assoc, gathered_append_gathered]
  refine combine_congr (hgathered _ (addMentions_eq_gathered _))
    (hgathered _ (addMentions_eq_gathered _)) ?_
  simp [Report.combine]

/-- Reports may be combined group by group. -/
lemma combine_flatten (front : List Report) : ∀ groups : List (List Report),
    Report.combine (front ++ groups.flatten)
      = Report.combine (front ++ groups.map Report.combine)
  | [] => rfl
  | parts :: rest => by
      have hrest := combine_flatten (front ++ parts) rest
      rw [List.flatten_cons, ← List.append_assoc, hrest, List.map_cons, combine_nested]

/-- Reports that are combined in some manner: some of them first, and what comes of these with
others. -/
inductive Grouping
  | part (report : Report)
  | group (members : List Grouping)

namespace Grouping

mutual

/-- The report that comes of combining in this manner. -/
def report : Grouping → Report
  | part report => report
  | group members => Report.combine (reports members)

/-- The reports of several groupings. -/
def reports : List Grouping → List Report
  | [] => []
  | member :: rest => member.report :: reports rest

end

mutual

/-- The reports that are combined in the end, in order. -/
def parts : Grouping → List Report
  | part report => [report]
  | group members => partsOf members

/-- The parts of several groupings. -/
def partsOf : List Grouping → List Report
  | [] => []
  | member :: rest => member.parts ++ partsOf rest

end

mutual

/-- The report of a grouping may stand for its parts. -/
theorem combine_report (front back : List Report) : ∀ grouping : Grouping,
    Report.combine (front ++ grouping.report :: back)
      = Report.combine (front ++ grouping.parts ++ back)
  | part report => by rw [Grouping.report, parts, List.append_assoc, List.singleton_append]
  | group members => by
      have hmembers := combine_reports front back members
      rw [Grouping.report, parts, combine_nested, hmembers]

theorem combine_reports (front back : List Report) : ∀ members : List Grouping,
    Report.combine (front ++ reports members ++ back)
      = Report.combine (front ++ partsOf members ++ back)
  | [] => rfl
  | member :: rest => by
      have hmember := combine_report front (reports rest ++ back) member
      have hrest := combine_reports (front ++ member.parts) back rest
      simp only [reports, partsOf, List.append_assoc, List.cons_append] at *
      rw [hmember, hrest]

end

end Grouping

/-- **It makes no difference how reports are combined.**  Two lists of reports come to the same
together as their combined reports do, and combining a combined report changes nothing; so whatever
the manner in which reports are combined, what comes of it is what comes of all of them at once, and
a package may be inspected by groups of its parts.  The report mentions every token once, in the
order of first uses, with each location once, where it comes first; it lists every key once, in
order, and all issues; and it is valid if all that it is made of are. -/
theorem combine_ignores_grouping :
    (∀ left right : List Report, Report.combine (left ++ right)
        = Report.combine [Report.combine left, Report.combine right])
      ∧ (∀ reports, Report.combine [Report.combine reports] = Report.combine reports)
      ∧ (∀ members, (Grouping.group members).report
        = Report.combine (Grouping.group members).parts)
      ∧ (∀ {Archive : Type} (source : Archive) (groups : List (List (String × Node))),
        Template.inspect ⟨source, groups.flatten⟩
          = Report.combine (groups.map fun trees => Template.inspect ⟨source, trees⟩))
      ∧ ∀ reports,
        (Report.combine reports).placeholders = gathered (reports.flatMap (·.placeholders))
        ∧ (Report.combine reports).conditions = gathered (reports.flatMap (·.conditions))
        ∧ (Report.combine reports).requiredKeys.Pairwise (· < ·)
        ∧ (Report.combine reports).issues = reports.flatMap (·.issues)
        ∧ (Report.combine reports).isValid = reports.all (·.isValid) := by
  refine ⟨fun left right => ?_, fun reports => ?_, fun members => ?_, fun source groups => ?_,
    fun reports => ⟨addMentions_eq_gathered _, addMentions_eq_gathered _, ?_, rfl, ?_⟩⟩
  · have hflatten := combine_flatten [] [left, right]
    simpa using hflatten
  · have hflatten := combine_flatten [] [reports]
    simpa using hflatten.symm
  · have hmembers := Grouping.combine_reports [] [] members
    rw [Grouping.report, Grouping.parts]
    simpa using hmembers
  · have hflatten := combine_flatten [] (groups.map fun trees =>
      trees.map fun part => inspectTree part.2 (PartName.location part.1))
    rw [List.nil_append, List.nil_append, ← List.map_flatten, List.map_map] at hflatten
    exact hflatten
  · have hnodup := nodup_eraseDups (α := Text)
    rw [Report.combine, requiredKeysOf, foldl_addOnce_nil]
    exact pairwise_lt_ordered (hnodup _)
  · rw [Bool.eq_iff_iff]
    simp [Report.combine, Report.isValid]

end FormLetter
