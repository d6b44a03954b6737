import FormLetter.Merge.Substitution
import FormLetter.Proofs.Outcomes

/-!
# What values show

The text that is put into a document is the text of a scalar, with markup escaped.  This file says
which characters such a text can hold.

* `isNumberChar_of_mem_text` — numbers of both formats are shown with letters, digits, signs and
  points.
* `Value.strings` — the texts among the values of the data, at any depth.  `strings_traverse` — a
  value that a path leads to has no others.
* `at_not_mem_valueText` — so, if no text of the data holds an at-sign, no value shows one, and
  escaping adds none (`at_not_mem_escapeValue`).
-/

namespace FormLetter

/-! ## Numbers -/

/-- A character in the text of some number. -/
def isNumberChar (c : Char) : Bool := c.isAlphanum || c == '+' || c == '-' || c == '.'

lemma all_ofNat (n : Nat) : (Text.ofNat n).all isNumberChar = true := by
  rw [List.all_eq_true]
  intro c hc
  have hdigit : c.isDigit = true := Nat.isDigit_of_mem_toDigits (by decide) (by decide) hc
  simp [isNumberChar, Char.isAlphanum, hdigit]

lemma all_ofInt : ∀ i : Int, (Text.ofInt i).all isNumberChar = true
  | .ofNat n => all_ofNat n
  | .negSucc n => by
      rw [Text.ofInt, List.all_cons, all_ofNat]
      rfl

lemma all_signText (negative : Bool) : (signText negative).all isNumberChar = true := by
  cases negative <;> rfl

lemma all_replicate_zero (n : Nat) : (List.replicate n '0').all isNumberChar = true := by
  rw [List.all_replicate]
  cases n <;> rfl

lemma all_exponentText (width : Nat) (exponent : Int) :
    (exponentText width exponent).all isNumberChar = true := by
  simp only [exponentText, List.cons_append, List.all_cons, List.all_append, all_replicate_zero,
    all_ofNat, Bool.and_true]
  split <;> rfl

lemma all_pointed {digits : Text} (h : digits.all isNumberChar = true) (point : Int) :
    (pointed digits point).all isNumberChar = true := by
  have hpart : ∀ n, (digits.take n).all isNumberChar = true
      ∧ (digits.drop n).all isNumberChar = true := fun n => by
    rw [← Bool.and_eq_true, ← List.all_append, List.take_append_drop, h]
  rw [pointed]
  split_ifs
  · simp only [List.cons_append, List.all_cons, List.all_append, all_replicate_zero, h]
    rfl
  · simp only [List.all_append, all_replicate_zero, h, Bool.and_true]
  · simp only [List.all_append, List.all_cons, hpart]
    rfl

lemma all_withoutTrailingZeros {t : Text} (h : t.all isNumberChar = true) :
    (withoutTrailingZeros t).all isNumberChar = true := by
  rw [List.all_eq_true] at h ⊢
  intro c hc
  rw [withoutTrailingZeros, List.mem_reverse] at hc
  exact h c (List.mem_reverse.mp ((List.dropWhile_sublist _).subset hc))

lemma Binary64.all_text : ∀ x : Binary64, x.text.all isNumberChar = true
  | .nan => rfl
  | .infinite negative => by cases negative <;> rfl
  | .finite negative 0 _ => by cases negative <;> rfl
  | .finite negative (significand + 1) exponent => by
      simp only [Binary64.text, List.all_append, all_signText, Bool.true_and]
      have hdigits := all_withoutTrailingZeros (all_ofNat (shortest (significand + 1) exponent).1)
      split_ifs
      · exact all_pointed hdigits _
      · rw [List.all_append, all_pointed hdigits]
        rfl
      · rw [List.all_append, List.all_cons, all_pointed hdigits, all_exponentText]
        rfl

lemma Numeral.all_text : ∀ n : Numeral, n.text.all isNumberChar = true
  | .infinite negative => by cases negative <;> rfl
  | .nan negative signalling payload => by
      simp only [Numeral.text, List.all_append, all_signText, Bool.true_and]
      split_ifs <;> simp only [all_ofNat, List.all_nil] <;> rfl
  | .finite negative value exponent => by
      simp only [Numeral.text, List.all_append, all_signText, Bool.true_and]
      split_ifs
      · exact all_pointed (all_ofNat value) _
      · rw [List.all_append, List.all_cons, all_pointed (all_ofNat value), all_exponentText]
        rfl

/-! ## Texts in data -/

mutual

/-- The texts among the values of a piece of data, at any depth; keys do not count. -/
def Value.strings : Value → List Text
  | .text t => [t]
  | .list items => stringsOf items
  | .tuple items => stringsOf items
  | .mapping entries => stringsUnder entries
  | _ => []

/-- The texts among several pieces of data. -/
def Value.stringsOf : List Value → List Text
  | [] => []
  | item :: rest => strings item ++ stringsOf rest

/-- The texts among the values of several entries. -/
def Value.stringsUnder : List (Key × Value) → List Text
  | [] => []
  | (_, value) :: rest => strings value ++ stringsUnder rest

end

lemma strings_subset_of_mem {item : Value} : ∀ {items : List Value}, item ∈ items →
    item.strings ⊆ Value.stringsOf items
  | first :: rest, h => by
      rw [Value.stringsOf]
      rcases List.mem_cons.mp h with rfl | h
      · exact List.subset_append_left _ _
      · exact List.subset_append_of_subset_right _ (strings_subset_of_mem h)

lemma strings_subset_of_mem_entries {entry : Key × Value} : ∀ {entries : List (Key × Value)},
    entry ∈ entries → entry.2.strings ⊆ Value.stringsUnder entries
  | first :: rest, h => by
      rw [Value.stringsUnder]
      rcases List.mem_cons.mp h with rfl | h
      · exact List.subset_append_left _ _
      · exact List.subset_append_of_subset_right _ (strings_subset_of_mem_entries h)

lemma mem_of_lookup {entries : List (Key × Value)} {segment : Text} {path : Path}
    {entry : Key × Value} (h : lookup entries segment path = .ok entry) : entry ∈ entries := by
  have hsymbolic : (matchingEntries entries segment).1 ⊆ entries :=
    (List.filter_sublist.trans List.filter_sublist).subset
  have htextual : (matchingEntries entries segment).2 ⊆ entries :=
    (List.filter_sublist.trans List.filter_sublist).subset
  unfold lookup at h
  split at h
  · simp at h
  · next e heq =>
      rw [heq] at hsymbolic
      exact Except.ok.inj h ▸ hsymbolic List.mem_cons_self
  · next e heq =>
      rw [heq] at htextual
      exact Except.ok.inj h ▸ htextual List.mem_cons_self
  all_goals simp at h

lemma mem_of_listMember {items : List Value} {segment : Text} {item : Value}
    (h : listMember items segment = .ok item) : item ∈ items := by
  obtain ⟨position, -, h⟩ := bind_eq_ok.mp h
  split at h
  · next found heq => exact Except.ok.inj h ▸ List.mem_of_getElem? heq
  · simp at h

lemma strings_descend {path : Path} {segment : Text} {value next : Value}
    (h : descend path segment value = .ok next) : next.strings ⊆ value.strings := by
  cases value with
  | mapping entries =>
      obtain ⟨entry, hentry, rfl⟩ := map_eq_ok.mp h
      exact strings_subset_of_mem_entries (mem_of_lookup hentry)
  | list items => exact strings_subset_of_mem (mem_of_listMember h)
  | tuple items => exact strings_subset_of_mem (mem_of_listMember h)
  | _ => simp [descend] at h

lemma strings_traverseFrom {path : Path} : ∀ {segments : List Text} {value found : Value},
    traverseFrom path segments value = .ok found → found.strings ⊆ value.strings
  | [], value, found, h => by
      rw [Except.ok.inj h]
      exact List.Subset.refl _
  | segment :: rest, value, found, h => by
      rw [traverseFrom] at h
      obtain ⟨next, hnext, h⟩ := bind_eq_ok.mp h
      exact List.Subset.trans (strings_traverseFrom h) (strings_descend hnext)

/-- A value that a path leads to has texts of the data only. -/
theorem strings_traverse {data value : Value} {path : Path} (h : traverse data path = .ok value) :
    value.strings ⊆ data.strings :=
  strings_traverseFrom h

/-! ## At-signs -/

lemma at_not_mem_of_all {t : Text} (h : t.all isNumberChar = true) : '@' ∉ t :=
  fun hc => absurd (List.all_eq_true.mp h _ hc) (by decide)

lemma at_not_mem_display {value : Value} {t : Text} (hvalue : ∀ s ∈ value.strings, '@' ∉ s)
    (h : value.display = .ok t) : '@' ∉ t := by
  cases value with
  | text s => exact Except.ok.inj h ▸ hvalue s (by simp [Value.strings])
  | truth b =>
      rw [← Except.ok.inj h]
      cases b <;> decide
  | int i => exact Except.ok.inj h ▸ at_not_mem_of_all (all_ofInt i)
  | binary x => exact Except.ok.inj h ▸ at_not_mem_of_all x.all_text
  | decimal n => exact Except.ok.inj h ▸ at_not_mem_of_all n.all_text
  | _ => simp [Value.display] at h

/-- **Without at-signs in the texts of the data, no path shows one.** -/
theorem at_not_mem_valueText {data : Value} {path : Path} {t : Text}
    (hdata : ∀ s ∈ data.strings, '@' ∉ s) (h : valueText data path = .ok t) : '@' ∉ t := by
  cases path with
  | nil => simp [valueText] at h
  | cons head rest =>
      obtain ⟨value, hvalue, h⟩ := bind_eq_ok.mp (show (traverse data (head :: rest) >>=
        Value.display) = .ok t from h)
      exact at_not_mem_display (fun s hs => hdata s (strings_traverse hvalue hs)) h

lemma at_not_mem_escapeValue {t : Text} (h : '@' ∉ t) : '@' ∉ escapeValue t := by
  intro hc
  obtain ⟨c, hmem, hc⟩ := List.mem_flatMap.mp hc
  have hne : c ≠ '@' := fun heq => h (heq ▸ hmem)
  split_ifs at hc
  all_goals first
    | exact absurd hc (by decide)
    | exact hne (List.mem_singleton.mp hc).symm

end FormLetter
