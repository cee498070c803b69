import TagScript.Proofs.Parse.Literals
import TagScript.Value.Text

/-!
# Shown Values Read Again

The text that shows a value is an expression, and evaluates to a value again: to `reread v`, if
there is such a value at all (`IsData.exists_words`). There is none if the least integer is written
somewhere, because its magnitude is no integer (`IsData.reread_eq_none_iff`). The value that is read
is the one that was shown if besides no text has a character that is written with an escape unknown
to the scanner (`IsData.reread_iff`).
-/

namespace TagScript.Value

/-- The value is made of `null`, truth values, integers, texts, ranges, and arrays of such values
that have one tag, which the array keeps. -/
inductive IsData : Value → Prop
  | null : IsData .null
  | bool (b : Bool) : IsData (.bool b)
  | int (n : Int64) : IsData (.int n)
  | string (s : String) : IsData (.string s)
  | range (r : Range) : IsData (.range r)
  | array {elem : Tag} {items : List Value} (hitems : ∀ v ∈ items, IsData v)
      (htag : ∀ v ∈ items, v.tag = elem) (hempty : items = [] → elem = .unknown) :
      IsData (.array elem items)

mutual

/-- The values inside a value that are no arrays. -/
def leaves : Value → List Value
  | .array _ items => leavesOf items
  | v => [v]

/-- The values inside some values that are no arrays. -/
def leavesOf : List Value → List Value
  | [] => []
  | v :: rest => leaves v ++ leavesOf rest

end

/-- The value is the least integer, or a range with that integer as one of its numbers. -/
def HasLeast : Value → Prop
  | .int n => n = .minValue
  | .range r => r.start = .minValue ∨ r.stop = .minValue ∨ r.step = .minValue
  | _ => False

/-- The value is a text with a character that is written with an escape unknown to the scanner. -/
def HasUnreadable : Value → Prop
  | .string s => ∃ c ∈ s.toList, ¬ Text.IsReadable c
  | _ => False

instance : DecidablePred HasLeast
  | .int _ => inferInstanceAs (Decidable (_ = _))
  | .range _ => inferInstanceAs (Decidable (_ ∨ _))
  | .null | .float _ | .string _ | .bool _ | .builtin _ | .function _ | .array .. | .type _ =>
    inferInstanceAs (Decidable False)

instance : DecidablePred HasUnreadable
  | .string s => List.decidableBEx (fun c => ¬ Text.IsReadable c) s.toList
  | .null | .int _ | .float _ | .bool _ | .builtin _ | .function _ | .range _ | .array ..
  | .type _ =>
    inferInstanceAs (Decidable False)

mutual

/-- The value that is read where a value is shown, if any. -/
def reread : Value → Option Value
  | .int n => Parse.readInteger n
  | .string s => some (.string (String.ofList (s.toList.flatMap Text.readBack)))
  | .range r => Parse.readRange r
  | .array elem items => (rereadAll items).map (.array elem)
  | v => some v

/-- The values that are read where some values are shown, if there is one for each. -/
def rereadAll : List Value → Option (List Value)
  | [] => some []
  | v :: rest => do
    let w ← reread v
    let ws ← rereadAll rest
    return w :: ws

end

section Lists

variable {vs ws : List Value}

/-- Items are read again one by one. -/
theorem rereadAll_eq_mapM (vs : List Value) : rereadAll vs = (vs.map reread).mapM id := by
  induction vs with
  | nil => rfl
  | cons v vs ih => rw [rereadAll, ih, List.map_cons, List.mapM_cons]; rfl

/-- Some values are read where each of them is. -/
theorem rereadAll_eq_some :
    rereadAll vs = some ws ↔ List.Forall₂ (fun v w => v.reread = some w) vs ws := by
  induction vs generalizing ws with
  | nil => simp [rereadAll, eq_comm]
  | cons v vs ih =>
    rw [rereadAll, List.forall₂_cons_left_iff]
    simp only [Option.bind_eq_bind, Option.pure_def, Option.bind_eq_some_iff, ih, Option.some.injEq,
      eq_comm (a := ws)]
    exact ⟨fun ⟨w, hw, ws, hws, h⟩ => ⟨w, ws, hw, hws, h⟩,
      fun ⟨w, ws, hw, hws, h⟩ => ⟨w, hw, ws, hws, h⟩⟩

/-- An item that was read again comes from an item. -/
theorem exists_of_mem_rereadAll {w : Value} (h : rereadAll vs = some ws) (hw : w ∈ ws) :
    ∃ v ∈ vs, v.reread = some w := by
  rw [rereadAll_eq_some] at h
  induction h with
  | nil => cases hw
  | cons hfirst _ ih =>
    rw [List.exists_mem_cons_iff]
    rcases List.mem_cons.mp hw with rfl | hmore
    · exact .inl hfirst
    · exact .inr (ih hmore)

/-- The items cannot be read again exactly if one of them cannot. -/
theorem rereadAll_eq_none : rereadAll vs = none ↔ ∃ v ∈ vs, v.reread = none := by
  induction vs with
  | nil => simp [rereadAll]
  | cons v vs ih =>
    rw [rereadAll, List.exists_mem_cons_iff, ← ih]
    cases reread v <;> cases rereadAll vs <;> simp

/-- Lists of items are equal if they are as long and their items are equal one by one. -/
theorem equalItems_eq_true :
    equalItems vs ws = true ↔ List.Forall₂ (fun v w => v.equal w = true) vs ws := by
  induction vs generalizing ws with
  | nil => cases ws <;> simp [equalItems]
  | cons v vs ih => cases ws <;> simp [equalItems, ih]

theorem mem_leavesOf {leaf : Value} : leaf ∈ leavesOf vs ↔ ∃ v ∈ vs, leaf ∈ v.leaves := by
  induction vs with
  | nil => simp [leavesOf]
  | cons v vs ih => simp [leavesOf, ih]

/-- In an array a text is shown as anywhere else. -/
theorem texts_eq_map (vs : List Value) : texts vs = vs.map shown := by
  induction vs with
  | nil => rfl
  | cons v vs ih => cases v <;> simp [texts, shown, ih]

/-- The characters that show an array. -/
theorem toList_shown_array (elem : Tag) (vs : List Value) :
    (shown (.array elem vs)).toList =
      '[' :: ", ".toList.intercalate (vs.map fun v => v.shown.toList) ++ [']'] := by
  rw [shown, text, texts_eq_map]
  · simp [String.toList_intercalate, Function.comp_def]
  · simp

/-- The characters that show a range. -/
theorem toList_shown_range (r : Range) :
    (shown (.range r)).toList = "range(".toList ++ ", ".toList.intercalate
      [(toString r.start.toInt).toList, (toString r.stop.toInt).toList,
        (toString r.step.toInt).toList] ++ [')'] := by
  simp [shown, text, Range.text, List.intercalate]

end Lists

section Contents

/-- What is read has the tag of what was shown. -/
theorem tag_reread {v w : Value} (h : v.reread = some w) : w.tag = v.tag := by
  cases v with
  | int n =>
    rw [reread, Parse.readInteger] at h
    split at h <;> cases h
    rfl
  | range r =>
    rw [reread, Parse.readRange] at h
    split at h <;> cases h
    rfl
  | array elem items =>
    rw [reread, Option.map_eq_some_iff] at h
    obtain ⟨ws, -, rfl⟩ := h
    rfl
  | _ =>
    cases h
    rfl

/-- Nothing is read if the least integer is written somewhere. -/
theorem IsData.reread_eq_none_iff {v : Value} (hv : v.IsData) :
    v.reread = none ↔ ∃ leaf ∈ v.leaves, leaf.HasLeast := by
  induction hv with
  | array _ _ _ ih =>
    simp only [reread, leaves, Option.map_eq_none_iff, rereadAll_eq_none, mem_leavesOf]
    constructor
    · rintro ⟨v, hmem, hnone⟩
      obtain ⟨leaf, hleaf, hleast⟩ := (ih v hmem).mp hnone
      exact ⟨leaf, ⟨v, hmem, hleaf⟩, hleast⟩
    · rintro ⟨leaf, ⟨v, hmem, hleaf⟩, hleast⟩
      exact ⟨v, hmem, (ih v hmem).mpr ⟨leaf, hleaf, hleast⟩⟩
  | int n => simp [reread, leaves, HasLeast, Parse.readInteger]
  | range r => simp [reread, leaves, HasLeast, Parse.readRange, -not_or]
  | _ => simp [reread, leaves, HasLeast]

/-- What is read is what was shown if all its texts are written with known escapes. -/
theorem IsData.equal_reread_iff {v w : Value} (hv : v.IsData) (hw : v.reread = some w) :
    v.equal w = true ↔ ∀ leaf ∈ v.leaves, ¬ leaf.HasUnreadable := by
  induction hv generalizing w with
  | string s =>
    cases hw
    have hself : s = String.ofList (s.toList.flatMap Text.readBack) ↔
        s.toList.flatMap Text.readBack = s.toList := by
      rw [← String.toList_inj, String.toList_ofList, eq_comm]
    simp [equal, leaves, HasUnreadable, hself, Text.flatMap_readBack_eq_iff]
  | @array elem items hitems htag hempty ih =>
    rw [reread, Option.map_eq_some_iff] at hw
    obtain ⟨ws, hws, rfl⟩ := hw
    rw [rereadAll_eq_some] at hws
    -- item by item, as far as the values were read
    have hall : List.Forall₂ (fun v w => v.equal w = true) items ws ↔
        ∀ v ∈ items, ∀ leaf ∈ v.leaves, ¬ leaf.HasUnreadable := by
      clear hitems htag hempty
      induction hws with
      | nil => simp
      | cons hw _ hmore =>
        rw [List.forall₂_cons, List.forall_mem_cons, ih _ List.mem_cons_self hw,
          hmore fun v hmem => ih v (List.mem_cons_of_mem _ hmem)]
    rw [equal, equalItems_eq_true, hall, leaves]
    simp only [mem_leavesOf]
    exact ⟨fun h leaf ⟨v, hmem, hleaf⟩ => h v hmem leaf hleaf,
      fun h v hmem leaf hleaf => h leaf ⟨v, hmem, hleaf⟩⟩
  | int n =>
    rw [reread, Parse.readInteger] at hw
    split at hw <;> cases hw
    simp [equal, leaves, HasUnreadable]
  | range r =>
    rw [reread, Parse.readRange] at hw
    split at hw <;> cases hw
    simp [equal, leaves, HasUnreadable]
  | _ =>
    cases hw
    simp [equal, leaves, HasUnreadable]

/-- The value that was shown is read, exactly if the least integer is written nowhere and all texts
are written with known escapes. -/
theorem IsData.reread_iff {v : Value} (hv : v.IsData) :
    (∃ w, v.reread = some w ∧ v.equal w = true) ↔
      ∀ leaf ∈ v.leaves, ¬ leaf.HasLeast ∧ ¬ leaf.HasUnreadable := by
  cases hreread : v.reread with
  | none =>
    obtain ⟨leaf, hleaf, hleast⟩ := hv.reread_eq_none_iff.mp hreread
    exact iff_of_false nofun fun h => (h leaf hleaf).1 hleast
  | some w =>
    have hleast : ∀ leaf ∈ v.leaves, ¬ leaf.HasLeast := by
      intro leaf hleaf hleast
      rw [hv.reread_eq_none_iff.mpr ⟨leaf, hleaf, hleast⟩] at hreread
      cases hreread
    have hequal := hv.equal_reread_iff hreread
    constructor
    · rintro ⟨_, ⟨⟩, hsame⟩ leaf hleaf
      exact ⟨hleast leaf hleaf, hequal.mp hsame leaf hleaf⟩
    · exact fun h => ⟨w, rfl, hequal.mpr fun leaf hleaf => (h leaf hleaf).2⟩

end Contents

section Words

open Token (Scans)

/-- The words of the values in a list, each in turn. -/
theorem exists_wordsOf {vs : List Value}
    (h : ∀ v ∈ vs, ∃ ws, Scans v.shown.toList ws ∧ Parse.Reads ws v.reread) :
    ∃ wss, List.Forall₂ Scans (vs.map fun v => v.shown.toList) wss ∧
      List.Forall₂ Parse.Reads wss (vs.map reread) := by
  induction vs with
  | nil => exact ⟨[], .nil, .nil⟩
  | cons v vs ih =>
    rw [List.forall_mem_cons] at h
    obtain ⟨⟨ws, hscans, hreads⟩, hvs⟩ := h
    obtain ⟨wss, hscansAll, hreadsAll⟩ := ih hvs
    exact ⟨ws :: wss, .cons hscans hscansAll, .cons hreads hreadsAll⟩

/-- A value is shown as words that are read again. -/
theorem IsData.exists_words {v : Value} (hv : v.IsData) :
    ∃ ws, Scans v.shown.toList ws ∧ Parse.Reads ws v.reread := by
  induction hv with
  | null => exact ⟨_, .letters (c := 'n') (by decide) (by decide), Parse.reads_null⟩
  | bool b =>
    cases b with
    | true => exact ⟨_, .letters (c := 't') (by decide) (by decide), Parse.reads_true⟩
    | false => exact ⟨_, .letters (c := 'f') (by decide) (by decide), Parse.reads_false⟩
  | int n => exact ⟨_, .integer n.toInt, Parse.reads_integer n⟩
  | string s => exact ⟨_, .quoted s, Parse.reads_string _⟩
  | range r =>
    have hnumbers := Scans.separated (.cons (.integer r.start.toInt) (.cons (.integer r.stop.toInt)
      (.cons (.integer r.step.toInt) .nil)))
    rw [toList_shown_range]
    exact ⟨_, hnumbers.ranged, Parse.reads_range r⟩
  | @array elem items _ htag hempty ih =>
    obtain ⟨wss, hscans, hreads⟩ := exists_wordsOf ih
    -- what is read for the items has one tag, too
    have htags : ∀ ws, (items.map reread).mapM id = some ws →
        (∀ w ∈ ws, w.tag = elem) ∧ (ws = [] → elem = .unknown) := by
      intro ws hws
      rw [← rereadAll_eq_mapM] at hws
      constructor
      · intro w hw
        obtain ⟨v, hv, hreread⟩ := exists_of_mem_rereadAll hws hw
        rw [tag_reread hreread, htag v hv]
      · rintro rfl
        exact hempty (List.forall₂_nil_right_iff.mp (rereadAll_eq_some.mp hws))
    rw [toList_shown_array, reread, rereadAll_eq_mapM]
    exact ⟨_, (Scans.separated hscans).bracketed, Parse.reads_array hreads htags⟩

end Words

section Nul

theorem not_mem_intercalate {c : Char} {sep : List Char} {css : List (List Char)} (hsep : c ∉ sep)
    (h : ∀ cs ∈ css, c ∉ cs) : c ∉ sep.intercalate css := by
  induction css with
  | nil => exact List.not_mem_nil
  | cons cs css ih =>
    rw [List.forall_mem_cons] at h
    cases css with
    | nil => simpa using h.1
    | cons next css =>
      rw [List.intercalate_cons_cons, List.mem_append, List.mem_append, not_or, not_or]
      exact ⟨⟨h.1, hsep⟩, ih h.2⟩

/-- No NUL is written in a whole number. -/
theorem nul_not_mem_toString (i : Int) : Char.ofNat 0 ∉ (toString i).toList := by
  rw [Decimal.toList_toString_int, List.mem_append, not_or]
  refine ⟨by split <;> decide, fun h => ?_⟩
  exact absurd (Decimal.isDigit_of_mem_toDigits h) (by decide)

/-- No NUL stands where a value is shown, so that the scanner sees all of the text. -/
theorem IsData.nul_not_mem_shown {v : Value} (hv : v.IsData) : Char.ofNat 0 ∉ v.shown.toList := by
  induction hv with
  | null => decide
  | bool b => cases b <;> decide
  | int n => exact nul_not_mem_toString n.toInt
  | string s => simp [shown, Text.quote, Text.nul_not_mem_escape]
  | range r =>
    rw [toList_shown_range, List.mem_append, List.mem_append, not_or, not_or]
    refine ⟨⟨by decide, not_mem_intercalate (by decide) ?_⟩, by decide⟩
    simp only [List.forall_mem_cons]
    exact ⟨nul_not_mem_toString _, nul_not_mem_toString _, nul_not_mem_toString _, nofun⟩
  | array _ _ _ ih =>
    rw [toList_shown_array, List.cons_append, List.mem_cons, List.mem_append, not_or, not_or]
    exact ⟨by decide, not_mem_intercalate (by decide) (List.forall_mem_map.mpr ih), by decide⟩

end Nul

end TagScript.Value
