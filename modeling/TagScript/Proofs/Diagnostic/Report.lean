import Mathlib.Data.List.DropRight
import TagScript.Diagnostic.Pending
import TagScript.Proofs.Decimal.Numerals
import TagScript.Proofs.Diagnostic.Runs
import TagScript.Proofs.Text.Encode

/-!
# The Text of an Error and the Report About It

The text of an error is put together and then freed from the line feeds at its end. The report about
an error is written part by part and is not. They differ by one line feed nevertheless: what stands
below the headline is empty, or it ends in one line feed and no more (`detail_endsOnce`), whichever
of its parts there are. So they could differ in nothing but a headline that ends in a line feed
itself and has nothing below it (`report_runtime`).

What a style adds to a text depends on the writer of styled texts. The report is compared with the
text where that writer adds nothing (`Painter.Plain`), as is the case where colours are off
(`Paint.plain_painter`).
-/

namespace TagScript

/-- The list ends in `a`, and not in `a` twice. -/
def EndsOnce {α : Type} (a : α) (l : List α) : Prop :=
  ∃ front b, b ≠ a ∧ l = front ++ [b, a]

namespace EndsOnce

variable {α : Type} {a : α} {l : List α}

/-- What comes before does not matter to the end. -/
theorem append_left (h : EndsOnce a l) (before : List α) : EndsOnce a (before ++ l) := by
  obtain ⟨front, b, hb, rfl⟩ := h
  exact ⟨before ++ front, b, hb, (List.append_assoc ..).symm⟩

/-- Behind something else the element stands once. -/
theorem concat (hne : l ≠ []) (h : l.getLast? ≠ some a) :
    EndsOnce a (l ++ [a]) := by
  obtain ⟨front, b, rfl⟩ := List.eq_nil_or_concat l |>.resolve_left hne
  refine ⟨front, b, ?_, by simp⟩
  rintro rfl
  simp at h

/-- Without the elements at its end the list lacks one. -/
theorem rdropWhile_append [DecidableEq α] (h : EndsOnce a l) :
    l.rdropWhile (· = a) ++ [a] = l := by
  obtain ⟨front, b, hb, rfl⟩ := h
  have hsplit : front ++ [b, a] = (front ++ [b]) ++ [a] := by simp
  rw [hsplit, List.rdropWhile_concat_pos _ _ _ (by simp),
    List.rdropWhile_concat_neg _ _ _ (by simpa using hb)]

end EndsOnce

/-- The bytes of a text end in a line feed as its characters do. -/
theorem EndsOnce.ofChars {cs : List Char} (h : EndsOnce '\n' cs) :
    EndsOnce 0x0A (Bytes.ofChars cs) := by
  obtain ⟨front, c, hc, rfl⟩ := h
  have hsplit : Bytes.ofChars (front ++ [c, '\n']) =
      Bytes.ofChars front ++ (Bytes.ofChars [c] ++ [0x0A]) := by
    simp [Bytes.ofChars, String.utf8EncodeChar]
  have hmem : 0x0A ∉ Bytes.ofChars [c] := by
    rw [Bytes.mem_ofChars_iff (by decide), List.mem_singleton]
    exact fun h => hc h.symm
  have hne : Bytes.ofChars [c] ≠ [] := by
    intro hnil
    have hdecode := Bytes.decode_ofChars [c]
    rw [hnil, Bytes.decode] at hdecode
    cases hdecode
  rw [hsplit]
  exact (EndsOnce.concat hne (mt List.mem_of_getLast? hmem)).append_left _

/-- A number ends in a digit. -/
theorem EndsOnce.toDigits (n : Nat) : EndsOnce '\n' (Nat.toDigits 10 n ++ ['\n']) :=
  .concat Nat.toDigits_ne_nil fun h =>
    absurd (Decimal.isDigit_of_mem_toDigits (List.mem_of_getLast? h)) (by decide)

namespace RuntimeError

variable (e : RuntimeError)

/-- The line that shows the place ends with one line feed. -/
theorem placeText_endsOnce (h : e.position.isPlace = true) : EndsOnce '\n' e.placeText.toList := by
  -- the line ends with the digits of the column
  have hsplit : e.placeText.toList = ("  at ".toList ++
      (if e.file = "" then "" else e.file ++ ":").toList ++ (toString e.position.line).toList ++
        [':'] ++ if e.position.column < 0 then ['-'] else []) ++
          (Nat.toDigits 10 e.position.column.natAbs ++ ['\n']) := by
    rw [placeText, if_pos h, Position.text]
    simp only [String.toList_append, Decimal.toList_toString_int, List.append_assoc]
    rfl
  rw [hsplit]
  exact (EndsOnce.toDigits _).append_left _

/-- The quoted line ends with one line feed, whether the script has one there or not. -/
theorem lineText_endsOnce (h : e.lineText ≠ []) : EndsOnce 0x0A e.lineText := by
  unfold lineText at h ⊢
  split at h
  next hline =>
    rw [if_pos hline]
    refine .append_left (.ofChars ?_) _
    rw [String.toList_append]
    exact .append_left ⟨[], '^', by decide, rfl⟩ _
  next => exact absurd rfl h

/-- Each function of the trace is shown on a line of its own. -/
theorem frameText_endsOnce (frame : String × Nat) : EndsOnce '\n' (frameText frame).toList := by
  obtain ⟨function, n⟩ := frame
  rw [frameText]
  by_cases hn : 1 < n
  · have hsplit : ("  at " ++ function ++ "()" ++ (if 1 < n then " x" ++ toString n else "") ++
        "\n").toList = ("  at ".toList ++ function.toList ++ "()".toList ++ " x".toList) ++
          (Nat.toDigits 10 n ++ ['\n']) := by
      rw [if_pos hn]
      simp only [String.toList_append, Decimal.toList_toString_nat, List.append_assoc]
      rfl
    rw [hsplit]
    exact (EndsOnce.toDigits n).append_left _
  · rw [if_neg hn]
    simp only [String.toList_append]
    refine ⟨"  at ".toList ++ function.toList ++ ['('], ')', by decide, ?_⟩
    simp

/-- Some calls are written in at least one line. -/
theorem collapse_ne_nil {stack : List String} (h : stack ≠ []) : collapse stack ≠ [] := by
  intro hnil
  have hexpand := (passes_collapse stack).2.expand
  rw [hnil] at hexpand
  exact h hexpand.symm

/-- The trace ends with one line feed, that of its last line. -/
theorem stackText_endsOnce (h : e.stack ≠ []) : EndsOnce '\n' e.stackText.toList := by
  obtain ⟨frames, last, hframes⟩ :=
    List.eq_nil_or_concat (collapse e.stack) |>.resolve_left (collapse_ne_nil h)
  have hjoin : String.join ((collapse e.stack).map frameText) =
      String.join (frames.map frameText) ++ frameText last := by
    rw [hframes, List.concat_eq_append, List.map_append]
    exact List.foldl_append ..
  rw [stackText, if_neg h, hjoin, String.toList_append, String.toList_append]
  exact ((frameText_endsOnce last).append_left _).append_left _

/-- What stands below the headline ends in one line feed, if it is anything at all. -/
theorem detail_endsOnce (h : e.detail ≠ []) : EndsOnce 0x0A e.detail := by
  unfold detail at h ⊢
  by_cases hstack : e.stack = []
  · have hempty : Bytes.ofString e.stackText = [] := by
      rw [stackText, if_pos hstack]
      rfl
    rw [hempty, List.append_nil] at h ⊢
    by_cases hline : e.lineText = []
    · rw [hline, List.append_nil] at h ⊢
      refine .ofChars (e.placeText_endsOnce ?_)
      by_contra hplace
      rw [placeText, if_neg hplace] at h
      exact h rfl
    · exact (e.lineText_endsOnce hline).append_left _
  · exact (EndsOnce.ofChars (e.stackText_endsOnce hstack)).append_left _

/-- The text of an error, with the line feed that it was freed from. -/
theorem text_append_lineFeed (h : e.headline.toList.getLast? ≠ some '\n') :
    e.text ++ [0x0A] = Bytes.ofString e.headline ++ [0x0A] ++ e.detail := by
  have hfirst : Bytes.ofString (e.headline ++ "\n") = Bytes.ofString e.headline ++ [0x0A] := by
    simp [Bytes.ofString, Bytes.ofChars, String.utf8EncodeChar]
  have hends : EndsOnce 0x0A (Bytes.ofString (e.headline ++ "\n") ++ e.detail) := by
    by_cases hdetail : e.detail = []
    · rw [hdetail, List.append_nil]
      refine .ofChars ?_
      rw [String.toList_append]
      exact .concat (by simp [headline]) h
    · exact (e.detail_endsOnce hdetail).append_left _
  rw [← hfirst]
  exact hends.rdropWhile_append

end RuntimeError

/-- A writer of styled texts that adds nothing to a text but the line feed of a line. -/
structure Painter.Plain (painter : Painter) : Prop where
  /-- A line is the text and a line feed. -/
  line_eq : ∀ style text, painter.line style text = text ++ [0x0A]
  /-- A text inside a line is written as it is. -/
  inside_eq : ∀ style text, painter.inside style text = text

/-- Where colours are off, no escape sequences are written. -/
theorem Paint.plain_painter {paint : Paint} (h : paint.enabled = false) : paint.painter.Plain where
  line_eq _ _ := by simp [painter, line, h]
  inside_eq _ _ := by simp [painter, inside, h]

/-- Without styles the report about an error is its text and a line feed, unless the headline ends
in a line feed. -/
theorem Failure.report_runtime {painter : Painter} (hplain : painter.Plain) (e : RuntimeError)
    (h : e.headline.toList.getLast? ≠ some '\n') :
    (Failure.runtime e).report painter = e.text ++ [0x0A] := by
  rw [e.text_append_lineFeed h, report]
  simp only [runtime?, hplain.line_eq, hplain.inside_eq]
  by_cases hdetail : e.detail = []
  · simp [hdetail]
  · simp [hdetail]

end TagScript
