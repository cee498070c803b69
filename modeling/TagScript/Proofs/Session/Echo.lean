import TagScript.Proofs.Grammar.Complete.Stmt
import TagScript.Proofs.Session.Moments
import TagScript.Proofs.Text.Encode
import TagScript.Proofs.Value.Reread

/-!
# Shown Values as Scripts

The text that shows a value and a semicolon behind it are a script. What the parser makes of it is
one expression that evaluates to the value, or an error if the value cannot be read
(`Parse.givesProgram_shown`). A new session evaluates that program to the value that was shown, with
the exceptions that come from reading integers and escapes.
-/

namespace TagScript

namespace Parse

open Eval (Yields)

/-- What comes of a script: an error, or a program of one expression that evaluates to a value. -/
def GivesProgram (x : Except ParseError Program) : Option Value → Prop
  | none => ∃ e, x = .error e
  | some v => ∃ p e, x = .ok [.expr p e] ∧ Yields e v

/-- Words that are read as a value are a program in front of a semicolon. -/
theorem givesProgram {ws : List Token.Word} {v? : Option Value} (h : Reads ws v?)
    {ts : List Token} {stop : Token} (hts : ts.map Token.word = ws)
    (hstop : stop.kind = .semicolon) :
    GivesProgram (program (ts ++ [stop])) v? := by
  have hstops : Grammar.Stops 6 [stop] := by simp [Grammar.Stops, hstop, Grammar.reach]
  have hgives := h.gives ts [stop] hts hstops
  obtain ⟨w, more, rfl, hstarts⟩ := h.starts
  obtain ⟨t, ts, rfl, ht, -⟩ := List.map_eq_cons_iff.mp hts
  rw [← congrArg Prod.fst ht] at hstarts
  rw [List.cons_append] at hgives ⊢
  rw [program_eq]
  simp only [Grammar.stmt_of_expression hstarts, plain_expression]
  cases v? with
  | none =>
    obtain ⟨e, he⟩ := hgives
    exact ⟨e, by rw [he]; rfl⟩
  | some v =>
    obtain ⟨e, he, hyields⟩ := hgives
    refine ⟨t.position, e, ?_, hyields⟩
    simp only [he, ok_bind, expect_of_kind hstop]
    -- nothing is left behind the semicolon
    rw [program_eq]
    rfl

/-- The script that shows a value is read as the value is. -/
theorem givesProgram_shown {v : Value} (hv : v.IsData) :
    GivesProgram (source (Bytes.ofString (v.shown ++ ";"))) v.reread := by
  obtain ⟨ws, hscans, hreads⟩ := hv.exists_words
  have hclosing : Token.Closing [';'] := .cons (by decide) []
  have hnul : Char.ofNat 0 ∉ v.shown.toList ++ [';'] := by
    rw [List.mem_append, not_or]
    exact ⟨hv.nul_not_mem_shown, by decide⟩
  have hsign : Token.words [';'] = (.semicolon, ";") :: Token.words [] :=
    Token.words_single (by decide) []
  have htokens := Token.map_word_tokenize hnul
  rw [hscans _ hclosing, hsign, Token.words_nil] at htokens
  obtain ⟨ts, last, heq, hts, hlast⟩ := List.map_eq_append_iff.mp htokens
  obtain ⟨stop, rfl, hstop⟩ := List.map_eq_singleton_iff.mp hlast
  have htext : (v.shown ++ ";").toList = v.shown.toList ++ [';'] := by simp
  rw [source, Bytes.decode_ofString, htext, heq]
  exact givesProgram hreads hts (congrArg Prod.fst hstop)

end Parse

namespace Eval

/-- A new store binds `range` to the function of that name. -/
theorem findsRange_seeded : FindsRange Store.empty.seed.2 Store.empty.seed.1 := by
  rw [FindsRange, Store.resolve?, Store.lookup?]
  rfl

/-- A program of one expression ends with the value of the expression. -/
theorem program_expr {e : Expr} {v : Value} (h : Yields e v) (ctx : Context) (position : Position)
    (m : Machine) (hm : FindsRange m.store ctx.global) :
    ∃ n, program ctx none [.expr position e] m = .ok (some v) n := by
  obtain ⟨events, hnote⟩ := note_eq ctx
    (fun _ => .statement (Stmt.expr position e).kindName (Stmt.expr position e).position.line) m
  obtain ⟨events', hresult⟩ :=
    h.result ctx (invoke ctx) ctx.global { m with events } hm
  have hstmt : stmt ctx (invoke ctx) ctx.global (.expr position e) { m with events } =
      .ok (.value v) { m with events := events' } := by
    rw [stmt]
    refine bind_eq_ok.mpr ⟨v, _, hresult, ?_⟩
    rw [h.isAssign]
    rfl
  rw [program]
  exact ⟨_, bind_eq_ok.mpr ⟨(), _, hnote, bind_eq_ok.mpr ⟨_, _, hstmt, rfl⟩⟩⟩

end Eval

namespace Session

/-- A new session evaluates a program of one expression to the value of the expression. -/
theorem evaluate_expr {e : Expr} {v : Value} (h : Eval.Yields e v) (position : Position)
    (settings : Settings) (file : String) (source : Bytes) :
    (((new settings).setSource file source).evaluate [.expr position e]).1 = .value (some v) := by
  obtain ⟨n, hn⟩ := Eval.program_expr h ((new settings).setSource file source).context position
    ((new settings).setSource file source).machine Eval.findsRange_seeded
  rw [evaluate_outcome, run_eq, hn]
  rfl

/-- What is shown is read again. Let a value be made of `null`, truth values, integers, texts,
ranges and arrays of one tag. The text that shows it, with a semicolon behind it, is a script that a
new session evaluates to an equal value exactly if inside the value there is no least integer, be it
by itself or in a range, and no character of a text that is quoted with an escape unknown to the
scanner. If there is a least integer, the parser rejects the script. -/
theorem shown_reads_back {v : Value} (hv : v.IsData) (settings : Settings) (file : String) :
    let source := Bytes.ofString (v.shown ++ ";")
    ((∃ p w, Parse.source source = .ok p ∧
        (((new settings).setSource file source).evaluate p).1 = .value (some w) ∧
          v.equal w = true) ↔
      ∀ leaf ∈ v.leaves, ¬ leaf.HasLeast ∧ ¬ leaf.HasUnreadable) ∧
    ((∃ leaf ∈ v.leaves, leaf.HasLeast) → ∃ e, Parse.source source = .error e) := by
  intro source
  have hsource := Parse.givesProgram_shown hv
  rw [← hv.reread_iff, ← hv.reread_eq_none_iff]
  cases hreread : v.reread with
  | none =>
    rw [hreread] at hsource
    obtain ⟨e, he⟩ := hsource
    refine ⟨iff_of_false ?_ ?_, fun _ => ⟨e, he⟩⟩
    · rintro ⟨p, w, hp, -⟩
      rw [he] at hp
      cases hp
    · rintro ⟨w, hw, -⟩
      cases hw
  | some w =>
    -- the parser and the session have one answer, so no other value comes back
    rw [hreread] at hsource
    obtain ⟨position, e, hp, hyields⟩ := hsource
    have houtcome := evaluate_expr hyields position settings file source
    refine ⟨⟨?_, ?_⟩, nofun⟩
    · rintro ⟨p, w', hp', hw', hequal⟩
      obtain rfl := Except.ok.inj (hp.symm.trans hp')
      rw [houtcome] at hw'
      cases hw'
      exact ⟨w, rfl, hequal⟩
    · rintro ⟨_, ⟨⟩, hequal⟩
      exact ⟨_, w, hp, houtcome, hequal⟩

/-- An array of arrays is read again. A bell is not, being quoted with an escape that the scanner
does not know, and a range that starts at the least integer is rejected. -/
theorem shown_reads_back_nested :
    let settings : Settings := ⟨Settings.defaultLimit, .plain, 0, false, false⟩
    let nested : Value := .array .array [.array .string [.string "\"é\"\t", .string ""],
      .array .int [.int (-7)], .array .range [.range ⟨-3, 9, 2⟩], .array .unknown []]
    let bell : Value := .array .string [.string "\x07"]
    let least : Value := .array .range [.range ⟨.minValue, 0, 1⟩]
    let readsBack (v : Value) : Prop := ∃ p w,
      Parse.source (Bytes.ofString (v.shown ++ ";")) = .ok p ∧
      (((new settings).setSource "a" (Bytes.ofString (v.shown ++ ";"))).evaluate p).1 =
        .value (some w) ∧ v.equal w = true
    nested.shown = "[[\"\\\"é\\\"\\t\", \"\"], [-7], [range(-3, 9, 2)], []]" ∧ readsBack nested ∧
      ¬ readsBack bell ∧ ∃ e, Parse.source (Bytes.ofString (least.shown ++ ";")) = .error e := by
  intro settings nested bell least readsBack
  have hnested : nested.IsData := by
    refine .array ?_ (by decide) (by simp)
    simp only [List.forall_mem_cons]
    exact ⟨.array (by simp [Value.IsData.string]) (by decide) (by simp),
      .array (by simp [Value.IsData.int]) (by decide) (by simp),
      .array (by simp [Value.IsData.range]) (by decide) (by simp),
      .array (by simp) (by simp) fun _ => rfl, by simp⟩
  have hbell : bell.IsData := .array (by simp [Value.IsData.string]) (by decide) (by simp)
  have hleast : least.IsData := .array (by simp [Value.IsData.range]) (by decide) (by simp)
  refine ⟨by decide +kernel, ?_, ?_, ?_⟩
  · exact (shown_reads_back hnested settings "a").1.mpr (by decide +kernel)
  · exact fun h => absurd ((shown_reads_back hbell settings "a").1.mp h) (by decide +kernel)
  · exact (shown_reads_back hleast settings "a").2 (by decide +kernel)

end Session

end TagScript
