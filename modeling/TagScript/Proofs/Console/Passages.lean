import Mathlib.Data.List.Basic
import Mathlib.Data.List.Induction
import TagScript.Shell.Console

/-!
# What Becomes of Every Input

The inputs of the console fall into passages, one after the other: a command, typed lines up to the
one that closes the last brace, or a paste from the command that starts it to the line that ends it.
An interruption ends a passage too. What stands behind the last passage is still being collected.

Nothing else is known to the console: what it has collected and what comes of its inputs follow from
the passages (`exists_accounts`). The loop of the console does what comes of its inputs
(`run_append`), and that is to run the chunk of every passage in the session, once
(`serve_replies`). So every line is part of one passage, a passage is run at most once and as a
whole, and the ones that are run are numbered without a gap (`inputs_accounted`).
-/

namespace TagScript.Console

namespace Reader

/-- What the console has collected after some inputs. -/
def after (r : Reader) (inputs : List Input) : Reader :=
  inputs.foldl (fun r input => (r.step input).1) r

/-- What comes of some inputs, one after the other. -/
def requests (r : Reader) : List Input → List Request
  | [] => []
  | input :: rest => (r.step input).2 :: (r.step input).1.requests rest

/-- Inputs are collected in the order in which they come. -/
theorem after_append (r : Reader) (xs ys : List Input) :
    r.after (xs ++ ys) = (r.after xs).after ys :=
  List.foldl_append ..

/-- What comes of later inputs depends on earlier ones only through what they leave collected. -/
theorem requests_append (r : Reader) (xs ys : List Input) :
    r.requests (xs ++ ys) = r.requests xs ++ (r.after xs).requests ys := by
  induction xs generalizing r with
  | nil => rfl
  | cons input xs ih => rw [List.cons_append, requests, requests, ih, List.cons_append]; rfl

end Reader

section Lines

/-- The line is a command wherever commands are taken. -/
def IsCommand (line : Bytes) : Prop :=
  (Reader.trimmed line).head? = some ':'

/-- The line is the command that starts a paste. -/
def StartsPaste (line : Bytes) : Prop :=
  IsCommand line ∧ Command.ofChars (Reader.trimmed line) = .paste

/-- The line ends a paste, to have it evaluated. -/
def EndsPaste (line : Bytes) : Prop :=
  Reader.trimmed line = ".".toList ∨ Reader.trimmed line = ":endpaste".toList

/-- The line ends a paste, to have it forgotten. -/
def CancelsPaste (line : Bytes) : Prop :=
  Reader.trimmed line = ":cancel".toList

/-- Some lines as one text, each with its line feed. -/
def textOf (lines : List Bytes) : Bytes :=
  lines.flatMap Reader.ended

/-- The number of open braces after some lines. -/
def depthOf (lines : List Bytes) : Int64 :=
  lines.foldl Braces.depthAfter 0

/-- One more line, with its line feed. -/
theorem textOf_append_singleton (lines : List Bytes) (line : Bytes) :
    textOf (lines ++ [line]) = textOf lines ++ Reader.ended line := by
  simp [textOf]

/-- Every line adds at least its line feed. -/
theorem textOf_eq_nil_iff {lines : List Bytes} : textOf lines = [] ↔ lines = [] := by
  cases lines with
  | nil => simp [textOf]
  | cons line lines => simp [textOf, Reader.ended]

/-- One more line is counted from the depth before it. -/
theorem depthOf_append_singleton (lines : List Bytes) (line : Bytes) :
    depthOf (lines ++ [line]) = Braces.depthAfter (depthOf lines) line :=
  List.foldl_append ..

/-- A depth never falls below zero. -/
theorem depthAfter_eq_zero {depth : Int64} {line : Bytes}
    (h : ¬ 0 < Braces.depthAfter depth line) : Braces.depthAfter depth line = 0 := by
  change ¬ 0 < (if _ ≤ _ then _ else _) at h
  change (if _ ≤ _ then _ else _) = _
  by_cases hle : depth + Int64.ofInt (Braces.balance line) ≤ 0
  · exact if_pos hle
  · -- a number that is neither positive nor below zero
    rw [if_neg hle, Int64.lt_iff_toInt_lt] at h
    rw [Int64.le_iff_toInt_le] at hle
    omega

end Lines

/-- Typed lines that do not make a chunk yet: the first one is no command, and braces are open after
each of them. -/
structure Block where
  /-- The lines. -/
  lines : List Bytes
  /-- A command is no line of a block. -/
  first : ∀ line, lines.head? = some line → ¬ IsCommand line
  /-- Braces are open. -/
  opened : ∀ n < lines.length, 0 < depthOf (lines.take (n + 1))

/-- A paste that has been started. -/
structure Paste where
  /-- The command that starts it. -/
  opening : Bytes
  /-- The pasted lines. -/
  lines : List Bytes
  /-- The command is the one that does so. -/
  starts : StartsPaste opening
  /-- No line that ends the paste is among its lines. -/
  collects : ∀ line ∈ lines, ¬ EndsPaste line ∧ ¬ CancelsPaste line

/-- What is being collected. -/
inductive Collecting where
  /-- Typed lines; none at all where the console is idle. -/
  | block (b : Block)
  /-- Pasted lines. -/
  | paste (p : Paste)

/-- Some inputs that belong together. -/
inductive Passage where
  /-- A command that does not start a paste. -/
  | command (line : Bytes) (h : IsCommand line) (hpaste : ¬ StartsPaste line)
  /-- Typed lines with one that closes the last brace. -/
  | typed (b : Block) (last : Bytes) (h : b.lines = [] → ¬ IsCommand last)
      (hclosed : depthOf (b.lines ++ [last]) = 0)
  /-- A paste with the line that ends it. -/
  | pasted (p : Paste) (last : Bytes) (h : EndsPaste last)
  /-- A paste with the line that cancels it. -/
  | cancelled (p : Paste) (last : Bytes) (h : CancelsPaste last)
  /-- What was being collected when the user interrupted, be it nothing. -/
  | interrupted (c : Collecting)

/-- A block without lines. -/
def Block.none : Block := ⟨[], nofun, nofun⟩

namespace Collecting

/-- Nothing is being collected. -/
def nothing : Collecting := .block .none

/-- The collected lines. -/
def lines : Collecting → List Bytes
  | .block b => b.lines
  | .paste p => p.lines

/-- The inputs that led here. -/
def inputs : Collecting → List Input
  | .block b => b.lines.map .line
  | .paste p => .line p.opening :: p.lines.map .line

/-- What came of these inputs. -/
def replies : Collecting → List Request
  | .block b => b.lines.map fun _ => .nothing
  | .paste p => .remark .pasting :: p.lines.map fun _ => .nothing

/-- What the console has collected, after a number of chunks. -/
def reader (chunks : Nat) : Collecting → Reader
  | .block b => ⟨textOf b.lines, depthOf b.lines, false, [], chunks⟩
  | .paste p => ⟨[], 0, true, textOf p.lines, chunks⟩

end Collecting

namespace Passage

/-- What had been collected before the last input of a passage. -/
def before : Passage → Collecting
  | .command .. => .nothing
  | .typed b .. => .block b
  | .pasted p .. | .cancelled p .. => .paste p
  | .interrupted c => c

/-- The last input of a passage. -/
def last : Passage → Input
  | .command line .. => .line line
  | .typed _ line .. | .pasted _ line .. | .cancelled _ line .. => .line line
  | .interrupted _ => .interrupt

/-- The inputs of a passage. -/
def inputs (p : Passage) : List Input :=
  p.before.inputs ++ [p.last]

/-- The collected lines of a passage. The commands and the lines that end a paste are not among
them. -/
def lines : Passage → List Bytes
  | .command .. => []
  | .typed b line .. => b.lines ++ [line]
  | .pasted p .. | .cancelled p .. => p.lines
  | .interrupted c => c.lines

/-- The text of a passage that is to be evaluated, unless it is blank. -/
def chunk? : Passage → Option Bytes
  | .typed b line .. =>
    if Reader.trimmed (textOf (b.lines ++ [line])) = [] then none
    else some (textOf (b.lines ++ [line]))
  | .pasted p .. => if Reader.trimmed (textOf p.lines) = [] then none else some (textOf p.lines)
  | _ => none

/-- What comes of a text that is to be evaluated after a number of chunks, where `otherwise` comes
of a blank one. -/
def handOver (chunks : Nat) (otherwise : Request) (chunk? : Option Bytes) : Request :=
  chunk?.elim otherwise (.evaluate (chunks + 1))

/-- What comes of the last input of a passage, after a number of chunks. -/
def reply (chunks : Nat) : Passage → Request
  | .command line .. => .command (Command.ofChars (Reader.trimmed line))
  | p@(.typed ..) => handOver chunks .nothing p.chunk?
  | p@(.pasted ..) => handOver chunks (.remark .nothingPasted) p.chunk?
  | .cancelled .. => .remark .pasteCancelled
  | .interrupted (.block b) => if b.lines = [] then .nothing else .remark .blockInterrupted
  | .interrupted (.paste _) => .remark .pasteInterrupted

/-- What comes of some passages, after a number of chunks. -/
def replies (chunks : Nat) : List Passage → List Request
  | [] => []
  | p :: rest =>
    p.before.replies ++ p.reply chunks :: replies (chunks + p.chunk?.toList.length) rest

end Passage

/-- The inputs are these passages, and what is still being collected. -/
structure Accounts (inputs : List Input) (passages : List Passage) (left : Collecting) : Prop where
  /-- Every input is part of one passage or is still being collected. -/
  inputs_eq : passages.flatMap Passage.inputs ++ left.inputs = inputs
  /-- What comes of the inputs is what comes of the passages. -/
  requests_eq : Reader.empty.requests inputs = Passage.replies 0 passages ++ left.replies
  /-- The console holds what is being collected and nothing else. -/
  after_eq : Reader.empty.after inputs = left.reader (passages.filterMap Passage.chunk?).length

section Steps

variable {line : Bytes}

/-- After the last line of a block braces are open. -/
theorem Block.depthOf_pos (b : Block) (h : b.lines ≠ []) : 0 < depthOf b.lines := by
  have hpos := List.length_pos_iff.mpr h
  have hopen := b.opened (b.lines.length - 1) (by omega)
  rwa [Nat.sub_add_cancel hpos, List.take_length] at hopen

/-- No brace is open exactly where no line has been collected. -/
theorem Block.lines_eq_nil_iff (b : Block) : b.lines = [] ↔ depthOf b.lines = 0 := by
  constructor
  · intro h
    rw [h]
    rfl
  · intro h
    by_contra hne
    have hopen := b.depthOf_pos hne
    rw [h] at hopen
    exact absurd hopen (by decide)

/-- A block with one more line, after which braces are open. -/
def Block.extend (b : Block) (line : Bytes) (h : b.lines = [] → ¬ IsCommand line)
    (hopen : 0 < depthOf (b.lines ++ [line])) : Block where
  lines := b.lines ++ [line]
  first := by
    intro l hl
    by_cases hb : b.lines = []
    · rw [hb] at hl
      obtain rfl : line = l := Option.some.inj hl
      exact h hb
    · rw [List.head?_append_of_ne_nil b.lines hb] at hl
      exact b.first l hl
  opened := by
    intro n hn
    rw [List.length_append, List.length_singleton] at hn
    by_cases hlast : n < b.lines.length
    · rw [List.take_append_of_le_length hlast]
      exact b.opened n hlast
    · rw [List.take_of_length_le (by simp; omega)]
      exact hopen

/-- A paste with one more line. -/
def Paste.extend (p : Paste) (line : Bytes) (h : ¬ EndsPaste line ∧ ¬ CancelsPaste line) :
    Paste where
  opening := p.opening
  lines := p.lines ++ [line]
  starts := p.starts
  collects := by
    intro l hl
    rcases List.mem_append.mp hl with hold | hnew
    · exact p.collects l hold
    · rw [List.mem_singleton.mp hnew]
      exact h

/-- The input is collected as well. -/
def Collecting.Goes (c : Collecting) (input : Input) (c' : Collecting) : Prop :=
  c'.inputs = c.inputs ++ [input] ∧ ∃ reply, c'.replies = c.replies ++ [reply] ∧
    ∀ chunks, (c.reader chunks).step input = (c'.reader chunks, reply)

/-- The input ends a passage, and nothing is being collected behind it. -/
def Collecting.Ends (c : Collecting) (input : Input) (p : Passage) : Prop :=
  p.before = c ∧ p.last = input ∧ ∀ chunks, (c.reader chunks).step input =
    (Collecting.nothing.reader (chunks + p.chunk?.toList.length), p.reply chunks)

/-- Where the console is idle, a command starts a paste or is a passage by itself. -/
theorem step_command (h : IsCommand line) :
    (∃ c, Collecting.nothing.Goes (.line line) c) ∨
      ∃ p, Collecting.nothing.Ends (.line line) p := by
  have hstep (chunks : Nat) : (Collecting.nothing.reader chunks).step (.line line) =
      (Collecting.nothing.reader chunks).command (Command.ofChars (Reader.trimmed line)) := by
    unfold IsCommand at h
    simp [Reader.step, Collecting.reader, Collecting.nothing, Block.none, Reader.idle, textOf,
      depthOf, h]
  by_cases hpaste : StartsPaste line
  · refine .inl ⟨.paste ⟨line, [], hpaste, nofun⟩, rfl, .remark .pasting, rfl, fun chunks => ?_⟩
    rw [hstep, hpaste.2]
    rfl
  · refine .inr ⟨.command line h hpaste, rfl, rfl, fun chunks => ?_⟩
    have hother : Command.ofChars (Reader.trimmed line) ≠ .paste := fun heq => hpaste ⟨h, heq⟩
    rw [hstep]
    unfold Reader.command
    split
    next heq => exact absurd heq hother
    next => rfl

/-- A typed line that is no command is appended to the block. -/
theorem step_block (b : Block) (h : b.lines = [] → ¬ IsCommand line) (chunks : Nat) :
    ((Collecting.block b).reader chunks).step (.line line) =
      ((Collecting.block b).reader chunks).append line := by
  have hidle : ((Collecting.block b).reader chunks).idle = true → b.lines = [] := by
    intro hidle
    rw [Reader.idle, Bool.and_eq_true] at hidle
    exact b.lines_eq_nil_iff.mpr (of_decide_eq_true hidle.1)
  rw [Reader.step, if_neg (by simp [Collecting.reader]), if_neg]
  rw [Bool.and_eq_true, decide_eq_true_eq]
  exact fun hboth => h (hidle hboth.1) hboth.2

/-- A typed line that is no command goes on with the block or closes it. -/
theorem step_typed (b : Block) (h : b.lines = [] → ¬ IsCommand line) :
    (∃ c, (Collecting.block b).Goes (.line line) c) ∨
      ∃ p, (Collecting.block b).Ends (.line line) p := by
  have hstep := step_block b h
  by_cases hopen : 0 < depthOf (b.lines ++ [line])
  · refine .inl ⟨.block (b.extend line h hopen), ?_, .nothing, ?_, fun chunks => ?_⟩
    · simp [Collecting.inputs, Block.extend]
    · simp [Collecting.replies, Block.extend]
    · rw [hstep, Reader.append]
      simp only [Collecting.reader, ← textOf_append_singleton, ← depthOf_append_singleton,
        if_pos hopen, Block.extend]
  · have hclosed : depthOf (b.lines ++ [line]) = 0 := by
      rw [depthOf_append_singleton] at hopen ⊢
      exact depthAfter_eq_zero hopen
    refine .inr ⟨.typed b line h hclosed, rfl, rfl, fun chunks => ?_⟩
    rw [hstep, Reader.append]
    simp only [Collecting.reader, ← textOf_append_singleton, ← depthOf_append_singleton,
      if_neg hopen, Passage.reply, Passage.chunk?]
    split <;> rfl

/-- A line goes on with the paste or ends it. -/
theorem step_pasted (p : Paste) :
    (∃ c, (Collecting.paste p).Goes (.line line) c) ∨
      ∃ q, (Collecting.paste p).Ends (.line line) q := by
  have hstep (chunks : Nat) : ((Collecting.paste p).reader chunks).step (.line line) =
      Reader.paste ⟨[], 0, true, textOf p.lines, chunks⟩ line := by
    rw [Reader.step]
    exact if_pos rfl
  by_cases hend : Reader.trimmed line = ".".toList ∨ Reader.trimmed line = ":endpaste".toList
  · refine .inr ⟨.pasted p line hend, rfl, rfl, fun chunks => ?_⟩
    rw [hstep, Reader.paste]
    simp only [if_pos hend, Passage.reply, Passage.chunk?]
    by_cases hblank : Reader.trimmed (textOf p.lines) = []
    · rw [if_pos hblank, if_pos hblank]
      rfl
    · rw [if_neg hblank, if_neg hblank]
      rfl
  · by_cases hcancel : Reader.trimmed line = ":cancel".toList
    · refine .inr ⟨.cancelled p line hcancel, rfl, rfl, fun chunks => ?_⟩
      rw [hstep, Reader.paste]
      simp only [if_neg hend, if_pos hcancel]
      rfl
    · refine .inl ⟨.paste (p.extend line ⟨hend, hcancel⟩), ?_, .nothing, ?_, fun chunks => ?_⟩
      · simp [Collecting.inputs, Paste.extend]
      · simp [Collecting.replies, Paste.extend]
      · rw [hstep, Reader.paste]
        simp only [if_neg hend, if_neg hcancel, Collecting.reader, Paste.extend,
          textOf_append_singleton]

/-- An interruption ends whatever is being collected. -/
theorem step_interrupt (c : Collecting) : c.Ends .interrupt (.interrupted c) := by
  refine ⟨rfl, rfl, fun chunks => ?_⟩
  cases c with
  | paste p => rfl
  | block b =>
    rw [Reader.step, Reader.interrupt, if_neg (by simp [Collecting.reader])]
    simp only [Collecting.reader, Passage.reply, textOf_eq_nil_iff]
    by_cases hlines : b.lines = []
    · -- nothing was collected, so nothing is forgotten
      have hdepth : depthOf b.lines ≤ 0 := by
        rw [b.lines_eq_nil_iff.mp hlines]
        decide
      rw [if_pos ⟨hlines, hdepth⟩, if_pos hlines, hlines]
      rfl
    · rw [if_neg (fun hboth => hlines hboth.1), if_neg hlines]
      rfl

/-- Every input goes on with what is being collected or ends a passage. -/
theorem step_cases (c : Collecting) {input : Input} (h : input ≠ .finish) :
    (∃ c', c.Goes input c') ∨ ∃ p, c.Ends input p := by
  cases input with
  | finish => exact absurd rfl h
  | interrupt => exact .inr ⟨_, step_interrupt c⟩
  | line line =>
    cases c with
    | paste p => exact step_pasted p
    | block b =>
      by_cases hcommand : b.lines = [] ∧ IsCommand line
      · obtain rfl : b = .none := by
          cases b
          cases hcommand.1
          rfl
        exact step_command hcommand.2
      · exact step_typed b fun hlines hline => hcommand ⟨hlines, hline⟩

end Steps

section Runs

/-- The chunks of later passages are numbered behind those of earlier ones. -/
theorem Passage.replies_append (chunks : Nat) (ps qs : List Passage) :
    replies chunks (ps ++ qs) =
      replies chunks ps ++ replies (chunks + (ps.filterMap chunk?).length) qs := by
  induction ps generalizing chunks with
  | nil => rfl
  | cons p ps ih =>
    have hlength : ((p :: ps).filterMap chunk?).length =
        p.chunk?.toList.length + (ps.filterMap chunk?).length := by
      rw [List.filterMap_cons]
      cases p.chunk? <;> simp [Nat.add_comm]
    rw [List.cons_append, replies, replies, ih, hlength, Nat.add_assoc]
    simp

/-- The inputs of the console are passages, and what is still being collected. -/
theorem exists_accounts {inputs : List Input} (h : Input.finish ∉ inputs) :
    ∃ passages left, Accounts inputs passages left := by
  induction inputs using List.reverseRecOn with
  | nil => exact ⟨[], .nothing, rfl, rfl, rfl⟩
  | append_singleton inputs input ih =>
    rw [List.mem_append, not_or] at h
    obtain ⟨passages, left, hinputs, hrequests, hafter⟩ := ih h.1
    have hinput : input ≠ .finish := fun heq => h.2 (heq ▸ List.mem_singleton_self _)
    -- the step that the last input makes, from what had been collected before it
    have hstep : Reader.empty.after (inputs ++ [input]) =
        ((left.reader (passages.filterMap Passage.chunk?).length).step input).1 := by
      rw [Reader.after_append, hafter]
      rfl
    have hreply : Reader.empty.requests (inputs ++ [input]) =
        (Passage.replies 0 passages ++ left.replies) ++
          [((left.reader (passages.filterMap Passage.chunk?).length).step input).2] := by
      rw [Reader.requests_append, hrequests, hafter]
      rfl
    rcases step_cases left hinput with ⟨left', hgoes, reply, hreplies, hreader⟩ | ⟨p, hends⟩
    · refine ⟨passages, left', ?_, ?_, ?_⟩
      · rw [hgoes, ← hinputs, List.append_assoc]
      · rw [hreply, hreader, hreplies, List.append_assoc]
      · rw [hstep, hreader]
    · obtain ⟨rfl, rfl, hreader⟩ := hends
      refine ⟨passages ++ [p], .nothing, ?_, ?_, ?_⟩
      · rw [← hinputs, List.flatMap_append]
        simp [Passage.inputs, Collecting.inputs, Collecting.nothing, Block.none]
      · rw [hreply, hreader, Passage.replies_append]
        simp [Passage.replies, Collecting.replies, Collecting.nothing, Block.none]
      · rw [hstep, hreader, List.filterMap_append]
        cases hchunk : p.chunk? <;> simp [hchunk]

/-- The name and the text of the chunk that a request asks to evaluate. -/
def Request.chunk? : Request → Option (String × Bytes)
  | .evaluate number source => some (chunkName number, source)
  | _ => none

/-- Chunks under their names, where some have gone before. -/
def named (chunks : Nat) (sources : List Bytes) : List (String × Bytes) :=
  sources.mapIdx fun i source => ("<repl:" ++ toString (chunks + i + 1) ++ ">", source)

/-- Nothing is evaluated while a passage is being collected. -/
theorem Collecting.filterMap_replies (c : Collecting) :
    c.replies.filterMap Request.chunk? = [] := by
  cases c <;> simp [replies, Request.chunk?]

/-- The last input of a passage asks to evaluate its chunk, under the next number. -/
theorem Passage.chunk?_reply (chunks : Nat) (p : Passage) :
    (p.reply chunks).chunk? = p.chunk?.map fun source => (chunkName (chunks + 1), source) := by
  have hover (otherwise : Request) (h : otherwise.chunk? = none) (chunk? : Option Bytes) :
      (handOver chunks otherwise chunk?).chunk? =
        chunk?.map fun source => (chunkName (chunks + 1), source) := by
    cases chunk? with
    | none => exact h
    | some source => rfl
  cases p with
  | typed b last h hclosed => exact hover .nothing rfl _
  | pasted p last h => exact hover (.remark .nothingPasted) rfl _
  | interrupted c =>
    cases c with
    | block b =>
      rw [reply]
      split <;> rfl
    | paste p => rfl
  | _ => rfl

/-- The chunks that are to be evaluated are those of the passages, numbered one after the other. -/
theorem Passage.filterMap_replies (chunks : Nat) (ps : List Passage) :
    (replies chunks ps).filterMap Request.chunk? = named chunks (ps.filterMap Passage.chunk?) := by
  induction ps generalizing chunks with
  | nil => rfl
  | cons p ps ih =>
    rw [replies, List.filterMap_append, p.before.filterMap_replies, List.nil_append,
      List.filterMap_cons, chunk?_reply, ih, List.filterMap_cons]
    cases p.chunk? with
    | none => rfl
    | some source =>
      simp only [Option.map_some, named, List.mapIdx_cons, Option.toList_some,
        List.length_singleton]
      refine congrArg₂ _ rfl (congrArg (List.mapIdx · _) ?_)
      funext i source
      rw [show chunks + 1 + i = chunks + (i + 1) by omega]

/-- The input says what to do with the lines, and is none of them. -/
def Input.IsControl : Input → Prop
  | .line text => IsCommand text ∨ EndsPaste text ∨ CancelsPaste text
  | .interrupt => True
  | .finish => False

/-- The collected lines of a passage stand in a row, and the other inputs of it are controls. -/
theorem Passage.inputs_eq (p : Passage) :
    ∃ front back, p.inputs = front ++ p.lines.map .line ++ back ∧
      (∀ input ∈ front, input.IsControl) ∧ ∀ input ∈ back, input.IsControl := by
  cases p with
  | command line h hpaste =>
    refine ⟨[.line line], [], rfl, ?_, nofun⟩
    simp [Input.IsControl, h]
  | typed b last h hclosed =>
    refine ⟨[], [], ?_, nofun, nofun⟩
    simp [inputs, before, Passage.last, Collecting.inputs, lines]
  | pasted p last h =>
    refine ⟨[.line p.opening], [.line last], rfl, ?_, ?_⟩
    · simp [Input.IsControl, p.starts.1]
    · simp [Input.IsControl, h]
  | cancelled p last h =>
    refine ⟨[.line p.opening], [.line last], rfl, ?_, ?_⟩
    · simp [Input.IsControl, p.starts.1]
    · simp [Input.IsControl, h]
  | interrupted c =>
    cases c with
    | block b => exact ⟨[], [.interrupt], rfl, nofun, by simp [Input.IsControl]⟩
    | paste p =>
      refine ⟨[.line p.opening], [.interrupt], rfl, ?_, by simp [Input.IsControl]⟩
      simp [Input.IsControl, p.starts.1]

/-- A text that was collected is evaluated as a whole, or it is blank, cancelled or interrupted. -/
theorem Passage.chunk?_cases (p : Passage) :
    p.chunk? = some (textOf p.lines) ∨ p.chunk? = none ∧
      (p.lines = [] ∨ Reader.trimmed (textOf p.lines) = [] ∨ p.last = .interrupt ∨
        ∃ line, p.last = .line line ∧ CancelsPaste line) := by
  cases p with
  | command line h hpaste => exact .inr ⟨rfl, .inl rfl⟩
  | cancelled p last h => exact .inr ⟨rfl, .inr (.inr (.inr ⟨last, rfl, h⟩))⟩
  | interrupted c => exact .inr ⟨rfl, .inr (.inr (.inl rfl))⟩
  | typed b last h hclosed =>
    by_cases hblank : Reader.trimmed (textOf (b.lines ++ [last])) = []
    · exact .inr ⟨if_pos hblank, .inr (.inl hblank)⟩
    · exact .inl (if_neg hblank)
  | pasted p last h =>
    by_cases hblank : Reader.trimmed (textOf p.lines) = []
    · exact .inr ⟨if_pos hblank, .inr (.inl hblank)⟩
    · exact .inl (if_neg hblank)

/-- What the console holds between two inputs. -/
theorem Collecting.reader_consistent (c : Collecting) (chunks : Nat) :
    ((c.reader chunks).block = [] ↔ (c.reader chunks).depth = 0) ∧
      ((c.reader chunks).pasting = true →
        (c.reader chunks).block = [] ∧ (c.reader chunks).depth = 0) ∧
      ((c.reader chunks).pasting = false → (c.reader chunks).pasted = []) := by
  cases c with
  | block b => exact ⟨textOf_eq_nil_iff.trans b.lines_eq_nil_iff, nofun, fun _ => rfl⟩
  | paste p => exact ⟨iff_of_true rfl rfl, fun _ => ⟨rfl, rfl⟩, nofun⟩

end Runs

section Loop

variable {m : Type → Type} [Monad m]

/-- Says that a paste has started, where one has. -/
def Collecting.announce (host : Host m) : Collecting → m Unit
  | .block _ => pure ()
  | .paste _ => host.putLine .output Remark.pasting.text

/-- What the console remarks about the end of a passage without a chunk. -/
def Passage.remark? : Passage → Option Remark
  | .command .. | .typed .. => none
  | .pasted .. => some .nothingPasted
  | .cancelled .. => some .pasteCancelled
  | .interrupted (.block b) => if b.lines = [] then none else some .blockInterrupted
  | .interrupted (.paste _) => some .pasteInterrupted

/-- What the console does about a passage, after a number of chunks. It runs the chunk of the
passage in the session, under its number, and says how that has ended. Where there is no chunk, it
carries the command out or says what becomes of the lines. -/
def Passage.play (host : Host m) (s : Session) (chunks : Nat) (p : Passage) :
    m (Except Ending Session) := do
  p.before.announce host
  match p.chunk?, p with
  | some source, _ =>
    let (chunk, s) ← s.runChunk host ("<repl:" ++ toString (chunks + 1) ++ ">") source
    match ← echo host s.settings chunk with
    | none => return .ok s
    | some ending => return .error ending
  | none, .command line .. => perform host s (Command.ofChars (Reader.trimmed line))
  | none, p =>
    p.remark?.forM fun r => host.putLine .output r.text
    return .ok s

/-- What the console does about some passages, one after the other and after a number of chunks,
unless one of them ends the program. -/
def Passage.playAll (host : Host m) (s : Session) (chunks : Nat) :
    List Passage → m (Except Ending Session)
  | [] => return .ok s
  | p :: rest => do
    match ← p.play host s chunks with
    | .ok s => playAll host s (chunks + p.chunk?.toList.length) rest
    | .error ending => return .error ending

/-- Does what came of some inputs, unless something of it ends the program. -/
def serve (host : Host m) (s : Session) : List Request → m (Except Ending Session)
  | [] => return .ok s
  | request :: rest => do
    match ← answer host s request with
    | .ok s => serve host s rest
    | .error ending => return .error ending

variable [LawfulMonad m]

/-- Requests are served in order, up to the one that ends the program. -/
theorem serve_append (host : Host m) (s : Session) (xs ys : List Request) :
    serve host s (xs ++ ys) = (do
      match ← serve host s xs with
      | .ok s => serve host s ys
      | .error ending => return .error ending) := by
  induction xs generalizing s with
  | nil => simp [serve]
  | cons request xs ih =>
    rw [List.cons_append, serve, serve, bind_assoc]
    refine bind_congr fun result => ?_
    cases result with
    | error ending => simp
    | ok s => exact ih s

/-- Nothing is done about a line that is collected. -/
theorem serve_nothing (host : Host m) (s : Session) (lines : List Bytes) :
    serve host s (lines.map fun _ => .nothing) = pure (.ok s) := by
  induction lines with
  | nil => rfl
  | cons line lines ih =>
    rw [List.map_cons, serve, answer, pure_bind]
    exact ih

/-- While a passage is being collected, the console only says that a paste has started. -/
theorem serve_collecting (host : Host m) (s : Session) (c : Collecting) :
    serve host s c.replies = (do
      c.announce host
      return .ok s) := by
  cases c with
  | block b => rw [Collecting.replies, serve_nothing, Collecting.announce, pure_bind]
  | paste p =>
    rw [Collecting.replies, serve, answer, Collecting.announce]
    simp only [bind_assoc, pure_bind, serve_nothing]

/-- The last input of a passage with a chunk asks to evaluate it. -/
theorem Passage.reply_of_some {p : Passage} {source : Bytes} (h : p.chunk? = some source)
    (chunks : Nat) : p.reply chunks = .evaluate (chunks + 1) source := by
  cases p with
  | typed b last hfirst hclosed => rw [reply, h, handOver, Option.elim_some]
  | pasted p last hend => rw [reply, h, handOver, Option.elim_some]
  | _ => cases h

/-- What comes of the last input of a passage is to run its chunk, if it has one. -/
theorem answer_reply (host : Host m) (s : Session) (chunks : Nat) (p : Passage) :
    (do p.before.announce host; answer host s (p.reply chunks)) = p.play host s chunks := by
  unfold Passage.play
  refine bind_congr fun _ => ?_
  cases hchunk : p.chunk? with
  | some source =>
    rw [p.reply_of_some hchunk]
    rfl
  | none =>
    cases p with
    | command line h hpaste => rfl
    | cancelled p last h => rfl
    | typed b last h hclosed =>
      rw [Passage.reply, hchunk]
      exact (pure_bind () fun _ => (pure (.ok s) : m (Except Ending Session))).symm
    | pasted p last h =>
      rw [Passage.reply, hchunk]
      rfl
    | interrupted c =>
      cases c with
      | paste p => rfl
      | block b =>
        by_cases h : b.lines = []
        · simp [Passage.reply, Passage.remark?, h, answer]
        · simp [Passage.reply, Passage.remark?, h, answer]

/-- What comes of some passages is to run their chunks. -/
theorem serve_replies (host : Host m) (s : Session) (chunks : Nat) (ps : List Passage) :
    serve host s (Passage.replies chunks ps) = Passage.playAll host s chunks ps := by
  induction ps generalizing s chunks with
  | nil => rfl
  | cons p ps ih =>
    rw [Passage.replies, serve_append, serve_collecting, Passage.playAll, ← answer_reply]
    simp only [bind_assoc, pure_bind, serve, ih]

/-- The loop of the console does what comes of its inputs, one after the other, and goes on from
what it has collected then. -/
theorem run_append (host : Host m) (c : Console) (xs ys : List Input) :
    c.run host (xs ++ ys) = (do
      match ← serve host c.session (c.reader.requests xs) with
      | .ok session => run host { c with reader := c.reader.after xs, session } ys
      | .error ending => return ending) := by
  induction xs generalizing c with
  | nil => simp [serve, Reader.requests, Reader.after]
  | cons input xs ih =>
    rw [List.cons_append, run, turn, Reader.requests, serve]
    simp only [bind_assoc]
    refine bind_congr fun result => ?_
    cases result with
    | error ending => simp
    | ok session => simp [ih, Reader.after]

end Loop

/-- Every input of the console is accounted for. At each prompt the block is empty exactly if no
brace is open, nothing but the paste is collected while lines are pasted, and no pasted line is kept
otherwise.

The inputs are passages in a row, and what is being collected behind them. Each passage consists of
the lines that it collects, in a row, and of controls. The chunks that are evaluated are those of
the passages, in this order and under the names `<repl:1>`, `<repl:2>` and so on: the lines of a
passage as one text, unless that is blank, cancelled or interrupted.

What the loop of the console does up to this prompt is to play the passages. It runs each of the
chunks once in the session, under its name, and comes to this prompt, unless something before it
ends the program. -/
theorem inputs_accounted {inputs : List Input} (h : Input.finish ∉ inputs) :
    let r := Reader.empty.after inputs
    let requests := Reader.empty.requests inputs
    ((r.block = [] ↔ r.depth = 0) ∧ (r.pasting = true → r.block = [] ∧ r.depth = 0) ∧
        (r.pasting = false → r.pasted = [])) ∧
      ∃ (passages : List Passage) (left : Collecting),
        passages.flatMap Passage.inputs ++ left.inputs = inputs ∧
        r = left.reader (passages.filterMap Passage.chunk?).length ∧
        requests = Passage.replies 0 passages ++ left.replies ∧
        requests.filterMap Request.chunk? = named 0 (passages.filterMap Passage.chunk?) ∧
        (∀ p ∈ passages,
          (∃ front back, p.inputs = front ++ p.lines.map .line ++ back ∧
            (∀ input ∈ front, input.IsControl) ∧ ∀ input ∈ back, input.IsControl) ∧
          (p.chunk? = some (textOf p.lines) ∨ p.chunk? = none ∧
            (p.lines = [] ∨ Reader.trimmed (textOf p.lines) = [] ∨ p.last = .interrupt ∨
              ∃ line, p.last = .line line ∧ CancelsPaste line))) ∧
        ∀ (m : Type → Type) [Monad m] [LawfulMonad m] (host : Host m) (c : Console)
          (more : List Input), c.reader = .empty →
          c.run host (inputs ++ more) = (do
            match ← Passage.playAll host c.session 0 passages with
            | .ok session =>
              left.announce host
              run host { c with reader := r, session } more
            | .error ending => return ending) := by
  intro r requests
  obtain ⟨passages, left, hinputs, hrequests, hafter⟩ := exists_accounts h
  have hchunks : requests.filterMap Request.chunk? =
      named 0 (passages.filterMap Passage.chunk?) := by
    rw [show requests = _ from hrequests, List.filterMap_append, Passage.filterMap_replies,
      left.filterMap_replies, List.append_nil]
  refine ⟨?_, passages, left, hinputs, hafter, hrequests, hchunks, ?_, ?_⟩
  · rw [show r = _ from hafter]
    exact left.reader_consistent _
  · exact fun p _ => ⟨p.inputs_eq, p.chunk?_cases⟩
  · rintro m _ _ host c more hc
    -- the loop serves the requests in turn, and those of a passage are its chunk or a remark
    rw [run_append, hc, hrequests, serve_append, serve_replies, bind_assoc]
    refine bind_congr fun result => ?_
    cases result with
    | error ending => rw [pure_bind]
    | ok s => simp only [serve_collecting, bind_assoc, pure_bind]; rfl

/-- An interrupted block, a chunk, a blank line, a paste and an open block: the second line and the
pasted one are the chunks. -/
theorem inputs_accounted_interrupted_block :
    let line (s : String) : Input := .line (Bytes.ofString s)
    let inputs := [line "if x \x7b", .interrupt, line "1;", line " ", line ":paste", line "2; \x7b",
      line " . ", line "if y \x7b"]
    Input.finish ∉ inputs ∧
      ∃ (passages : List Passage) (left : Collecting),
        passages.flatMap Passage.inputs ++ left.inputs = inputs ∧
        Reader.empty.after inputs = left.reader 2 ∧
        named 0 (passages.filterMap Passage.chunk?) =
          [("<repl:1>", Bytes.ofString "1;\n"), ("<repl:2>", Bytes.ofString "2; \x7b\n")] := by
  intro line inputs
  have hinputs : Input.finish ∉ inputs := by decide
  obtain ⟨-, passages, left, hpassages, hafter, -, hchunks, -, -⟩ := inputs_accounted hinputs
  have hrequests : (Reader.empty.requests inputs).filterMap Request.chunk? =
      [("<repl:1>", Bytes.ofString "1;\n"), ("<repl:2>", Bytes.ofString "2; \x7b\n")] := by
    decide +kernel
  have hlength : (passages.filterMap Passage.chunk?).length = 2 := by
    have h := congrArg List.length (hchunks.symm.trans hrequests)
    rwa [named, List.length_mapIdx] at h
  rw [hlength] at hafter
  exact ⟨hinputs, passages, left, hpassages, hafter, hchunks.symm.trans hrequests⟩

end TagScript.Console
