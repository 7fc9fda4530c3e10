import Mathlib.Data.List.Induction
import PlcLang.Document
import PlcLang.Proofs.Diagnostics.Positions
import PlcLang.Proofs.Typing.Acceptance

/-!
# `PlcLang.Proofs.Editing.Histories`: an editor is told what the checker says

A workspace keeps a document for every text that is open, and each event
replaces or removes one of them. Two things could go wrong over a history
of events: what is shown of a text could depend on what was there before,
and it could differ from what the checker says, since documents go through
the stages on their own.

`document?_after` settles the first: after any history the document of a
name is the one of its last text, or there is none. `ofText_agrees` settles
the second: `readProgram` and `checkText` say all that a document knows of
its tree and its failure. `workspace_follows_last_texts` puts both together
and draws the conclusion for what an editor asks.

Where a diagnostic stands is said by the text alone: its line is the number
of newlines in front of the place, and its character the distance of the
place from where its line begins (`EditorPosition.Counts`).
-/

set_option autoImplicit false

namespace PlcLang

namespace EditorEvent

/-- The text that the event leaves its document with: none if it closes it,
and the empty one if it changes it without saying into what. -/
def text? : EditorEvent → Option String
  | opened _ text => some text
  | changed _ texts => some (texts.getLast?.getD "")
  | closed _ => none

/-- Whether the event closes its document. The other two leave it open with a text. -/
def closes : EditorEvent → Bool
  | closed _ => true
  | opened _ _ | changed _ _ => false

end EditorEvent

/-- The last event about a document. Those about other documents do not matter to
it. -/
def lastEvent? (name : String) (events : List EditorEvent) : Option EditorEvent :=
  events.reverse.find? (·.name == name)

/-- The text that the last event about a document leaves it with, if there is one
and it leaves the document open. -/
def lastText? (name : String) (events : List EditorEvent) : Option String :=
  (lastEvent? name events).bind EditorEvent.text?

/-- A position is that of an offset in a text, counted from zero: so many
newlines are in front of it, and so far is it behind the beginning of its
line. An offset outside of the text counts as the nearest one in it. -/
def EditorPosition.Counts (position : EditorPosition) (text : List Char) (offset : Int) : Prop :=
  ∃ place start : Nat, (place : Int) = max 0 (min offset text.length)
    ∧ Proofs.StartsLine text start place
    ∧ position.line = (text.take place).count '\n'
    ∧ position.character = place - start

/-- A diagnostic reports a failure in a text: its code, its message behind
the code in brackets, and the positions of its first character and of the
one behind its last, or the beginning of the text if it has no place. -/
structure EditorDiagnostic.Reports (diagnostic : EditorDiagnostic) (text : String)
    (failure : Failure) : Prop where
  code : diagnostic.code = failure.code
  message : diagnostic.message = "[" ++ failure.code ++ "] " ++ failure.message
  placed : ∀ offset, failure.offset = some offset →
    diagnostic.range.start.Counts text.toList offset
      ∧ diagnostic.range.stop.Counts text.toList (offset + max 1 failure.length)
  placeless : failure.offset = none → diagnostic.range = ⟨⟨0, 0⟩, ⟨0, 0⟩⟩

/-- A document agrees with what the stages say about a text: it has the text itself,
its tree if it is a program, and one diagnostic if the checker rejects it or it is
none. -/
structure Document.Agrees (document : Document) (text : String) : Prop where
  verbatim : document.text = text
  tree : document.tree = (readProgram text).toOption
  accepted : document.diagnostics = [] ↔ ∃ checked, checkText text = .ok checked
  rejected : ∀ e, checkText text = .error e →
    ∃ diagnostic, document.diagnostics = [diagnostic] ∧ diagnostic.Reports text e.failure

namespace Proofs

/-! ### The document of a text -/

/-- The positions of a document are counted as they are to be: by the newlines in
front, and from where the line begins. -/
theorem counts_editorPosition (source : Source) (offset : Int) :
    (source.editorPosition offset).Counts source.chars offset := by
  obtain ⟨start, hstart⟩ := exists_startsLine (clamp_le source offset)
  refine ⟨source.clamp offset, start, cast_clamp source offset, hstart, ?_, ?_⟩
  · rw [Source.editorPosition, position_of_startsLine hstart, Nat.add_sub_cancel_left]
  · rw [Source.editorPosition, position_of_startsLine hstart, Nat.add_sub_assoc hstart.le]
    exact Nat.add_sub_cancel_left ..

/-- A failure is shown by one diagnostic, which reports it. -/
theorem reports_of_failure {document : Document} {failure : Failure}
    (h : document.failure = some failure) :
    ∃ diagnostic, document.diagnostics = [diagnostic]
      ∧ diagnostic.Reports document.text failure := by
  simp only [Document.diagnostics, h]
  refine ⟨_, rfl, rfl, rfl, fun offset hoffset => ?_, fun hoffset => ?_⟩
  · have hrange : failure.range? = some (offset, offset + max 1 failure.length) := by
      rw [Failure.range?, hoffset, Option.map_some]
    have hforwards : max offset (offset + max 1 failure.length)
        = offset + max 1 failure.length := by omega
    simp only [hrange, Source.editorRange, hforwards]
    exact ⟨counts_editorPosition document.source offset,
      counts_editorPosition document.source _⟩
  · have hrange : failure.range? = none := by
      rw [Failure.range?, hoffset, Option.map_none]
    rw [hrange]

/-- The document of a text has the text. -/
theorem text_ofText (text : String) : (Document.ofText text).text = text := by
  unfold Document.ofText
  split <;> try rfl
  split <;> try rfl
  split <;> rfl

/-- A text that is no program has a document without a tree, and with the error that
it has as a text. -/
theorem ofText_of_unreadable {text : String} {e : ProgramError}
    (h : readProgram text = .error e) :
    (Document.ofText text).tree = none ∧ (Document.ofText text).failure = some e.failure := by
  rcases readProgram_cases text with
    ⟨found, hlex, hread⟩ | ⟨_, found, hlex, hparse, hread⟩ | ⟨_, _, -, -, hread⟩
  · rw [hread] at h
    obtain rfl := Except.error.inj h
    simp [Document.ofText, hlex, ProgramError.failure]
  · rw [hread] at h
    obtain rfl := Except.error.inj h
    simp [Document.ofText, hlex, hparse, ProgramError.failure]
  · rw [hread] at h
    cases h

/-- One that is a program has a document with its tree, and with the
checker's error if there is one. -/
theorem ofText_of_program {text : String} {program : Program Offset}
    (h : readProgram text = .ok program) :
    (Document.ofText text).tree = some program
      ∧ (∀ checked, check program = .ok checked → (Document.ofText text).failure = none)
      ∧ ∀ e, check program = .error e →
        (Document.ofText text).failure = some (ProgramError.typing e).failure := by
  obtain ⟨tokens, hlex, hparse⟩ := exists_tokens h
  -- `check` runs the checker just as the document does, and drops the symbols
  cases hchecker : Checker.plain.program .builtin program Checker.initialSymbols with
  | ok checked symbols =>
      have hcheck : check program = .ok checked := by rw [check, Checker.alone, hchecker]
      simp [Document.ofText, hlex, hparse, hchecker, hcheck]
  | error e symbols =>
      have hcheck : check program = .error e := by rw [check, Checker.alone, hchecker]
      simp [Document.ofText, hlex, hparse, hchecker, hcheck, ProgramError.failure]

/-- The tree of a document is what the parser makes of its text. -/
theorem tree_ofText (text : String) :
    (Document.ofText text).tree = (readProgram text).toOption := by
  cases hread : readProgram text with
  | error e => exact (ofText_of_unreadable hread).1
  | ok program => exact (ofText_of_program hread).1

/-- A text that the checker accepts has a document without a failure. -/
theorem failure_ofText_of_ok {text : String} {checked : Program Note}
    (h : checkText text = .ok checked) : (Document.ofText text).failure = none := by
  cases hread : readProgram text with
  | error e =>
      rw [checkText_of_error hread] at h
      cases h
  | ok program =>
      rw [checkText_of_ok hread] at h
      cases hcheck : check program with
      | error e =>
          rw [hcheck] at h
          cases h
      | ok found => exact (ofText_of_program hread).2.1 found hcheck

/-- The failure of a document is the error of the first stage that its text does not
get through. -/
theorem failure_ofText_of_error {text : String} {e : ProgramError}
    (h : checkText text = .error e) : (Document.ofText text).failure = some e.failure := by
  cases hread : readProgram text with
  | error found =>
      rw [checkText_of_error hread] at h
      obtain rfl := Except.error.inj h
      exact (ofText_of_unreadable hread).2
  | ok program =>
      rw [checkText_of_ok hread] at h
      cases hcheck : check program with
      | ok found =>
          rw [hcheck] at h
          cases h
      | error found =>
          rw [hcheck] at h
          obtain rfl := Except.error.inj h
          exact (ofText_of_program hread).2.2 found hcheck

/-- The document of a text agrees with the stages about it, though it goes through
them on its own. -/
theorem ofText_agrees (text : String) : (Document.ofText text).Agrees text := by
  -- Every error leaves a diagnostic, so a text without one is accepted.
  have hrejected : ∀ e, checkText text = .error e →
      ∃ diagnostic, (Document.ofText text).diagnostics = [diagnostic]
        ∧ diagnostic.Reports text e.failure := by
    intro e he
    have hreports := reports_of_failure (failure_ofText_of_error he)
    rwa [text_ofText] at hreports
  refine ⟨text_ofText text, tree_ofText text, ⟨fun hnone => ?_, fun hsome => ?_⟩, hrejected⟩
  · cases hcheck : checkText text with
    | ok checked => exact ⟨checked, rfl⟩
    | error e =>
        obtain ⟨diagnostic, hone, -⟩ := hrejected e hcheck
        rw [hone] at hnone
        cases hnone
  · obtain ⟨checked, hcheck⟩ := hsome
    simp only [Document.diagnostics, failure_ofText_of_ok hcheck]

/-! ### Histories -/

/-- An event leaves its own document with its text, or without any, and every other
as it was. -/
theorem document?_handle (workspace : Workspace) (event : EditorEvent) (name : String) :
    (workspace.handle event).document? name
      = if event.name = name then event.text?.map Document.ofText
        else workspace.document? name := by
  by_cases hname : event.name = name
  · subst hname
    cases event <;>
      simp [Workspace.handle, Workspace.put, Workspace.change, Workspace.close,
        Workspace.document?, EditorEvent.name, EditorEvent.text?, Bindings.get?_set,
        Bindings.get?_erase]
  · have hother : name ≠ event.name := Ne.symm hname
    cases event <;>
      simp_all [Workspace.handle, Workspace.put, Workspace.change, Workspace.close,
        Workspace.document?, EditorEvent.name, Bindings.get?_set, Bindings.get?_erase]

/-- Of a history with one more event, the last event about a document is that one if
it is about it. -/
theorem lastEvent?_append_singleton (name : String) (events : List EditorEvent)
    (event : EditorEvent) :
    lastEvent? name (events ++ [event])
      = if event.name = name then some event else lastEvent? name events := by
  by_cases hname : event.name = name
  · simp [lastEvent?, hname]
  · simp [lastEvent?, hname]

/-- After any history, the document of a name is the one of its last text. The
induction is on the events, from the last one on. -/
theorem document?_after (events : List EditorEvent) (name : String) :
    (Workspace.after events).document? name = (lastText? name events).map Document.ofText := by
  -- From the end, since the last event about the name is the one that decides.
  induction events using List.reverseRecOn with
  | nil => rfl
  | append_singleton events event ih =>
      have hstep : Workspace.after (events ++ [event]) = (Workspace.after events).handle event := by
        simp [Workspace.after]
      rw [hstep, document?_handle, lastText?, lastEvent?_append_singleton]
      by_cases hname : event.name = name
      · rw [if_pos hname, if_pos hname, Option.bind_some]
      · rw [if_neg hname, if_neg hname]
        exact ih

/-- **An editor is told what the checker says.** After any history of
events, a document is open exactly if the last event about it did not close
it; it is then the document of its last text and agrees with the checker
about it. The answers to what an editor asks are the same after any two
histories that end with the same text. -/
theorem workspace_follows_last_texts (events : List EditorEvent) (name : String) :
    (((Workspace.after events).document? name).isSome
        ↔ ∃ event, lastEvent? name events = some event ∧ event.closes = false)
      ∧ (∀ document, (Workspace.after events).document? name = some document →
        ∃ text, lastText? name events = some text ∧ document = .ofText text
          ∧ document.Agrees text)
      ∧ ∀ (others : List EditorEvent) (other : String),
        lastText? other others = lastText? name events →
          (∀ line character, (Workspace.after others).hover? other line character
            = (Workspace.after events).hover? name line character)
          ∧ (Workspace.after others).completions other = (Workspace.after events).completions name
          ∧ (Workspace.after others).outline other = (Workspace.after events).outline name := by
  refine ⟨?_, fun document hdocument => ?_, fun others other hsame => ?_⟩
  · rw [document?_after, Option.isSome_map, lastText?]
    cases lastEvent? name events with
    | none => simp
    | some event => cases event <;> simp [EditorEvent.text?, EditorEvent.closes]
  · rw [document?_after] at hdocument
    obtain ⟨text, htext, rfl⟩ := Option.map_eq_some_iff.mp hdocument
    exact ⟨text, htext, rfl, ofText_agrees text⟩
  · have hdocument : (Workspace.after others).document? other
        = (Workspace.after events).document? name := by
      rw [document?_after, document?_after, hsame]
    simp [Workspace.hover?, Workspace.completions, Workspace.outline, hdocument]

/-- So it is where a text is changed into one whose second line speaks of a
variable that is not there: the diagnostic stands on that line, behind its
first eight characters. -/
theorem workspace_reports_on_second_line :
    ∃ document, (Workspace.after [.opened "a" "LET a = 1;",
          .changed "a" ["LET a = 1;\nLET b = c;"]]).document? "a" = some document
      ∧ document.Agrees "LET a = 1;\nLET b = c;"
      ∧ document.diagnostics
        = [⟨⟨⟨1, 8⟩, ⟨1, 9⟩⟩, "E310", "[E310] undefined variable 'c'"⟩]
      ∧ EditorPosition.Counts ⟨1, 8⟩ "LET a = 1;\nLET b = c;".toList 19
      ∧ EditorPosition.Counts ⟨1, 9⟩ "LET a = 1;\nLET b = c;".toList 20 := by
  obtain ⟨document, hdocument⟩ : ∃ document, (Workspace.after [.opened "a" "LET a = 1;",
      .changed "a" ["LET a = 1;\nLET b = c;"]]).document? "a" = some document := ⟨_, rfl⟩
  obtain ⟨text, htext, rfl, hagrees⟩ :=
    (workspace_follows_last_texts [.opened "a" "LET a = 1;",
      .changed "a" ["LET a = 1;\nLET b = c;"]] "a").2.1 document hdocument
  obtain rfl : "LET a = 1;\nLET b = c;" = text := Option.some.inj htext
  have hdiagnostics : (Document.ofText "LET a = 1;\nLET b = c;").diagnostics
      = [⟨⟨⟨1, 8⟩, ⟨1, 9⟩⟩, "E310", "[E310] undefined variable 'c'"⟩] := by
    decide +kernel
  have hcheck : checkText "LET a = 1;\nLET b = c;"
      = .error (.typing ⟨.undefinedVariable "c", some 19⟩) := by
    have hlex : tokenize "LET a = 1;\nLET b = c;" = .ok
        [⟨.identifier, "LET", 0⟩, ⟨.identifier, "a", 4⟩, ⟨.operator, "=", 6⟩,
          ⟨.integer, "1", 8⟩, ⟨.operator, ";", 9⟩, ⟨.identifier, "LET", 11⟩,
          ⟨.identifier, "b", 15⟩, ⟨.operator, "=", 17⟩, ⟨.identifier, "c", 19⟩,
          ⟨.operator, ";", 20⟩] := by
      rfl
    have hread : readProgram "LET a = 1;\nLET b = c;"
        = .ok ⟨[⟨0, "a", none, some (.integer 8 1)⟩, ⟨11, "b", none, some (.var 19 "c")⟩], []⟩ :=
      readProgram_eq_ok hlex rfl
    rw [checkText_of_ok hread]
    rfl
  -- The diagnostic that the theorem speaks of is the one computed above, so its counts are for
  -- these positions.
  obtain ⟨diagnostic, hone, hreports⟩ := hagrees.rejected _ hcheck
  rw [hdiagnostics] at hone
  obtain rfl := List.head_eq_of_cons_eq hone
  obtain ⟨hstart, hstop⟩ := hreports.placed 19 rfl
  exact ⟨_, hdocument, hagrees, hdiagnostics, hstart, hstop⟩

end Proofs

end PlcLang
