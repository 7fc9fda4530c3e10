import Mathlib.Data.List.Forall2
import PlcLang.CommandLine
import PlcLang.Proofs.Computations
import PlcLang.Proofs.Typing.Acceptance

/-!
# `PlcLang.Proofs.CommandLine.FormatCheck`: is a text in canonical form?

`plc format --check` asks of a text that comes in, or of the files of a target, whether they are
in canonical form, and answers by its exit status. It only looks: no file is written, however the
command ends (`Inspects`).

Of a text that comes in, the answer is exact. Of a target it is not: a file that is no program is
reported and then passed over, as if it were in canonical form. So a target gets the right answer
exactly if all its files are programs, or one that is a program gives the others away by not being
in canonical form (`formatCheck_right_iff`). Where the settings of the target cannot be read, the
command breaks down as soon as there is a file to look at, with the status of a failure.
-/

set_option autoImplicit false

namespace PlcLang

/-- The text lexes and parses. Whether the checker would accept it makes no
difference to the formatter. -/
def IsProgram (text : String) : Prop :=
  ∃ program, readProgram text = .ok program

/-- The text lexes and parses, and its canonical form is the text itself. -/
def IsCanonical (text : String) : Prop :=
  ∃ program, readProgram text = .ok program ∧ program.format = text

/-- Only a program has a canonical form. -/
theorem IsCanonical.isProgram {text : String} (h : IsCanonical text) : IsProgram text :=
  let ⟨program, hread, _⟩ := h
  ⟨program, hread⟩

namespace Proofs

open CommandLine

variable {α β : Type}

/-- The command wants no file written, and ends with `Q` or early with `E`. This
holds from whatever transcript it begins with, so it can be said of a part of a
command, too. -/
def Inspects (x : Command α) (Q : α → Prop) (E : Ending → Prop) : Prop :=
  ∀ transcript, Yields x transcript (fun a after => after.written = transcript.written ∧ Q a)
    fun e after => after.written = transcript.written ∧ E e

namespace Inspects

variable {x : Command α} {Q : α → Prop} {E : Ending → Prop}

/-- A command that has nothing to do looks on. -/
theorem pure {a : α} (h : Q a) : Inspects (pure a) Q E :=
  fun _ => ⟨rfl, h⟩

/-- A command that ends at once has written nothing. -/
theorem throw {e : Ending} (h : E e) : Inspects (throw e : Command α) Q E :=
  fun _ => ⟨rfl, h⟩

/-- What comes next may rely on what the first part has found out. -/
theorem bind {k : α → Command β} {R : β → Prop} (h : Inspects x Q E)
    (hk : ∀ a, Q a → Inspects (k a) R E) : Inspects (x >>= k) R E := by
  intro transcript
  refine (h transcript).bind fun a middle ⟨hmiddle, ha⟩ => ?_
  refine (hk a ha middle).imp ?_ ?_
  · exact fun _ _ ⟨hafter, hb⟩ => ⟨hafter.trans hmiddle, hb⟩
  · exact fun _ _ ⟨hafter, he⟩ => ⟨hafter.trans hmiddle, he⟩

/-- Less may be asked of the answer and of the early end. -/
theorem imp {R : α → Prop} {F : Ending → Prop} (h : Inspects x Q E) (hR : ∀ a, Q a → R a)
    (hF : ∀ e, E e → F e) : Inspects x R F :=
  fun transcript => (h transcript).imp (fun a _ ⟨hafter, ha⟩ => ⟨hafter, hR a ha⟩)
    fun e _ ⟨hafter, he⟩ => ⟨hafter, hF e he⟩

/-- What is asked of a list of files, each file answers for itself. The answers
stand in the order of the files. -/
theorem mapM {list : List α} {k : α → Command β} {R : α → β → Prop}
    (hk : ∀ a ∈ list, Inspects (k a) (R a) E) :
    Inspects (list.mapM k) (List.Forall₂ R list) E := by
  induction list with
  | nil => exact pure .nil
  | cons a rest ih =>
      have hrest := ih fun other hother => hk other (List.mem_cons_of_mem a hother)
      rw [List.mapM_cons]
      exact (hk a List.mem_cons_self).bind fun b hb => hrest.bind fun bs hbs => pure (.cons hb hbs)

/-- A whole command line that only looks writes nothing, and ends in one of these
ways: with the status of a success and `Q`, or with `E`. -/
theorem outcome {x : Command Unit} {Q : Unit → Prop} (h : Inspects x Q E) :
    (outcomeOf x).transcript.written = []
      ∧ ((outcomeOf x).ending = .exit 0 ∧ Q () ∨ E (outcomeOf x).ending) := by
  have hyields := h {}
  unfold Yields at hyields
  unfold CommandLine.outcomeOf EStateM.run
  cases hx : x {} with
  | ok a after =>
      rw [hx] at hyields
      exact ⟨hyields.1, .inl ⟨rfl, hyields.2⟩⟩
  | error e after =>
      rw [hx] at hyields
      exact ⟨hyields.1, .inr hyields.2⟩

end Inspects

/-! ### Parts of commands -/

/-- Printing writes no file. -/
theorem inspects_print (text : String) : Inspects (print text) (fun _ => True) fun _ => False :=
  fun _ => ⟨rfl, trivial⟩

/-- Nor does a complaint, whether it is coloured or not. -/
theorem inspects_complain (s : Surroundings) (text : String) :
    Inspects (complain s text) (fun _ => True) fun _ => False :=
  fun _ => ⟨rfl, trivial⟩

/-- Nor does a line in the log, whether it is wanted or not. -/
theorem inspects_log (s : Surroundings) (stage file progress : String) :
    Inspects (log s stage file progress) (fun _ => True) fun _ => False := by
  unfold log
  cases s.verbose with
  | true => exact fun _ => ⟨rfl, trivial⟩
  | false => exact .pure trivial

/-- What can break a command down is nothing else: the cause is the error that came
of it. -/
theorem inspects_orBreakDown {ε : Type} (breakdown : ε → Breakdown) (result : Except ε α) :
    Inspects (orBreakDown breakdown result) (result = .ok ·)
      fun e => ∃ cause, result = .error cause ∧ e = .breakdown (breakdown cause) := by
  cases result with
  | ok value => exact .pure rfl
  | error cause => exact .throw ⟨cause, rfl, rfl⟩

/-- The tree of a source is the one of its text, and reading it breaks nothing down. -/
theorem inspects_readTree (s : Surroundings) (source : Source) :
    Inspects (readTree s source) (· = readProgram source.content) fun _ => False := by
  have htokens : Inspects (readTokens s source)
      (· = (tokenize source.content).mapError ProgramError.lexical) fun _ => False := by
    unfold readTokens
    cases tokenize source.content with
    | error e => exact .pure rfl
    | ok tokens => exact (inspects_log s _ _ _).bind fun _ _ => .pure rfl
  unfold readTree
  refine htokens.bind fun result hresult => ?_
  subst hresult
  cases htokens : tokenize source.content with
  | error e =>
      rw [readProgram_eq_lexical htokens]
      exact .pure rfl
  | ok tokens =>
      dsimp only [Except.mapError]
      cases hparse : parse tokens with
      | error e =>
          rw [readProgram_eq_error htokens hparse]
          exact .pure rfl
      | ok program =>
          rw [readProgram_eq_ok htokens hparse]
          exact (inspects_log s _ _ _).bind fun _ _ => .pure rfl

/-! ### One text -/

/-- Of a file the answer is whether it would be changed, and a file that is no
program would not. It breaks down only where the file cannot be read. -/
theorem inspects_formatFile (s : Surroundings) (settings : Settings) (path : Path) :
    Inspects (formatFile s settings true path)
      (fun different => ∃ text, s.tree.readText path = .ok text
        ∧ (different = true ↔ IsProgram text ∧ ¬ IsCanonical text))
      fun e => ∃ cause, s.tree.readText path = .error cause
        ∧ e = .breakdown (.file cause) := by
  have hload : Inspects (load s path)
      (fun source => s.tree.readText path = .ok source.content)
      fun e => ∃ cause, s.tree.readText path = .error cause ∧ e = .breakdown (.file cause) :=
    (inspects_orBreakDown Breakdown.file (s.tree.readText path)).bind fun text htext =>
      .pure htext
  -- Once the file is read, nothing breaks down any more.
  have hnever : ∀ e : Ending, False → ∃ cause, s.tree.readText path = .error cause
      ∧ e = .breakdown (.file cause) := fun _ h => h.elim
  unfold formatFile
  refine hload.bind fun source hsource => ?_
  refine ((inspects_readTree s source).imp (fun _ h => h) hnever).bind fun result hresult => ?_
  cases result with
  | error e =>
      refine ((inspects_complain s _).imp (fun _ h => h) hnever).bind fun _ _ => .pure ?_
      refine ⟨_, hsource, iff_of_false Bool.false_ne_true fun ⟨⟨program, hread⟩, _⟩ => ?_⟩
      rw [hread] at hresult
      cases hresult
  | ok program =>
      have hcanonical : IsCanonical source.content ↔ program.format = source.content := by
        constructor
        · rintro ⟨other, hread, hother⟩
          rw [hread] at hresult
          cases hresult
          exact hother
        · exact fun h => ⟨program, hresult.symm, h⟩
      dsimp only
      by_cases hsame : program.format = source.content
      · rw [if_pos hsame]
        exact .pure ⟨_, hsource, iff_of_false Bool.false_ne_true fun ⟨_, hother⟩ =>
          hother (hcanonical.mpr hsame)⟩
      · rw [if_neg hsame, if_pos rfl]
        refine ((inspects_print _).imp (fun _ h => h) hnever).bind fun _ _ => .pure ?_
        exact ⟨_, hsource, iff_of_true rfl ⟨⟨program, hresult.symm⟩, mt hcanonical.mp hsame⟩⟩

/-- Of a text that comes in the answer is whether it is in canonical form. If it is
not, the command ends with the status of a failure, also where the text is no
program. -/
theorem inspects_formatInput {s : Surroundings} {text : String}
    (htext : textOfBytes s.input = .ok text) :
    Inspects (formatInput s true) (fun _ => IsCanonical text)
      fun e => e = .exit 1 ∧ ¬ IsCanonical text := by
  have hread : Inspects (readInput s) (· = text) fun e => e = .exit 1 ∧ ¬ IsCanonical text := by
    unfold readInput
    rw [htext]
    exact .pure rfl
  unfold formatInput
  refine hread.bind fun content hcontent => ?_
  subst hcontent
  refine ((inspects_readTree s ⟨"<stdin>", content⟩).imp (fun _ h => h)
    fun _ h => h.elim).bind fun result hresult => ?_
  cases result with
  | error e =>
      refine ((inspects_complain s _).imp (fun _ h => h) fun _ h => h.elim).bind fun _ _ => ?_
      refine .throw ⟨rfl, fun ⟨program, hread, _⟩ => ?_⟩
      rw [hread] at hresult
      cases hresult
  | ok program =>
      dsimp only
      rw [if_neg (by exact Bool.false_ne_true)]
      by_cases hsame : program.format = content
      · rw [if_pos hsame]
        exact .pure ⟨program, hresult.symm, hsame⟩
      · rw [if_neg hsame]
        refine .throw ⟨rfl, fun ⟨other, hread, hother⟩ => hsame ?_⟩
        rw [hread] at hresult
        cases hresult
        exact hother

/-! ### The files of a target -/

/-- Each answer is the answer of one file. -/
theorem exists_of_mem_right {R : α → β → Prop} {list : List α} {answers : List β}
    (h : List.Forall₂ R list answers) {b : β} (hb : b ∈ answers) : ∃ a ∈ list, R a b := by
  induction h with
  | nil => cases hb
  | @cons a b' rest answers ha _ ih =>
      rcases List.mem_cons.mp hb with rfl | hb
      · exact ⟨a, List.mem_cons_self, ha⟩
      · obtain ⟨other, hother, hR⟩ := ih hb
        exact ⟨other, List.mem_cons_of_mem a hother, hR⟩

/-- The target gets by: there is nothing to look at, or its settings can be read, and so can every
file, and those that are programs are in canonical form. -/
def Passes (s : Surroundings) (target : Path) : Prop :=
  s.tree.search target programEnding = []
    ∨ (s.tree.settingsFor target).toBool = true
      ∧ ∀ path ∈ s.tree.search target programEnding,
        ∃ text, s.tree.readText path = .ok text ∧ (IsProgram text → IsCanonical text)

/-- A target with files to look at does not get by with settings that cannot be
read: the command breaks down before it looks at the first file. -/
theorem inspects_readSettings {s : Surroundings} {target : Path}
    (hfiles : s.tree.search target programEnding ≠ []) :
    Inspects (readSettings s target) (fun _ => (s.tree.settingsFor target).toBool = true)
      fun e => e.status = 1 ∧ ¬ Passes s target := by
  refine (inspects_orBreakDown Breakdown.settings (s.tree.settingsFor target)).imp ?_ ?_
  · intro settings hok
    rw [hok]
    rfl
  · rintro e ⟨cause, herror, rfl⟩
    refine ⟨rfl, fun hpasses => hpasses.elim hfiles fun ⟨hok, _⟩ => ?_⟩
    rw [herror] at hok
    cases hok

/-- Nor with a file that cannot be read; of the others the answers are which of them would be
changed. -/
theorem inspects_formatFiles (s : Surroundings) (settings : Settings) {target : Path}
    (hfiles : s.tree.search target programEnding ≠ []) :
    Inspects ((s.tree.search target programEnding).mapM (formatFile s settings true))
      (List.Forall₂ (fun path different => ∃ text, s.tree.readText path = .ok text
        ∧ (different = true ↔ IsProgram text ∧ ¬ IsCanonical text))
        (s.tree.search target programEnding))
      fun e => e.status = 1 ∧ ¬ Passes s target := by
  refine .mapM fun path hpath => (inspects_formatFile s settings path).imp (fun _ h => h) ?_
  rintro e ⟨cause, herror, rfl⟩
  refine ⟨rfl, fun hpasses => hpasses.elim hfiles fun ⟨_, hall⟩ => ?_⟩
  obtain ⟨text, htext, _⟩ := hall path hpath
  rw [herror] at htext
  cases htext

/-- A target that does not get by ends with the status of a failure, and one that
gets by does not end early. -/
theorem inspects_format (s : Surroundings) (target : Path) :
    Inspects (format s target true) (fun _ => Passes s target)
      fun e => e.status = 1 ∧ ¬ Passes s target := by
  unfold format
  dsimp only
  by_cases hempty : s.tree.search target programEnding = []
  · rw [hempty]
    exact (inspects_complain s _).imp (fun _ _ => .inl hempty) fun _ h => h.elim
  rw [if_neg (by rwa [List.isEmpty_iff])]
  refine (inspects_readSettings hempty).bind fun settings hok => ?_
  refine (inspects_formatFiles s settings hempty).bind fun different hdifferent => ?_
  by_cases hany : different.any id = true
  · -- a file that would be changed is among those that do not get by
    rw [if_pos (by rw [hany]; rfl)]
    refine .throw ⟨rfl, fun hpasses => hpasses.elim hempty fun ⟨_, hall⟩ => ?_⟩
    obtain ⟨answer, hanswer, htrue⟩ := List.any_eq_true.mp hany
    obtain ⟨path, hpath, text, htext, hiff⟩ := exists_of_mem_right hdifferent hanswer
    obtain ⟨other, hother, hcanonical⟩ := hall path hpath
    rw [htext] at hother
    cases hother
    obtain ⟨hprogram, hnot⟩ := hiff.mp htrue
    exact hnot (hcanonical hprogram)
  · -- no answer says so, and there is one for each file
    rw [if_neg (by rwa [Bool.true_and])]
    refine .pure (.inr ⟨hok, fun path hpath => ?_⟩)
    obtain ⟨answer, hanswer, text, htext, hiff⟩ := exists_of_mem_right hdifferent.flip hpath
    refine ⟨text, htext, fun hprogram => by_contra fun hnot => hany ?_⟩
    exact List.any_eq_true.mpr ⟨answer, hanswer, hiff.mpr ⟨hprogram, hnot⟩⟩

/-- Whether a target gets by can be told from the texts of its files. Those that are
no programs are left out of account, which is the fault of the command. -/
theorem passes_iff {s : Surroundings} {target : Path} {texts : List String}
    (htexts : List.Forall₂ (s.tree.readText · = .ok ·) (s.tree.search target programEnding) texts) :
    Passes s target ↔ texts = []
      ∨ (s.tree.settingsFor target).toBool = true
        ∧ ∀ text ∈ texts, IsProgram text → IsCanonical text := by
  refine or_congr ?_ (and_congr_right fun _ => ⟨fun h text htext => ?_, fun h path hpath => ?_⟩)
  · rw [← List.length_eq_zero_iff, ← List.length_eq_zero_iff, htexts.length_eq]
  · obtain ⟨path, hpath, hread⟩ := exists_of_mem_right htexts htext
    obtain ⟨other, hother, hcanonical⟩ := h path hpath
    rw [hread] at hother
    cases hother
    exact hcanonical
  · obtain ⟨text, htext, hread⟩ := exists_of_mem_right htexts.flip hpath
    exact ⟨text, hread, h text htext⟩

/-! ### Command lines -/

/-- The check of a target writes nothing, and its status is that of a success exactly if the target
gets by. -/
theorem outcome_formatCheck {s : Surroundings} {arguments : List String} {verbose : Bool}
    {target : Path}
    (hcommand : Invocation.ofArguments arguments = .ok ⟨verbose, .format target true⟩) :
    (run s arguments).transcript.written = []
      ∧ (s.tree.reaches target = true →
        (run s arguments).ending.status = 0 ∧ Passes s target
          ∨ (run s arguments).ending.status = 1 ∧ ¬ Passes s target) := by
  unfold run
  rw [hcommand]
  dsimp only [perform]
  unfold onPath
  cases hreaches : s.tree.reaches target with
  | false =>
      have hrefuse : Inspects (refuse { s with verbose := verbose }
          ("Path '" ++ target.text ++ "' does not exist.")) (fun _ => True) fun _ => True :=
        ((inspects_complain _ _).imp (fun _ _ => trivial) fun _ _ => trivial).bind fun _ _ =>
          .throw trivial
      exact ⟨hrefuse.outcome.1, fun h => absurd h Bool.false_ne_true⟩
  | true =>
      obtain ⟨hwritten, hends⟩ := (inspects_format { s with verbose := verbose } target).outcome
      refine ⟨hwritten, fun _ => hends.imp_left fun ⟨hexit, hpasses⟩ => ⟨?_, hpasses⟩⟩
      exact congrArg Ending.status hexit

/-- The words that ask for a check of the directory in which the command is given. -/
theorem ofArguments_formatCheck :
    Invocation.ofArguments ["format", "--check"] = .ok ⟨false, .format ⟨false, []⟩ true⟩ := by
  decide +kernel

/-- The words that ask for a check of the text that comes in. -/
theorem ofArguments_formatCheck_input :
    Invocation.ofArguments ["format", "--check", "--stdin"] = .ok ⟨false, .formatInput true⟩ := by
  decide +kernel

/-- The check of a text that comes in writes nothing, and its status is that of a success exactly if
the text is in canonical form. -/
theorem outcome_formatCheck_input {s : Surroundings} {text : String}
    (htext : textOfBytes s.input = .ok text) :
    (run s ["format", "--check", "--stdin"]).transcript.written = []
      ∧ ((run s ["format", "--check", "--stdin"]).ending.status = 0 ∧ IsCanonical text
        ∨ (run s ["format", "--check", "--stdin"]).ending.status = 1 ∧ ¬ IsCanonical text) := by
  unfold run
  rw [ofArguments_formatCheck_input]
  obtain ⟨hwritten, hends⟩ :=
    (inspects_formatInput (s := { s with verbose := false }) htext).outcome
  refine ⟨hwritten, hends.imp (fun ⟨hexit, h⟩ => ⟨?_, h⟩) fun ⟨hexit, h⟩ => ⟨?_, h⟩⟩
  · exact congrArg Ending.status hexit
  · exact congrArg Ending.status hexit

/-- Where the settings can be read, passing over what is no program does no harm if there is no such
file, or another one gives it away; where they cannot, every file counts as a problem. -/
theorem right_iff (readable : Bool) (texts : List String) :
    ((texts = [] ∨ readable = true ∧ ∀ text ∈ texts, IsProgram text → IsCanonical text)
        ↔ ∀ text ∈ texts, IsCanonical text)
      ↔ if readable then
          (∀ text ∈ texts, IsProgram text) ∨ ∃ text ∈ texts, IsProgram text ∧ ¬ IsCanonical text
        else texts = [] ∨ ∃ text ∈ texts, ¬ IsCanonical text := by
  have hnil : texts = [] → ∀ text ∈ texts, IsCanonical text :=
    fun h text htext => absurd htext (by rw [h]; exact List.not_mem_nil)
  have hall : (∀ text ∈ texts, IsCanonical text) →
      ∀ text ∈ texts, IsProgram text → IsCanonical text := fun h text htext _ => h text htext
  cases readable with
  | true =>
      rw [if_pos rfl]
      constructor
      · intro hright
        -- if no program is out of form the answer is a success, so nothing else may be there
        by_cases hpasses : ∀ text ∈ texts, IsProgram text → IsCanonical text
        · exact .inl fun text htext =>
            (hright.mp (.inr ⟨rfl, hpasses⟩) text htext).isProgram
        · obtain ⟨text, hfound⟩ := not_forall.mp hpasses
          obtain ⟨htext, hfound⟩ := Classical.not_imp.mp hfound
          exact .inr ⟨text, htext, Classical.not_imp.mp hfound⟩
      · rintro (hprograms | ⟨text, htext, hprogram, hnot⟩)
        · refine ⟨fun hpasses => hpasses.elim hnil fun ⟨_, h⟩ text htext => ?_, fun h => ?_⟩
          · exact h text htext (hprograms text htext)
          · exact .inr ⟨rfl, hall h⟩
        · refine iff_of_false (fun hpasses => hpasses.elim (fun h => ?_) fun ⟨_, h⟩ => ?_) ?_
          · exact hnot (hnil h text htext)
          · exact hnot (h text htext hprogram)
          · exact fun h => hnot (h text htext)
  | false =>
      rw [if_neg Bool.false_ne_true]
      constructor
      · intro hright
        by_cases hcanonical : ∀ text ∈ texts, IsCanonical text
        · exact .inl ((hright.mpr hcanonical).resolve_right fun h => Bool.false_ne_true h.1)
        · obtain ⟨text, hfound⟩ := not_forall.mp hcanonical
          exact .inr ⟨text, Classical.not_imp.mp hfound⟩
      · rintro (hempty | ⟨text, htext, hnot⟩)
        · exact iff_of_true (.inl hempty) (hnil hempty)
        · refine iff_of_false (fun hpasses => hpasses.elim (fun h => ?_) fun h => ?_) ?_
          · exact hnot (hnil h text htext)
          · exact Bool.false_ne_true h.1
          · exact fun h => hnot (h text htext)

/-- The check of a target is right about its files exactly if all of them are programs, or one that
is a program is not in canonical form: for a file that is no program is passed over. Then a target
of one file gets the answer that its text would get if it came in. (Where the settings cannot be
read the answer is right if there are no files, or not all are in canonical form.) Nothing is
written, whatever the answer. -/
theorem formatCheck_right_iff {s : Surroundings} {arguments : List String} {verbose : Bool}
    {target : Path}
    (hcommand : Invocation.ofArguments arguments = .ok ⟨verbose, .format target true⟩) :
    (run s arguments).transcript.written = []
      ∧ ∀ texts, s.tree.reaches target = true →
        List.Forall₂ (s.tree.readText · = .ok ·) (s.tree.search target programEnding) texts →
        (((run s arguments).ending.status = 0 ↔ ∀ text ∈ texts, IsCanonical text)
          ↔ if (s.tree.settingsFor target).toBool then
              (∀ text ∈ texts, IsProgram text) ∨ ∃ text ∈ texts, IsProgram text ∧ ¬ IsCanonical text
            else texts = [] ∨ ∃ text ∈ texts, ¬ IsCanonical text)
        ∧ ∀ (s' : Surroundings) (text : String), texts = [text] →
          textOfBytes s'.input = .ok text →
          let answer := run s' ["format", "--check", "--stdin"]
          answer.transcript.written = [] ∧ (answer.ending.status = 0 ↔ IsCanonical text)
            ∧ (answer.ending.status = (run s arguments).ending.status
              ↔ if (s.tree.settingsFor target).toBool then IsProgram text
                else ¬ IsCanonical text) := by
  obtain ⟨hwritten, hstatus⟩ := outcome_formatCheck (s := s) hcommand
  refine ⟨hwritten, fun texts hreaches htexts => ?_⟩
  have hpasses := passes_iff htexts
  have hzero : (run s arguments).ending.status = 0 ↔ Passes s target := by
    rcases hstatus hreaches with ⟨hexit, h⟩ | ⟨hexit, h⟩
    · exact iff_of_true hexit h
    · exact iff_of_false (by rw [hexit]; exact Nat.one_ne_zero) h
  refine ⟨?_, fun s' text hsingle htext => ?_⟩
  · rw [hzero, hpasses]
    exact right_iff _ texts
  · obtain ⟨hkept, hinput⟩ := outcome_formatCheck_input htext
    have hanswer : (run s' ["format", "--check", "--stdin"]).ending.status = 0
        ↔ IsCanonical text := by
      rcases hinput with ⟨hexit, h⟩ | ⟨hexit, h⟩
      · exact iff_of_true hexit h
      · exact iff_of_false (by rw [hexit]; exact Nat.one_ne_zero) h
    refine ⟨hkept, hanswer, ?_⟩
    -- each status is zero or one, so they are the same if both or none of them are zero
    have hsame : (run s' ["format", "--check", "--stdin"]).ending.status
          = (run s arguments).ending.status ↔ (Passes s target ↔ IsCanonical text) := by
      rw [← hanswer, ← hzero]
      rcases hinput with ⟨hexit, -⟩ | ⟨hexit, -⟩ <;>
        rcases hstatus hreaches with ⟨hexit', -⟩ | ⟨hexit', -⟩ <;>
        simp [hexit, hexit']
    have hright := right_iff (s.tree.settingsFor target).toBool [text]
    rw [List.forall_mem_singleton (p := IsCanonical)] at hright
    rw [hsame, hpasses, hsingle, hright]
    cases (s.tree.settingsFor target).toBool with
    | true =>
        rw [if_pos rfl, if_pos rfl]
        simpa using fun hprogram _ => hprogram
    | false =>
        rw [if_neg Bool.false_ne_true, if_neg Bool.false_ne_true]
        simp

/-- A text that is a program, but is written in another way than the formatter would
write it. -/
theorem isProgram_unspaced : IsProgram "LET x=1;" ∧ ¬ IsCanonical "LET x=1;" := by
  have hlex : tokenize "LET x=1;" = .ok
      [⟨.identifier, "LET", 0⟩, ⟨.identifier, "x", 4⟩, ⟨.operator, "=", 5⟩, ⟨.integer, "1", 6⟩,
        ⟨.operator, ";", 7⟩] := by
    rfl
  have hread : readProgram "LET x=1;" = .ok ⟨[⟨0, "x", none, some (.integer 6 1)⟩], []⟩ :=
    readProgram_eq_ok hlex rfl
  have hformat : (⟨[⟨0, "x", none, some (.integer 6 1)⟩], []⟩ : Program Offset).format
      = "LET x = 1;\n" := by
    rfl
  refine ⟨⟨_, hread⟩, fun ⟨program, hother, hsame⟩ => ?_⟩
  obtain rfl := Except.ok.inj (hread.symm.trans hother)
  rw [hformat] at hsame
  exact absurd hsame (by decide)

/-- A text that lexes and does not parse. -/
theorem not_isProgram_keyword : ¬ IsProgram "LET" := by
  have hlex : tokenize "LET" = .ok [⟨.identifier, "LET", 0⟩] := by
    rfl
  have hread : ∃ e, readProgram "LET" = .error e := ⟨_, readProgram_eq_error hlex rfl⟩
  obtain ⟨e, herror⟩ := hread
  rintro ⟨program, hok⟩
  rw [herror] at hok
  cases hok

/-- A text without other line ends than newlines is read as it was written. -/
theorem readText_of_readBytes {tree : FileTree} {path : Path} {text : String}
    (h : tree.readBytes path = .ok text.toUTF8)
    (hunified : Text.unifyNewlines text.toList = text.toList) : tree.readText path = .ok text := by
  have htext := textOfBytes_toUTF8 text
  rw [hunified, String.ofList_toList] at htext
  rw [FileTree.readText, h]
  exact htext

/-- Where the ways below a directory are in order already, a search finds those that end as
asked. -/
theorem search_of_sorted {tree : FileTree} {path : Path} (place : Location)
    (ways : List (List String)) (hdirectory : tree.reachesDirectory path = true)
    (hplace : tree.locate path = .ok place)
    (hways : (tree.entries.entries.flatMap (FileTree.waysBelow place ·.1)).eraseDups = ways)
    (hsorted : ways.Pairwise (FileTree.wayLe · ·)) (ending : String) :
    tree.search path ending
      = (ways.filter fun way => (way.getLast?.getD "").endsWith ending).map path.extend := by
  have hbelow : tree.below place = ways := by
    unfold FileTree.below
    dsimp only
    rw [hways, List.mergeSort_of_pairwise hsorted]
  rw [FileTree.search, hdirectory, hplace]
  dsimp only
  rw [hbelow]

/-- So the answer is right for a directory with a file that is no program and another one that has
to be changed. -/
theorem formatCheck_right_of_unspaced :
    let s : Surroundings :=
      { tree := ⟨["w"], ⟨[(["w", "a.plc"], .file "LET x=1;".toUTF8),
          (["w", "b.plc"], .file "LET".toUTF8)]⟩⟩ }
    (run s ["format", "--check"]).transcript.written = []
      ∧ ((run s ["format", "--check"]).ending.status = 0
        ↔ ∀ text ∈ ["LET x=1;", "LET"], IsCanonical text) := by
  intro s
  have hsearch : s.tree.search ⟨false, []⟩ programEnding
      = [⟨false, ["a.plc"]⟩, ⟨false, ["b.plc"]⟩] := by
    rw [search_of_sorted ["w"] [["a.plc"], ["b.plc"]] rfl rfl rfl (by decide)]
    decide +kernel
  have hfirst : s.tree.readText ⟨false, ["a.plc"]⟩ = .ok "LET x=1;" := readText_of_readBytes rfl rfl
  have hsecond : s.tree.readText ⟨false, ["b.plc"]⟩ = .ok "LET" := readText_of_readBytes rfl rfl
  have hsettings : (s.tree.settingsFor ⟨false, []⟩).toBool = true := rfl
  obtain ⟨hwritten, hanswer⟩ := formatCheck_right_iff (s := s) ofArguments_formatCheck
  refine ⟨hwritten, (hanswer ["LET x=1;", "LET"] rfl ?_).1.mpr ?_⟩
  · rw [hsearch]
    exact .cons hfirst (.cons hsecond .nil)
  · rw [if_pos hsettings]
    exact .inr ⟨_, List.mem_cons_self, isProgram_unspaced⟩

/-- It is wrong for a directory with nothing but a file that is no program: the same text is refused
when it comes in. -/
theorem formatCheck_wrong_of_keyword :
    let s : Surroundings :=
      { tree := ⟨["w"], ⟨[(["w", "b.plc"], .file "LET".toUTF8)]⟩⟩, input := "LET".toUTF8 }
    (∀ text, s.tree.readText ⟨false, ["b.plc"]⟩ = .ok text → ¬ IsCanonical text)
      ∧ (run s ["format", "--check"]).ending.status = 0
      ∧ (run s ["format", "--check", "--stdin"]).ending.status = 1 := by
  intro s
  have hsearch : s.tree.search ⟨false, []⟩ programEnding = [⟨false, ["b.plc"]⟩] := by
    rw [search_of_sorted ["w"] [["b.plc"]] rfl rfl rfl (by decide)]
    decide +kernel
  have hfile : s.tree.readText ⟨false, ["b.plc"]⟩ = .ok "LET" := readText_of_readBytes rfl rfl
  have hinput : textOfBytes s.input = .ok "LET" := textOfBytes_toUTF8 "LET"
  have hsettings : (s.tree.settingsFor ⟨false, []⟩).toBool = true := rfl
  have hreaches : s.tree.reaches ⟨false, []⟩ = true := rfl
  have hnot : ¬ IsCanonical "LET" := fun h => not_isProgram_keyword h.isProgram
  have hfiles : List.Forall₂ (s.tree.readText · = .ok ·)
      (s.tree.search ⟨false, []⟩ programEnding) ["LET"] := by
    rw [hsearch]
    exact .cons hfile .nil
  -- Files that are no programs do not count, and there is no other.
  have hpasses : Passes s ⟨false, []⟩ := by
    refine (passes_iff hfiles).mpr (.inr ⟨hsettings, fun text htext hprogram => ?_⟩)
    rw [List.mem_singleton.mp htext] at hprogram
    exact absurd hprogram not_isProgram_keyword
  refine ⟨fun text htext => ?_, ?_, ?_⟩
  · rw [hfile] at htext
    cases htext
    exact hnot
  · rcases (outcome_formatCheck ofArguments_formatCheck).2 hreaches with ⟨hexit, -⟩ | ⟨-, h⟩
    · exact hexit
    · exact absurd hpasses h
  · rcases (outcome_formatCheck_input hinput).2 with ⟨-, h⟩ | ⟨hexit, -⟩
    · exact absurd h hnot
    · exact hexit

end Proofs

end PlcLang
