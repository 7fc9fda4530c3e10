import Mathlib.Data.List.Basic
import PlcLang.Toml.Reader

/-!
# `PlcLang.Proofs.Toml.Tables`: what has been said stays

A settings file binds each key once. So a text that a key leads to at some point of the file is the
one that it leads to in the end, whatever stands in the lines below (`says_of_statementsOf`).

All statements change tables by `changeAt`, which follows a key through tables and changes the one
that it leads to. What is changed on the way is put back in its place (`Says.set_table`), and what
is put in the table at the end is new there, or one more table of an array (`Says.set`). So there is
one lemma for the way and one for each of the three changes (`KeepsTexts`), and the statements only
put them together.

Of a line with a bare key the reading is known as a whole: it opens the table of the key
(`statement_heading_bare`), or binds the key to the value that begins behind the equals sign
(`statement_bare`).
-/

set_option autoImplicit false

namespace PlcLang

namespace Proofs

open Toml

/-- The key leads through tables to the text. -/
inductive Says (text : String) : Key → Table → Prop where
  | here {name : String} {entries : Table} (h : entries.get? name = some (.string text)) :
      Says text [name] entries
  | within {name : String} {key : Key} {entries inner : Table}
      (h : entries.get? name = some (.table inner)) (hinner : Says text key inner) :
      Says text (name :: key) entries

/-- Whatever text a key leads to, it leads to after the change. -/
def KeepsTexts (change : Table → Option Table) : Prop :=
  ∀ entries changed, change entries = some changed →
    ∀ text key, Says text key entries → Says text key changed

/-- Whatever text a key leads to in the one draft, it leads to in the other. -/
def SaysMore (draft next : Draft) : Prop :=
  ∀ text key, Says text key draft.root → Says text key next.root

/-! ### Changes of a table -/

section

variable {text name : String} {key : Key} {entries : Table}

/-- To set one name says nothing of any other. -/
theorem get?_set_of_ne {other : String} (h : other ≠ name) (value : Toml) :
    (entries.set name value).get? other = entries.get? other := by
  rw [Bindings.get?_set, if_neg (by simpa using h)]

/-- A name that has been set has the value that it has been set to. -/
theorem get?_set_self (entries : Table) (name : String) (value : Toml) :
    (entries.set name value).get? name = some value := by
  rw [Bindings.get?_set, if_pos (beq_self_eq_true name)]

/-- Nothing is lost where no text and no table was. -/
theorem Says.set (h : Says text key entries) (htext : ∀ s, entries.get? name ≠ some (.string s))
    (htable : ∀ inner, entries.get? name ≠ some (.table inner)) (value : Toml) :
    Says text key (entries.set name value) := by
  cases h with
  | @here other _ hother =>
      have hne : other ≠ name := fun heq => htext text (heq ▸ hother)
      exact .here (by rwa [get?_set_of_ne hne])
  | @within other _ _ inner hother hinner =>
      have hne : other ≠ name := fun heq => htable inner (heq ▸ hother)
      exact .within (by rwa [get?_set_of_ne hne]) hinner

/-- Nothing is lost where a table is changed in which nothing is lost. -/
theorem Says.set_table (h : Says text key entries) {inner changed : Table}
    (hname : entries.get? name = some (.table inner))
    (hinner : ∀ key, Says text key inner → Says text key changed) :
    Says text key (entries.set name (.table changed)) := by
  cases h with
  | @here other _ hother =>
      have hne : other ≠ name := by
        rintro rfl
        rw [hname] at hother
        cases hother
      exact .here (by rwa [get?_set_of_ne hne])
  | @within other _ _ found hother hfound =>
      by_cases heq : other = name
      · subst heq
        obtain rfl : inner = found := by
          rw [hname] at hother
          exact Toml.table.inj (Option.some.inj hother)
        exact .within (get?_set_self entries other _) (hinner _ hfound)
      · exact .within (by rwa [get?_set_of_ne heq]) hfound

end

/-- Where nothing is changed, all texts stay. This is the change at the end of a
path that has only to be there. -/
theorem keepsTexts_some : KeepsTexts some := by
  rintro entries _ ⟨⟩ text key h
  exact h

/-- A name can be bound only once. So a new binding is of a name that no text had,
and all texts stay. -/
theorem keepsTexts_bind (name : String) (value : Toml) : KeepsTexts (Table.bind name value) := by
  intro entries changed h text key hsaid
  unfold Table.bind at h
  split at h
  · cases h
  · next hcontains =>
      have hnone : entries.get? name = none := by
        simpa [Bindings.contains] using hcontains
      obtain rfl := Option.some.inj h
      exact hsaid.set (by simp [hnone]) (by simp [hnone]) value

/-- One more table of an array takes no text away: before it was there, the array's
last table was what names led to, and an array is no text. -/
theorem keepsTexts_appendTo (name : String) : KeepsTexts (Table.appendTo name) := by
  intro entries changed h text key hsaid
  unfold Table.appendTo at h
  split at h
  · next hnone =>
      obtain rfl := Option.some.inj h
      exact hsaid.set (by simp [hnone]) (by simp [hnone]) _
  · next hitems =>
      obtain rfl := Option.some.inj h
      exact hsaid.set (by simp [hitems]) (by simp [hitems]) _
  · cases h

/-- Wherever the change is made. -/
theorem KeepsTexts.changeAt {change : Table → Option Table} (hchange : KeepsTexts change)
    (intoArrays : Bool) (key : Key) : KeepsTexts (Table.changeAt intoArrays change key) := by
  -- The way is followed one name at a time.
  induction key with
  | nil => exact hchange
  | cons name key ih =>
      intro entries changed h text path hsaid
      unfold Table.changeAt at h
      split at h
      · next hnone =>
          obtain ⟨inner, -, rfl⟩ := Option.map_eq_some_iff.mp h
          exact hsaid.set (by simp [hnone]) (by simp [hnone]) _
      · next inner hinner =>
          obtain ⟨inner', hchanged, rfl⟩ := Option.map_eq_some_iff.mp h
          exact hsaid.set_table hinner fun path => ih inner inner' hchanged text path
      · next items hitems =>
          split at h
          · obtain ⟨last, -, rfl⟩ := Option.map_eq_some_iff.mp h
            exact hsaid.set (by simp [hitems]) (by simp [hitems]) _
          · cases h
      · cases h

/-- A value that is bound at the end of a path takes no text away, since each of its
steps keeps texts and so does the binding itself. -/
theorem keepsTexts_bindAt (intoArrays : Bool) (key : Key) (value : Toml) :
    KeepsTexts (Table.bindAt intoArrays key value) := by
  intro entries changed h
  unfold Table.bindAt at h
  split at h
  · exact (keepsTexts_bind _ value).changeAt intoArrays _ entries changed h
  · cases h

/-! ### Statements -/

variable {draft next : Draft} {key : Key} {text rest : List Char}

/-- To open a table says at least as much as before. -/
theorem saysMore_of_openTable (h : draft.openTable key = some next) : SaysMore draft next := by
  unfold Draft.openTable at h
  dsimp only at h
  split at h
  · cases h
  · obtain ⟨root, hroot, rfl⟩ := Option.map_eq_some_iff.mp h
    exact keepsTexts_some.changeAt true key _ root hroot

/-- To begin one more table of an array does, too. -/
theorem saysMore_of_openItem (h : draft.openItem key = some next) : SaysMore draft next := by
  unfold Draft.openItem at h
  dsimp only at h
  split at h
  · cases h
  · split at h
    · cases h
    · obtain ⟨root, hroot, rfl⟩ := Option.map_eq_some_iff.mp h
      exact (keepsTexts_appendTo _).changeAt true _ _ root hroot

/-- To bind a key below the table that is open does, too. -/
theorem saysMore_of_assign {value : Toml} (h : draft.assign key value = some next) :
    SaysMore draft next := by
  unfold Draft.assign at h
  dsimp only at h
  split at h
  · cases h
  · obtain ⟨root, hroot, rfl⟩ := Option.map_eq_some_iff.mp h
    exact keepsTexts_bindAt true _ value _ root hroot

/-- Whichever kind of heading a line has, all that has been said stays. -/
theorem saysMore_of_heading (h : heading draft text = some (next, rest)) : SaysMore draft next := by
  unfold heading at h
  split at h
  · obtain ⟨⟨names, behind⟩, -, h⟩ := Option.bind_eq_some_iff.mp h
    obtain ⟨opened, hopened, h⟩ := Option.bind_eq_some_iff.mp h
    split at h
    · obtain ⟨rfl, -⟩ := Prod.mk.inj (Option.some.inj h)
      exact saysMore_of_openItem hopened
    · cases h
  · obtain ⟨⟨names, behind⟩, -, h⟩ := Option.bind_eq_some_iff.mp h
    obtain ⟨opened, hopened, h⟩ := Option.bind_eq_some_iff.mp h
    split at h
    · obtain ⟨rfl, -⟩ := Prod.mk.inj (Option.some.inj h)
      exact saysMore_of_openTable hopened
    · cases h

/-- A line that binds a key says at least as much as was said before it. -/
theorem saysMore_of_assignment (h : assignment draft text = some (next, rest)) :
    SaysMore draft next := by
  unfold assignment at h
  obtain ⟨⟨names, behind⟩, -, h⟩ := Option.bind_eq_some_iff.mp h
  dsimp only at h
  split at h
  · obtain ⟨⟨value, behind⟩, -, h⟩ := Option.bind_eq_some_iff.mp h
    obtain ⟨assigned, hassigned, h⟩ := Option.bind_eq_some_iff.mp h
    obtain ⟨rfl, -⟩ := Prod.mk.inj (Option.some.inj h)
    exact saysMore_of_assign hassigned
  · cases h

/-- A statement is one of these, so each statement says at least as much as those
above it. -/
theorem saysMore_of_statement (h : statement draft text = some (next, rest)) :
    SaysMore draft next := by
  unfold statement at h
  split at h
  · obtain ⟨rfl, -⟩ := Prod.mk.inj (Option.some.inj h)
    exact fun _ _ hsaid => hsaid
  · exact saysMore_of_heading h
  · split at h
    · obtain ⟨rfl, -⟩ := Prod.mk.inj (Option.some.inj h)
      exact fun _ _ hsaid => hsaid
    · split at h
      · exact saysMore_of_assignment h
      · cases h

/-- Behind a statement the file ends, or a line below goes on. -/
theorem exists_statement_of_statementsOf {fuel : Nat} {root : Table}
    (h : statementsOf (fuel + 1) draft text = some root) :
    ∃ next rest, statement draft (skipGap text) = some (next, rest)
      ∧ (root = next.root ∨ ∃ below, statementsOf fuel next below = some root) := by
  unfold statementsOf at h
  obtain ⟨⟨next, rest⟩, hstatement, h⟩ := Option.bind_eq_some_iff.mp h
  obtain ⟨behind, -, h⟩ := Option.bind_eq_some_iff.mp h
  refine ⟨next, rest, hstatement, ?_⟩
  split at h
  · exact .inl (Option.some.inj h).symm
  · exact .inr ⟨_, h⟩
  · cases h

/-- What has been said is said by the file. -/
theorem says_of_statementsOf {fuel : Nat} {root : Table}
    (h : statementsOf fuel draft text = some root) {said : String}
    (hsaid : Says said key draft.root) : Says said key root := by
  induction fuel generalizing draft text with
  | zero => cases h
  | succ fuel ih =>
      obtain ⟨next, rest, hstatement, hend⟩ := exists_statement_of_statementsOf h
      have hnext := saysMore_of_statement hstatement said key hsaid
      rcases hend with rfl | ⟨below, hbelow⟩
      · exact hnext
      · exact ih hbelow hnext

/-- A line that changes the draft, or fails to, leaves the lines below to the draft it has made. -/
theorem statementsOf_bind {fuel : Nat} {changed : Option Draft}
    (h : statement draft (skipGap text) = changed.map (·, '\n' :: rest)) :
    statementsOf (fuel + 1) draft text
      = changed.bind fun next => statementsOf fuel next rest := by
  rw [statementsOf, h]
  cases changed with
  | none => rfl
  | some next => rfl

/-- A line with a statement is read, and the file goes on with the line below it.
The fuel is the number of lines that are left. -/
theorem statementsOf_line {fuel : Nat}
    (h : statement draft (skipGap text) = some (next, '\n' :: rest)) :
    statementsOf (fuel + 1) draft text = statementsOf fuel next rest :=
  have hchanged : statement draft (skipGap text) = (some next).map (·, '\n' :: rest) := h
  statementsOf_bind hchanged

/-! ### Bare keys -/

/-- A text is cut where the first character stands that does not belong to its front
part. The part behind may be empty. -/
theorem takeWhile_append_of_head? {p : Char → Bool} (front : List Char) {back : List Char}
    (hfront : ∀ c ∈ front, p c = true) (hback : ∀ c ∈ back.head?, p c = false) :
    (front ++ back).takeWhile p = front ∧ (front ++ back).dropWhile p = back := by
  rw [List.takeWhile_append_of_pos hfront, List.dropWhile_append_of_pos hfront]
  cases back with
  | nil => exact ⟨List.append_nil front, rfl⟩
  | cons c back =>
      have hc : ¬ p c = true := Bool.eq_false_iff.mp (hback c rfl)
      rw [List.takeWhile_cons_of_neg hc, List.dropWhile_cons_of_neg hc]
      exact ⟨List.append_nil front, rfl⟩

/-- Of a line that begins with no gap, none is skipped. -/
theorem skipGap_of_head? {line : List Char} (h : ∀ c ∈ line.head?, isGap c = false) :
    skipGap line = line :=
  (takeWhile_append_of_head? [] (fun _ hc => absurd hc List.not_mem_nil) h).2

/-- A character of a key is none that cannot be in one: neither a dot nor a bracket
nor an equals sign. -/
theorem ne_of_isKeyChar {c d : Char} (h : isKeyChar c = true) (hd : isKeyChar d = false) :
    c ≠ d := fun heq => by
  rw [heq, hd] at h
  cases h

/-- No gap is in front of a word. -/
theorem skipGap_word {word : List Char} (hne : word ≠ []) (hword : ∀ c ∈ word, isKeyChar c = true)
    (behind : List Char) : skipGap (word ++ behind) = word ++ behind := by
  obtain ⟨c, word, rfl⟩ := List.exists_cons_of_ne_nil hne
  have hc := hword c List.mem_cons_self
  refine skipGap_of_head? fun d hd => ?_
  obtain rfl := Option.some.inj hd
  rw [isGap, beq_false_of_ne (ne_of_isKeyChar hc (by decide)),
    beq_false_of_ne (ne_of_isKeyChar hc (by decide)), Bool.or_false]

/-- A bare key ends where its word does, if no dot follows. -/
theorem key_bare {word : List Char} (behind : List Char) (hne : word ≠ [])
    (hword : ∀ c ∈ word, isKeyChar c = true) (hbehind : ∀ c ∈ behind.head?, isKeyChar c = false)
    (hdot : (skipGap behind).head? ≠ some '.') :
    Toml.key (word ++ behind) = some ([String.ofList word], skipGap behind) := by
  obtain ⟨htake, hdrop⟩ := takeWhile_append_of_head? word hword hbehind
  obtain ⟨c, word, rfl⟩ := List.exists_cons_of_ne_nil hne
  have hc := hword c List.mem_cons_self
  have hname : keyName (c :: word ++ behind) = some (String.ofList (c :: word), behind) := by
    unfold keyName
    split
    · next heq => exact absurd (List.cons.inj heq).1 (ne_of_isKeyChar hc (by decide))
    · next heq => exact absurd (List.cons.inj heq).1 (ne_of_isKeyChar hc (by decide))
    · rw [htake, hdrop]
      rfl
  unfold Toml.key
  rw [List.cons_append, List.length_cons, keyOf, ← List.cons_append, hname]
  dsimp only [Option.bind_eq_bind, Option.bind_some]
  split
  · next heq => exact absurd (by rw [heq]; rfl) hdot
  · rfl

/-- A heading of a bare key opens the table of the key. -/
theorem statement_heading_bare (draft : Draft) (word : List Char) (hne : word ≠ [])
    (hword : ∀ c ∈ word, isKeyChar c = true) (behind : List Char) :
    statement draft (skipGap ('[' :: (word ++ ']' :: behind)))
      = (draft.openTable [String.ofList word]).map (·, behind) := by
  have hkey := key_bare (']' :: behind) hne hword
    (fun c hc => by obtain rfl := Option.some.inj hc; decide) (by simp [skipGap, isGap])
  have hstart : skipGap (']' :: behind) = ']' :: behind := rfl
  obtain ⟨c, word, rfl⟩ := List.exists_cons_of_ne_nil hne
  have hc := hword c List.mem_cons_self
  show heading draft (c :: word ++ ']' :: behind) = _
  unfold heading
  split
  · next heq => exact absurd (List.cons.inj heq).1 (ne_of_isKeyChar hc (by decide))
  · rw [skipGap_word hne hword, hkey, hstart]
    simp only [Option.bind_eq_bind, Option.bind_some]
    cases draft.openTable [String.ofList (c :: word)] with
    | none => rfl
    | some next => rfl

/-- What a bare key is bound to begins behind the equals sign. -/
theorem statement_bare (draft : Draft) (word : List Char) (hne : word ≠ [])
    (hword : ∀ c ∈ word, isKeyChar c = true) {behind : List Char}
    (hbehind : ∀ c ∈ behind.head?, isGap c = false) :
    statement draft (skipGap (word ++ ' ' :: '=' :: ' ' :: behind))
      = (value behind).bind fun read =>
          (draft.assign [String.ofList word] read.1).map (·, read.2) := by
  have hkey := key_bare (' ' :: '=' :: ' ' :: behind) hne hword
    (fun c hc => by obtain rfl := Option.some.inj hc; decide) (by simp [skipGap, isGap])
  have hequals : skipGap (' ' :: '=' :: ' ' :: behind) = '=' :: ' ' :: behind := rfl
  have hvalue : skipGap (' ' :: behind) = behind := skipGap_of_head? hbehind
  obtain ⟨c, word, rfl⟩ := List.exists_cons_of_ne_nil hne
  have hc := hword c List.mem_cons_self
  -- A statement that begins with a character of a key is neither a comment nor the head of a
  -- table.
  have hassigns : statement draft (c :: word ++ ' ' :: '=' :: ' ' :: behind)
      = assignment draft (c :: word ++ ' ' :: '=' :: ' ' :: behind) := by
    rw [List.cons_append]
    unfold statement
    split
    · next heq => cases heq
    · next heq => exact absurd (List.cons.inj heq).1 (ne_of_isKeyChar hc (by decide))
    · next heq =>
        cases heq
        rw [if_neg, if_pos (.inl hc)]
        exact not_or.mpr ⟨ne_of_isKeyChar hc (by decide), ne_of_isKeyChar hc (by decide)⟩
  rw [skipGap_word hne hword, hassigns, assignment, hkey, hequals]
  simp only [Option.bind_eq_bind, Option.bind_some, hvalue]
  cases value behind with
  | none => rfl
  | some read =>
      rw [Option.bind_some, Option.bind_some]
      cases draft.assign [String.ofList (c :: word)] read.1 with
      | none => simp
      | some next => simp

end Proofs

end PlcLang
