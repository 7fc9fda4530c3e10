import PlcLang.Token

/-!
# `PlcLang.Proofs.Layout.Tokens`: the same tokens at other places

The layout of a text is where its tokens stand, and the words of the text are
what they are: `SameWords` says of two lists of tokens that only offsets differ.

`Token.moveTo place` moves a token from its offset `o` to `place o`. Two lists
with the same words come from one list, in which the offset of a token is its
position (`numbered`), each by a way of its own to place positions
(`placeOf`). So what is shown for all ways to move tokens holds of the two.
-/

set_option autoImplicit false

namespace PlcLang

/-- What a token is, wherever it stands: its kind and its text. -/
def Token.word (token : Token) : TokenKind × String :=
  (token.kind, token.literal)

/-- The token at another place, which depends on the place where it stands. -/
def Token.moveTo (place : Nat → Nat) (token : Token) : Token :=
  { token with offset := place token.offset }

namespace Proofs

/-- The same kinds and literals in the same order. -/
def SameWords (tokens others : List Token) : Prop :=
  tokens.map Token.word = others.map Token.word

/-- Lists with the same words are of one length. -/
theorem SameWords.length_eq {tokens others : List Token} (h : SameWords tokens others) :
    tokens.length = others.length := by
  have hlength := congrArg List.length h
  rwa [List.length_map, List.length_map] at hlength

/-- Words with positions for offsets, from `start` on. -/
def numberedFrom (start : Nat) : List (TokenKind × String) → List Token
  | [] => []
  | word :: rest => ⟨word.1, word.2, start⟩ :: numberedFrom (start + 1) rest

/-- The tokens with their positions for offsets. Lists with the same words have the
same numbered tokens. -/
def numbered (tokens : List Token) : List Token :=
  numberedFrom 0 (tokens.map Token.word)

/-- The offset of the token at a position. Behind the last token it is `0`, and is
never asked for. -/
def placeOf (tokens : List Token) (position : Nat) : Nat :=
  (tokens[position]?).elim 0 Token.offset

/-- Lists with the same words are numbered alike. -/
theorem numbered_congr {tokens others : List Token} (h : SameWords tokens others) :
    numbered tokens = numbered others := by
  rw [numbered, h, numbered]

/-- Words numbered from some position on, put in the places of their tokens. By
induction on the tokens, with those before them in `before`. -/
theorem map_moveTo_numberedFrom (before tokens : List Token) :
    (numberedFrom before.length (tokens.map Token.word)).map
      (Token.moveTo (placeOf (before ++ tokens))) = tokens := by
  -- The position of the first token is the number of those before it.
  induction tokens generalizing before with
  | nil => rfl
  | cons token rest ih =>
      have hplace : placeOf (before ++ token :: rest) before.length = token.offset := by
        simp [placeOf]
      have hrest := ih (before ++ [token])
      rw [List.length_append, List.append_assoc] at hrest
      rw [List.map_cons, numberedFrom, List.map_cons, Token.moveTo, hplace]
      exact congrArg (token :: ·) hrest

/-- Tokens are their numbered words, put in their places. -/
theorem map_moveTo_numbered (tokens : List Token) :
    (numbered tokens).map (Token.moveTo (placeOf tokens)) = tokens :=
  map_moveTo_numberedFrom [] tokens

/-- The positions of so many words are less than their end. -/
theorem offset_lt_of_mem_numberedFrom {start : Nat} {words : List (TokenKind × String)}
    {token : Token} (h : token ∈ numberedFrom start words) :
    token.offset < start + words.length := by
  induction words generalizing start with
  | nil => cases h
  | cons word rest ih =>
      rw [List.length_cons]
      rcases List.mem_cons.mp h with rfl | hrest
      · exact Nat.lt_add_of_pos_right (Nat.succ_pos _)
      · have hlt := ih hrest
        omega

/-- The offsets of numbered tokens are positions. -/
theorem offset_lt_of_mem_numbered {tokens : List Token} {token : Token}
    (h : token ∈ numbered tokens) : token.offset < tokens.length := by
  have hlt := offset_lt_of_mem_numberedFrom h
  rwa [Nat.zero_add, List.length_map] at hlt

end Proofs

end PlcLang
