import LosslessSyntax.Proofs.Green.Checked
import LosslessSyntax.Proofs.Interner
import LosslessSyntax.Proofs.Text.Cut

/-!
# Tokens and their trivia

The trivia of a token are the first and the last bytes of its text, and what is between them is its
proper text. A token is made exactly if both can be cut off between characters and do not overlap; so
what cuts them off later can never fail.

* `Trivia.Fit`: trivia that can be cut off a text;
* `Green.Token.trimmedTextChecked`: the text between them, cut out with checks;
* `Green.Token.Parted`: the three parts of a token;
* **`Green.Token.parted`**: every token has them;
* `Green.Token.Serves`: a request for a token, served exactly if the trivia fit;
* **`Green.Token.make_serves`**, **`Interner.token_serves`**: the two ways to get a token.
-/

namespace LosslessSyntax

/-- Trivia of the given lengths fit a text at both ends: they do not overlap, and the text can be cut
after the one and before the other. -/
structure Trivia.Fit (leading : Nat) (text : String) (trailing : Nat) : Prop where
  room : leading + trailing ≤ text.utf8ByteSize
  leading_cut : (⟨leading⟩ : String.Pos.Raw).IsValid text
  trailing_cut : (⟨text.utf8ByteSize - trailing⟩ : String.Pos.Raw).IsValid text

theorem Trivia.ofPieces_ok {pieces : List Piece} (h : total pieces ≤ maxSize) :
    ofPieces pieces = .ok ⟨pieces, h⟩ := dif_pos h

namespace Green

namespace Token

/-! ## Three parts -/

/-- The text of a token without its trivia, cut out of its text. -/
def trimmedTextChecked (token : Token) : Except Violation (Option String) := do
  return Text.slice? token.text (← token.trimmedSpanChecked)

/-- The text of a token is in three parts: as many bytes as the trivia before have, the text without
trivia, and as many bytes as the trivia after have. Its stretch and its text are cut out without a
check that fails. -/
structure Parted (token : Token) : Prop where
  span_ok : token.trimmedSpanChecked = .ok token.trimmedSpan
  text_ok : token.trimmedTextChecked = .ok (some token.trimmedText)
  parts : ∃ before after, token.text = before ++ token.trimmedText ++ after ∧
    before.utf8ByteSize = token.leading.length ∧ after.utf8ByteSize = token.trailing.length

variable (token : Token)

theorem fit : Trivia.Fit token.leading.length token.text token.trailing.length :=
  ⟨token.trivia_le, Text.isBoundary_toList_iff.1 token.leading_cut,
    Text.isBoundary_toList_iff.1 token.trailing_cut⟩

theorem exists_parts : ∃ before after, token.text = before ++ token.trimmedText ++ after ∧
    before.utf8ByteSize = token.leading.length ∧ after.utf8ByteSize = token.trailing.length ∧
    token.trimmedText.utf8ByteSize = token.trimmedSpan.stop - token.trimmedSpan.start := by
  have hle : token.leading.length ≤ token.text.utf8ByteSize - token.trailing.length :=
    token.trimmedSpan.start_le_stop
  obtain ⟨before, middle, after, hcut, hbefore, hmiddle⟩ :=
    Text.exists_parts token.leading_cut token.trailing_cut hle
  have htrimmed : token.trimmedText = String.ofList middle := by
    change String.ofList (Text.takeBytes (Text.dropBytes token.text.toList token.leading.length)
      (token.text.utf8ByteSize - token.trailing.length - token.leading.length)) = _
    rw [hcut, ← hbefore, Text.dropBytes_append, hbefore, ← hmiddle, Text.takeBytes_append]
  have htext : token.text = String.ofList before ++ String.ofList middle ++ String.ofList after := by
    rw [← String.ofList_append, ← String.ofList_append, List.append_assoc, ← hcut, String.ofList_toList]
  have hbytes : Text.bytes token.text.toList =
      Text.bytes before + (Text.bytes middle + Text.bytes after) := by
    rw [hcut, Text.bytes_append, Text.bytes_append]
  have hfit := token.trivia_le
  rw [Text.bytes_toList] at hbytes
  refine ⟨String.ofList before, String.ofList after, by rw [htrimmed]; exact htext, ?_, ?_, ?_⟩
  · rw [Text.utf8ByteSize_ofList, hbefore]
  · rw [Text.utf8ByteSize_ofList]
    omega
  · rw [htrimmed, Text.utf8ByteSize_ofList, hmiddle]
    rfl

variable {token} in
/-- **Every token is in three parts**, if its text is in bounds. -/
theorem parted (h : token.width ≤ maxSize) : token.Parted := by
  obtain ⟨before, after, htext, hbefore, hafter, hsize⟩ := token.exists_parts
  have hspan := trimmedSpanChecked_eq h
  refine ⟨hspan, ?_, before, after, htext, hbefore, hafter⟩
  have hstart : token.trimmedSpan.start = before.utf8ByteSize := hbefore.symm
  have hle := token.trimmedSpan.start_le_stop
  have hslice : Text.slice? token.text token.trimmedSpan = some token.trimmedText := by
    rw [htext]
    exact Text.slice?_append hstart (by omega)
  rw [trimmedTextChecked, hspan]
  exact congrArg Except.ok hslice

/-! ## Requests -/

/-- A request for a token is served exactly if the trivia fit the text, and then with a token that has
these contents and is in three parts. -/
structure Serves {α : Type} (request : Make α) (tokenOf : α → Token) (leading : Trivia) (kind : Kind)
    (text : String) (trailing : Trivia) : Prop where
  served_iff : ∀ supply, (∃ given next, request supply = .ok given next) ↔
    Trivia.Fit leading.length text trailing.length
  parted : ∀ supply given next, request supply = .ok given next →
    Interner.tokenKey (tokenOf given) = (kind, text, leading, trailing) ∧ (tokenOf given).Parted

end Token

section

variable {leading trailing : Trivia} {kind : Kind} {text : String}

theorem Token.width_le_of_key {token : Token} (hsize : text.utf8ByteSize ≤ maxSize)
    (hkey : Interner.tokenKey token = (kind, text, leading, trailing)) : token.width ≤ maxSize := by
  have htext : token.text = text := (Prod.mk.inj (Prod.mk.inj hkey).2).1
  rw [Token.width, htext]
  exact hsize

theorem Token.fit_of_key {token : Token}
    (hkey : Interner.tokenKey token = (kind, text, leading, trailing)) :
    Trivia.Fit leading.length text trailing.length := by
  obtain ⟨-, rfl, rfl, rfl⟩ : token.kind = kind ∧ token.text = text ∧ token.leading = leading ∧
      token.trailing = trailing := by simpa [Interner.tokenKey] using hkey
  exact token.fit

theorem Token.make_ok (h : Trivia.Fit leading.length text trailing.length) (supply : Nat) :
    ∃ token, Token.make leading kind text trailing supply = .ok token (supply + 1) := by
  have hcut := And.intro (Text.isBoundary_toList_iff.2 h.leading_cut)
    (Text.isBoundary_toList_iff.2 h.trailing_cut)
  rw [Token.make_run, dif_pos h.room, dif_pos hcut]
  exact ⟨_, rfl⟩

theorem Token.make_key {token : Token} {supply next : Nat}
    (hrun : Token.make leading kind text trailing supply = .ok token next) :
    Interner.tokenKey token = (kind, text, leading, trailing) := by
  rw [Token.make_run] at hrun
  split_ifs at hrun
  cases hrun
  rfl

/-- **Making a token** succeeds exactly if the trivia fit. -/
theorem Token.make_serves (hsize : text.utf8ByteSize ≤ maxSize) :
    Token.Serves (Token.make leading kind text trailing) (fun token => token) leading kind text
      trailing where
  served_iff supply := by
    refine ⟨fun ⟨token, next, hrun⟩ => Token.fit_of_key (Token.make_key hrun), fun h => ?_⟩
    obtain ⟨token, hrun⟩ := Token.make_ok h supply
    exact ⟨token, _, hrun⟩
  parted supply token next hrun :=
    have hkey := Token.make_key hrun
    ⟨hkey, Token.parted (Token.width_le_of_key hsize hkey)⟩

end

end Green

open Green

/-- **Asking an interner for a token** succeeds exactly if the trivia fit, whatever it keeps: a kept
token has the same contents, so its trivia fit as well. -/
theorem Interner.token_serves (interner : Interner) {leading trailing : Trivia} {kind : Kind}
    {text : String} (hsize : text.utf8ByteSize ≤ maxSize) :
    Token.Serves (interner.token leading kind text trailing) Prod.fst leading kind text trailing where
  served_iff supply := by
    refine ⟨fun ⟨⟨token, after⟩, next, hrun⟩ => Token.fit_of_key (token_cases hrun).1, fun h => ?_⟩
    cases hfind : interner.tokens.find? (tokenHash interner.hashing leading kind text trailing)
      (tokenMatches leading kind text trailing) with
    | some kept =>
      rw [token_of_find hfind]
      exact ⟨_, _, rfl⟩
    | none =>
      obtain ⟨token, hrun⟩ := Token.make_ok h supply
      rw [token_of_miss hfind]
      change ∃ given next, EStateM.bind (Token.make leading kind text trailing) _ supply = _
      rw [EStateM.bind, hrun]
      exact ⟨_, _, rfl⟩
  parted supply given next hrun :=
    have hkey := (token_cases hrun).1
    ⟨hkey, Token.parted (Token.width_le_of_key hsize hkey)⟩

end LosslessSyntax
