import LosslessSyntax.Proofs.Facade
import LosslessSyntax.Proofs.Green.Trimming
import LosslessSyntax.Proofs.Placed.Checked

/-!
# Trivia of all sessions

Whatever lengths a caller gives for the trivia of a token, the token is refused if they do not fit its
text; if it is made, its trivia can be cut off, wherever the token stands.

* `Placed.Token.Stands.trimmedSpan_eq`: the stretch of a placed token without its trivia;
* **`Session.trivia_partition`**: all requests for tokens, and the tokens of all sessions.
-/

namespace LosslessSyntax

namespace Placed

section

variable {tree : Tree} {token : Token}

theorem Token.Stands.trimmedSpan_eq (standing : token.Stands tree) (fits : tree.Fits) :
    token.trimmedSpan = .ok ⟨token.green.trimmedSpan.start + token.start,
      token.green.trimmedSpan.stop + token.start,
      Nat.add_le_add_right token.green.trimmedSpan.start_le_stop _⟩ := by
  have hstop := standing.stop_le fits
  have hinside : token.green.trimmedSpan.stop ≤ token.green.width := Nat.sub_le _ _
  exact if_pos (by omega)

end

end Placed

namespace Session

open Green

/-- **Trivia are cut off a token between characters, or the token is not made.** To make a token with
trivia, or to ask an interner for it, succeeds exactly if the trivia do not overlap and both cuts fall
between characters of the text. Every token so made has the given contents; its text is the bytes of
the trivia before, the text without trivia, and the bytes of the trivia after, and no check fails when
the trivia are cut off. In a tree the stretch of a token without its trivia lies within its whole
stretch, and is as long as that text. -/
theorem trivia_partition :
    (∀ (leading trailing : List Trivia.Piece) (kind : Kind) (text : String),
      Trivia.total leading ≤ maxSize → Trivia.total trailing ≤ maxSize →
      text.utf8ByteSize ≤ maxSize → ∃ before after : Trivia,
        Trivia.ofPieces leading = .ok before ∧ before.length = Trivia.total leading ∧
        Trivia.ofPieces trailing = .ok after ∧ after.length = Trivia.total trailing ∧
        Token.Serves (Token.make before kind text after) (fun token => token) before kind text after ∧
        ∀ interner : Interner, Token.Serves (interner.token before kind text after) Prod.fst before kind
          text after) ∧
    ∀ (s : Session) (tree : Placed.Tree), s.Reachable → tree.green.toElement ∈ s.parts →
      tree.start + tree.green.width ≤ maxSize → ∀ token : Placed.Token, token.Stands tree →
        token.green.Parted ∧ ∃ whole trimmed, token.span = .ok whole ∧
          token.trimmedSpanChecked = .ok trimmed ∧ token.trimmedSpan = .ok trimmed ∧
          whole.covers trimmed = true ∧
          trimmed.stop - trimmed.start = token.green.trimmedText.utf8ByteSize := by
  refine ⟨fun leading trailing kind text hleading htrailing hsize => ?_,
    fun s tree reached held room token standing => ?_⟩
  · exact ⟨⟨leading, hleading⟩, ⟨trailing, htrailing⟩, Trivia.ofPieces_ok hleading, rfl,
      Trivia.ofPieces_ok htrailing, rfl, Token.make_serves hsize,
      fun interner => interner.token_serves hsize⟩
  · have fits := fits_of_reachable reached held room
    have hstop := standing.stop_le fits
    have hspan := standing.trimmedSpan_eq fits
    obtain ⟨-, -, -, -, -, hsize⟩ := token.green.exists_parts
    have hinside : token.green.trimmedSpan.stop ≤ token.green.width := Nat.sub_le _ _
    refine ⟨Token.parted (by omega),
      ⟨token.start, token.start + token.green.width, Nat.le_add_right _ _⟩, _, if_pos hstop,
      (token.trimmedSpanChecked_eq standing fits).trans hspan, hspan, ?_, ?_⟩
    · rw [Span.covers, Bool.and_eq_true, decide_eq_true_iff, decide_eq_true_iff]
      dsimp only
      omega
    · dsimp only
      omega

/-- A name of two bytes, with a blank before it and a line end after it. -/
def accented : Token :=
  ⟨0, .name, ⟨[⟨.whitespace, 1⟩], by decide⟩, " é\n", ⟨[⟨.newline, 1⟩], by decide⟩, by decide,
    by decide, by decide⟩

/-- A node around it. -/
def accentedRef : Green.Node := ⟨⟨1, .nameRef, .plain, 4, #[0], none⟩, #[.token accented]⟩

theorem accentedRef_reachable : ∃ s : Session, s.Reachable ∧ accentedRef.toElement ∈ s.parts := by
  have h1 : Reachable ⟨1, [.token accented], [], []⟩ :=
    .step .start (.token accented.leading .name " é\n" accented.trailing)
  have hslots : ∀ e ∈ #[Element.token accented], e ∈ [Element.token accented] := by simp
  have h2 : Reachable ⟨2, [accentedRef.toElement, .token accented], [], []⟩ :=
    .step h1 (.node (.plain .nameRef #[.token accented] hslots))
  exact ⟨_, h2, List.mem_cons_self⟩

/-- The name is what is left of its text without the blank and the line end; no token has trivia of
two bytes there, which would end inside the name. At offset seven, the name is two bytes long. -/
theorem trivia_partition_accented :
    (∃ token, Token.make accented.leading .name " é\n" accented.trailing 0 = .ok token 1 ∧
      token.trimmedTextChecked = .ok (some "é")) ∧
    (∃ before, Trivia.ofPieces [⟨.whitespace, 2⟩] = .ok before ∧
      ¬ ∃ token next, Token.make before .name " é\n" .none 0 = .ok token next) ∧
    ∃ trimmed, ((Placed.Tree.root ⟨0, 7, accentedRef⟩).tokenBelow 0 accented).trimmedSpan =
      .ok trimmed ∧ trimmed.stop - trimmed.start = 2 := by
  obtain ⟨s, reached, held⟩ := accentedRef_reachable
  have hmake : Token.make accented.leading .name " é\n" accented.trailing 0 = .ok accented 1 := rfl
  refine ⟨⟨accented, hmake, ?_⟩, ?_, ?_⟩
  · obtain ⟨before, after, hbefore, -, hafter, -, hserves, -⟩ := trivia_partition.1
      [⟨.whitespace, 1⟩] [⟨.newline, 1⟩] .name " é\n" (by decide) (by decide) (by decide)
    cases hbefore
    cases hafter
    exact (hserves.parted 0 accented 1 hmake).2.text_ok
  · obtain ⟨before, after, hbefore, -, hafter, -, hserves, -⟩ := trivia_partition.1
      [⟨.whitespace, 2⟩] [] .name " é\n" (by decide) (by decide) (by decide)
    cases hafter
    refine ⟨before, hbefore, fun hmade => ?_⟩
    have hfit := (hserves.served_iff 0).1 hmade
    cases hbefore
    exact absurd (Text.isBoundary_toList_iff.2 hfit.leading_cut) (by decide)
  · have standing : Placed.Token.Stands ⟨0, 7, accentedRef⟩
        ((Placed.Tree.root ⟨0, 7, accentedRef⟩).tokenBelow 0 accented) := .child .root rfl
    obtain ⟨-, whole, trimmed, -, -, htrimmed, -, hsize⟩ :=
      trivia_partition.2 s ⟨0, 7, accentedRef⟩ reached held (by decide) _ standing
    exact ⟨trimmed, htrimmed, hsize.trans (by decide)⟩

end Session

end LosslessSyntax
