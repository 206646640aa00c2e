import PackageDoc.Proofs.Tokens.Tiling
import PackageDoc.Proofs.Syntax.Reading

namespace PackageDoc

/-!
# String literals decode to what was quoted

What reads a text, where the lexer finds a literal to end and what the escapes in it stand for agree
for every text, whichever quotes it is written between.

* `IsStringLiteral` — a text that is one string literal and nothing else;
* `isStringLiteral_of_isRead` — a text is one if its characters are read as one;
* `literal_decodes` — quoting a text gives a literal, and decoding it gives the text.
-/

/-- The text is one string literal: its tokens are that literal, from the first byte to the last, and
    the ends of the line and of the text.  Nothing is wrong with it. -/
def IsStringLiteral (text : List Char) : Prop :=
  ∃ newline eof : Token, tokenize (String.ofList text) =
      ([⟨.string, ⟨0, Text.byteLength text⟩, String.ofList text⟩, newline, eof], []) ∧
    newline.kind = .newline ∧ eof.kind = .eof

/-- A token whose text is all of the source spans all of it. -/
theorem Tiled.span_eq {source : List Char} {tokens : List Token} {t : Token}
    (h : Tiled source tokens) (ht : t ∈ tokens) (htext : t.text = String.ofList source) :
    t.span = ⟨0, Text.byteLength source⟩ := by
  obtain ⟨before, inside, behind, hsource, hstart, hstop, hinside⟩ := h.cut t ht
  obtain rfl : source = inside := String.ofList_injective (htext.symm.trans hinside)
  have hlength := congrArg List.length hsource
  simp only [List.length_append] at hlength
  have hbefore : before = [] := List.length_eq_zero_iff.mp (by omega)
  rw [hbefore, Text.byteLength] at hstart
  rw [hstart, Nat.zero_add] at hstop
  rw [← hstart, ← hstop]

/-- A text is a string literal if a lexeme with its characters is read as one. -/
theorem isStringLiteral_of_isRead {text more : List Char} {c : Char} (hcons : text = c :: more)
    (hc : Lexeme.startsToken c = true) (hmark : c.toNat ≠ 0xfeff)
    (h : Lexeme.IsRead ⟨.string, text, false⟩ []) : IsStringLiteral text := by
  have hall : Lexeme.AllRead [⟨.string, text, false⟩] [] := ⟨h, trivial⟩
  obtain ⟨ts, newline, eof, htokens, hspells, hnewline, heof⟩ :=
    tokenize_spell rfl hcons hc hmark hall rfl
  have hspell : Lexeme.spell [⟨.string, text, false⟩] = text := by simp [Lexeme.gap]
  rw [hspell] at htokens
  obtain ⟨t, others, ⟨hkind, htext⟩, hothers, rfl⟩ := List.forall₂_cons_right_iff.mp hspells
  obtain rfl := List.forall₂_nil_right_iff.mp hothers
  obtain ⟨_, _, htext', hlead, htiles⟩ := exists_tiles_tokenize (String.ofList text)
  have htiled := htiles.tiled hlead
  rw [← htext', htokens, String.toList_ofList] at htiled
  have hspan := htiled.span_eq (t := t) (by simp) htext
  refine ⟨newline, eof, ?_, hnewline, heof⟩
  rw [htokens, ← hspan, ← htext, ← show t.kind = .string from hkind]
  rfl

/-- **A text between quotes of any kind is one literal, which decodes to the text**, and so is a text
    that needs no escape behind the letter of a raw literal. -/
theorem literal_decodes (q : Quotes) (value : String) :
    (IsStringLiteral (q.literal value.toList) ∧
      decodeLiteral (String.ofList (q.literal value.toList)) = ⟨value, false, false⟩) ∧
    (q.Verbatim value.toList → IsStringLiteral (q.raw value.toList) ∧
      decodeLiteral (String.ofList (q.raw value.toList)) = ⟨value, false, false⟩) := by
  have hquote : Lexeme.startsToken q.mark = true ∧ q.mark.toNat ≠ 0xfeff := by
    rcases q.mark_eq with h | h <;> · rw [h]; decide
  refine ⟨⟨?_, decodeLiteral_quoted q value⟩, fun hvalue => ⟨?_, decodeLiteral_raw q hvalue⟩⟩
  · exact isStringLiteral_of_isRead rfl hquote.1 hquote.2
      (Lexeme.isRead_literal q rfl rfl (by simp))
  · exact isStringLiteral_of_isRead rfl rfl (by decide)
      (Lexeme.isRead_raw q rfl hvalue rfl (by simp))

/-- A blank needs no escape between quotes. -/
theorem raw_decodes_blank :
    Lexeme.doubleQuotes.Verbatim "two words".toList ∧
      IsStringLiteral (Lexeme.doubleQuotes.raw "two words".toList) ∧
      decodeLiteral (String.ofList (Lexeme.doubleQuotes.raw "two words".toList)) =
        ⟨"two words", false, false⟩ :=
  have hverbatim : Lexeme.doubleQuotes.Verbatim "two words".toList := by decide
  ⟨hverbatim, (literal_decodes Lexeme.doubleQuotes "two words").2 hverbatim⟩

end PackageDoc
