import PackageDoc.Text.Printable
import PackageDoc.Token.Basic

namespace PackageDoc

/-!
# Syntax errors

What can be wrong with a source text, and where.  Reading goes on after an error; a text with any
error at all counts as malformed as a whole.
-/

/-- How serious a finding is. -/
inductive Severity where
  | error | warning | info
  deriving Repr, DecidableEq, Inhabited

/-- What is wrong with a source text. -/
inductive SyntaxError where
  | openBracketAtEnd
  | unindentMismatch
  | strayBackslash
  | unterminatedString
  | unterminatedTripleString
  | invalidCharacter (c : Char)
  | unmatchedBracket
  | unexpectedIndent
  | expectedBlock
  | expectedNewlineAfterDecorator
  | expectedDefinitionAfterDecorator
  | expected (wanted found : TokenKind)
  | invalidParameter
  | expectedColon
  | expectedModuleName
  | invalidSyntax
  deriving Repr, DecidableEq, Inhabited

/-- The wording of an error. -/
def SyntaxError.message : SyntaxError → String
  | openBracketAtEnd => "unexpected EOF in multi-line statement"
  | unindentMismatch => "unindent does not match any outer indentation level"
  | strayBackslash => "unexpected character after line continuation"
  | unterminatedString => "unterminated string literal"
  | unterminatedTripleString => "unterminated triple-quoted string literal"
  | invalidCharacter c => "invalid character " ++ Text.quotedChar c
  | unmatchedBracket => "unmatched closing bracket"
  | unexpectedIndent => "unexpected indent"
  | expectedBlock => "expected an indented block"
  | expectedNewlineAfterDecorator => "expected newline after decorator"
  | expectedDefinitionAfterDecorator => "expected function or class after decorator"
  | expected wanted found => "expected " ++ wanted.label ++ ", found " ++ found.label
  | invalidParameter => "invalid parameter"
  | expectedColon => "expected ':'"
  | expectedModuleName => "expected module name"
  | invalidSyntax => "invalid syntax"

/-- An error and the stretch of source that it is about. -/
structure SyntaxIssue where
  span : Span
  error : SyntaxError
  deriving Repr, DecidableEq, Inhabited

/-- Every syntax error makes its source malformed. -/
def SyntaxIssue.severity (_ : SyntaxIssue) : Severity := .error

/-- The wording of an issue. -/
def SyntaxIssue.message (issue : SyntaxIssue) : String := issue.error.message

end PackageDoc
