/-!
# Tokens of LP text

A token is a piece of the text with its kind and the place where it stands.  Places are
byte offsets in the UTF-8 text, so that they mean the same to every tool.
-/

namespace LinearProgram

inductive TokenKind where
  | ident
  | number
  | plus
  | minus
  | colon
  | le
  | ge
  | eq
  | newline
  | comment
  | endOfInput
  | invalid
deriving DecidableEq

namespace TokenKind

/-- The word for a kind in messages. -/
def text : TokenKind → String
  | ident => "Ident"
  | number => "Number"
  | plus => "Plus"
  | minus => "Minus"
  | colon => "Colon"
  | le => "Le"
  | ge => "Ge"
  | eq => "Eq"
  | newline => "Newline"
  | comment => "Comment"
  | endOfInput => "Eof"
  | invalid => "Error"

end TokenKind

/-- A stretch of the text from one byte offset up to another. -/
structure Span where
  start : Nat
  stop : Nat
deriving DecidableEq

namespace Span

/-- The least span that covers two others. -/
def merge (a b : Span) : Span :=
  ⟨min a.start b.start, max a.stop b.stop⟩

/-- The form in which messages give a place. -/
def text (span : Span) : String :=
  "Span \x7b start: " ++ toString span.start ++ ", end: " ++ toString span.stop ++ " \x7d"

end Span

structure Token where
  kind : TokenKind
  span : Span
  text : String
deriving DecidableEq

end LinearProgram
