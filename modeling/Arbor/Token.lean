import Arbor.Integer

/-!
# Tokens

The words of the expression language, and their shortest spelling.
-/

namespace Arbor

/-- A word of the expression language. -/
inductive Token
  /-- `==` -/
  | equals
  /-- `!=` -/
  | notEquals
  /-- `=` -/
  | assign
  | plus
  | minus
  | star
  | slash
  | leftParen
  | rightParen
  /-- The keywords `true` and `false`. -/
  | boolean (value : Bool)
  /-- The keyword `nil`. -/
  | nil
  /-- A decimal literal. -/
  | number (value : Nat)
  /-- A name that is no keyword. -/
  | ident (name : String)
  /-- The end of a statement: a line break or a semicolon. -/
  | terminator
  deriving DecidableEq

namespace Token

/-- What is shown for a token. Terminators have no spelling that fits on a line,
    so they show as `EOL`. -/
def text : Token → String
  | equals => "=="
  | notEquals => "!="
  | assign => "="
  | plus => "+"
  | minus => "-"
  | star => "*"
  | slash => "/"
  | leftParen => "("
  | rightParen => ")"
  | boolean true => "true"
  | boolean false => "false"
  | nil => "nil"
  | number value => toString value
  | ident name => name
  | terminator => "EOL"

end Token

end Arbor
