/-!
# Scalars

A scalar is a text and the style in which it is written. The style matters where a plain text may
stand for something other than itself.
-/

namespace Keyring.Yaml

/-- How a scalar is written. -/
inductive ScalarStyle where
  /-- Without quotes. -/
  | plain
  /-- In single quotes. -/
  | singleQuoted
  /-- In double quotes. -/
  | doubleQuoted
  /-- As a block whose line breaks count. -/
  | literal
  /-- As a block whose line breaks are folded. -/
  | folded
  deriving DecidableEq, Repr

/-- A scalar. -/
structure Scalar where
  /-- How it is written. -/
  style : ScalarStyle
  /-- The text. -/
  text : List Char
  deriving DecidableEq, Repr

/-- The plain scalar without text, which stands where a value is missing. -/
def Scalar.empty : Scalar := ⟨.plain, []⟩

end Keyring.Yaml
