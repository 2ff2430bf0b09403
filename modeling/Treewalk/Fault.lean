/-!
Faults: broken promises of the library to itself. They are kept apart from the errors of programs
because no text can lead to one; each place that would have to go on without a promised token,
frame or operator names its fault instead.
-/

namespace Treewalk

inductive Fault where
  /-- A token was asked for after the last one. -/
  | pastLastToken
  /-- A bound on the nesting or repetition of a grammar rule was too small. -/
  | boundExceeded
  /-- A frame was asked for that is not open. -/
  | missingFrame
  /-- A frame was released that is global or not innermost. -/
  | misplacedRelease
  /-- A binary node holds a token that is no binary operator. -/
  | unknownOperator
  /-- A native function was given the wrong number of arguments. -/
  | wrongArity
  deriving DecidableEq

end Treewalk
