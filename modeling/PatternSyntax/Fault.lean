/-!
The ways in which the library can be misused, or could contradict itself. A fault ends a run; text
that is not well formed never causes one, but is reported in the result of the run.
-/

namespace PatternSyntax

/-- Why a run ended without a result. -/
inductive Fault where
  /-- A marker was closed a second time. -/
  | markerClosed (id : Nat)
  /-- A marker was closed while a later one was open. -/
  | markerNotInnermost (id : Nat)
  /-- A marker was thrown away while it was open. -/
  | markerDropped
  /-- Between a checkpoint and the way back to it the number of open markers changed. -/
  | rollbackUnbalanced
  /-- A recording was ended while a marker was open. -/
  | markerLeftOpen
  /-- A handle that a rollback made void points behind the end of a record of `size` entries. -/
  | noSuchEntry (size index : Nat)
  /-- A handle that a rollback made void points to an entry of another sort. -/
  | wrongEntry
  /-- A marker was abandoned although nothing is recorded any more. -/
  | nothingRecorded
  /-- Brackets are counted, and one is closed that was not opened. -/
  | countBelowZero
  /-- The components of a record were asked for where no parenthesis opens. -/
  | recordWithoutParen
  /-- A pattern was asked for where no type begins. -/
  | patternWithoutType
  /-- A pattern was asked for where its type is followed neither by a name nor by components. -/
  | patternWithoutName
  /-- A rule was applied more often than the tokens ahead allow. -/
  | depthExceeded
  /-- A recorded token is not the next one of the text. -/
  | tokenMismatch
  /-- A node is finished outside of all nodes. -/
  | finishWithoutStart
  /-- A recording does not end with a single element. -/
  | notOneRoot
  /-- The single element that a recording ends with is a token. -/
  | rootIsToken
  /-- A number is not that of a syntax kind. -/
  | noSuchKind
  /-- A span ends before it starts. -/
  | reversedSpan
deriving DecidableEq, Repr

namespace Fault

/-- The text of a fault. -/
def message : Fault → String
  | markerClosed id => "marker " ++ toString id ++ " was already closed"
  | markerNotInnermost id => "marker " ++ toString id ++ " is not the innermost open marker"
  | markerDropped => "Marker must be completed or abandoned"
  | rollbackUnbalanced => "rollback across an unbalanced marker"
  | markerLeftOpen => "unclosed marker at end of parse"
  | noSuchEntry size index =>
    "index out of bounds: the len is " ++ toString size ++ " but the index is " ++ toString index
  | wrongEntry => "internal error: entered unreachable code"
  | nothingRecorded => "attempt to subtract with overflow"
  | countBelowZero => "attempt to subtract with overflow"
  | recordWithoutParen => "record structure must start with '('"
  | patternWithoutType => "pattern without a type, guarded by is_pattern"
  | patternWithoutName => "type test pattern without a name, guarded by is_pattern"
  | depthExceeded => "more rules applied than there are tokens"
  | tokenMismatch => "assertion `left == right` failed"
  | finishWithoutStart => "called `Option::unwrap()` on a `None` value"
  | notOneRoot => "assertion `left == right` failed"
  | rootIsToken => "explicit panic"
  | noSuchKind => "assertion failed: d <= (SyntaxKind::__LAST as u16)"
  | reversedSpan => "assertion failed: start.raw <= end.raw"

end Fault

end PatternSyntax
