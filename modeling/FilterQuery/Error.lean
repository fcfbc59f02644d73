import FilterQuery.Token.Basic

/-!
# Why a text is no filter

The causes for which reading a filter fails, and the one function that words
them. An error of the scan comes as the message of its token.
-/

namespace FilterQuery

def maxDepth : Nat := 64

inductive ParseError where
  | lexical (message : String)
  | unexpectedEnd
  | unexpectedToken (token : Token)
  | unknownOperator (text : String)
  | unknownComparator (text : String)
  | malformedPredicate (first second third : Token)
  | unmatchedClose
  | nestingTooDeep
  | unclosedGroup
  | emptyGroup
  | emptyFilter
  deriving BEq, DecidableEq, Repr

def ParseError.message : ParseError → String
  | .lexical message => "lexical error: " ++ message
  | .unexpectedEnd => "syntax error: unexpected end of input"
  | .unexpectedToken token => "syntax error: unexpected " ++ token.describe
  | .unknownOperator text => "syntax error: " ++ Text.quote text ++ " is an invalid operation"
  | .unknownComparator text =>
    "syntax error: " ++ Text.quote text ++ " is not a supported comparator"
  | .malformedPredicate first second third =>
    "syntax error: a predicate needs one field, one comparator and one literal, found " ++
      " ".intercalate [first.describe, second.describe, third.describe]
  | .unmatchedClose => "syntax error: unmatched ')'"
  | .nestingTooDeep => "syntax error: groups nested deeper than " ++ maxDepth.repr ++ " levels"
  | .unclosedGroup => "syntax error: '(' is never closed"
  | .emptyGroup => "syntax error: empty group '()'"
  | .emptyFilter => "syntax error: filter is empty"

end FilterQuery
