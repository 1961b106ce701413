import FormulaSheet.Token

/-!
# What goes wrong with a formula

Errors are kept by their cause.  `FormulaError.message` is the one place where
they are put into words.
-/

namespace FormulaSheet

/-- Why a text is no formula. -/
inductive ParseFault where
  | unterminatedText
  | badEscape
  | badNumber (text : String)
  | singleEqual
  | singleAmpersand
  | singleBar
  | strayCharacter (c : Char)
  | badKey
  | unexpected (wanted : String) (found : Option Token)
  | unclosedCall (name : String)
deriving DecidableEq

/-- The fault in words. -/
def ParseFault.message : ParseFault → String
  | unterminatedText => "unterminated string literal"
  | badEscape => "invalid unicode escape"
  | badNumber text => "invalid number '" ++ text ++ "'"
  | singleEqual => "expected '==' but found '='"
  | singleAmpersand => "expected '&&'"
  | singleBar => "expected '||'"
  | strayCharacter c => "unexpected character '" ++ String.singleton c ++ "'"
  | badKey => "expected an object key"
  | unexpected wanted (some t) => "expected " ++ wanted ++ ", found " ++ t.debugText
  | unexpected wanted none => "expected " ++ wanted ++ ", found end of input"
  | unclosedCall name => "unclosed parenthesis in call to " ++ name

/-- Why a function cannot use its arguments. -/
inductive Complaint where
  | notAnArray (asker : String)
  | negativeCount
  | countTooLarge (limit : Nat)
  | percentileOutOfRange
  | timestampNotANumber
  | emptyRange
  /-- What a function of the host says of them. -/
  | custom (text : String)
deriving DecidableEq

/-- The complaint in words. -/
def Complaint.message : Complaint → String
  | notAnArray asker => asker ++ " expects an array"
  | negativeCount => "count must be a non-negative number"
  | countTooLarge limit => "count exceeds " ++ toString limit
  | percentileOutOfRange => "percentile must be between 0 and 1"
  | timestampNotANumber => "timestamp must be a number"
  | emptyRange => "requires numeric min <= max"
  | custom text => text

/-- Why a formula has no value, or a definition is refused. -/
inductive FormulaError where
  /-- The text is no formula, at a byte position. -/
  | parse (position : Nat) (fault : ParseFault)
  | unknownFunction (name : String)
  | undefinedName (name : String)
  /-- A function refused its arguments. -/
  | function (name : String) (complaint : Complaint)
  /-- The text left after all calls were resolved has no value. -/
  | residue (text : String) (cause : FormulaError)
  | callDepthExceeded (limit : Nat)
  | invalidFunctionName (name : String)
  | invalidParameterName (owner parameter : String)
  | duplicateParameter (owner parameter : String)
deriving DecidableEq

/-- The error in words. -/
def FormulaError.message : FormulaError → String
  | parse position fault =>
    "Parse error at position " ++ toString position ++ ": " ++ fault.message
  | unknownFunction name => "Unknown function: " ++ name
  | undefinedName name => "Undefined identifier: " ++ name
  | function name complaint => "Error in function " ++ name ++ ": " ++ complaint.message
  | residue text cause =>
    "Failed to evaluate expression \"" ++ text ++ "\": " ++ cause.message
  | callDepthExceeded limit => "Maximum call depth of " ++ toString limit ++ " exceeded"
  | invalidFunctionName name => "Invalid function name: " ++ name
  | invalidParameterName owner parameter =>
    "Invalid parameter name \"" ++ parameter ++ "\" in function " ++ owner
  | duplicateParameter owner parameter =>
    "Duplicate parameter name \"" ++ parameter ++ "\" in function " ++ owner

end FormulaSheet
