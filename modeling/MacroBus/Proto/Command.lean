import MacroBus.Proto.Status
import MacroBus.Proto.Text

/-!
# Client commands

Command words are matched case-insensitively, arguments are case-sensitive. A
parsed command is structurally valid: its type name and key have passed the checks
of the grammar.
-/

namespace MacroBus

namespace validate

/-- A valid character of a message-type token. -/
def isTchar (c : Char) : Bool := c.isAlphanum || c = '-' || c = '.' || c = '_' || c = '/'

/-- A valid message-type name: a non-empty token. -/
def isValidType (s : Str) : Bool := !s.isEmpty && s.all isTchar

/-- A valid authorization key: one or more visible ASCII characters. -/
def isValidKey (s : Str) : Bool := !s.isEmpty && s.all isAsciiGraphic

end validate

/-- A fully-parsed client command. -/
inductive Command
  | capabilities
  | help
  | register (typeName key : Str)
  | subscribe (typeName : Str)
  | unsubscribe (typeName : Str)
  | publish (typeName key : Str)
  | listTypes
  | quit
  deriving DecidableEq

/-- Failure to parse a command line: the status code to answer with and a reason. -/
structure ParseError where
  /-- A `5xx` code. -/
  code : Code
  /-- Short human-readable reason. -/
  reason : Str
  deriving DecidableEq

namespace command

/-- A command that takes no arguments. -/
def expectNoArgs (rest : Str) (cmd : Command) : Except ParseError Command :=
  if (Str.trim rest).isEmpty then .ok cmd
  else .error ⟨status.SYNTAX_PARAMS, "command takes no arguments".toList⟩

/-- Exactly one argument. -/
def oneArg (rest : Str) : Except ParseError Str :=
  let rest := Str.trim rest
  if rest.isEmpty then .error ⟨status.SYNTAX_PARAMS, "missing argument".toList⟩
  else if rest.contains ' ' then .error ⟨status.SYNTAX_PARAMS, "too many arguments".toList⟩
  else .ok rest

/-- Exactly two arguments, separated by spaces. -/
def twoArgs (rest : Str) : Except ParseError (Str × Str) :=
  match (Str.split ' ' (Str.trim rest)).filter (fun s => !s.isEmpty) with
  | [] => .error ⟨status.SYNTAX_PARAMS, "missing arguments".toList⟩
  | [_] => .error ⟨status.SYNTAX_PARAMS, "missing second argument".toList⟩
  | [a, b] => .ok (a, b)
  | _ => .error ⟨status.SYNTAX_PARAMS, "too many arguments".toList⟩

/-- Check a message-type name. -/
def checkType (t : Str) : Except ParseError Unit :=
  if validate.isValidType t then .ok ()
  else .error ⟨status.INVALID_TYPE, "invalid message type name".toList⟩

/-- Check an authorization key. -/
def checkKey (k : Str) : Except ParseError Unit :=
  if validate.isValidKey k then .ok ()
  else .error ⟨status.SYNTAX_PARAMS, "invalid authorization key".toList⟩

/-- The argument shape of `REGISTER` and `PUBLISH`. -/
def typeAndKey (rest : Str) (cmd : Str → Str → Command) : Except ParseError Command := do
  let (typeName, key) ← twoArgs rest
  checkType typeName
  checkKey key
  .ok (cmd typeName key)

/-- The argument shape of `SUBSCRIBE` and `UNSUBSCRIBE`. -/
def typeOnly (rest : Str) (cmd : Str → Command) : Except ParseError Command := do
  let typeName ← oneArg rest
  checkType typeName
  .ok (cmd typeName)

/-- Only `LIST TYPES` is defined. -/
def listArgs (rest : Str) : Except ParseError Command :=
  if Str.eqIgnoreAsciiCase rest "TYPES".toList then .ok .listTypes
  else if rest.isEmpty then
    .error ⟨status.SYNTAX_PARAMS, "LIST requires a sub-command (TYPES)".toList⟩
  else .error ⟨status.NOT_IMPLEMENTED, "only LIST TYPES is supported".toList⟩

/-- Parse a single command line, without its terminator. -/
def parse (line : Str) : Except ParseError Command :=
  let line := Str.trimMatches (fun c => c = ' ' || c = '\t') line
  if line.isEmpty then .error ⟨status.SYNTAX, "empty command".toList⟩
  else
    let verb := Str.toAsciiUppercase (Str.splitFirst ' ' line)
    let rest := Str.trimStartMatches (· = ' ') (Str.splitSecond ' ' line)
    if verb = "CAPABILITIES".toList then expectNoArgs rest .capabilities
    else if verb = "HELP".toList then expectNoArgs rest .help
    else if verb = "QUIT".toList then expectNoArgs rest .quit
    else if verb = "REGISTER".toList then typeAndKey rest .register
    else if verb = "PUBLISH".toList then typeAndKey rest .publish
    else if verb = "SUBSCRIBE".toList then typeOnly rest .subscribe
    else if verb = "UNSUBSCRIBE".toList then typeOnly rest .unsubscribe
    else if verb = "LIST".toList then listArgs rest
    else .error ⟨status.SYNTAX, "command unrecognized".toList⟩

example : parse "  publish a.b  k3y ".toList = .ok (.publish "a.b".toList "k3y".toList) := by
  decide

end command

end MacroBus
