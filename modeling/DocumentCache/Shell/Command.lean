import DocumentCache.Cache.Query
import DocumentCache.Decimal.Reading
import DocumentCache.Text.Blank
import DocumentCache.Text.Case

/-!
# Commands

A line of the shell is a command name, in any case, and words.  Reading a line gives
the command with all its arguments checked, in the order in which their faults are
reported: the read time, then the fields, then the path.
-/

namespace DocumentCache.Shell

inductive Command where
  | add (document : Document) (readTime : ReadTime)
  | addDeleted (document : Document) (readTime : ReadTime)
  | get (key : DocumentKey)
  | getAll (keys : List DocumentKey)
  | remove (key : DocumentKey)
  | query (query : Query) (since : ReadTime)
  | latest
  | report
  /-- The command was called with too few or too many words. -/
  | usage (text : String)
  | unrecognised (name : String)
  | leave

/-! ## Arguments -/

def parseKey (word : String) : Except Error DocumentKey :=
  (DocumentKey.parse word).mapError Error.ofPath

def parseQuery (word : String) : Except Error Query := do
  let path ← (Path.parse word).mapError Error.ofPath
  (Query.ofCollection path).mapError Error.ofPath

def parseSeconds (word : String) : Except Error Int64 :=
  match Decimal.readInt64? word with
  | some seconds => .ok seconds
  | none => .error (.invalidArgument (.badSeconds word))

def parseNanos (word : String) : Except Error Int32 :=
  match Decimal.readInt32? word with
  | some nanos => .ok nanos
  | none => .error (.invalidArgument (.badNanos word))

/-- Whether a word can only be a field. -/
def hasEquals (word : String) : Bool := word.toList.contains '='

/-- The read time in front of some words, and the words behind it: seconds and then,
unless the next word has an equals sign, nanoseconds. -/
def parseReadTime (secondsWord : String) (rest : List String) :
    Except Error (ReadTime × List String) := do
  let seconds ← parseSeconds secondsWord
  let (nanos, rest) ←
    match rest with
    | word :: tail =>
        if hasEquals word then pure ((0 : Int32), rest) else pure (← parseNanos word, tail)
    | [] => pure (0, [])
  let time ← (ReadTime.ofPartsAfterEpoch seconds nanos).mapError Error.ofReadTime
  return (time, rest)

/-- The value that a word stands for: one of three names, a whole number, a
floating-point number, or else the word itself. -/
def parseValue (word : String) : Value :=
  if word = "null" then .null
  else if word = "true" then .boolean true
  else if word = "false" then .boolean false
  else
    match Decimal.readInt64? word with
    | some number => .integer number
    | none =>
        match Decimal.readDouble? word with
        | some bits => .double bits
        | none => .text word

/-- A field: its name before the first equals sign and its value behind it. -/
def parseField (word : String) : Except Error (String × Value) :=
  match Text.splitFirst? '=' word.toList with
  | some (name, value) => .ok (String.ofList name, parseValue (String.ofList value))
  | none => .error (.invalidArgument (.expectedField word))

/-! ## Commands by name -/

def parseAdd : List String → Except Error Command
  | path :: seconds :: rest => do
      let (readTime, words) ← parseReadTime seconds rest
      let entries ← words.mapM parseField
      let key ← parseKey path
      return .add (.found key readTime (Fields.ofEntries entries) .never) readTime
  | _ => .ok (.usage "add <path> <secs> [nanos] [field=value ...]")

def parseAddDeleted : List String → Except Error Command
  | path :: seconds :: rest => do
      let (readTime, _) ← parseReadTime seconds rest
      let key ← parseKey path
      return .addDeleted (.deleted key readTime .never) readTime
  | _ => .ok (.usage "tomb <path> <secs> [nanos]")

def parseGet : List String → Except Error Command
  | [path] => return .get (← parseKey path)
  | _ => .ok (.usage "get <path>")

def parseGetAll : List String → Except Error Command
  | [] => .ok (.usage "getall <path> [path ...]")
  | paths => return .getAll (← paths.mapM parseKey)

def parseRemove : List String → Except Error Command
  | [path] => return .remove (← parseKey path)
  | _ => .ok (.usage "del <path>")

def parseScan : List String → Except Error Command
  | [] => .ok (.usage "query <collection> [secs [nanos]]")
  | [collection] => return .query (← parseQuery collection) .never
  | collection :: seconds :: rest => do
      let (since, _) ← parseReadTime seconds rest
      return .query (← parseQuery collection) since

/-- The command of a name in lower case and the words behind it. -/
def parseCommand (name : String) (words : List String) : Except Error Command :=
  match name with
  | "exit" | "quit" | "q" => .ok .leave
  | "add" | "set" => parseAdd words
  | "tomb" => parseAddDeleted words
  | "get" => parseGet words
  | "getall" => parseGetAll words
  | "del" | "delete" => parseRemove words
  | "query" | "scan" => parseScan words
  | "latest" => .ok .latest
  | "info" | "stats" => .ok .report
  | other => .ok (.unrecognised other)

/-- The command in a line; none in a blank one. -/
def parseLine (line : String) : Option (Except Error Command) :=
  match Text.words line with
  | [] => none
  | name :: words => some (parseCommand (Text.toLowerCase name) words)

end DocumentCache.Shell
