import PreloopControl.Lib.LastWrite
import PreloopControl.Lib.Lines
import PreloopControl.Lib.Slices

/-!
# File Commands

The files a step writes its environment, outputs and state into (`file_commands.rs`). An
entry is a line `KEY=VALUE`, or a header `KEY<<DELIMITER` with the lines of the value and
the delimiter on a line of its own. The reader keeps the start of such a value and the
end of its last line as indexes into the text, and cuts the value out between them.

## Main definitions

* `FileCommandError`: What the reader refuses.
* `lineForm`: Which of the two forms a line has, by what comes first in it.
* `heredocLoop`, `parseLoop`: The two loops of `parse_kv_file`.
* `parseKvFile`: The reader, on a file that may be missing or too large.
-/

namespace Preloop

namespace Worker

/-- `FILE_COMMAND_MAX_BYTES`. -/
def fileCommandMaxBytes : Nat := 1048576

/-- What `read_file_command` and `parse_kv_file` refuse. -/
inductive FileCommandError
  | reading
  | tooLarge (bytes : Nat)
  | emptyName (line : Text)
  | emptyNameOrDelimiter (line : Text)
  | delimiterNotFound (delimiter : Text)
  | missingNewline
  | invalidFormat (line : Text)
deriving DecidableEq, Repr

/-- The texts of the errors, as `parse_kv_file` and `read_file_command` (of this path)
    word them. -/
def FileCommandError.message (path : String) : FileCommandError → String
  | .reading => "reading " ++ path
  | .tooLarge bytes =>
    path ++ " exceeds the " ++ toString (fileCommandMaxBytes / 1024) ++
      " KiB file-command size limit (got " ++ toString (bytes / 1024) ++ " KiB)"
  | .emptyName line => "Invalid format '" ++ String.ofList line ++ "'. Name must not be empty"
  | .emptyNameOrDelimiter line =>
    "Invalid format '" ++ String.ofList line ++
      "'. Name must not be empty and delimiter must not be empty"
  | .delimiterNotFound delimiter =>
    "Invalid value. Matching delimiter not found '" ++ String.ofList delimiter ++
      "' (missing heredoc delimiter)"
  | .missingNewline => "Invalid value. EOF marker missing new line."
  | .invalidFormat line =>
    "Invalid format '" ++ String.ofList line ++ "' (Invalid file command line)"

/-- Between the key and the value. -/
def equalsMark : Text := ['=']

/-- Between the key and the delimiter. -/
def heredocMark : Text := ['<', '<']

/-- What a line is, by which mark comes first. -/
inductive LineForm
  | assignment (key value : Text)
  | heredoc (key delimiter : Text)
  | other
deriving DecidableEq, Repr

/-- The two tests of the loop. -/
def lineForm (line : Text) : LineForm :=
  match Text.cut equalsMark line, Text.cut heredocMark line with
  | some (key, value), none => .assignment key value
  | none, some (key, delimiter) => .heredoc key delimiter
  | some (key, value), some (key', delimiter) =>
    if key.length < key'.length then .assignment key value
    else if key'.length < key.length then .heredoc key' delimiter
    else .other
  | none, none => .other

/-- The inner loop: lines until the delimiter. `start` is the text from where the value
    starts, `stop` where its last line ended, counted from there. -/
def heredocLoop (delimiter start : Text) :
    Nat → Nat → Text → Except FileCommandError (Text × Text)
  | 0, _, _ => .error (.delimiterNotFound delimiter)
  | n + 1, stop, text =>
    match Lines.read text with
    | none => .error (.delimiterNotFound delimiter)
    | some (line, newline, rest) =>
      if line = delimiter then .ok (if 0 < stop then start.take stop else [], rest)
      else
        match newline with
        | none => .error .missingNewline
        | some ending =>
          heredocLoop delimiter start n (start.length - rest.length - ending.text.length) rest

/-- The loop over the entries. -/
def parseLoop : Nat → Text → SortedMap Text Text → Except FileCommandError (SortedMap Text Text)
  | 0, _, result => .ok result
  | n + 1, text, result =>
    match Lines.read text with
    | none => .ok result
    | some (line, _, rest) =>
      if line = [] then parseLoop n rest result
      else
        match lineForm line with
        | .assignment key value =>
          if key = [] then .error (.emptyName line)
          else parseLoop n rest (result.insert key value)
        | .heredoc key delimiter =>
          if key = [] || delimiter = [] then .error (.emptyNameOrDelimiter line)
          else
            match heredocLoop delimiter rest rest.length 0 rest with
            | .error e => .error e
            | .ok (value, rest) => parseLoop n rest (result.insert key value)
        | .other => .error (.invalidFormat line)

/-- What `read_file_command` says of a text above the limit. It has read one byte above the
    limit, which is no text if a character is cut there. -/
def aboveLimit (text : Text) : FileCommandError :=
  if (Text.splitAtByte (fileCommandMaxBytes + 1) text).isSome then
    .tooLarge (fileCommandMaxBytes + 1)
  else .reading

/-- `read_file_command`, on the text of the file. -/
def readBounded (text : Text) : Except FileCommandError Text :=
  if fileCommandMaxBytes < text.utf8Len then .error (aboveLimit text) else .ok text

/-- `parse_kv_file`, on the text of the file if there is one. -/
def parseKvFile : Option Text → Except FileCommandError (SortedMap Text Text)
  | none => .ok ∅
  | some text => do
    let text ← readBounded text
    parseLoop text.length text ∅

end Worker

end Preloop
