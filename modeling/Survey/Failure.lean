/-
# Failures

A file that contributes nothing to a survey fails for one cause.  A failure never stops a scan; it
is listed with the path of its file, the kind of its cause and a message.
-/

namespace Survey

/-- Why the content of a file could not be read. -/
inductive ReadError where
  /-- Nothing stands at the path. -/
  | noSuchFile
  /-- A part of the path that should be a directory is none. -/
  | notADirectory
  /-- The path leads to a directory. -/
  | isADirectory
  /-- A name in the path has too many bytes. -/
  | nameTooLong
  /-- The path runs through too many links. -/
  | tooManyLinks
  /-- The bytes are not given, for the reason that the system states. -/
  | refused (statement : String)
deriving DecidableEq, Repr

/-- The wording of a read error, with its number. -/
def ReadError.message : ReadError → String
  | noSuchFile => "No such file or directory (os error 2)"
  | notADirectory => "Not a directory (os error 20)"
  | isADirectory => "Is a directory (os error 21)"
  | nameTooLong => "File name too long (os error 36)"
  | tooManyLinks => "Too many levels of symbolic links (os error 40)"
  | refused statement => statement

/-- Why a file contributes nothing. -/
inductive Cause where
  /-- The file could not be read. -/
  | unreadable (error : ReadError)
  /-- A source unit shows no type declaration. -/
  | noDeclaration
  /-- A routing document with this text is no well-formed markup. -/
  | malformedRouting (text : String)
  /-- No interface was found, and the document opens and closes different numbers of blocks. -/
  | unbalancedBlocks (opened closed : Nat)
  /-- The scan was cancelled before the file was read. -/
  | cancelled
deriving DecidableEq, Repr

/-- The name of the kind of a cause. -/
def Cause.kind : Cause → String
  | unreadable _ => "unreadable_file"
  | noDeclaration => "unparsable_unit"
  | malformedRouting _ => "malformed_config_document"
  | unbalancedBlocks _ _ => "malformed_interface_document"
  | cancelled => "cancelled"

/-- A file that failed, and why. -/
structure Failure where
  /-- The path of the file. -/
  path : String
  /-- Why the file failed. -/
  cause : Cause
deriving DecidableEq, Repr

/-- The name of the kind of a failure. -/
def Failure.kind (failure : Failure) : String := failure.cause.kind

/-- The message of a failure.  Why a text is no markup is not said in words of this library: `reason?`
gives the words of the reader of markup for a text, and without them the message ends before the
reason. -/
def Failure.message (failure : Failure) (reason? : Option (String → String) := none) : String :=
  match failure.cause with
  | .unreadable error => "Unreadable file " ++ failure.path ++ ": " ++ error.message
  | .noDeclaration => "No type declaration found in " ++ failure.path
  | .malformedRouting text =>
    "Malformed routing config " ++ failure.path ++
      match reason? with
      | some reason => ": " ++ reason text
      | none => ""
  | .unbalancedBlocks opened closed =>
    "Malformed interface definition " ++ failure.path ++ ": " ++ opened.repr ++
      " blocks opened but " ++ closed.repr ++ " closed"
  | .cancelled => "Scan cancelled before " ++ failure.path ++ " was parsed"

end Survey
