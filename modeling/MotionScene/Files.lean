/-!
# Files

A program's view of the files around it: what files hold by their locations, and the
directories they are in.  Reading a text takes every kind of line break for the same.  A
file may also hold what is no text, or be closed to the program.
-/

namespace MotionScene

/-- A location of a file, with empty and self-referring parts left out. -/
structure Location where
  isAbsolute : Bool
  parts : List String
  deriving DecidableEq, Repr

namespace Location

def ofText (text : String) : Location :=
  let parts := (text.toList.splitOn '/').map String.ofList
  ⟨text.toList.head? == some '/', parts.filter fun part => part ≠ "" && part ≠ "."⟩

def text (location : Location) : String :=
  match location.isAbsolute, location.parts with
  | true, parts => "/" ++ "/".intercalate parts
  | false, [] => "."
  | false, parts => "/".intercalate parts

/-- The location of a file in a directory. -/
def join (directory : Location) (names : List String) : Location :=
  { directory with parts := directory.parts ++ names }

def parent (location : Location) : Location :=
  { location with parts := location.parts.dropLast }

/-- Whether one location lies inside another. -/
def isInside (location directory : Location) : Bool :=
  location.isAbsolute == directory.isAbsolute && directory.parts.length < location.parts.length
    && directory.parts.isPrefixOf location.parts

end Location

/-- What a file, or another source of text, holds for those who read it. -/
inductive Content where
  | text (s : String)
  /-- Bytes that no text is encoded by. -/
  | noText
  /-- The file cannot be opened for reading. -/
  | locked
  deriving DecidableEq, Repr

/-- Why a file has no text to read. -/
inductive ReadFault where
  | noFile
  | locked
  | noText
  deriving DecidableEq, Repr

/-- Why a file cannot be written. -/
inductive WriteFault where
  | noDirectory
  | isDirectory
  | notADirectory
  | denied
  deriving DecidableEq, Repr

structure Files where
  /-- What files hold; of several entries for a location the first one counts. -/
  contents : List (Location × Content)
  /-- Directories that need not hold any of the files. -/
  directories : List Location
  /-- Locations at which nothing can be written. -/
  sealed : List Location

/-- A text with every kind of line break written the same way. -/
def unifyBreaks : List Char → List Char
  | [] => []
  | '\r' :: '\n' :: rest => '\n' :: unifyBreaks rest
  | '\r' :: rest => '\n' :: unifyBreaks rest
  | c :: rest => c :: unifyBreaks rest

def Content.read : Content → Except ReadFault String
  | text s => .ok (String.ofList (unifyBreaks s.toList))
  | noText => .error .noText
  | locked => .error .locked

namespace Files

def isFile (files : Files) (location : Location) : Bool :=
  (files.contents.lookup location).isSome

/-- A directory is named as one, or holds a file; the top always is one. -/
def isDirectory (files : Files) (location : Location) : Bool :=
  location.parts.isEmpty || files.directories.contains location
    || files.contents.any fun entry => entry.1.isInside location

def read (files : Files) (location : Location) : Except ReadFault String :=
  match files.contents.lookup location with
  | some content => content.read
  | none => .error .noFile

/-- Writes the text of a file into a directory that is there. -/
def write (files : Files) (location : Location) (text : String) : Except WriteFault Files :=
  if files.isDirectory location then .error .isDirectory
  else if files.isDirectory location.parent then
    if files.sealed.contains location then .error .denied
    else
      let others := files.contents.filter fun entry => entry.1 ≠ location
      .ok { files with contents := (location, .text text) :: others }
  else if files.contents.any fun entry => location.isInside entry.1 then .error .notADirectory
  else .error .noDirectory

end Files

end MotionScene
