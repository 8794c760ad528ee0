import MotionScene.Document.Value
import MotionScene.Text.Numeral

/-!
# Document versions

A version is written as up to three numbers with points between them; missing ones are
zero.  A document without a usable version counts as newer than every migration.
-/

namespace MotionScene

structure Version where
  major : Nat
  minor : Nat
  patch : Nat
  deriving DecidableEq, Repr

namespace Version

/-- The version of documents that do not tell a usable one. -/
def unknown : Version := ⟨100, 100, 100⟩

def before (version threshold : Version) : Bool :=
  version.major < threshold.major ||
    version.major = threshold.major &&
      (version.minor < threshold.minor ||
        version.minor = threshold.minor && version.patch < threshold.patch)

/-- The texts between the points of a text. -/
def splitPoints : List Char → List (List Char)
  | [] => [[]]
  | c :: rest =>
    match splitPoints rest with
    | [] => [[c]]
    | part :: parts => if c = '.' then [] :: part :: parts else (c :: part) :: parts

/-- The number that a part of a version text writes. -/
def part? (text : List Char) : Option Nat :=
  match Text.integer? text with
  | some n => if n < 0 then none else some n.toNat
  | none => none

/-- The version that a text writes.  Parts after the third do not count. -/
def ofText (text : String) : Version :=
  let stripped := Text.strip text.toList
  if stripped.isEmpty then unknown
  else
    match ((splitPoints stripped).take 3).mapM part? with
    | some numbers => ⟨numbers.getD 0 0, numbers.getD 1 0, numbers.getD 2 0⟩
    | none => unknown

def ofValue {R : Type} : Value R → Version
  | .text text => ofText text
  | _ => unknown

end Version

end MotionScene
