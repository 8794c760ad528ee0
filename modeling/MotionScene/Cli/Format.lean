import MotionScene.Document.Json
import MotionScene.Yaml.Value

/-!
# Output formats
-/

namespace MotionScene

/-- The notations that a document can be written in. -/
inductive Format where
  | json
  | yaml
  deriving DecidableEq, Repr

namespace Format

def all : List Format := [json, yaml]

def name : Format → String
  | json => "json"
  | yaml => "yaml"

/-- The layout for an indentation: without one everything stands on one line, and
without spaces where it is not positive. -/
def layout : (indent? : Option Int) → Json.Layout
  | none => .plain
  | some indent => if indent ≤ 0 then .dense else .lines indent.toNat

/-- The text of a document, if there is one; an indentation concerns only the first
notation, and the codec only the second. -/
def write (format : Format) (codec : Yaml.Codec Float) (indent? : Option Int)
    (document : Value Float) : Option String :=
  match format with
  | json => Json.write? (layout indent?) document
  | yaml => codec.dump document

end Format

end MotionScene
