import MotionScene.Migration.Encodings
import MotionScene.Migration.Expansion

/-!
# Migrating a document

A document is an object with a list of layers.  Migrating it replaces older encodings,
completes its layers and expands its precompositions, so that everything later can
assume one encoding.
-/

namespace MotionScene

variable {R : Type} [Scalar R]

structure MigratedDocument (R : Type) where
  members : Members R
  version : Version

def MigratedDocument.layers (document : MigratedDocument R) : List (Value R) :=
  (document.members.get "layers").items

def documentMembers (value : Value R) : Except Fault (Members R) :=
  match value with
  | .object members =>
    if (Members.get members "layers").items?.isSome then .ok members
    else .error .noLayerList
  | value => .error (.notADocument value.sort)

/-- A document in the current encoding. -/
def migrate (value : Value R) : Report R (MigratedDocument R) := do
  let members ← documentMembers value
  let version := Version.ofValue (members.get "v")
  let members ← migrateEncodings version members
  let members ← completeDocument members
  let document : MigratedDocument R := ⟨members, version⟩
  Traced.tell (.migrated version document.layers.length)
  return document

end MotionScene
