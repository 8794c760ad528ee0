import MotionScene.Migration.Bezier
import MotionScene.Migration.Layers
import MotionScene.Migration.Shapes
import MotionScene.Notice

/-!
# Older encodings

Older documents write colors with channels up to 255, texts without keyframes, glyph
outlines with relative handles, text path options as bare numbers, and the closed flag
of a path on the shape or the mask around it.  Each encoding is migrated in documents
from before its version.  A document without a version tells its color encoding by a
channel above 1.
-/

namespace MotionScene

variable {R : Type} [Scalar R]

/-! ## The versions at which the encodings changed -/

/-- From here on a color component lies between 0 and 1. -/
def colorsVersion : Version := ⟨4, 1, 9⟩

/-- From here on the text of a text layer is given by keyframes. -/
def textDocumentVersion : Version := ⟨4, 4, 14⟩

/-- From here on the handles of glyph outlines are relative to their vertices. -/
def glyphsVersion : Version := ⟨4, 7, 99⟩

/-- From here on the options of a text path are properties. -/
def textPathVersion : Version := ⟨5, 7, 15⟩

/-- From here on a bezier carries its own closed flag. -/
def closedFlagVersion : Version := ⟨4, 4, 18⟩

/-! ## Colors -/

def hasColor (entry : Members R) : Bool :=
  (entry.get "ty").isText "fl" || (entry.get "ty").isText "st"

/-- A color of 255 levels with its first channels, at most as many as given, as
fractions. -/
def rescaleChannels : (limit : Nat) → List (Value R) → Except Fault (List (Value R))
  | limit + 1, channel :: rest => do
    let channel ← match channel.quantity? with
      | some n => (n.divide (.whole 255)).map fun x => .num (.real x)
      | none => .ok channel
    return channel :: (← rescaleChannels limit rest)
  | _, channels => .ok channels

/-- A color list with its first four channels as fractions. -/
def rescaleColor : Change (Value R)
  | .list channels => (rescaleChannels 4 channels).map .list
  | value => .ok value

def rescaleEntry (entry : Members R) : Except Fault (Members R) :=
  if hasColor entry then
    entry.adjust "c" (Value.adjustMember "k" fun content =>
      match content with
      | .list (.object _ :: _) =>
        content.adjustItems (Value.adjustMembers fun keyframe => do
          let keyframe ← keyframe.adjust "s" rescaleColor
          keyframe.adjust "e" rescaleColor)
      | content => rescaleColor content)
  else .ok entry

def colorLists (entry : Members R) : List (List (Value R)) :=
  if hasColor entry then
    match (entry.get "c").members.get "k" with
    | .list (.object first :: rest) =>
      (Value.object first :: rest).flatMap fun keyframe =>
        ["s", "e"].filterMap fun key => (keyframe.members.get key).items?
    | .list channels => [channels]
    | _ => []
  else []

/-- Whether a channel of a color lies above 1. -/
def isByteChannel (channel : Value R) : Bool :=
  match channel.quantity? with
  | some n => (Number.whole 1).below n
  | none => false

/-- Whether one of the first three channels of some color lies above 1. -/
def hasByteColors (document : Members R) : Bool :=
  let shapes := (layersOf document).filter (isLayerKind .shape)
  shapes.any fun layer => (shapeLeaves (layer.get "shapes")).any fun entry =>
    (colorLists entry).any fun channels => (channels.take 3).any isByteChannel

/-- Whether the colors of a document have 255 levels. -/
def usesByteColors (version : Version) (document : Members R) : Bool :=
  version.before colorsVersion || (version = .unknown && hasByteColors document)

def rescaleColors : Change (Members R) :=
  changeLayersOf .shape (Members.adjust "shapes" (changeShapes rescaleEntry))

/-! ## Texts -/

/-- A text layer with its text as the value of a first keyframe. -/
def wrapTextDocument : Change (Members R) :=
  Members.adjust "t" (Value.adjustMember "d" fun text =>
    let keyframe : Value R := .object [("s", text), ("t", .num (.whole 0))]
    .ok (.object [("k", .list [keyframe])]))

/-- A text path option as a property. -/
def wrapOption : Change (Value R)
  | .num n => .ok (.object [("a", .num (.whole 0)), ("k", .num n)])
  | value => .ok value

/-- A text layer with its path options as properties. -/
def wrapTextPath : Change (Members R) :=
  Members.adjust "t" (Value.adjustMember "p" (Value.adjustMembers fun path => do
    let path ← path.adjust "a" wrapOption
    let path ← path.adjust "p" wrapOption
    path.adjust "r" wrapOption))

def completeGlyphs : Change (Members R) :=
  Members.adjust "chars" <| Value.adjustItems <| Value.adjustMember "data" <|
    Value.adjustMember "shapes" <| Value.adjustFirst <| Value.adjustMember "it" <|
      Value.adjustItems <| Value.adjustMember "ks" <| Value.adjustMember "k" <|
        changeBezier makeAbsolute

/-! ## Closed flags -/

/-- Hands a closed flag on to the beziers of a property. -/
def closeBeziers (flag : Value R) : Change (Value R) :=
  changeBeziers fun bezier => .ok (bezier.set "c" flag)

/-- Hands the closed flag of an object on to the beziers under a key. -/
def closeUnder (flagKey pathKey : String) (members : Members R) : Except Fault (Members R) :=
  match members.get? flagKey with
  | some flag => members.adjust pathKey (closeBeziers flag)
  | none => .ok members

/-- Hands the closed flags of the masks and shapes of a layer on to their beziers. -/
def closePaths (layer : Members R) : Except Fault (Members R) := do
  let layer ← changeMasks (closeUnder "cl" "pt") layer
  if isLayerKind .shape layer then
    layer.adjust "shapes" (changeShapes fun entry =>
      if (entry.get "ty").isText "sh" then closeUnder "closed" "ks" entry else .ok entry)
  else return layer

/-! ## All together -/

/-- A document with all encodings that are older than its version migrated. -/
def migrateEncodings (version : Version) (document : Members R) : Report R (Members R) := do
  let document ← if usesByteColors version document then
      Traced.tell (.rescaledColors version)
      rescaleColors document
    else pure document
  let step := fun (due : Bool) (change : Change (Members R)) (document : Members R) =>
    if due then change document else .ok document
  let document ← step (version.before textDocumentVersion)
    (changeLayersOf .text wrapTextDocument) document
  let document ← step (!version.before glyphsVersion) completeGlyphs document
  let document ← step (version.before textPathVersion)
    (changeLayersOf .text wrapTextPath) document
  step (version.before closedFlagVersion) (changeLayers closePaths) document

end MotionScene
