import MotionScene.Migration.Completion
import MotionScene.Notice

/-!
# Expanding precompositions

A precomposition layer names an asset and gets the layers of that asset for its own.  The
layers of an asset are completed once, when the asset is first used, and every use has
the same completed layers.  An asset that is still being completed is not used again:
such a reference closes a cycle and is expanded as empty, and so is one that names no
asset with layers.
-/

namespace MotionScene

variable {R : Type} [Scalar R]

/-- The assets whose layers have been completed, with those layers, by their position. -/
abbrev Finished (R : Type) := List (Nat × List (Value R))

/-- The position of the first asset with an identifier. -/
def assetPosition? (assets : List (Value R)) (reference : Value R) : Option Nat :=
  assets.findIdx? fun asset =>
    match asset with
    | .object members => (Members.get members "id").same reference
    | _ => false

def assetLayers? (assets : List (Value R)) (position : Nat) : Option (List (Value R)) := do
  let asset ← assets[position]?
  (asset.members.get "layers").items?

/-- The way to expand a reference, given the assets finished so far. -/
abbrev Expander (R : Type) :=
  Value R → Finished R → Report R (List (Value R) × Finished R)

/-- Completes a layer and expands it if it is a precomposition. -/
def completeLayer (expand : Expander R) (layer : Members R) (finished : Finished R) :
    Report R (Members R × Finished R) := do
  let layer ← completeContent layer
  if isPrecomp layer then
    let (layers, finished) ← expand (layer.get "refId") finished
    return (layer.set "layers" (.list layers), finished)
  else return (layer, finished)

/-- Completes the layers of a list in order.  `before` holds those that are done, latest
first, because a matte marks the layer before it. -/
def completeLayers (expand : Expander R) :
    (before : List (Value R)) → List (Value R) → Finished R →
      Report R (List (Value R) × Finished R)
  | before, [], finished => pure (before.reverse, finished)
  | before, layer :: rest, finished =>
    match layer with
    | .object members => do
      if isCompletable members then
        let before := markMatte members before
        let (completed, finished) ← completeLayer expand members finished
        completeLayers expand (.object completed :: before) rest finished
      else completeLayers expand (layer :: before) rest finished
    | layer => completeLayers expand (layer :: before) rest finished

/-- The asset that a reference names, by its position, with its layers. -/
def referencedAsset? (assets : List (Value R)) (reference : Value R) :
    Option (Nat × List (Value R)) := do
  let position ← assetPosition? assets reference
  return (position, ← assetLayers? assets position)

/-- Expands a reference while the assets at the active positions are being completed.
Every level begins an asset that is not yet begun, so there are no more levels than
assets. -/
def expandReference (assets : List (Value R)) :
    (levels : Nat) → (active : List Nat) → Expander R
  | levels, active, reference, finished =>
    match referencedAsset? assets reference with
    | none => do
      Traced.tell (.assetNotFound reference)
      return ([], finished)
    | some (position, layers) =>
      if position ∈ active then do
        Traced.tell (.selfReference reference)
        return ([], finished)
      else
        match finished.lookup position, levels with
        | some layers, _ => pure (layers, finished)
        | none, 0 => pure ([], finished)
        | none, levels + 1 => do
          let expand := expandReference assets levels (position :: active)
          let (layers, finished) ← completeLayers expand [] layers finished
          return (layers, (position, layers) :: finished)

/-- The asset at a position, with its completed layers if it is finished. -/
def finishAsset (finished : Finished R) (position : Nat) (asset : Value R) : Value R :=
  match asset, finished.lookup position with
  | .object members, some layers => .object (Members.set members "layers" (.list layers))
  | asset, _ => asset

/-- Assets with the layers of the finished ones completed. -/
def finishAssets (finished : Finished R) (assets : List (Value R)) : List (Value R) :=
  assets.mapIdx (finishAsset finished)

/-- The completed layers at the top of a document, with the assets that were completed for
them. -/
def completeTop (document : Members R) : Report R (List (Value R) × Finished R) :=
  let assets := (document.get "assets").items
  completeLayers (expandReference assets assets.length []) [] (document.get "layers").items []

/-- A document with its layers completed and its precompositions expanded. -/
def completeDocument (document : Members R) : Report R (Members R) := do
  let (layers, finished) ← completeTop document
  let assets := (document.get "assets").items
  let document := document.set "layers" (.list layers)
  if document.has "assets" && !finished.isEmpty then
    return document.set "assets" (.list (finishAssets finished assets))
  else return document

end MotionScene
