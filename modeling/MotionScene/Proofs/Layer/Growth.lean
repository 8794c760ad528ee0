import Mathlib.Data.List.Nodup
import MotionScene.Proofs.Layer.Links

/-!
# Layers below layers

Growing the elements of well placed layers from the ones that stay at the top passes every
place once (`nodup_walkTop`, `mem_walkTop_iff`).  A walk that came to a place twice would
have come to two layers that are not above each other, or to a layer from below itself.
-/

namespace MotionScene

open Relation

variable {R : Type} {placed : List (PlacedLayer R)}

/-- The places that growing the element of a layer passes, each before those below it. -/
def walk (placed : List (PlacedLayer R)) : (depth : Nat) → PlacedLayer R → List Nat
  | 0, layer => [layer.place]
  | depth + 1, layer => layer.place :: (placed.filter (·.movesTo layer)).flatMap (walk placed depth)

/-- The layers that stay at the top. -/
def tops (placed : List (PlacedLayer R)) : List (PlacedLayer R) :=
  placed.filter (·.parent?.isNone)

/-- The places that growing the whole forest passes. -/
def walkTop (placed : List (PlacedLayer R)) : List Nat :=
  (tops placed).flatMap (walk placed placed.length)

theorem place_mem_walk (depth : Nat) (layer : PlacedLayer R) :
    layer.place ∈ walk placed depth layer := by
  cases depth <;> exact List.mem_cons_self

theorem movesInto_of_mem_filter {layer child : PlacedLayer R}
    (h : child ∈ placed.filter (·.movesTo layer)) :
    MovesInto placed layer.place child.place := by
  obtain ⟨hmem, hmoves⟩ := List.mem_filter.mp h
  exact ⟨child, hmem, rfl, of_decide_eq_true hmoves⟩

theorem leads_of_mem_walk {depth : Nat} {layer : PlacedLayer R} {place : Nat}
    (h : place ∈ walk placed depth layer) :
    ReflTransGen (MovesInto placed) layer.place place := by
  induction depth generalizing layer with
  | zero => exact List.mem_singleton.mp h ▸ .refl
  | succ depth ih =>
      rcases List.mem_cons.mp h with rfl | h
      · exact .refl
      · obtain ⟨child, hchild, h⟩ := List.mem_flatMap.mp h
        exact .head (movesInto_of_mem_filter hchild) (ih h)

namespace WellPlaced

variable (well : WellPlaced placed)

include well

theorem nodup_places : (placed.map (·.place)).Nodup :=
  well.places ▸ List.nodup_range

theorem eq_of_place_eq {layer other : PlacedLayer R} (hlayer : layer ∈ placed)
    (hother : other ∈ placed) (h : layer.place = other.place) : layer = other :=
  List.inj_on_of_nodup_map well.nodup_places hlayer hother h

theorem place_lt {layer : PlacedLayer R} (h : layer ∈ placed) : layer.place < placed.length :=
  List.mem_range.mp (well.places ▸ List.mem_map_of_mem h)

theorem exists_layer {place : Nat} (h : place < placed.length) :
    ∃ layer ∈ placed, layer.place = place :=
  List.mem_map.mp (well.places ▸ List.mem_range.mpr h)

theorem getElem?_place {layer : PlacedLayer R} (h : layer ∈ placed) :
    placed[layer.place]? = some layer := by
  have hplace : (placed.map (·.place))[layer.place]? = some layer.place := by
    rw [well.places, List.getElem?_range (well.place_lt h)]
  rw [List.getElem?_map] at hplace
  obtain ⟨found, hfound, hsame⟩ := Option.map_eq_some_iff.mp hplace
  rw [hfound, well.eq_of_place_eq (List.mem_of_getElem? hfound) h hsame]

theorem child_lt {parent child : Nat} (h : MovesInto placed parent child) :
    child < placed.length := by
  obtain ⟨layer, hmem, rfl, -⟩ := h
  exact well.place_lt hmem

theorem lt_of_mem_walk {depth : Nat} {layer : PlacedLayer R} (hlayer : layer ∈ placed)
    {place : Nat} (h : place ∈ walk placed depth layer) : place < placed.length := by
  rcases (leads_of_mem_walk h).cases_tail with rfl | ⟨last, -, hmoves⟩
  · exact well.place_lt hlayer
  · exact well.child_lt hmoves

/-- A layer moves into one parent only. -/
theorem parent_unique {parent other child : Nat} (h : MovesInto placed parent child)
    (hother : MovesInto placed other child) : parent = other := by
  obtain ⟨layer, hmem, rfl, hparent⟩ := h
  obtain ⟨again, hagain, hplace, hparent'⟩ := hother
  rw [well.eq_of_place_eq hagain hmem hplace, hparent] at hparent'
  exact Option.some.inj hparent'

/-- Of two places above a third, one is above the other. -/
theorem above_total {first second place : Nat}
    (hfirst : ReflTransGen (MovesInto placed) first place)
    (hsecond : ReflTransGen (MovesInto placed) second place) :
    ReflTransGen (MovesInto placed) first second ∨
      ReflTransGen (MovesInto placed) second first := by
  induction hfirst with
  | refl => exact .inr hsecond
  | @tail middle place hleads hmoves ih =>
      rcases hsecond.cases_tail with rfl | ⟨other, hother, hmoves'⟩
      · exact .inl (hleads.tail hmoves)
      · exact ih (well.parent_unique hmoves' hmoves ▸ hother)

/-- The walks from layers that are not above each other pass no place twice. -/
theorem nodup_flatMap_walk {layers : List (PlacedLayer R)} {depth : Nat}
    (hlayers : layers.Sublist placed) (hnodup : ∀ layer ∈ layers, (walk placed depth layer).Nodup)
    (hapart : ∀ layer ∈ layers, ∀ other ∈ layers,
      ReflTransGen (MovesInto placed) layer.place other.place → layer.place = other.place) :
    (layers.flatMap (walk placed depth)).Nodup := by
  refine List.nodup_flatMap.mpr ⟨hnodup, ?_⟩
  have hdistinct : layers.Pairwise fun layer other => layer.place ≠ other.place :=
    List.pairwise_map.mp (well.nodup_places.sublist (hlayers.map _))
  refine hdistinct.imp_of_mem fun hlayer hother hne place hplace hplace' => hne ?_
  rcases well.above_total (leads_of_mem_walk hplace) (leads_of_mem_walk hplace') with h | h
  · exact hapart _ hlayer _ hother h
  · exact (hapart _ hother _ hlayer h).symm

theorem nodup_walk (depth : Nat) (layer : PlacedLayer R) :
    (walk placed depth layer).Nodup := by
  induction depth generalizing layer with
  | zero => exact List.nodup_singleton _
  | succ depth ih =>
      refine List.nodup_cons.mpr ⟨fun hself => ?_, ?_⟩
      · -- a layer met again below itself would have moved into itself
        obtain ⟨child, hchild, hself⟩ := List.mem_flatMap.mp hself
        have hcycle := TransGen.head' (movesInto_of_mem_filter hchild) (leads_of_mem_walk hself)
        exact well.noCycle _ hcycle
      · refine well.nodup_flatMap_walk List.filter_sublist (fun child _ => ih child) ?_
        intro child hchild other hother hleads
        rcases hleads.cases_tail with heq | ⟨last, hleads, hlast⟩
        · exact heq.symm
        · -- the parent of the second child is the layer, which is above the first
          rw [well.parent_unique hlast (movesInto_of_mem_filter hother)] at hleads
          have hcycle := TransGen.tail' hleads (movesInto_of_mem_filter hchild)
          exact absurd hcycle (well.noCycle _)

theorem nodup_walkTop : (walkTop placed).Nodup := by
  refine well.nodup_flatMap_walk List.filter_sublist (fun layer _ => well.nodup_walk _ layer) ?_
  intro layer hlayer other hother hleads
  rcases hleads.cases_tail with heq | ⟨last, -, hmoves⟩
  · exact heq.symm
  · -- a layer at the top has no parent
    obtain ⟨again, hagain, hplace, hparent⟩ := hmoves
    obtain ⟨hmem, hnone⟩ := List.mem_filter.mp hother
    rw [well.eq_of_place_eq hagain hmem hplace] at hparent
    simp [hparent] at hnone

/-- A walk that may go deep enough passes all places below a layer. -/
theorem mem_walk {depth : Nat} {layer : PlacedLayer R} {place : Nat}
    (hdepth : (descendants (MovesInto placed) placed.length layer.place).card ≤ depth)
    (hleads : ReflTransGen (MovesInto placed) layer.place place) :
    place ∈ walk placed depth layer := by
  induction depth generalizing layer with
  | zero =>
      rcases hleads.cases_head with rfl | ⟨child, hmoves, -⟩
      · exact place_mem_walk 0 layer
      · -- a level is missing only where nothing is below
        have hfewer := card_descendants_lt well.noCycle (well.child_lt hmoves) hmoves
        omega
  | succ depth ih =>
      rcases hleads.cases_head with rfl | ⟨child, hmoves, hleads⟩
      · exact place_mem_walk (depth + 1) layer
      · have hfewer := card_descendants_lt well.noCycle (well.child_lt hmoves) hmoves
        obtain ⟨lower, hlower, rfl, hparent⟩ := hmoves
        refine List.mem_cons_of_mem _ (List.mem_flatMap.mpr ⟨lower, ?_, ih (by omega) hleads⟩)
        exact List.mem_filter.mpr ⟨hlower, decide_eq_true hparent⟩

/-- Every layer is below one that stays at the top: the induction is on the number of
layers above it. -/
theorem exists_top {place : Nat} (h : place < placed.length) :
    ∃ top ∈ tops placed, ReflTransGen (MovesInto placed) top.place place := by
  induction hcount : (descendants (Function.swap (MovesInto placed)) placed.length place).card
    using Nat.strongRecOn generalizing place with
  | ind count ih =>
      obtain ⟨layer, hmem, rfl⟩ := well.exists_layer h
      cases hparent : layer.parent? with
      | none => exact ⟨layer, List.mem_filter.mpr ⟨hmem, by rw [hparent]; rfl⟩, .refl⟩
      | some parent =>
          have hmoves : MovesInto placed parent layer.place := ⟨layer, hmem, rfl, hparent⟩
          have hlt := well.parent_lt hmoves
          have hfewer := card_descendants_lt well.noCycle.swap hlt
            (show Function.swap (MovesInto placed) layer.place parent from hmoves)
          obtain ⟨top, htop, hleads⟩ := ih _ (hcount ▸ hfewer) hlt rfl
          exact ⟨top, htop, hleads.tail hmoves⟩

theorem mem_walkTop_iff {place : Nat} : place ∈ walkTop placed ↔ place < placed.length := by
  constructor
  · intro h
    obtain ⟨top, htop, h⟩ := List.mem_flatMap.mp h
    exact well.lt_of_mem_walk (List.mem_of_mem_filter htop) h
  · intro h
    obtain ⟨top, htop, hleads⟩ := well.exists_top h
    have hlt := well.place_lt (List.mem_of_mem_filter htop)
    have hdepth := card_descendants_lt_bound well.noCycle hlt
    exact List.mem_flatMap.mpr ⟨top, htop, well.mem_walk hdepth.le hleads⟩

/-- The walk from the top passes every place once. -/
theorem walkTop_perm : (walkTop placed).Perm (List.range placed.length) := by
  refine (List.perm_ext_iff_of_nodup well.nodup_walkTop List.nodup_range).mpr fun place => ?_
  rw [well.mem_walkTop_iff, List.mem_range]

end WellPlaced

end MotionScene
