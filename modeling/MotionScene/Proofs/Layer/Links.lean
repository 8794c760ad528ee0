import MotionScene.Layer.Placement
import MotionScene.Proofs.Descendants
import MotionScene.Proofs.Layer.Cycle
import MotionScene.Proofs.Outcome

/-!
# Honoured links

Placing built layers settles for every layer which parent it moves to.  A parent is one
of the layers, and no layer moves, directly or through others, into itself: `WellPlaced`.
-/

namespace MotionScene

open Relation

variable {R : Type}

/-! ## Links between places -/

/-- The links of the layers that stand from a place on. -/
def linksFrom (first : Nat) (parents : List ParentLink) : List (Nat × Nat) :=
  (parents.zipIdx first).filterMap fun (link, place) => link.place?.map (place, ·)

theorem linksFrom_cons (first : Nat) (link : ParentLink) (parents : List ParentLink) :
    linksFrom first (link :: parents) =
      (link.place?.map (first, ·)).toList ++ linksFrom (first + 1) parents := by
  cases hlink : link.place? <;> simp [linksFrom, hlink]

theorem le_of_mem_linksFrom {first : Nat} {parents : List ParentLink} {link : Nat × Nat}
    (h : link ∈ linksFrom first parents) : first ≤ link.1 := by
  obtain ⟨⟨other, place⟩, hother, hlink⟩ := List.mem_filterMap.mp h
  obtain ⟨parent, -, rfl⟩ := Option.map_eq_some_iff.mp hlink
  exact (List.mem_zipIdx hother).1

theorem parentOf_linksFrom (parents : List ParentLink) (first place : Nat) :
    parentOf (linksFrom first parents) (first + place) =
      parents[place]?.bind ParentLink.place? := by
  induction parents generalizing first place with
  | nil => rfl
  | cons link parents ih =>
      rw [linksFrom_cons]
      cases place with
      | zero =>
          cases hlink : link.place? with
          | some parent => simp [parentOf, hlink]
          | none =>
              -- all later links start from later places
              simp only [Option.map_none, Option.toList_none, List.nil_append, parentOf,
                List.getElem?_cons_zero, Option.bind_some, hlink, Option.map_eq_none_iff,
                List.find?_eq_none]
              intro later hlater
              have hplace := le_of_mem_linksFrom hlater
              simp
              omega
      | succ place =>
          have hrest := ih (first + 1) place
          rw [show first + 1 + place = first + (place + 1) by omega] at hrest
          rw [List.getElem?_cons_succ, ← hrest]
          have hother : (first == first + (place + 1)) = false := by simp
          cases link.place? with
          | none => rfl
          | some parent => simp [parentOf, hother]

/-- The parent of a place is the one that its layer names. -/
theorem parentOf_linksOf (parents : List ParentLink) (place : Nat) :
    parentOf (linksOf parents) place = parents[place]?.bind ParentLink.place? := by
  rw [← parentOf_linksFrom parents 0 place, Nat.zero_add]
  rfl

/-- The parent that the layer at a place moves to. -/
def honoured? (links : List (Nat × Nat)) (place : Nat) : ParentLink → Option Nat
  | .layer parent => if closesCycle links place then none else some parent
  | _ => none

theorem honoured?_eq_some {links : List (Nat × Nat)} {place parent : Nat} {link : ParentLink} :
    honoured? links place link = some parent ↔
      link = .layer parent ∧ ¬ TransGen (ParentOf links) place place := by
  cases link with
  | layer named =>
      rw [honoured?, ← closesCycle_iff, ParentLink.layer.injEq]
      by_cases hcloses : closesCycle links place <;> simp [hcloses]
  | _ => simp [honoured?]

variable [Scalar R]

omit [Scalar R] in
theorem outcome_honouredParent (links : List (Nat × Nat)) (layer : BuiltLayer R) (place : Nat)
    (link : ParentLink) :
    (honouredParent links layer place link).outcome = .ok (honoured? links place link) := by
  cases link with
  | layer parent =>
      rw [honouredParent, honoured?]
      split <;> rfl
  | _ => rfl

theorem linkOf_lt {layers : List (BuiltLayer R)} {layer : BuiltLayer R} {parent : Nat}
    (h : linkOf layers layer = .ok (.layer parent)) : parent < layers.length := by
  rw [linkOf] at h
  split at h
  · cases h
  · obtain ⟨key?, -, h⟩ := bind_eq_ok.mp h
    cases key? with
    | none => cases h
    | some key =>
        cases hplace : placeOf? layers key with
        | none => simp [hplace] at h
        | some place =>
            simp only [hplace, Option.elim_some, pure_eq_ok, ParentLink.layer.injEq] at h
            rw [← h]
            exact (List.findIdx?_eq_some_iff_findIdx_eq.mp hplace).1

/-! ## Placed layers -/

/-- A layer moves to a parent. -/
def MovesInto (placed : List (PlacedLayer R)) (parent child : Nat) : Prop :=
  ∃ layer ∈ placed, layer.place = child ∧ layer.parent? = some parent

/-- Layers that stand at their places, with parents among them and none that moves into
itself. -/
structure WellPlaced (placed : List (PlacedLayer R)) : Prop where
  places : placed.map (·.place) = List.range placed.length
  parent_lt : ∀ {parent child}, MovesInto placed parent child → parent < placed.length
  noCycle : NoCycle (MovesInto placed)

/-- What is known of placing every layer: all that can fail is reading a link. -/
theorem placed_of_placeAll {layers : List (BuiltLayer R)} {placed : List (PlacedLayer R)}
    (returned : (placeAll layers).outcome = .ok placed) :
    ∃ parents, List.Forall₂ (fun layer link => linkOf layers layer = .ok link) layers parents ∧
      placed = (layers.zip parents).zipIdx.map fun ((layer, link), place) =>
        ⟨layer.pivoted, place, honoured? (linksOf parents) place link⟩ := by
  obtain ⟨parents, hparents, hrest⟩ := Traced.outcome_bind_eq_ok.mp returned
  refine ⟨parents, mapM_eq_ok.mp hparents, ?_⟩
  rw [Traced.outcome_mapM] at hrest
  have hstep : ∀ entry : (BuiltLayer R × ParentLink) × Nat,
      (do
        let parent? ← honouredParent (linksOf parents) entry.1.1 entry.2 entry.1.2
        return (⟨entry.1.1.pivoted, entry.2, parent?⟩ : PlacedLayer R) :
          Report R (PlacedLayer R)).outcome =
        .ok ⟨entry.1.1.pivoted, entry.2, honoured? (linksOf parents) entry.2 entry.1.2⟩ := by
    intro entry
    exact Traced.outcome_bind_eq_ok.mpr ⟨_, outcome_honouredParent .., rfl⟩
  simp only [hstep] at hrest
  rw [mapM_ok] at hrest
  exact (Except.ok.inj hrest).symm

theorem wellPlaced_of_placeAll {layers : List (BuiltLayer R)} {placed : List (PlacedLayer R)}
    (returned : (placeAll layers).outcome = .ok placed) :
    WellPlaced placed ∧ placed.map (·.pivoted) = layers.map (·.pivoted) := by
  obtain ⟨parents, hparents, rfl⟩ := placed_of_placeAll returned
  obtain ⟨hlength, hlinks⟩ := List.forall₂_iff_zip.mp hparents
  -- a layer moves along its own link only, and only where the link closes no cycle
  have hmoves : ∀ {parent child}, MovesInto ((layers.zip parents).zipIdx.map
      fun ((layer, link), place) =>
        (⟨layer.pivoted, place, honoured? (linksOf parents) place link⟩ : PlacedLayer R))
        parent child →
      parent < layers.length ∧ ParentOf (linksOf parents) child parent ∧
        ¬ TransGen (ParentOf (linksOf parents)) child child := by
    rintro parent child ⟨_, hmem, rfl, hparent⟩
    obtain ⟨⟨⟨layer, link⟩, place⟩, hentry, rfl⟩ := List.mem_map.mp hmem
    obtain ⟨rfl, hcycle⟩ := honoured?_eq_some.mp hparent
    have hzip := List.mem_zipIdx_iff_getElem?.mp hentry
    obtain ⟨-, hlink⟩ := List.getElem?_zip_eq_some.mp hzip
    refine ⟨linkOf_lt (hlinks (List.mem_of_getElem? hzip)), ?_, hcycle⟩
    rw [ParentOf, parentOf_linksOf, hlink]
    rfl
  refine ⟨⟨?_, fun h => ?_, fun place cycle => ?_⟩, ?_⟩
  · simp [List.map_map, Function.comp_def, List.range_eq_range', List.zipIdx_map_snd]
  · simpa [← hlength] using (hmoves h).1
  · -- a cycle of moves is a cycle of links, from which the last move is excluded
    have hclimbs : TransGen (ParentOf (linksOf parents)) place place :=
      transGen_swap.mp (TransGen.mono (fun _ _ h => (hmoves h).2.1) _ _ cycle)
    obtain ⟨last, -, hlast⟩ := TransGen.tail'_iff.mp cycle
    exact (hmoves hlast).2.2 hclimbs
  · rw [List.map_map]
    calc ((layers.zip parents).zipIdx.map _)
        = (((layers.zip parents).zipIdx.map (·.1)).map (·.1)).map (·.pivoted) := by
          rw [List.map_map, List.map_map]
          rfl
      _ = layers.map (·.pivoted) := by
          rw [List.zipIdx_map_fst, List.map_fst_zip hlength.le]

end MotionScene
