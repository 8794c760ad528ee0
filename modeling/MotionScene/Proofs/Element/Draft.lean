import MotionScene.Element.Draft
import MotionScene.Proofs.Descendants
import MotionScene.Proofs.Outcome

/-!
# Drafts as trees

A draft holds its elements by place and hangs them below each other; a scene is a forest of trees.
Here each change of a draft is related to the same change of a tree.  A new group has the trees of
its children (`element_addGroup`).  Hanging an element below another is `Element.adopt`
(`element_adopt`), unless it closes a cycle, and then there is no tree any more
(`element_adopt_endless`).  Changing a body changes the body of the tree (`element_changeBody`), and
a pivot is `Element.pivot` (`element_pivot`).

An element shows a tree if reading it out succeeds at some depth.  An element that shows a tree does
not hang below itself, so the number of elements is depth enough (`element_eq_ok_iff`), and a change
at one place is seen only where that place hangs below (`Shows.congr`).
-/

namespace MotionScene.Draft

open Relation List

variable {R : Type} {draft after : Draft R} {depth place other : Nat} {node : DraftNode R}
  {tree : Element R}

/-- An element has a child at a place. -/
def HasChild (draft : Draft R) (place child : Nat) : Prop :=
  ∃ node places, draft.nodes[place]? = some node ∧ node.children? = some places ∧ child ∈ places

/-- Reading out the element at a place gives a tree. -/
def Shows (draft : Draft R) (place : Nat) (tree : Element R) : Prop :=
  ∃ depth, draft.treeAt depth place = .ok tree

theorem nodeAt_eq_ok : draft.nodeAt place = .ok node ↔ draft.nodes[place]? = some node := by
  unfold nodeAt
  cases draft.nodes[place]? <;> simp

/-! ## What an element shows -/

/-- What holds of children and their trees is shown child by child. -/
theorem rel_children {first second : Nat → Element R → Prop} {children? : Option (List (Element R))}
    (hnode : draft.nodes[place]? = some node)
    (hchildren : Option.Rel (Forall₂ first) node.children? children?)
    (himp : ∀ child, draft.HasChild place child → ∀ below, first child below → second child below) :
    Option.Rel (Forall₂ second) node.children? children? := by
  cases hplaces : node.children? with
  | none =>
      rw [hplaces] at hchildren
      cases hchildren
      exact .none
  | some places =>
      rw [hplaces] at hchildren
      cases hchildren with
      | some hread =>
          exact .some (forall₂_imp_of_mem hread fun child hchild =>
            himp child ⟨node, places, hnode, hplaces, hchild⟩)

theorem treeAt_succ_eq_ok : draft.treeAt (depth + 1) place = .ok tree ↔
    ∃ node, draft.nodes[place]? = some node ∧ ∃ children?,
      Option.Rel (Forall₂ fun child below => draft.treeAt depth child = .ok below)
        node.children? children? ∧
      tree = ⟨node.type, node.body, children?, node.name?⟩ := by
  rw [treeAt, bind_eq_ok]
  refine exists_congr fun node => and_congr nodeAt_eq_ok ?_
  cases node.children? with
  | none =>
      rw [pure_eq_ok]
      constructor
      · rintro rfl
        exact ⟨none, .none, rfl⟩
      · rintro ⟨_, hchildren, rfl⟩
        cases hchildren
        rfl
  | some places =>
      rw [bind_eq_ok]
      constructor
      · rintro ⟨children, hchildren, htree⟩
        exact ⟨some children, .some (mapM_eq_ok.mp hchildren), (pure_eq_ok.mp htree).symm⟩
      · rintro ⟨_, hchildren, rfl⟩
        cases hchildren with
        | some hchildren => exact ⟨_, mapM_eq_ok.mpr hchildren, rfl⟩

theorem treeAt_mono {deeper : Nat} (h : draft.treeAt depth place = .ok tree)
    (hdeeper : depth ≤ deeper) : draft.treeAt deeper place = .ok tree := by
  induction depth generalizing place tree deeper with
  | zero => nomatch h
  | succ depth ih =>
      obtain ⟨node, hnode, children?, hchildren, htree⟩ := treeAt_succ_eq_ok.mp h
      cases deeper with
      | zero => nomatch hdeeper
      | succ deeper =>
          refine treeAt_succ_eq_ok.mpr ⟨node, hnode, children?, ?_, htree⟩
          exact rel_children hnode hchildren fun _ _ _ hbelow =>
            ih hbelow (Nat.le_of_succ_le_succ hdeeper)

/-- Trees that are shown are shown at one depth. -/
theorem exists_depth {places? : Option (List Nat)} {children? : Option (List (Element R))}
    (h : Option.Rel (Forall₂ draft.Shows) places? children?) : ∃ depth, Option.Rel
      (Forall₂ fun child below => draft.treeAt depth child = .ok below) places? children? := by
  cases h with
  | none => exact ⟨0, .none⟩
  | some hchildren =>
      induction hchildren with
      | nil => exact ⟨0, .some .nil⟩
      | cons hfirst _ ih =>
          obtain ⟨first, hfirst⟩ := hfirst
          obtain ⟨rest, hrest⟩ := ih
          cases hrest with
          | some hrest =>
              exact ⟨max first rest, .some (.cons (treeAt_mono hfirst (Nat.le_max_left ..))
                (hrest.imp fun _ _ htree => treeAt_mono htree (Nat.le_max_right ..)))⟩

/-- An element shows what stands at its place, with the trees that its children show. -/
theorem shows_iff : draft.Shows place tree ↔
    ∃ node, draft.nodes[place]? = some node ∧ ∃ children?,
      Option.Rel (Forall₂ draft.Shows) node.children? children? ∧
      tree = ⟨node.type, node.body, children?, node.name?⟩ := by
  constructor
  · rintro ⟨depth, htree⟩
    cases depth with
    | zero => nomatch htree
    | succ depth =>
        obtain ⟨node, hnode, children?, hchildren, htree⟩ := treeAt_succ_eq_ok.mp htree
        exact ⟨node, hnode, children?, rel_children hnode hchildren fun _ _ _ hbelow =>
          ⟨depth, hbelow⟩, htree⟩
  · rintro ⟨node, hnode, children?, hchildren, htree⟩
    obtain ⟨depth, hread⟩ := exists_depth hchildren
    exact ⟨depth + 1, treeAt_succ_eq_ok.mpr ⟨node, hnode, children?, hread, htree⟩⟩

theorem Shows.lt_length (h : draft.Shows place tree) : place < draft.nodes.length := by
  obtain ⟨node, hnode, -⟩ := shows_iff.mp h
  exact (List.getElem?_eq_some_iff.mp hnode).1

/-! ## Depths

An element that shows a tree does not hang below itself, since every step down needs less depth. -/

theorem exists_treeAt_child (h : draft.treeAt depth place = .ok tree)
    (hchild : draft.HasChild place other) :
    ∃ less < depth, ∃ below, draft.treeAt less other = .ok below := by
  cases depth with
  | zero => nomatch h
  | succ depth =>
      obtain ⟨node, hnode, children?, hchildren, -⟩ := treeAt_succ_eq_ok.mp h
      obtain ⟨_, places, hsame, hplaces, hmem⟩ := hchild
      cases hnode.symm.trans hsame
      obtain ⟨children, -, hread⟩ := exists_of_rel_left hchildren hplaces
      obtain ⟨below, -, hbelow⟩ := exists_of_mem_left hread hmem
      exact ⟨depth, Nat.lt_succ_self depth, below, hbelow⟩

theorem exists_treeAt_below (h : draft.treeAt depth place = .ok tree)
    (hbelow : TransGen draft.HasChild place other) :
    ∃ less < depth, ∃ below, draft.treeAt less other = .ok below := by
  induction hbelow with
  | single hchild => exact exists_treeAt_child h hchild
  | tail _ hchild ih =>
      obtain ⟨between, hbetween, _, hread⟩ := ih
      obtain ⟨less, hless, hbelow⟩ := exists_treeAt_child hread hchild
      exact ⟨less, hless.trans hbetween, hbelow⟩

theorem Shows.below (h : draft.Shows place tree)
    (hbelow : ReflTransGen draft.HasChild place other) : ∃ below, draft.Shows other below := by
  rcases reflTransGen_iff_eq_or_transGen.mp hbelow with rfl | hbelow
  · exact ⟨tree, h⟩
  · obtain ⟨_, htree⟩ := h
    obtain ⟨less, -, below, hread⟩ := exists_treeAt_below htree hbelow
    exact ⟨below, less, hread⟩

theorem Shows.acyclic (h : draft.Shows place tree) : ¬ TransGen draft.HasChild place place := by
  intro hcycle
  obtain ⟨depth, htree⟩ := h
  induction depth using Nat.strongRec generalizing tree with
  | ind depth ih =>
      obtain ⟨less, hless, below, hread⟩ := exists_treeAt_below htree hcycle
      exact ih less hless hread

/-- An element that shows a tree has a child at a place. -/
def HasShownChild (draft : Draft R) (place child : Nat) : Prop :=
  draft.HasChild place child ∧ ∃ tree, draft.Shows place tree

theorem noCycle_hasShownChild : NoCycle draft.HasShownChild := by
  intro place hcycle
  obtain ⟨_, hfirst, -⟩ := TransGen.head'_iff.mp hcycle
  obtain ⟨tree, hshows⟩ := hfirst.2
  exact hshows.acyclic (hcycle.lift id fun _ _ hstep => hstep.1)

theorem Shows.treeAt_of_card (h : draft.Shows place tree) (hdepth :
    (descendants draft.HasShownChild draft.nodes.length place).card < depth) :
    draft.treeAt depth place = .ok tree := by
  -- a child has fewer descendants than its parent, so one less depth is enough for it
  induction depth generalizing place tree with
  | zero => nomatch hdepth
  | succ depth ih =>
      obtain ⟨node, hnode, children?, hchildren, htree⟩ := shows_iff.mp h
      refine treeAt_succ_eq_ok.mpr ⟨node, hnode, children?, ?_, htree⟩
      refine rel_children hnode hchildren fun child hchild below hbelow => ih hbelow ?_
      have hfewer := card_descendants_lt noCycle_hasShownChild hbelow.lt_length ⟨hchild, tree, h⟩
      exact hfewer.trans_le (Nat.le_of_lt_succ hdepth)

/-- The element that an identifier stands for is read out as the tree that it shows: the draft is as
deep as reading needs. -/
theorem element_eq_ok_iff {id : String} : draft.element id = .ok tree ↔
    ∃ place, draft.placeOf id = .ok place ∧ draft.Shows place tree := by
  unfold element
  rw [bind_eq_ok]
  refine exists_congr fun place => and_congr_right fun _ => ⟨fun h => ⟨_, h⟩, fun h => ?_⟩
  exact h.treeAt_of_card (card_descendants_lt_bound noCycle_hasShownChild h.lt_length)

/-! ## Changes at one place -/

/-- What an element shows depends on what hangs below it alone. -/
theorem Shows.congr (shows : draft.Shows place tree)
    (same : ∀ below, ReflTransGen draft.HasChild place below →
      after.nodes[below]? = draft.nodes[below]?) : after.Shows place tree := by
  obtain ⟨depth, htree⟩ := shows
  induction depth generalizing place tree with
  | zero => nomatch htree
  | succ depth ih =>
      obtain ⟨node, hnode, children?, hchildren, htree⟩ := treeAt_succ_eq_ok.mp htree
      refine shows_iff.mpr ⟨node, (same place .refl).trans hnode, children?, ?_, htree⟩
      exact rel_children hnode hchildren fun child hchild below hbelow =>
        ih (fun last hlast => same last (.head hchild hlast)) hbelow

theorem Shows.add (shows : draft.Shows place tree) (id : String) (node : DraftNode R) :
    (draft.add id node).Shows place tree := by
  refine shows.congr fun below hbelow => ?_
  obtain ⟨_, hshows⟩ := shows.below hbelow
  exact List.getElem?_append_left hshows.lt_length

theorem Shows.put (shows : draft.Shows other tree) (node : DraftNode R)
    (apart : ¬ ReflTransGen draft.HasChild other place) :
    (draft.put place node).Shows other tree := by
  refine shows.congr fun below hbelow => List.getElem?_set_ne ?_
  rintro rfl
  exact apart hbelow

/-- What is put at a place shows the trees of children that the place does not hang below. -/
theorem shows_put (node : DraftNode R) (hplace : place < draft.nodes.length)
    {children? : Option (List (Element R))}
    (hchildren : Option.Rel (Forall₂ fun child below => draft.Shows child below ∧
      ¬ ReflTransGen draft.HasChild child place) node.children? children?) :
    (draft.put place node).Shows place ⟨node.type, node.body, children?, node.name?⟩ := by
  have hnode : (draft.put place node).nodes[place]? = some node := List.getElem?_set_self hplace
  refine shows_iff.mpr ⟨node, hnode, children?, ?_, rfl⟩
  exact rel_children hnode hchildren fun _ _ _ hbelow => hbelow.1.put node hbelow.2

/-- An element shows what stands at its place, and does not hang below its children. -/
theorem Shows.children (h : draft.Shows place tree) (hnode : draft.nodes[place]? = some node) :
    ∃ children?, Option.Rel (Forall₂ fun child below => draft.Shows child below ∧
        ¬ ReflTransGen draft.HasChild child place) node.children? children? ∧
      tree = ⟨node.type, node.body, children?, node.name?⟩ := by
  obtain ⟨_, hsame, children?, hchildren, htree⟩ := shows_iff.mp h
  cases hnode.symm.trans hsame
  refine ⟨children?, rel_children hnode hchildren fun child hchild below hbelow => ?_, htree⟩
  exact ⟨hbelow, fun hcycle => h.acyclic (.head' hchild hcycle)⟩

/-! ## New elements -/

variable {id : String}

theorem placeOf_add (id : String) : (draft.add id node).placeOf id = .ok draft.nodes.length := by
  rw [placeOf, add, List.lookup_cons_self]

theorem shows_add {children? : Option (List (Element R))}
    (hchildren : Option.Rel (Forall₂ draft.Shows) node.children? children?) :
    (draft.add id node).Shows draft.nodes.length ⟨node.type, node.body, children?, node.name?⟩ := by
  have hnode : (draft.add id node).nodes[draft.nodes.length]? = some node :=
    List.getElem?_concat_length
  refine shows_iff.mpr ⟨node, hnode, children?, ?_, rfl⟩
  exact rel_children hnode hchildren fun _ _ _ hbelow => hbelow.add id node

theorem exists_places {children : List String} {trees : List (Element R)}
    (htrees : children.mapM draft.element = .ok trees) :
    ∃ places, children.mapM draft.placeOf = .ok places ∧ Forall₂ draft.Shows places trees := by
  have hread := mapM_eq_ok.mp htrees
  clear htrees
  induction hread with
  | nil => exact ⟨[], rfl, .nil⟩
  | cons hfirst _ ih =>
      obtain ⟨place, hplace, hshows⟩ := element_eq_ok_iff.mp hfirst
      obtain ⟨places, hplaces, hrest⟩ := ih
      refine ⟨place :: places, ?_, .cons hshows hrest⟩
      rw [List.mapM_cons, hplace, ok_bind, hplaces, ok_bind]
      rfl

/-- A new group has the trees of its children below it. -/
theorem element_addGroup {children : List String} {trees : List (Element R)} (name? : Option String)
    (htrees : children.mapM draft.element = .ok trees) :
    ∃ after, draft.addGroup id children name? = .ok after ∧
      after.element id = .ok (.group trees name?) := by
  obtain ⟨places, hplaces, hshows⟩ := exists_places htrees
  refine ⟨draft.add id ⟨.group, Body.empty, some places, name?⟩, ?_, ?_⟩
  · rw [addGroup, hplaces]
    rfl
  · exact element_eq_ok_iff.mpr ⟨_, placeOf_add id, shows_add (.some hshows)⟩

/-- A new element without children stands alone. -/
theorem element_addLeaf (type : ElementType) (attributes : Members R) (name? : Option String) :
    (draft.addLeaf id type attributes name?).element id = .ok (.leaf type attributes name?) :=
  element_eq_ok_iff.mpr ⟨_, placeOf_add id, shows_add .none⟩

/-! ## Children -/

variable {childId : String} {parent below : Element R}

/-- The element that an identifier stands for hangs below another, or is that one. -/
def HangsBelow (draft : Draft R) (id outer : String) : Prop :=
  ∃ place above, draft.placeOf id = .ok place ∧ draft.placeOf outer = .ok above ∧
    ReflTransGen draft.HasChild above place

theorem adopt_eq_ok (h : draft.adopt id childId = .ok after) : ∃ place child node places,
    draft.placeOf id = .ok place ∧ draft.placeOf childId = .ok child ∧
    draft.nodes[place]? = some node ∧ node.children? = some places ∧
    after = draft.put place { node with children? := some (places ++ [child]) } := by
  obtain ⟨place, hplace, h⟩ := bind_eq_ok.mp h
  obtain ⟨child, hchild, h⟩ := bind_eq_ok.mp h
  obtain ⟨node, hnode, h⟩ := bind_eq_ok.mp h
  cases hplaces : node.children? with
  | none =>
      rw [hplaces] at h
      nomatch h
  | some places =>
      rw [hplaces] at h
      exact ⟨place, child, node, places, hplace, hchild, nodeAt_eq_ok.mp hnode, hplaces,
        (pure_eq_ok.mp h).symm⟩

/-- Hanging an element below another adds its tree to the other's children. -/
theorem element_adopt (hparent : draft.element id = .ok parent)
    (hbelow : draft.element childId = .ok below) (hadopt : draft.adopt id childId = .ok after)
    (apart : ¬ draft.HangsBelow id childId) : after.element id = .ok (parent.adopt [below]) := by
  obtain ⟨place, child, node, places, hplace, hchild, hnode, hplaces, rfl⟩ := adopt_eq_ok hadopt
  obtain ⟨_, hsame, hshows⟩ := element_eq_ok_iff.mp hparent
  cases hplace.symm.trans hsame
  obtain ⟨_, hsame, hchildShows⟩ := element_eq_ok_iff.mp hbelow
  cases hchild.symm.trans hsame
  obtain ⟨children?, hchildren, rfl⟩ := hshows.children hnode
  obtain ⟨children, rfl, hread⟩ := exists_of_rel_left hchildren hplaces
  -- the old children do not see the change, and neither does the new one
  have hlast : ¬ ReflTransGen draft.HasChild child place :=
    fun hangs => apart ⟨place, child, hplace, hchild, hangs⟩
  refine element_eq_ok_iff.mpr ⟨place, hplace, shows_put _ hshows.lt_length (.some ?_)⟩
  exact rel_append hread (.cons ⟨hchildShows, hlast⟩ .nil)

/-- An element that gets another child keeps those that it has. -/
theorem HasChild.grow {above below : Nat} (hchild : draft.HasChild above below)
    (hnode : draft.nodes[place]? = some node) {places : List Nat}
    (hplaces : node.children? = some places) (more : Nat) :
    (draft.put place { node with children? := some (places ++ [more]) }).HasChild above below := by
  obtain ⟨old, oldPlaces, hold, holdPlaces, hmem⟩ := hchild
  by_cases hsame : place = above
  · subst hsame
    cases hnode.symm.trans hold
    cases hplaces.symm.trans holdPlaces
    have hlt : place < draft.nodes.length := (List.getElem?_eq_some_iff.mp hnode).1
    exact ⟨_, _, List.getElem?_set_self hlt, rfl, List.mem_append_left _ hmem⟩
  · exact ⟨old, oldPlaces, (List.getElem?_set_ne hsame).trans hold, holdPlaces, hmem⟩

/-- An element that is hung below itself has no tree. -/
theorem element_adopt_endless (hadopt : draft.adopt id childId = .ok after)
    (hangs : draft.HangsBelow id childId) : ∀ tree, after.element id ≠ .ok tree := by
  intro tree htree
  obtain ⟨place, child, node, places, hplace, hchild, hnode, hplaces, rfl⟩ := adopt_eq_ok hadopt
  obtain ⟨_, hsame, hshows⟩ := element_eq_ok_iff.mp htree
  cases hplace.symm.trans hsame
  obtain ⟨_, _, hsame, hchildSame, hleads⟩ := hangs
  cases hplace.symm.trans hsame
  cases hchild.symm.trans hchildSame
  have hlt : place < draft.nodes.length := (List.getElem?_eq_some_iff.mp hnode).1
  have hnew : (draft.put place { node with children? := some (places ++ [child]) }).HasChild place
      child := ⟨_, _, List.getElem?_set_self hlt, rfl, List.mem_append_right _ List.mem_cons_self⟩
  -- the way down to the element is still there, and the new child leads back to its start
  have hkept := hleads.lift (fun place => place) fun _ _ hstep => hstep.grow hnode hplaces child
  exact hshows.acyclic (.head' hnew hkept)

/-! ## Bodies -/

/-- Changing a body changes the body of the tree. -/
theorem element_changeBody {change : Body R → Except Fault (Body R)}
    (htree : draft.element id = .ok tree) (hchange : draft.changeBody id change = .ok after) :
    ∃ body, change tree.body = .ok body ∧ after.element id = .ok { tree with body } := by
  obtain ⟨place, hplace, hchange⟩ := bind_eq_ok.mp hchange
  obtain ⟨node, hnode, hchange⟩ := bind_eq_ok.mp hchange
  obtain ⟨body, hbody, hchange⟩ := bind_eq_ok.mp hchange
  obtain rfl := pure_eq_ok.mp hchange
  obtain ⟨_, hsame, hshows⟩ := element_eq_ok_iff.mp htree
  cases hplace.symm.trans hsame
  obtain ⟨children?, hchildren, rfl⟩ := hshows.children (nodeAt_eq_ok.mp hnode)
  exact ⟨body, hbody, element_eq_ok_iff.mpr
    ⟨place, hplace, shows_put _ hshows.lt_length hchildren⟩⟩

/-! ## Pivots -/

variable [Scalar R]

/-- A pivot takes the anchor of the tree into a group around it, and fails where this fails. -/
theorem element_pivot (htree : draft.element id = .ok tree) (outer : String) :
    (draft.pivot id outer).2 = tree.pivot.map (·.wrapper?.isNone) ∧
      ∀ pivoted, tree.pivot = .ok pivoted →
        (draft.pivot id outer).1.element outer = .ok pivoted.outer := by
  obtain ⟨place, hplace, hshows⟩ := element_eq_ok_iff.mp htree
  obtain ⟨node, hnode, -⟩ := shows_iff.mp hshows
  obtain ⟨children?, hchildren, rfl⟩ := hshows.children hnode
  unfold pivot Element.pivot
  rw [hplace]
  dsimp only
  rw [nodeAt_eq_ok.mpr hnode]
  dsimp only
  by_cases hanchor : node.body.hasAnchor
  · rw [if_pos hanchor, if_pos hanchor]
    cases hsplit : node.body.splitAtAnchor with
    | error fault => exact ⟨rfl, nofun⟩
    | ok parts =>
        obtain ⟨wrapper, body⟩ := parts
        refine ⟨rfl, fun pivoted hpivoted => ?_⟩
        cases pure_eq_ok.mp hpivoted
        have hinner := shows_put { node with body } hshows.lt_length hchildren
        exact element_eq_ok_iff.mpr ⟨_, placeOf_add outer, shows_add (.some (.cons hinner .nil))⟩
  · rw [if_neg hanchor, if_neg hanchor]
    refine ⟨rfl, fun pivoted hpivoted => ?_⟩
    cases hpivoted
    have hinner := shows_put { node with body := node.body.withoutAnchor }
      hshows.lt_length hchildren
    have hplace : (bindTo (draft.put place { node with body := node.body.withoutAnchor }) outer
        place).placeOf outer = .ok place := by rw [placeOf, bindTo, List.lookup_cons_self]
    exact element_eq_ok_iff.mpr ⟨place, hplace, hinner.congr fun _ _ => rfl⟩

end MotionScene.Draft
