import Mathlib.Logic.Relation
import MotionScene.Proofs.Migration.Completion

/-!
# In which order assets are finished

The layers of an asset are completed when the asset is first used, below the assets that
are being completed at that time, and are never completed again.  What the uses of an
asset are expanded to is therefore settled by the order in which assets are finished:

* a use of an asset that is finished earlier than the one around it has the layers of
  that asset;
* any other use names an asset that is being completed around it, which leads back to
  it through the assets it uses, and is expanded as empty.

`FinishedInOrder` states this for the list of finished assets, latest first.  Every
expansion keeps it (`orderRule`), as it does any rule that holds for each of the ways to
expand a reference (`ExpansionRule.keeps`), at any depth: the assets that are being
completed differ from one another, so the levels never run out.
-/

namespace MotionScene

open Relation

variable {R : Type} [Scalar R]

/-- An asset uses another one when its layers refer to it. -/
def Uses (assets : List (Value R)) (user used : Nat) : Prop :=
  ∃ layers reference source, assetLayers? assets user = some layers ∧
    RefersTo layers reference ∧ referencedAsset? assets reference = some (used, source)

/-- What a reference is expanded to once the known assets are finished: to the layers of
the asset it names, or to nothing where it names none or one of which `cut` holds. -/
def ExpandsTo (assets : List (Value R)) (cut : Nat → Prop) (known : Finished R)
    (reference : Value R) (layers : List (Value R)) : Prop :=
  match referencedAsset? assets reference with
  | none => layers = []
  | some (position, _) =>
    known.lookup position = some layers ∨
      known.lookup position = none ∧ cut position ∧ layers = []

/-- Every finished asset was not finished before, and its layers were completed with the
assets that were finished before it.  The uses in it that are cut name an asset that
leads back to it. -/
def FinishedInOrder (assets : List (Value R)) : Finished R → Prop
  | [] => True
  | (owner, layers) :: known =>
    known.lookup owner = none ∧
      (∃ source, assetLayers? assets owner = some source ∧
        Completed (ExpandsTo assets (ReflTransGen (Uses assets) · owner) known)
          source layers) ∧
      FinishedInOrder assets known

/-- The assets that are being completed, innermost first, with enough levels left for all
others. -/
structure Active (assets : List (Value R)) (levels : Nat) (active : List Nat) : Prop where
  nodup : active.Nodup
  bounded : ∀ position ∈ active, position < assets.length
  room : assets.length ≤ levels + active.length
  reaches : ∀ position ∈ active, ∀ owner ∈ active.head?,
    ReflTransGen (Uses assets) position owner

/-! ## Looking up assets -/

omit [Scalar R] in
theorem lt_length_of_assetLayers? {assets : List (Value R)} {position : Nat}
    {layers : List (Value R)} (h : assetLayers? assets position = some layers) :
    position < assets.length := by
  obtain ⟨asset, hasset, -⟩ := Option.bind_eq_some_iff.mp h
  exact (List.getElem?_eq_some_iff.mp hasset).1

theorem assetLayers?_of_referencedAsset? {assets : List (Value R)} {reference : Value R}
    {position : Nat} {layers : List (Value R)}
    (h : referencedAsset? assets reference = some (position, layers)) :
    assetLayers? assets position = some layers := by
  obtain ⟨found, -, hfound⟩ := Option.bind_eq_some_iff.mp h
  obtain ⟨own, hown, hpair⟩ := Option.bind_eq_some_iff.mp hfound
  cases hpair
  exact hown

theorem assetPosition?_of_referencedAsset? {assets : List (Value R)} {reference : Value R}
    {position : Nat} {layers : List (Value R)}
    (h : referencedAsset? assets reference = some (position, layers)) :
    assetPosition? assets reference = some position := by
  obtain ⟨found, hposition, hfound⟩ := Option.bind_eq_some_iff.mp h
  obtain ⟨own, -, hpair⟩ := Option.bind_eq_some_iff.mp hfound
  cases hpair
  exact hposition

omit [Scalar R] in
theorem Finished.lookup_cons_of_ne {owner position : Nat} (layers : List (Value R))
    (known : Finished R) (h : position ≠ owner) :
    List.lookup position ((owner, layers) :: known) = known.lookup position := by
  have hbeq : (position == owner) = false := by simpa using h
  rw [List.lookup_cons, hbeq]

/-- What is known of an asset stays known when more assets are finished. -/
theorem FinishedInOrder.lookup_of_suffix {assets : List (Value R)}
    {known finished : Finished R} (hfinished : FinishedInOrder assets finished)
    (hsuffix : known <:+ finished) {position : Nat} {layers : List (Value R)}
    (h : known.lookup position = some layers) : finished.lookup position = some layers := by
  obtain ⟨extra, rfl⟩ := hsuffix
  induction extra with
  | nil => exact h
  | cons entry extra ih =>
      obtain ⟨owner, own⟩ := entry
      rw [List.cons_append] at hfinished ⊢
      have hlookup : List.lookup position (extra ++ known) = some layers := ih hfinished.2.2
      have hne : position ≠ owner := by
        rintro rfl
        have hnew := hfinished.1
        rw [hlookup] at hnew
        cases hnew
      rw [Finished.lookup_cons_of_ne _ _ hne, hlookup]

theorem ExpandsTo.imp {assets : List (Value R)} {cut cut' : Nat → Prop} {known : Finished R}
    {reference : Value R} {layers : List (Value R)}
    (expands : ExpandsTo assets cut known reference layers)
    (h : ∀ position, cut position → cut' position) :
    ExpandsTo assets cut' known reference layers := by
  unfold ExpandsTo at expands ⊢
  split at expands
  · exact expands
  · exact expands.imp_right fun ⟨hlookup, hcut, hempty⟩ => ⟨hlookup, h _ hcut, hempty⟩

/-! ## What is being completed -/

theorem Active.top (assets : List (Value R)) : Active assets assets.length [] where
  nodup := List.nodup_nil
  bounded := by simp
  room := by simp
  reaches := by simp

namespace Active

variable {assets : List (Value R)} {levels : Nat} {active : List Nat}

/-- There is a level left for an asset that is not being completed. -/
theorem levels_ne_zero (hactive : Active assets levels active) {position : Nat}
    (hposition : position < assets.length) (hnew : position ∉ active) : levels ≠ 0 := by
  rintro rfl
  -- there are no more distinct positions than assets
  have hnodup : (position :: active).Nodup := List.nodup_cons.mpr ⟨hnew, hactive.nodup⟩
  have hsubset : position :: active ⊆ List.range assets.length := by
    intro other hother
    rw [List.mem_range]
    rcases List.mem_cons.mp hother with rfl | hother
    · exact hposition
    · exact hactive.bounded other hother
  have hlength := List.Nodup.length_le_of_subset hnodup hsubset
  have hroom := hactive.room
  rw [List.length_cons, List.length_range] at hlength
  omega

/-- One level down, below an asset that the innermost one uses. -/
theorem cons (hactive : Active assets (levels + 1) active) {position : Nat}
    (hposition : position < assets.length) (hnew : position ∉ active)
    (huses : ∀ owner ∈ active.head?, Uses assets owner position) :
    Active assets levels (position :: active) where
  nodup := List.nodup_cons.mpr ⟨hnew, hactive.nodup⟩
  bounded := by
    intro other hother
    rcases List.mem_cons.mp hother with rfl | hother
    · exact hposition
    · exact hactive.bounded other hother
  room := by
    have hroom := hactive.room
    rw [List.length_cons]
    omega
  reaches := by
    intro other hother owner howner
    cases howner
    rcases List.mem_cons.mp hother with rfl | hother
    · exact .refl
    · -- through the asset that was innermost before, which uses the new one
      obtain ⟨innermost, hinnermost⟩ : ∃ innermost, innermost ∈ active.head? := by
        cases active with
        | nil => cases hother
        | cons first rest => exact ⟨first, rfl⟩
      exact (hactive.reaches other hother innermost hinnermost).tail
        (huses innermost hinnermost)

end Active

/-! ## Rules about expansions -/

/-- The innermost active asset, if there is one, refers to a reference. -/
def ReferredBelow (assets : List (Value R)) (active : List Nat) (reference : Value R) : Prop :=
  ∀ owner ∈ active.head?, ∃ layers, assetLayers? assets owner = some layers ∧
    RefersTo layers reference

/-- What has to be shown of a rule about expansions for each of the ways that a reference
can be expanded: it names no asset, an active one, a finished one, or one that is begun for
it and finished once all of its layers are completed. -/
structure ExpansionRule (assets : List (Value R)) (sound : List Nat → Finished R → Prop)
    (expands : List Nat → Finished R → Value R → List (Value R) → Prop)
    (refers : List Nat → Value R → Prop) : Prop where
  referred : ∀ {active reference}, refers active reference → ReferredBelow assets active reference
  stable : ∀ {active reference layers finished finished'}, sound active finished' →
    finished <:+ finished' → expands active finished reference layers →
    expands active finished' reference layers
  missing : ∀ {active reference finished}, referencedAsset? assets reference = none →
    expands active finished reference []
  cut : ∀ {active reference position source finished},
    referencedAsset? assets reference = some (position, source) → position ∈ active →
    sound active finished → expands active finished reference []
  known : ∀ {active reference position source layers finished},
    referencedAsset? assets reference = some (position, source) →
    finished.lookup position = some layers → expands active finished reference layers
  begun : ∀ {active reference position source finished},
    referencedAsset? assets reference = some (position, source) → refers active reference →
    sound active finished → finished.lookup position = none →
    sound (position :: active) finished ∧
      ∀ inner, RefersTo source inner → refers (position :: active) inner
  done : ∀ {levels active reference position source layers later},
    Active assets levels (position :: active) →
    referencedAsset? assets reference = some (position, source) → refers active reference →
    sound (position :: active) later →
    Completed (expands (position :: active) later) source layers →
    sound active ((position, layers) :: later)

/-- Every expansion keeps such a rule: the induction is on the levels that are left. -/
theorem ExpansionRule.keeps {assets : List (Value R)} {sound : List Nat → Finished R → Prop}
    {expands : List Nat → Finished R → Value R → List (Value R) → Prop}
    {refers : List Nat → Value R → Prop} (rule : ExpansionRule assets sound expands refers)
    (levels : Nat) (active : List Nat) (hactive : Active assets levels active) :
    Keeps (expandReference assets levels active) (sound active) (expands active)
      (refers active) := by
  induction levels using Nat.strongRecOn generalizing active with
  | ind levels ih =>
      refine ⟨?_, rule.stable⟩
      intro reference layers finished finished' hrefers hsound returned
      rw [expandReference] at returned
      cases hasset : referencedAsset? assets reference with
      | none =>
          rw [hasset] at returned
          cases returned
          exact ⟨hsound, List.suffix_refl _, rule.missing hasset⟩
      | some found =>
          obtain ⟨position, source⟩ := found
          rw [hasset] at returned
          dsimp only at returned
          by_cases hposition : position ∈ active
          · -- the use is cut
            rw [if_pos hposition] at returned
            cases returned
            exact ⟨hsound, List.suffix_refl _, rule.cut hasset hposition hsound⟩
          rw [if_neg hposition] at returned
          cases hlookup : finished.lookup position with
          | some known =>
              -- a later use
              rw [hlookup] at returned
              cases returned
              exact ⟨hsound, List.suffix_refl _, rule.known hasset hlookup⟩
          | none =>
              -- the first use: the asset is begun, one level down
              have hbound :=
                lt_length_of_assetLayers? (assetLayers?_of_referencedAsset? hasset)
              obtain ⟨fewer, rfl⟩ : ∃ fewer, levels = fewer + 1 :=
                Nat.exists_eq_succ_of_ne_zero (hactive.levels_ne_zero hbound hposition)
              rw [hlookup] at returned
              obtain ⟨⟨own, later⟩, hown, hpure⟩ := Traced.outcome_bind_eq_ok.mp returned
              cases hpure
              have huses : ∀ owner ∈ active.head?, Uses assets owner position := by
                intro owner howner
                obtain ⟨layers, hlayers, hreference⟩ := rule.referred hrefers owner howner
                exact ⟨layers, reference, source, hlayers, hreference, hasset⟩
              have hbelow := hactive.cons hbound hposition huses
              obtain ⟨hbegun, hinner⟩ := rule.begun hasset hrefers hsound hlookup
              obtain ⟨hlater, hsuffix, hcompleted⟩ := completed_of_completeLayers
                (ih fewer (Nat.lt_succ_self _) _ hbelow) hinner hbegun hown
              exact ⟨rule.done hbelow hasset hrefers hlater hcompleted,
                hsuffix.trans (List.suffix_cons _ _),
                rule.known hasset List.lookup_cons_self⟩

/-! ## Every expansion keeps the order -/

/-- The finished assets are finished in order, and none of them is still active. -/
def SoundBelow (assets : List (Value R)) (active : List Nat) (finished : Finished R) : Prop :=
  FinishedInOrder assets finished ∧ ∀ position ∈ active, finished.lookup position = none

theorem ExpandsTo.stable {assets : List (Value R)} {active : List Nat}
    {reference : Value R} {layers : List (Value R)} {finished finished' : Finished R}
    (hsound : SoundBelow assets active finished') (hsuffix : finished <:+ finished')
    (expands : ExpandsTo assets (· ∈ active) finished reference layers) :
    ExpandsTo assets (· ∈ active) finished' reference layers := by
  unfold ExpandsTo at expands ⊢
  split at expands
  · exact expands
  · rcases expands with hlookup | ⟨-, hcut, hempty⟩
    · exact Or.inl (hsound.1.lookup_of_suffix hsuffix hlookup)
    · exact Or.inr ⟨hsound.2 _ hcut, hcut, hempty⟩

/-- What is left when an asset has been begun and all of its layers are completed: it is
finished after everything that was finished below it, and what is cut in it leads back to
it. -/
theorem sound_of_begun {assets : List (Value R)} {levels position : Nat} {active : List Nat}
    {source layers : List (Value R)} {later : Finished R}
    (hbelow : Active assets levels (position :: active))
    (hsource : assetLayers? assets position = some source)
    (hsound : SoundBelow assets (position :: active) later)
    (hcompleted : Completed (ExpandsTo assets (· ∈ position :: active) later) source layers) :
    SoundBelow assets active ((position, layers) :: later) := by
  obtain ⟨horder, hunfinished⟩ := hsound
  rw [List.forall_mem_cons] at hunfinished
  -- every active asset leads to the innermost one, which is the one that was begun
  have hreaches : Completed (ExpandsTo assets (ReflTransGen (Uses assets) · position) later)
      source layers :=
    hcompleted.imp fun _ _ _ expands => expands.imp fun other hother =>
      hbelow.reaches other hother position rfl
  refine ⟨⟨hunfinished.1, ⟨source, hsource, hreaches⟩, horder⟩, fun other hother => ?_⟩
  have hne : other ≠ position := fun h => (List.nodup_cons.mp hbelow.nodup).1 (h ▸ hother)
  rw [Finished.lookup_cons_of_ne _ _ hne]
  exact hunfinished.2 other hother

/-- **Every expansion keeps the order.**  It finishes further assets in order, leaves the
active ones unfinished, and expands its reference to the layers of a finished asset, or
to nothing where the asset is active or missing. -/
theorem orderRule (assets : List (Value R)) :
    ExpansionRule assets (SoundBelow assets) (fun active => ExpandsTo assets (· ∈ active))
      (ReferredBelow assets) where
  referred := id
  stable hsound hsuffix expands := expands.stable hsound hsuffix
  missing hasset := by simp [ExpandsTo, hasset]
  cut hasset hposition hsound := by simp [ExpandsTo, hasset, hposition, hsound.2 _ hposition]
  known hasset hlookup := by simp [ExpandsTo, hasset, hlookup]
  begun hasset _ hsound hlookup := by
    refine ⟨⟨hsound.1, List.forall_mem_cons.mpr ⟨hlookup, hsound.2⟩⟩, ?_⟩
    intro inner hinner owner howner
    cases howner
    exact ⟨_, assetLayers?_of_referencedAsset? hasset, hinner⟩
  done hbelow hasset _ hlater hcompleted :=
    sound_of_begun hbelow (assetLayers?_of_referencedAsset? hasset) hlater hcompleted

end MotionScene
