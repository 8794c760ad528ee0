import MotionScene.Proofs.Fault.Flaw
import MotionScene.Proofs.Fault.Property
import MotionScene.Proofs.Shape.Written
import MotionScene.Shape.Compile

/-!
# Shapes of any kind

An outline fails for arithmetic and for a stroke that has a list or an object where the
number of its line ends or corners is expected; nothing else about a shape matters.  The
strokes that outlines are bound to stand in the same shape list (`all_bindModifiers`), so
the flaws of a shape list are those of its entries (`ends_compileShapes`).
-/

namespace MotionScene

variable {R : Type} {admitted : Fault → Prop}

/-! ## Modifiers -/

/-- What holds of all modifiers, whatever their kinds. -/
def Modifiers.All {α : Type} (holds : ShapeKind → α → Prop) (modifiers : Modifiers α) : Prop :=
  ∀ kind entry, modifiers.of kind = some entry → holds kind entry

section Modifiers

variable {α : Type} {holds : ShapeKind → α → Prop}

theorem Modifiers.All.empty : Modifiers.empty.All holds := by
  intro kind entry h
  cases kind <;> cases h

theorem Modifiers.All.put {modifiers : Modifiers α} (all : modifiers.All holds) {kind : ShapeKind}
    {entry : α} (h : holds kind entry) : (modifiers.put kind entry).All holds := by
  intro other own hown
  cases kind <;> cases other <;>
    first
      | exact all _ _ hown
      | (cases hown; exact h)

theorem Modifiers.All.orElse {first second : Modifiers α} (hfirst : first.All holds)
    (hsecond : second.All holds) : (first.orElse second).All holds := by
  intro kind entry h
  have hboth : (first.of kind <|> second.of kind) = some entry := by
    cases kind <;> exact h
  cases hown : first.of kind with
  | some own =>
      rw [hown] at hboth
      cases hboth
      exact hfirst kind entry hown
  | none =>
      rw [hown] at hboth
      exact hsecond kind entry hboth

theorem all_following {entries : List (ShapeKind × α)}
    (h : ∀ entry ∈ entries, holds entry.1 entry.2) :
    (∀ modifiers ∈ (following entries).1, modifiers.All holds) ∧
      (following entries).2.All holds := by
  induction entries with
  | nil => exact ⟨List.forall_mem_nil _, .empty⟩
  | cons first rest ih =>
      obtain ⟨hfirst, hrest⟩ := List.forall_mem_cons.mp h
      obtain ⟨hlater, hnearest⟩ := ih hrest
      exact ⟨List.forall_mem_cons.mpr ⟨hnearest, hlater⟩, hnearest.put hfirst⟩

theorem all_preceding {entries : List (ShapeKind × α)} {nearest : Modifiers α}
    (h : ∀ entry ∈ entries, holds entry.1 entry.2) (hnearest : nearest.All holds) :
    ∀ modifiers ∈ preceding nearest entries, modifiers.All holds := by
  induction entries generalizing nearest with
  | nil => exact List.forall_mem_nil _
  | cons first rest ih =>
      obtain ⟨hfirst, hrest⟩ := List.forall_mem_cons.mp h
      exact List.forall_mem_cons.mpr ⟨hnearest, ih hrest (hnearest.put hfirst)⟩

/-- What holds of all entries of a shape list holds of all modifiers that are bound. -/
theorem all_bindModifiers {entries : List (ShapeKind × α)}
    (h : ∀ entry ∈ entries, holds entry.1 entry.2) :
    ∀ bound ∈ bindModifiers entries, ∀ modifiers, bound = some modifiers →
      modifiers.All holds := by
  rintro bound hbound modifiers rfl
  obtain ⟨index, hindex⟩ := List.mem_iff_getElem?.mp hbound
  obtain ⟨kind, both, -, hboth, hsome⟩ := List.getElem?_zipWith_eq_some.mp hindex
  split at hsome
  · cases hsome
    obtain ⟨later, earlier, hlater, hearlier, rfl⟩ := List.getElem?_zipWith_eq_some.mp hboth
    exact ((all_following h).1 later (List.mem_of_getElem? hlater)).orElse
      (all_preceding h .empty earlier (List.mem_of_getElem? hearlier))
  · cases hsome

end Modifiers

/-! ## Styles -/

section Outlines

variable [Scalar R] (arithmetic : AdmitsArithmetic R admitted) {clock : Clock R}

/-- A modifier that is a stroke has numbers for its line ends and corners, or the fault is
admitted. -/
def LinesExcused (admitted : Fault → Prop) (kind : ShapeKind) (modifier : Members R) : Prop :=
  kind = .stroke → ∀ key ∈ ["lc", "lj"], (modifier.get key).isCompound = true →
    admitted .wrongKind

theorem linesExcused_of_excused {shape : Value R} (excused : Excused admitted shape) :
    LinesExcused admitted (ShapeKind.ofEntry shape) shape.members := by
  intro hkind key hkey compound
  cases shape with
  | object members =>
      have htype : ShapeKind.ofCode (Members.get members "ty") = .stroke := hkind
      rcases List.mem_cons.mp hkey with rfl | hkey
      · refine excused.own .lineCap ?_
        rw [Flaw.isIn, htype]
        exact compound
      · obtain rfl := List.mem_singleton.mp hkey
        refine excused.own .lineJoin ?_
        rw [Flaw.isIn, htype]
        exact compound
  | _ => cases hkind

theorem ends_tableName {number : Value R} (h : number.isCompound = true → admitted .wrongKind)
    (table : List String) : FailsOnly admitted (tableName? table number) := by
  cases number with
  | list items | object members => exact h rfl
  | _ => trivial

omit [Scalar R] in
/-- An outline whose style is begun has its attributes under both targets. -/
theorem writable_target {target : String} (h : target ∈ targetKeys) :
    Writable admitted target (HoldsTargets (R := R) targetKeys) := by
  have hall : ∀ target ∈ targetKeys, target ≠ "" ∧ target ∉ Keyframe.ownKeys := by decide
  exact writable_under h (hall target h).1 (hall target h).2

omit [Scalar R] in
theorem ends_writeStyle (name : String) (value : Value R) {body : Body R}
    (holds : HoldsTargets targetKeys body.attributes) :
    Ends admitted (fun result : Body R => HoldsTargets targetKeys result.attributes)
      (writeStyle name value body) :=
  ((writable_target (by decide)).write name value _ holds).bind fun _ _ h => h

theorem ends_writeNamed {number : Value R} (h : number.isCompound = true → admitted .wrongKind)
    (name : String) (table : List String) {body : Body R}
    (holds : HoldsTargets targetKeys body.attributes) :
    Ends admitted (fun result : Body R => HoldsTargets targetKeys result.attributes)
      (writeNamed name table number body) := by
  refine (ends_tableName h table).bind fun entry? _ _ => ?_
  cases entry? with
  | none => exact holds
  | some entry => exact ends_writeStyle name _ holds

include arithmetic

theorem ends_applyFill (runs : clock.Runs) (fill : Option (Members R)) {body : Body R}
    (holds : HoldsTargets targetKeys body.attributes) :
    Ends admitted (fun result : Body R => HoldsTargets targetKeys result.attributes)
      (applyFill fill clock body) := by
  cases fill with
  | none => exact ends_writeStyle "fill" _ holds
  | some fill =>
      have hstyle : Writable admitted "style" (HoldsTargets (R := R) targetKeys) :=
        writable_target (by decide)
      refine (ends_resolveColor arithmetic hstyle runs _ (by decide) holds).bind
        fun colored _ hcolored => ?_
      exact ends_resolve arithmetic hstyle runs _ _ (by decide) hcolored

theorem ends_applyStroke (runs : clock.Runs) {stroke : Members R}
    (excused : LinesExcused admitted .stroke stroke) {body : Body R}
    (holds : HoldsTargets targetKeys body.attributes) :
    Ends admitted (fun result : Body R => HoldsTargets targetKeys result.attributes)
      (applyStroke stroke clock body) := by
  have hstyle : Writable admitted "style" (HoldsTargets (R := R) targetKeys) :=
    writable_target (by decide)
  refine (ends_resolveColor arithmetic hstyle runs _ (by decide) holds).bind
    fun colored _ hcolored => ?_
  refine (ends_resolve arithmetic hstyle runs _ _ (by decide) hcolored).bind
    fun faded _ hfaded => ?_
  refine (ends_resolve arithmetic hstyle runs _ _ (by decide) hfaded).bind fun wide _ hwide => ?_
  refine (ends_writeNamed (excused rfl "lc" (by decide)) "lineCap" lineCaps hwide).bind
    fun capped _ hcapped => ?_
  refine (ends_writeNamed (excused rfl "lj" (by decide)) "lineJoin" lineJoins hcapped).bind
    fun joined _ hjoined => ?_
  dsimp only
  split
  · exact ends_writeStyle "miterLimit" _ hjoined
  · exact hjoined

/-- An outline with a shape gets a style beside it. -/
theorem ends_applyStyle (runs : clock.Runs) {modifiers : Modifiers (Members R)}
    (excused : modifiers.All (LinesExcused admitted)) {body : Body R}
    (holds : HoldsTargets ["shape"] body.attributes)
    (hstyle : withTarget "style" body.attributes = body.attributes.set "style" (.object [])) :
    Ends admitted (fun result : Body R => HoldsTargets targetKeys result.attributes)
      (applyStyle modifiers.fill modifiers.stroke clock body) := by
  have hbegun : HoldsTargets targetKeys (withTarget "style" body.attributes) := by
    rw [hstyle]
    obtain ⟨geometry, hgeometry⟩ := holds "shape" (by decide)
    refine List.forall_mem_cons.mpr ⟨⟨geometry, ?_⟩, List.forall_mem_singleton.mpr ⟨[], ?_⟩⟩
    · rw [Members.get_set_of_ne _ _ (by decide), hgeometry]
    · exact Members.get_set_self _ _ _
  refine (ends_applyFill arithmetic runs modifiers.fill hbegun).bind fun filled _ hfilled => ?_
  cases hstroke : modifiers.stroke with
  | none => exact hfilled
  | some stroke => exact ends_applyStroke arithmetic runs (excused .stroke stroke hstroke) hfilled

theorem ends_applyTrim (runs : clock.Runs) (trim : Option (Members R)) {body : Body R}
    (holds : HoldsTargets targetKeys body.attributes) :
    Ends admitted (fun result : Body R => HoldsTargets targetKeys result.attributes)
      (applyTrim trim clock body) := by
  cases trim with
  | none => exact holds
  | some trim =>
      have hshape : Writable admitted "shape" (HoldsTargets (R := R) targetKeys) :=
        writable_target (by decide)
      refine (ends_resolve arithmetic hshape runs _ _ (by decide) holds).bind fun _ _ hfirst => ?_
      refine (ends_resolve arithmetic hshape runs _ _ (by decide) hfirst).bind fun _ _ hlast => ?_
      exact ends_resolve arithmetic hshape runs _ _ (by decide) hlast

/-! ## Repeaters -/

omit arithmetic [Scalar R] in
theorem ends_staticOr (axis : Nat) (default : Number R) (property : Value R) :
    FailsOnly admitted (property.staticOr axis default) := by
  have hstatic : FailsOnly admitted (property.staticComponent axis) := by
    unfold Value.staticComponent
    split
    · exact ends_component axis _
    · split
      · exact ends_component axis _
      · trivial
  exact hstatic.bind fun _ _ _ => trivial

theorem ends_repeatMembers (count : Int) (offset : Number R) (transform : Value R) :
    FailsOnly admitted (repeatMembers count offset transform) := by
  have hscale : ∀ n : Number R, FailsOnly admitted (n.divide (.whole 100)) :=
    fun n => Number.ends_divide arithmetic n fun _ => rfl
  have hangle : ∀ n : Number R, FailsOnly admitted (toRadians n) :=
    fun n => (Number.ends_toReal arithmetic n).bind fun _ _ _ => trivial
  refine (ends_staticOr 0 _ _).bind fun _ _ _ => (ends_staticOr 1 _ _).bind fun _ _ _ => ?_
  refine (ends_staticOr 0 _ _).bind fun rotation _ _ => (hangle rotation).bind fun _ _ _ => ?_
  refine (ends_staticOr 0 _ _).bind fun x _ _ => (hscale x).bind fun _ _ _ => ?_
  refine (ends_staticOr 1 _ _).bind fun y _ _ => (hscale y).bind fun _ _ _ => ?_
  exact (ends_staticOr 0 _ _).bind fun _ _ _ => (ends_staticOr 1 _ _).bind fun _ _ _ => trivial

theorem ends_applyRepeater (repeater : Option (Members R)) {body : Body R}
    (holds : HoldsTargets targetKeys body.attributes) :
    FailsOnly admitted (applyRepeater repeater body) := by
  cases repeater with
  | none => trivial
  | some repeater =>
      have hshape : Writable admitted "shape" (HoldsTargets (R := R) targetKeys) :=
        writable_target (by decide)
      refine (ends_staticOr 0 _ _).bind fun copies _ _ => ?_
      refine (Number.ends_nearest arithmetic copies).bind fun _ _ _ => ?_
      refine (ends_staticOr 0 _ _).bind fun offset _ _ => ?_
      split
      · trivial
      · refine (ends_repeatMembers arithmetic _ _ _).bind fun _ _ _ => ?_
        exact (hshape.write _ _ _ (hshape.reach _ holds)).bind fun _ _ _ => trivial

/-! ## Outlines -/

omit arithmetic [Scalar R] in
theorem holdsShape (geometry : Members R) :
    HoldsTargets ["shape"] ([("shape", .object geometry)] : Members R) :=
  List.forall_mem_singleton.mpr ⟨geometry, rfl⟩

theorem ends_pathBody (runs : clock.Runs) (property : Value R) :
    Ends admitted (fun body : Body R => HoldsTargets ["shape"] body.attributes)
      (pathBody property clock) := by
  have htimeline : FailsOnly admitted (pathTimeline property.content clock) := by
    unfold pathTimeline
    split
    · exact ends_buildTimeline arithmetic pathRule_sets (fun _ => trivial) runs _ 0
    · trivial
  unfold pathBody
  split
  · exact holdsShape _
  · refine htimeline.bind fun timeline? _ _ => ?_
    cases timeline? with
    | none => exact holdsShape _
    | some timeline => exact holdsShape _

theorem ends_geometryBody (runs : clock.Runs) (kind : ShapeKind) (shape : Members R) :
    Ends admitted (fun body : Body R => HoldsTargets ["shape"] body.attributes)
      (geometryBody kind shape clock) := by
  have hshape : Writable admitted "shape" (HoldsTargets (R := R) ["shape"]) :=
    writable_under (by decide) (by decide) (by decide)
  have hcenter : Ends admitted (fun body : Body R => HoldsTargets ["shape"] body.attributes)
      (resolve (shape.get "p") "shape" ["cx", "cy"] .none clock ⟨[("shape", .object [])], []⟩) :=
    ends_resolve arithmetic hshape runs _ _ (by decide) (holdsShape [])
  unfold geometryBody
  split
  · exact ends_pathBody arithmetic runs _
  · refine hcenter.bind fun centered _ hcentered => ?_
    exact ends_resolve arithmetic hshape runs _ _ (by decide) hcentered
  · refine hcenter.bind fun centered _ hcentered => ?_
    refine (ends_resolve arithmetic hshape runs _ _ (by decide) hcentered).bind fun _ _ hsized => ?_
    exact ends_resolve arithmetic hshape runs _ _ (by decide) hsized

theorem ends_outlineElement (runs : clock.Runs) {kind : ShapeKind} (hkind : kind.isGeometry)
    (shape : Members R) {modifiers : Modifiers (Members R)}
    (excused : modifiers.All (LinesExcused admitted)) :
    FailsOnly admitted (outlineElement kind shape modifiers clock) := by
  refine (ends_geometryBody arithmetic runs kind shape).bind fun body hbody holds => ?_
  have hstyle := (geometryBody_written hkind hbody).withStyle_eq
  refine (ends_applyStyle arithmetic runs excused holds hstyle).bind fun styled _ hstyled => ?_
  refine (ends_applyTrim arithmetic runs modifiers.trim hstyled).bind fun trimmed _ htrimmed => ?_
  exact (ends_applyRepeater arithmetic modifiers.repeater htrimmed).bind fun _ _ _ => trivial

/-! ## Shape lists -/

theorem ends_groupElement (runs : clock.Runs) (shape : Members R) (items : List (Value R))
    (children : List (Element R)) :
    FailsOnly admitted (groupElement shape items children clock) := by
  have hpivot : ∀ group : Element R, group.body.Placing →
      FailsOnly admitted (do return (← group.pivot).outer : Except Fault (Element R)) :=
    fun group placing => (ends_pivot placing).bind fun _ _ _ => trivial
  unfold groupElement
  split
  · refine Ends.bind (ends_withTransform arithmetic runs children _ _) fun group _ placing => ?_
    exact hpivot group placing
  · exact hpivot (.group children (nameOf shape clock.options)) placing_empty

end Outlines

mutual

/-- A shape list fails for the flaws of its entries and for arithmetic. -/
theorem ends_compileShapes [Scalar R] (arithmetic : AdmitsArithmetic R admitted) {clock : Clock R}
    (runs : clock.Runs) : ∀ shapes : Value R, Excused admitted shapes →
      FailsOnly admitted (compileShapes clock shapes).outcome
  | .list items, excused => by
      have hitems := Excused.list_iff.mp excused
      rw [compileShapes]
      refine ends_compileEntries arithmetic runs items _ hitems (all_bindModifiers ?_)
      intro entry h
      obtain ⟨shape, hshape, rfl⟩ := List.mem_map.mp h
      exact linesExcused_of_excused (hitems shape hshape)
  | .null, excused | .bool _, excused | .num _, excused | .text _, excused
  | .object _, excused => by
      rw [compileShapes]
      · trivial
      · exact nofun
termination_by shapes => sizeOf shapes

theorem ends_compileEntries [Scalar R] (arithmetic : AdmitsArithmetic R admitted)
    {clock : Clock R} (runs : clock.Runs) :
    ∀ (items : List (Value R)) (bound : List (Option (Modifiers (Members R)))),
      (∀ item ∈ items, Excused admitted item) →
      (∀ own ∈ bound, ∀ modifiers, own = some modifiers → modifiers.All (LinesExcused admitted)) →
      FailsOnly admitted (compileEntries clock items bound).outcome
  | [], bound, excused, hbound => by
      rw [compileEntries]
      trivial
  | entry :: rest, bound, excused, hbound => by
      obtain ⟨hentry, hrest⟩ := List.forall_mem_cons.mp excused
      rw [compileEntries]
      refine Ends.report (ends_compileEntries arithmetic runs rest bound.tail hrest
        fun own hown => hbound own (List.mem_of_mem_tail hown)) fun later _ _ => ?_
      have hmodifiers : (bound.head?.join.getD .empty).All (LinesExcused admitted) := by
        cases bound with
        | nil => exact .empty
        | cons own others =>
            cases own with
            | none => exact .empty
            | some modifiers => exact hbound _ List.mem_cons_self modifiers rfl
      exact (ends_compileEntry arithmetic runs hmodifiers entry hentry).report fun _ _ _ => trivial
termination_by items => sizeOf items

theorem ends_compileEntry [Scalar R] (arithmetic : AdmitsArithmetic R admitted)
    {clock : Clock R} (runs : clock.Runs) {modifiers : Modifiers (Members R)}
    (hmodifiers : modifiers.All (LinesExcused admitted)) :
    ∀ entry : Value R, Excused admitted entry →
      FailsOnly admitted (compileEntry clock modifiers entry).outcome
  | .object members, excused => by
      rw [compileEntry]
      split
      · trivial
      · split
        · trivial
        · split
          · refine (ends_compileItems arithmetic runs members excused.entries).report
              fun children _ _ => ?_
            refine Ends.report (ends_groupElement arithmetic runs members _ children)
              fun _ _ _ => trivial
          · split
            · rename_i hgeometry
              exact Ends.report (ends_outlineElement arithmetic runs hgeometry members hmodifiers)
                fun _ _ _ => trivial
            · trivial
  | .null, excused | .bool _, excused | .num _, excused | .text _, excused
  | .list _, excused => by
      rw [compileEntry]
      · trivial
      · exact nofun
termination_by entry => sizeOf entry

theorem ends_compileItems [Scalar R] (arithmetic : AdmitsArithmetic R admitted)
    {clock : Clock R} (runs : clock.Runs) :
    ∀ members : List (String × Value R), (∀ entry ∈ members, Excused admitted entry.2) →
      FailsOnly admitted (compileItems clock members).outcome
  | [], excused => by
      rw [compileItems]
      trivial
  | (key, value) :: rest, excused => by
      obtain ⟨hvalue, hrest⟩ := List.forall_mem_cons.mp excused
      rw [compileItems]
      split
      · exact ends_compileShapes arithmetic runs value hvalue
      · exact ends_compileItems arithmetic runs rest hrest
termination_by members => sizeOf members

end

end MotionScene
