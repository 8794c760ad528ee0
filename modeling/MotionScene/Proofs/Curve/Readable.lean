import MotionScene.Binary64.Basic
import MotionScene.Proofs.Curve.Chain
import MotionScene.Proofs.Drawing.Knots

/-!
# Points of any kind

The rows of a path are lists with entries of any kind.  An entry reads as a point if its items 0
and 1 are there and both read as scalars (`Value.point?`).  Of the entries that stand for a knot,
one that reads as no point is passed over: a vertex lies at the origin then, and a handle on its
vertex (`segments_fall_back_unless_object`).

Objects are the exception.  An object is asked for the key 0 in the place of its item 0, and that
it has none is a failure of another kind.
-/

namespace MotionScene

variable {R : Type}

/-! ## Entries -/

namespace Value

/-- The items of an entry.  The characters of a text are its items, and values of the other kinds
have none. -/
def pointItems : Value R → List (Value R)
  | list items => items
  | text s => s.toList.map fun c => text (String.singleton c)
  | _ => []

def isObject : Value R → Bool
  | object _ => true
  | _ => false

variable [Scalar R]

/-- The point that an entry reads as, if it has items 0 and 1 and both read as scalars. -/
def point? (entry : Value R) : Option (Point R) := do
  let x ← entry.pointItems[0]?
  let y ← entry.pointItems[1]?
  return ⟨← x.scalar.toOption, ← y.scalar.toOption⟩

/-- The number that a value counts as, if any, has a scalar. -/
def HasScalar (value : Value R) : Prop :=
  ∀ n, value.quantity? = some (.whole n) → (Scalar.ofInt? n : Option R).isSome = true

/-- The whole numbers among the items 0 and 1 of an entry have scalars. -/
def IsInRange (entry : Value R) : Prop :=
  ∀ item ∈ entry.pointItems.take 2, item.HasScalar

/-- A value whose number has a scalar reads as one or cannot be read at all. -/
theorem scalar_cases {value : Value R} (h : value.HasScalar) :
    (∃ x, value.scalar = .ok x) ∨ ∃ fault, value.scalar = .error fault ∧ fault.isUnreadable = true := by
  cases value with
  | num n =>
      cases n with
      | real x => exact .inl ⟨x, rfl⟩
      | whole n =>
          obtain ⟨x, hx⟩ := Option.isSome_iff_exists.mp (h n rfl)
          exact .inl ⟨x, by simp [scalar, quantity?, Number.toReal, hx]⟩
  | bool b =>
      obtain ⟨x, hx⟩ := Option.isSome_iff_exists.mp (h (if b then 1 else 0) rfl)
      exact .inl ⟨x, by simp [scalar, quantity?, Number.toReal, hx]⟩
  | text s =>
      cases hs : Text.numeral? s.toList with
      | some numeral => exact .inl ⟨Scalar.ofNumeral numeral, by simp [scalar, quantity?, hs]⟩
      | none => exact .inr ⟨.noMeaning, by simp [scalar, quantity?, hs], rfl⟩
  | null => exact .inr ⟨.wrongKind, rfl, rfl⟩
  | list items => exact .inr ⟨.wrongKind, rfl, rfl⟩
  | object members => exact .inr ⟨.wrongKind, rfl, rfl⟩

theorem hasScalar_of_scalar {value : Value R} {x : R} (h : value.scalar = .ok x) :
    value.HasScalar := by
  intro n hn
  cases hscalar : (Scalar.ofInt? n : Option R) with
  | some y => rfl
  | none => simp [scalar, hn, Number.toReal, hscalar] at h

theorem isInRange_of_point? {entry : Value R} {point : Point R} (h : entry.point? = some point) :
    entry.IsInRange := by
  obtain ⟨x, hx, h⟩ := Option.bind_eq_some_iff.mp h
  obtain ⟨y, hy, h⟩ := Option.bind_eq_some_iff.mp h
  obtain ⟨a, ha, h⟩ := Option.bind_eq_some_iff.mp h
  obtain ⟨b, hb, -⟩ := Option.bind_eq_some_iff.mp h
  have hscalar : ∀ {value : Value R} {c : R}, value.scalar.toOption = some c → value.HasScalar := by
    intro value c hc
    cases hvalue : value.scalar with
    | ok d => exact hasScalar_of_scalar hvalue
    | error fault => simp [hvalue, Except.toOption] at hc
  intro item hitem
  obtain ⟨place, hplace⟩ := List.mem_iff_getElem?.mp hitem
  have hlt : place < 2 := by
    have := (List.getElem?_eq_some_iff.mp hplace).1
    rw [List.length_take] at this
    omega
  rw [List.getElem?_take_of_lt hlt] at hplace
  obtain rfl | rfl : place = 0 ∨ place = 1 := by omega
  · exact Option.some_inj.mp (hplace.symm.trans hx) ▸ hscalar ha
  · exact Option.some_inj.mp (hplace.symm.trans hy) ▸ hscalar hb

theorem isObject_of_point? {entry : Value R} {point : Point R} (h : entry.point? = some point) :
    entry.isObject = false := by
  cases entry <;> first | rfl | cases h

/-- A reading that starts with a value gives nothing where the value cannot be read. -/
theorem readingOr_scalar_bind {α : Type} {value : Value R} (h : value.HasScalar)
    (next : R → Except Fault (Option α)) : readingOr none (value.scalar >>= next) =
      value.scalar.toOption.elim (.ok none) fun x => readingOr none (next x) := by
  rcases scalar_cases h with ⟨x, hx⟩ | ⟨fault, hfault, hunreadable⟩
  · rw [hx]
    rfl
  · rw [hfault]
    exact if_pos hunreadable

end Value

/-! ## Rows -/

namespace PointRow

variable [Scalar R]

theorem readCoordinates_eq {items : List (Value R)} (h : ∀ item ∈ items.take 2, item.HasScalar) :
    readCoordinates items = .ok (Value.list items).point? := by
  match items with
  | [] => rfl
  | [x] =>
      rw [readCoordinates, Value.readingOr_scalar_bind (h x (by simp))]
      cases x.scalar <;> rfl
  | x :: y :: rest =>
      have hx := h x (by simp)
      have hy := h y (by simp)
      have hpoint : (Value.list (x :: y :: rest)).point? =
          x.scalar.toOption.bind fun a => y.scalar.toOption.bind fun b => some ⟨a, b⟩ := rfl
      rw [readCoordinates, Value.readingOr_scalar_bind hx, hpoint]
      simp only [Value.readingOr_scalar_bind hy]
      cases x.scalar <;> cases y.scalar <;> rfl

/-- An entry that is no object gives the point that it reads as, or nothing. -/
theorem readPoint_eq {entry : Value R} (object : entry.isObject = false) (range : entry.IsInRange) :
    readPoint entry = .ok entry.point? := by
  cases entry with
  | list items => exact readCoordinates_eq range
  | text s => exact readCoordinates_eq range
  | object members => cases object
  | _ => rfl

theorem pointAt_ofValue (items : List (Value R)) (place : ℕ) :
    (ofValue (.list items)).pointAt place = (items[place]?.map readPoint).getD (.ok none) := by
  rw [ofValue, pointAt, List.getElem?_map]

/-- The entries that are asked for read as points or as nothing, if none of them is an object. -/
theorem pointAt_ofValue_of_plain {items : List (Value R)} {count : ℕ}
    (range : ∀ entry ∈ items, entry.IsInRange)
    (plain : ∀ entry ∈ items.take count, entry.isObject = false) :
    ∀ place < count,
      (ofValue (.list items)).pointAt place = .ok (items.map Value.point?)[place]?.join := by
  intro place hplace
  rw [pointAt_ofValue, List.getElem?_map]
  cases hentry : items[place]? with
  | none => rfl
  | some entry =>
      have hmem : entry ∈ items.take count :=
        List.mem_of_getElem? ((List.getElem?_take_of_lt hplace).trans hentry)
      exact readPoint_eq (plain entry hmem) (range entry (List.mem_of_getElem? hentry))

omit [Scalar R] in
/-- Reading points fails where one of them fails, if those that fail do so alike. -/
theorem pointsOr_eq_error {row : PointRow R} {fault : Fault} {place : ℕ} {defaults : List (Point R)}
    (alike : ∀ index < defaults.length, (∃ point?, row.pointAt (place + index) = .ok point?) ∨
      row.pointAt (place + index) = .error fault)
    {failing : ℕ} (hfailing : failing < defaults.length)
    (fails : row.pointAt (place + failing) = .error fault) :
    row.pointsOr place defaults = .error fault := by
  induction defaults generalizing place failing with
  | nil => exact absurd hfailing (Nat.not_lt_zero _)
  | cons default rest ih =>
      rw [pointsOr]
      rcases alike 0 (Nat.succ_pos _) with ⟨point?, hpoint⟩ | hfault
      · rw [Nat.add_zero] at hpoint
        cases failing with
        | zero => cases hpoint.symm.trans fails
        | succ failing =>
            have hshift : ∀ index, place + 1 + index = place + (index + 1) := fun index => by omega
            have hrest : row.pointsOr (place + 1) rest = .error fault := by
              refine ih (fun index hindex => ?_) (Nat.lt_of_succ_lt_succ hfailing)
                ((hshift failing).symm ▸ fails)
              rw [hshift]
              exact alike (index + 1) (Nat.succ_lt_succ hindex)
            rw [hpoint, ok_bind, hrest]
            rfl
      · rw [Nat.add_zero] at hfault
        rw [hfault]
        rfl

/-- One object among the entries that are asked for is enough for a failure. -/
theorem pointsOr_of_object {items : List (Value R)} {defaults : List (Point R)}
    (range : ∀ entry ∈ items, entry.IsInRange)
    (object : ∃ entry ∈ items.take defaults.length, entry.isObject = true) :
    (ofValue (.list items)).pointsOr 0 defaults = .error .unknownKey := by
  have reading : ∀ entry ∈ items, (∃ point?, readPoint entry = .ok point?) ∨
      readPoint entry = .error .unknownKey := by
    intro entry hentry
    cases hobject : entry.isObject with
    | false => exact .inl ⟨_, readPoint_eq hobject (range entry hentry)⟩
    | true =>
        cases entry <;> cases hobject
        exact .inr rfl
  obtain ⟨entry, hentry, hobject⟩ := object
  obtain ⟨place, hplace⟩ := List.mem_iff_getElem?.mp hentry
  have hlt : place < defaults.length := by
    have := (List.getElem?_eq_some_iff.mp hplace).1
    rw [List.length_take] at this
    omega
  rw [List.getElem?_take_of_lt hlt] at hplace
  refine pointsOr_eq_error (fun index _ => ?_) hlt ?_
  · rw [Nat.zero_add, pointAt_ofValue]
    cases hentry : items[index]? with
    | none => exact .inl ⟨none, rfl⟩
    | some entry => exact reading entry (List.mem_of_getElem? hentry)
  · rw [Nat.zero_add, pointAt_ofValue, hplace]
    cases entry <;> cases hobject
    rfl

end PointRow

/-! ## Paths -/

section Paths

variable [Scalar R]

/-- The rows of a path that are given by lists. -/
def PathRows.ofLists (vertices arriving leaving : List (Value R)) : PathRows R :=
  ⟨.ofValue (.list vertices), .ofValue (.list arriving), .ofValue (.list leaving)⟩

/-- The entries that are asked for a knot: there are as many knots as vertices. -/
def knotEntries (vertices arriving leaving : List (Value R)) : List (Value R) :=
  vertices ++ arriving.take vertices.length ++ leaving.take vertices.length

/-- The knots that the entries of three lists read as. -/
def knotsOf (vertices arriving leaving : List (Value R)) : List (Knot R) :=
  knotsFrom (vertices.map Value.point?) (arriving.map Value.point?) (leaving.map Value.point?)

variable {vertices arriving leaving : List (Value R)}

@[simp] theorem length_knotsOf (vertices arriving leaving : List (Value R)) :
    (knotsOf vertices arriving leaving).length = vertices.length := by
  simp [knotsOf, knotsFrom]

theorem getElem?_knotsOf (vertices arriving leaving : List (Value R)) (place : ℕ) :
    (knotsOf vertices arriving leaving)[place]? = vertices[place]?.map fun entry =>
      let vertex := entry.point?.getD .origin
      ⟨vertex, (arriving[place]?.bind Value.point?).getD vertex,
        (leaving[place]?.bind Value.point?).getD vertex⟩ := by
  have hjoin : ∀ items : List (Value R),
      (items.map Value.point?)[place]?.join = items[place]?.bind Value.point? := by
    intro items
    rw [List.getElem?_map]
    cases items[place]? <;> rfl
  rw [knotsOf, knotsFrom, List.getElem?_mapIdx]
  simp only [hjoin]
  rw [List.getElem?_map, Option.map_map]
  rfl

theorem size_ofLists (vertices arriving leaving : List (Value R)) :
    (PathRows.ofLists vertices arriving leaving).vertices.size = .ok vertices.length :=
  congrArg Except.ok (List.length_map ..)

theorem knots_ofLists
    (range : ∀ entry ∈ vertices ++ arriving ++ leaving, entry.IsInRange)
    (plain : ∀ entry ∈ knotEntries vertices arriving leaving, entry.isObject = false) :
    (PathRows.ofLists vertices arriving leaving).knots =
      .ok (knotsOf vertices arriving leaving) := by
  simp only [knotEntries, List.forall_mem_append] at range plain
  obtain ⟨⟨hvertices, harriving⟩, hleaving⟩ := range
  obtain ⟨⟨pvertices, parriving⟩, pleaving⟩ := plain
  have hlength : (vertices.map Value.point?).length = vertices.length := List.length_map _
  rw [← hlength] at parriving pleaving
  refine PathRows.knots_eq (hlength ▸ size_ofLists vertices arriving leaving) ?_
    (PointRow.pointAt_ofValue_of_plain harriving parriving)
    (PointRow.pointAt_ofValue_of_plain hleaving pleaving)
  exact PointRow.pointAt_ofValue_of_plain hvertices (by simpa using pvertices)

theorem knots_ofLists_of_object
    (range : ∀ entry ∈ vertices ++ arriving ++ leaving, entry.IsInRange)
    (object : ∃ entry ∈ knotEntries vertices arriving leaving, entry.isObject = true) :
    (PathRows.ofLists vertices arriving leaving).knots = .error .unknownKey := by
  simp only [List.forall_mem_append] at range
  obtain ⟨⟨hvertices, harriving⟩, hleaving⟩ := range
  have hplain : ∀ {items : List (Value R)}, (¬∃ entry ∈ items, entry.isObject = true) →
      ∀ entry ∈ items, entry.isObject = false := fun h entry hentry =>
    Bool.eq_false_iff.mpr fun hobject => h ⟨entry, hentry, hobject⟩
  rw [PathRows.knots, size_ofLists, ok_bind, PathRows.ofLists]
  by_cases first : ∃ entry ∈ vertices, entry.isObject = true
  · rw [PointRow.pointsOr_of_object hvertices (by simpa using first)]
    rfl
  have pvertices : ∀ entry ∈ vertices.take vertices.length, entry.isObject = false := by
    simpa using hplain first
  rw [PointRow.pointsOr_of_reads (PointRow.pointAt_ofValue_of_plain hvertices pvertices)
    List.length_replicate, ok_bind]
  by_cases second : ∃ entry ∈ arriving.take vertices.length, entry.isObject = true
  · rw [PointRow.pointsOr_of_object harriving (by simpa using second)]
    rfl
  rw [PointRow.pointsOr_of_reads (PointRow.pointAt_ofValue_of_plain harriving (hplain second))
    (by simp), ok_bind]
  have third : ∃ entry ∈ leaving.take vertices.length, entry.isObject = true := by
    obtain ⟨entry, hentry, hobject⟩ := object
    rcases List.mem_append.mp hentry with hentry | hentry
    · rcases List.mem_append.mp hentry with hentry | hentry
      · exact absurd ⟨entry, hentry, hobject⟩ first
      · exact absurd ⟨entry, hentry, hobject⟩ second
    · exact ⟨entry, hentry, hobject⟩
  rw [PointRow.pointsOr_of_object hleaving (by simpa using third)]
  rfl

/-- **Points that cannot be read are passed over, but for objects.**  For three lists of entries
of any kind, whose coordinates have scalars where they are whole numbers: if no entry that stands
for a knot is an object, the segments of the path are built, one less than there are vertices, or
as many if the path is closed.  They run through knots with a vertex for each vertex entry, at the
origin where the entry reads as no point, and with the handles that the other two lists give, on
their vertex where the entry is missing or reads as no point.  If one of these entries is an
object, building fails with the fault of an unknown key. -/
theorem segments_fall_back_unless_object
    (range : ∀ entry ∈ vertices ++ arriving ++ leaving, entry.IsInRange) (closed : Bool) :
    ((∀ entry ∈ knotEntries vertices arriving leaving, entry.isObject = false) →
      ∃ segments knots, (PathRows.ofLists vertices arriving leaving).segments closed =
          .ok segments ∧
        segments.length = (if closed then vertices.length else vertices.length - 1) ∧
        segments = segmentsOf closed knots ∧ knots.length = vertices.length ∧
        ∀ (place : ℕ) (knot : Knot R), knots[place]? = some knot →
          knot.vertex = (vertices[place]?.bind Value.point?).getD .origin ∧
          knot.arriving = (arriving[place]?.bind Value.point?).getD knot.vertex ∧
          knot.leaving = (leaving[place]?.bind Value.point?).getD knot.vertex) ∧
    ((∃ entry ∈ knotEntries vertices arriving leaving, entry.isObject = true) →
      (PathRows.ofLists vertices arriving leaving).segments closed = .error .unknownKey) := by
  constructor
  · intro plain
    refine ⟨_, knotsOf vertices arriving leaving, ?_, ?_, rfl, length_knotsOf .., ?_⟩
    · rw [PathRows.segments, knots_ofLists range plain]
      rfl
    · rw [length_segmentsOf, length_knotsOf]
    · intro place knot hknot
      rw [getElem?_knotsOf] at hknot
      obtain ⟨entry, hentry, rfl⟩ := Option.map_eq_some_iff.mp hknot
      rw [hentry]
      exact ⟨rfl, rfl, rfl⟩
  · intro object
    rw [PathRows.segments, knots_ofLists_of_object range object]
    rfl

end Paths

/-! ## Lists with entries of all kinds -/

/-- Vertices of which only the first and the last one can be read, the last one from a text. -/
def mixedVertices : List (Value Float) :=
  [.list [.num (.whole 3), .num (.whole 4)], .null, .list [.num (.whole 1)], .list [.null, .null],
    .text "12"]

/-- Handles of which the second one can be read, and an object behind those that are asked for. -/
def mixedHandles : List (Value Float) :=
  [.bool true, .list [.num (.whole 5), .bool true, .object []], .text "x", .num (.real 0), .list [],
    .object []]

theorem segments_mixedVertices :
    (∀ entry ∈ mixedVertices ++ [] ++ mixedHandles, entry.IsInRange) ∧
      (∀ entry ∈ knotEntries mixedVertices [] mixedHandles, entry.isObject = false) ∧
      ∃ segments knots, (PathRows.ofLists mixedVertices [] mixedHandles).segments true =
          .ok segments ∧ segments.length = 5 ∧ segments = segmentsOf true knots ∧
        knots.length = 5 ∧
        ∀ knot, knots[1]? = some knot →
          knot.vertex = .origin ∧ knot.arriving = knot.vertex ∧ knot.leaving = ⟨5, 1⟩ := by
  have range : ∀ entry ∈ mixedVertices ++ [] ++ mixedHandles, entry.IsInRange := by
    simp +decide [mixedVertices, mixedHandles, Value.IsInRange, Value.HasScalar, Value.pointItems,
      Value.quantity?]
  have plain : ∀ entry ∈ knotEntries mixedVertices [] mixedHandles, entry.isObject = false := by
    simp [mixedVertices, mixedHandles, knotEntries, Value.isObject]
  obtain ⟨segments, knots, hsegments, hlength, hof, hknots, hread⟩ :=
    (segments_fall_back_unless_object range true).1 plain
  exact ⟨range, plain, segments, knots, hsegments, hlength, hof, hknots, fun knot hknot =>
    hread 1 knot hknot⟩

/-- A path whose second vertex is an object. -/
def objectVertices : List (Value Float) :=
  [.list [.num (.whole 3), .num (.whole 4)], .object []]

/-- The object reads as no point, but the vertex is not passed over: nothing is built. -/
theorem segments_objectVertices :
    (∀ entry ∈ objectVertices, entry.IsInRange) ∧ objectVertices[1]?.bind Value.point? = none ∧
      ¬∃ segments, (PathRows.ofLists objectVertices [] []).segments false = .ok segments := by
  refine ⟨?_, rfl, ?_⟩
  · simp +decide [objectVertices, Value.IsInRange, Value.HasScalar, Value.pointItems,
      Value.quantity?]
  · rintro ⟨segments, hsegments⟩
    cases hsegments

end MotionScene
