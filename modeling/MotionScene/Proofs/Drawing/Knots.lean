import MotionScene.Proofs.Drawing.Reused

/-!
# Knots of a copy

The rows of a path that are arrays give points, or nothing where an entry cannot be read
(`PathRows.Gives`), and these make its knots.  The image of the path has the images of these
knots, also where a handle is missing and lies on its vertex (`knots_image`).  The exception is a
handle whose entry is there and cannot be read: in the path it lies on its vertex, and in the
image at that of the origin.
-/

namespace MotionScene

variable {R : Type}

/-! ## Arrays -/

/-- A row that has a length, and nothing behind its last point. -/
structure PointRow.IsArray (row : PointRow R) : Prop where
  counted : row.isCounted = true
  ends : row.beyond = .ok none

theorem PointRow.isArray_ofPoints (points : List (Point R)) : (ofPoints points).IsArray := ⟨rfl, rfl⟩

theorem PointRow.isArray_ofValue [Scalar R] (items : List (Value R)) :
    (ofValue (.list items)).IsArray := ⟨rfl, rfl⟩

/-- A path whose three rows are arrays. -/
structure PathRows.AreArrays (rows : PathRows R) : Prop where
  vertices : rows.vertices.IsArray
  arriving : rows.arriving.IsArray
  leaving : rows.leaving.IsArray

/-- Whether a row has an entry at a place that gives no point. -/
def PointRow.isUnreadable (row : PointRow R) (place : ℕ) : Bool :=
  match row.readings[place]? with
  | some (.ok none) => true
  | _ => false

/-- What the entries of a row give, if none of them fails. -/
def PointRow.Gives (row : PointRow R) (points : List (Option (Point R))) : Prop :=
  row.readings = points.map .ok

namespace PointRow

variable {row : PointRow R} {points : List (Option (Point R))}

theorem gives_iff : row.Gives points ↔ readAll row.readings = .ok points := by
  rw [Gives, ← List.forall₂_eq_eq_eq, List.forall₂_map_right_iff]
  exact mapM_eq_ok.symm

theorem Gives.pointAt (array : row.IsArray) (gives : row.Gives points) (place : ℕ) :
    row.pointAt place = .ok points[place]?.join := by
  rw [PointRow.pointAt, array.ends, gives, List.getElem?_map]
  cases points[place]? <;> rfl

theorem Gives.isUnreadable (gives : row.Gives points) (place : ℕ) :
    row.isUnreadable place = true ↔ points[place]? = some none := by
  rw [PointRow.isUnreadable, gives, List.getElem?_map]
  cases points[place]? with
  | none => simp
  | some point? => cases point? <;> simp

theorem pointsOr_eq_ok {place : ℕ} {defaults : List (Point R)}
    (reads : ∀ index < defaults.length,
      row.pointAt (place + index) = .ok points[place + index]?.join) :
    row.pointsOr place defaults =
      .ok (defaults.mapIdx fun index default => points[place + index]?.join.getD default) := by
  induction defaults generalizing place with
  | nil => rfl
  | cons default rest ih =>
      have hfirst : row.pointAt place = .ok points[place]?.join := reads 0 (Nat.succ_pos _)
      have hrest : ∀ index < rest.length,
          row.pointAt (place + 1 + index) = .ok points[place + 1 + index]?.join := by
        intro index hindex
        rw [Nat.add_assoc, Nat.add_comm 1]
        exact reads (index + 1) (Nat.succ_lt_succ hindex)
      rw [pointsOr, hfirst, ok_bind, ih hrest, ok_bind, List.mapIdx_cons]
      simp only [Nat.add_zero, Nat.add_assoc, Nat.add_comm 1]
      rfl

/-- Points that can all be read, or are missing, take the places of the defaults. -/
theorem pointsOr_of_reads {count : ℕ}
    (reads : ∀ place < count, row.pointAt place = .ok points[place]?.join)
    {defaults : List (Point R)} (hlength : defaults.length = count) :
    row.pointsOr 0 defaults =
      .ok (defaults.mapIdx fun place default => points[place]?.join.getD default) := by
  have hreads : ∀ index < defaults.length,
      row.pointAt (0 + index) = .ok points[0 + index]?.join := by
    intro index hindex
    rw [Nat.zero_add]
    exact reads index (hlength ▸ hindex)
  simpa only [Nat.zero_add] using pointsOr_eq_ok hreads

end PointRow

/-! ## Knots -/

section Knots

variable [Scalar R]

/-- The knots of the points that three rows give. -/
def knotsFrom (vertices arriving leaving : List (Option (Point R))) : List (Knot R) :=
  vertices.mapIdx fun place vertex? =>
    let vertex := vertex?.getD .origin
    ⟨vertex, arriving[place]?.join.getD vertex, leaving[place]?.join.getD vertex⟩

/-- What the three rows of a path give. -/
structure PathRows.Gives (rows : PathRows R) (vertices arriving leaving : List (Option (Point R))) :
    Prop where
  vertices : rows.vertices.Gives vertices
  arriving : rows.arriving.Gives arriving
  leaving : rows.leaving.Gives leaving

variable {rows : PathRows R} {vertices arriving leaving : List (Option (Point R))}

/-- The knots of rows whose entries give points, or nothing, as far as there are vertices. -/
theorem PathRows.knots_eq (counted : rows.vertices.size = .ok vertices.length)
    (readsVertices : ∀ place < vertices.length,
      rows.vertices.pointAt place = .ok vertices[place]?.join)
    (readsArriving : ∀ place < vertices.length,
      rows.arriving.pointAt place = .ok arriving[place]?.join)
    (readsLeaving : ∀ place < vertices.length,
      rows.leaving.pointAt place = .ok leaving[place]?.join) :
    rows.knots = .ok (knotsFrom vertices arriving leaving) := by
  rw [PathRows.knots, counted, ok_bind,
    PointRow.pointsOr_of_reads readsVertices List.length_replicate, ok_bind,
    PointRow.pointsOr_of_reads readsArriving (by simp), ok_bind,
    PointRow.pointsOr_of_reads readsLeaving (by simp), ok_bind]
  refine congrArg Except.ok (List.ext_getElem? fun place => ?_)
  simp only [knotsFrom, List.zip, List.getElem?_map, List.getElem?_zipWith, List.getElem?_mapIdx,
    List.getElem?_replicate]
  cases hvertex : vertices[place]? with
  | none =>
      rw [if_neg (Nat.not_lt.mpr (List.getElem?_eq_none_iff.mp hvertex))]
      rfl
  | some vertex? =>
      rw [if_pos (List.getElem?_eq_some_iff.mp hvertex).1]
      rfl

theorem PathRows.Gives.knots (arrays : rows.AreArrays)
    (gives : rows.Gives vertices arriving leaving) :
    rows.knots = .ok (knotsFrom vertices arriving leaving) := by
  refine PathRows.knots_eq ?_ (fun place _ => gives.vertices.pointAt arrays.vertices place)
    (fun place _ => gives.arriving.pointAt arrays.arriving place)
    (fun place _ => gives.leaving.pointAt arrays.leaving place)
  rw [PointRow.size, arrays.vertices.counted, if_pos rfl, gives.vertices, List.length_map]

/-- Where the copy of a handle lies: at the image of the handle, or at that of the origin where
the entry of the handle cannot be read. -/
def PointRow.copiedHandle (row : PointRow R) (map : Point R → Point R) (place : ℕ)
    (handle : Point R) : Point R :=
  if row.isUnreadable place then map .origin else map handle

/-- The knots of the copy of a path with the given ones. -/
def PathRows.copiedKnots (rows : PathRows R) (map : Point R → Point R) (knots : List (Knot R)) :
    List (Knot R) :=
  knots.mapIdx fun place knot =>
    ⟨map knot.vertex, rows.arriving.copiedHandle map place knot.arriving,
      rows.leaving.copiedHandle map place knot.leaving⟩

theorem gives_images {placement : Placement R} {row : PointRow R} {images : List (Point R)}
    (h : row.images placement = .ok images) :
    ∃ points, row.Gives points ∧ images = points.map (PointReading.imagePoint placement) := by
  obtain ⟨size, -, hrest⟩ := bind_eq_ok.mp h
  obtain ⟨points, hpoints, hpure⟩ := bind_eq_ok.mp hrest
  exact ⟨points, PointRow.gives_iff.mpr hpoints, (pure_eq_ok.mp hpure).symm⟩

/-- A path whose entries all give points or nothing has an image. -/
theorem exists_image (arrays : rows.AreArrays) (gives : rows.Gives vertices arriving leaving)
    (placement : Placement R) : ∃ image, rows.image placement = .ok image := by
  have himages : ∀ {row : PointRow R} {points : List (Option (Point R))}, row.IsArray →
      row.Gives points →
        row.images placement = .ok (points.map (PointReading.imagePoint placement)) := by
    intro row points array gives
    rw [PointRow.images, PointRow.size, array.counted, if_pos rfl, ok_bind,
      PointRow.gives_iff.mp gives]
    rfl
  exact ⟨_, bind_eq_ok.mpr ⟨_, himages arrays.vertices gives.vertices, bind_eq_ok.mpr
    ⟨_, himages arrays.arriving gives.arriving, bind_eq_ok.mpr
      ⟨_, himages arrays.leaving gives.leaving, rfl⟩⟩⟩⟩

/-- The copy of a handle, told from what its row gives: the handle lies on its vertex where the
row gives nothing for it. -/
theorem copiedHandle_eq {placement : Placement R} {row : PointRow R}
    {points : List (Option (Point R))} (gives : row.Gives points) (place : ℕ) (vertex : Point R) :
    ((points.map (PointReading.imagePoint placement)).map some)[place]?.join.getD
        (placement.apply vertex) =
      row.copiedHandle placement.apply place (points[place]?.join.getD vertex) := by
  rw [PointRow.copiedHandle, List.map_map, List.getElem?_map]
  split
  · rename_i hunreadable
    rw [(gives.isUnreadable place).mp hunreadable]
    rfl
  · rename_i hreadable
    cases hpoint : points[place]? with
    | none => rfl
    | some point? =>
        cases point? with
        | none => exact absurd ((gives.isUnreadable place).mpr hpoint) hreadable
        | some point => rfl

/-- **The knots of a copy.**  They are the images of the knots of the path, but for handles that
cannot be read. -/
theorem knots_image (arrays : rows.AreArrays) {placement : Placement R} {image : PathRows R}
    (h : rows.image placement = .ok image) :
    ∃ knots, rows.knots = .ok knots ∧ image.knots = .ok (rows.copiedKnots placement.apply knots) := by
  obtain ⟨_, himages, hrest⟩ := bind_eq_ok.mp h
  obtain ⟨vertices, hvertices, rfl⟩ := gives_images himages
  obtain ⟨_, himages, hrest⟩ := bind_eq_ok.mp hrest
  obtain ⟨arriving, harriving, rfl⟩ := gives_images himages
  obtain ⟨_, himages, hpure⟩ := bind_eq_ok.mp hrest
  obtain ⟨leaving, hleaving, rfl⟩ := gives_images himages
  obtain rfl := pure_eq_ok.mp hpure
  refine ⟨_, PathRows.Gives.knots arrays ⟨hvertices, harriving, hleaving⟩, ?_⟩
  have hofPoints : ∀ points : List (Point R), (PointRow.ofPoints points).Gives (points.map some) :=
    fun points => (List.map_map ..).symm
  rw [PathRows.Gives.knots
    ⟨PointRow.isArray_ofPoints _, PointRow.isArray_ofPoints _, PointRow.isArray_ofPoints _⟩
    ⟨hofPoints _, hofPoints _, hofPoints _⟩]
  refine congrArg Except.ok (List.ext_getElem? fun place => ?_)
  have hplace : ((vertices.map (PointReading.imagePoint placement)).map some)[place]? =
      vertices[place]?.map (some ∘ PointReading.imagePoint placement) := by
    rw [List.map_map, List.getElem?_map]
  rw [knotsFrom, PathRows.copiedKnots, knotsFrom, List.getElem?_mapIdx, List.getElem?_mapIdx,
    List.getElem?_mapIdx, hplace]
  cases vertices[place]? with
  | none => rfl
  | some vertex? =>
      refine congrArg some (congrArg₂ (Knot.mk (placement.apply (vertex?.getD .origin))) ?_ ?_)
      · exact copiedHandle_eq harriving place _
      · exact copiedHandle_eq hleaving place _

end Knots

end MotionScene
