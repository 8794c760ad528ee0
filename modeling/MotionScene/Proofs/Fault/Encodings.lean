import MotionScene.Migration.Encodings
import MotionScene.Proofs.Fault.Flaw

/-!
# Migrating encodings is safe

Each migration of an encoding is put together from changes of members and items, and so is
the proof that it is safe.  Handles become absolute with as much as two coordinates each;
what that leaves can be added to its vertex once more, so that a bezier without flaws stays
one (`safe_makeAbsolute`).
-/

namespace MotionScene

variable {R : Type} [Scalar R] {admitted : Fault → Prop}

/-! ## Handles -/

section Handles

variable (arithmetic : AdmitsArithmetic R admitted)

omit [Scalar R] in
theorem isAddable_eq_of_fallthrough {x y : Value R} (htexts : ∀ s t, x = .text s → y = .text t → False)
    (hlists : ∀ items more, x = .list items → y = .list more → False)
    (hcharacters : ∀ items t, x = .list items → y = .text t → False)
    (hkeys : ∀ items members, x = .list items → y = .object members → False) :
    x.isAddable y = (x.quantity?.isSome && y.quantity?.isSome) := by
  unfold Value.isAddable
  split
  · exact (htexts _ _ rfl rfl).elim
  · exact (hlists _ _ rfl rfl).elim
  · exact (hcharacters _ _ rfl rfl).elim
  · exact (hkeys _ _ rfl rfl).elim
  · rfl

include arithmetic

/-- What a coordinate becomes takes up the same coordinate again. -/
theorem ends_addCoordinate {x y : Value R} (h : x.isAddable y = false → admitted .wrongKind)
    (hx : Excused admitted x) (hy : Excused admitted y) :
    Ends admitted (fun sum => Excused admitted sum ∧ sum.isAddable y = true)
      (addCoordinate x y) := by
  unfold addCoordinate
  split
  · exact ⟨.text _, rfl⟩
  · exact ⟨hx.append (Excused.list_iff.mp hy), rfl⟩
  · exact ⟨hx.append (List.forall_mem_map.mpr fun _ _ => .text _), rfl⟩
  · exact ⟨hx.append (List.forall_mem_map.mpr fun _ _ => .text _), rfl⟩
  · rename_i htexts hlists hcharacters hkeys
    rw [isAddable_eq_of_fallthrough htexts hlists hcharacters hkeys] at h
    split
    · rename_i m n hm hn
      refine (Number.ends_add arithmetic m n).map fun sum _ => ⟨.num sum, ?_⟩
      cases y <;> simp_all [Value.isAddable, Value.quantity?]
    · rename_i hnone
      refine h ?_
      cases hx : x.quantity? with
      | none => rfl
      | some m =>
          cases hy : y.quantity? with
          | none => rfl
          | some n => exact (hnone m n hx hy).elim

theorem ends_addCoordinates {limit : Nat} {xs ys : List (Value R)}
    (h : (((xs.zip ys).take limit).all fun pair => pair.1.isAddable pair.2) = false →
      admitted .wrongKind)
    (hxs : ∀ x ∈ xs, Excused admitted x) (hys : ∀ y ∈ ys, Excused admitted y) :
    Ends admitted (fun sums => (∀ sum ∈ sums, Excused admitted sum) ∧
        (((sums.zip ys).take limit).all fun pair => pair.1.isAddable pair.2) = true)
      (addCoordinates limit xs ys) := by
  induction xs generalizing limit ys with
  | nil => cases limit <;> exact ⟨hxs, by simp⟩
  | cons x xs ih =>
      cases limit with
      | zero => exact ⟨hxs, by simp⟩
      | succ limit =>
          cases ys with
          | nil => exact ⟨hxs, by simp⟩
          | cons y ys =>
              obtain ⟨hx, hrest⟩ := List.forall_mem_cons.mp hxs
              obtain ⟨hy, hmore⟩ := List.forall_mem_cons.mp hys
              rw [List.zip_cons_cons, List.take_succ_cons, List.all_cons,
                Bool.and_eq_false_iff] at h
              refine (ends_addCoordinate arithmetic (fun hxy => h (.inl hxy)) hx hy).bind
                fun sum _ ⟨hsum, hadds⟩ => ?_
              refine (ih (fun hlater => h (.inr hlater)) hrest hmore).bind
                fun sums _ ⟨hsums, hall⟩ => ?_
              refine ⟨List.forall_mem_cons.mpr ⟨hsum, hsums⟩, ?_⟩
              rw [List.zip_cons_cons, List.take_succ_cons, List.all_cons, Bool.and_eq_true]
              exact ⟨hadds, hall⟩

theorem ends_absoluteHandle {handle vertex : Value R}
    (h : handle.fitsVertex vertex = false → admitted .wrongKind)
    (hhandle : Excused admitted handle) (hvertex : Excused admitted vertex) :
    Ends admitted (fun result => Excused admitted result ∧ result.fitsVertex vertex = true)
      (absoluteHandle handle vertex) := by
  unfold absoluteHandle
  split
  · refine (ends_addCoordinates arithmetic h (Excused.list_iff.mp hhandle)
      (Excused.list_iff.mp hvertex)).map fun sums ⟨hsums, hall⟩ => ?_
    exact ⟨Excused.list_iff.mpr hsums, hall⟩
  · rename_i hnot
    refine ⟨hhandle, ?_⟩
    -- a handle or a vertex that is no list has no coordinates to add
    cases handle with
    | list xs =>
        cases vertex with
        | list ys => exact (hnot xs ys rfl rfl).elim
        | _ => simp [Value.fitsVertex, Value.items, Value.items?]
    | _ => simp [Value.fitsVertex, Value.items, Value.items?]

theorem ends_absoluteHandles {handles vertices : List (Value R)}
    (h : ((handles.zip vertices).all fun pair => pair.1.fitsVertex pair.2) = false →
      admitted .wrongKind)
    (hhandles : ∀ handle ∈ handles, Excused admitted handle)
    (hvertices : ∀ vertex ∈ vertices, Excused admitted vertex) :
    Ends admitted (fun results => (∀ result ∈ results, Excused admitted result) ∧
        ((results.zip vertices).all fun pair => pair.1.fitsVertex pair.2) = true)
      (absoluteHandles handles vertices) := by
  induction handles generalizing vertices with
  | nil => exact ⟨hhandles, by simp⟩
  | cons handle rest ih =>
      cases vertices with
      | nil => exact ⟨hhandles, by simp⟩
      | cons vertex more =>
          obtain ⟨hhandle, hrest⟩ := List.forall_mem_cons.mp hhandles
          obtain ⟨hvertex, hmore⟩ := List.forall_mem_cons.mp hvertices
          rw [List.zip_cons_cons, List.all_cons, Bool.and_eq_false_iff] at h
          refine (ends_absoluteHandle arithmetic (fun hfirst => h (.inl hfirst)) hhandle
            hvertex).bind fun first _ ⟨hfirst, hfits⟩ => ?_
          refine (ih (fun hlater => h (.inr hlater)) hrest hmore).bind
            fun later _ ⟨hlater, hall⟩ => ?_
          refine ⟨List.forall_mem_cons.mpr ⟨hfirst, hlater⟩, ?_⟩
          rw [List.zip_cons_cons, List.all_cons, Bool.and_eq_true]
          exact ⟨hfits, hall⟩

theorem ends_absoluteSide {handles vertices : Value R}
    (h : handles.fitVertices vertices = false → admitted .wrongKind)
    (hhandles : Excused admitted handles) (hvertices : Excused admitted vertices) :
    Ends admitted (fun results => Excused admitted results ∧ results.fitVertices vertices = true)
      (absoluteSide vertices.items handles) := by
  cases handles with
  | list handles =>
      refine (ends_absoluteHandles arithmetic h (Excused.list_iff.mp hhandles)
        hvertices.items).map fun results ⟨hresults, hall⟩ => ?_
      exact ⟨Excused.list_iff.mpr hresults, hall⟩
  | _ => exact ⟨hhandles, by simp [Value.fitVertices, Value.items, Value.items?]⟩

/-- The handles on one side become absolute; the flaw that they might have is the only one
that their key has to do with. -/
theorem ends_adjust_side (side : String) (flaw : Flaw) (hside : side ≠ "v")
    (hflaw : ∀ bezier : Members R,
      flaw.isIn bezier = !(bezier.get side).fitVertices (bezier.get "v"))
    (honly : Flaw.concerning side = [flaw]) {bezier : Members R}
    (excused : Excused admitted (.object bezier)) :
    Ends admitted (fun result : Members R => Excused admitted (.object result) ∧
        result.get "v" = bezier.get "v")
      (bezier.adjust side (absoluteSide (bezier.get "v").items)) := by
  have hadmitted : (bezier.get side).fitVertices (bezier.get "v") = false → admitted .wrongKind :=
    fun h => excused.own flaw (by rw [hflaw, h]; rfl)
  have hchange := ends_absoluteSide arithmetic hadmitted (excused.get side) (excused.get "v")
  have hnull : (Value.null : Value R).fitVertices (bezier.get "v") = true := by
    simp [Value.fitVertices, Value.items, Value.items?]
  refine (ends_adjust_concerned excused hnull hchange fun result hsame hfits other hother hisin =>
    ?_).imp fun result _ ⟨hresult, hsame⟩ => ⟨hresult, hsame "v" hside⟩
  -- handles that fit their vertices have no flaw
  rw [honly] at hother
  obtain rfl := List.mem_singleton.mp hother
  rw [hflaw, hsame "v" hside, hfits] at hisin
  cases hisin

theorem safe_makeAbsolute : SafeMembers admitted (makeAbsolute : Change (Members R)) := by
  intro bezier excused
  refine (ends_adjust_side arithmetic "i" .incoming (by decide) (fun _ => rfl) (by decide)
    excused).bind fun middle _ ⟨hmiddle, hvertices⟩ => ?_
  rw [← hvertices]
  exact (ends_adjust_side arithmetic "o" .outgoing (by decide) (fun _ => rfl) (by decide)
    hmiddle).imp fun _ _ h => h.1

end Handles

/-! ## Beziers -/

theorem safe_changeBezier {change : Change (Members R)} (safe : SafeMembers admitted change) :
    Safe admitted (changeBezier change) := by
  intro value excused
  unfold changeBezier
  split
  · exact safe.adjustMembers value excused
  · exact excused

theorem safe_changeBeziers {change : Change (Members R)} (safe : SafeMembers admitted change) :
    Safe admitted (changeBeziers change) := by
  refine Safe.adjustMember (fun content excused => ?_) (by decide)
  split
  · exact safe.adjustMembers content excused
  · have hvalues := (safe_changeBezier safe).adjustFirst
    refine ((hvalues.adjust ?_).bind (hvalues.adjust ?_)).adjustMembers.adjustItems content
      excused <;> decide

/-! ## Shape lists and masks -/

mutual

theorem safe_changeShapes {change : Change (Members R)} (safe : SafeMembers admitted change) :
    ∀ shapes : Value R, Excused admitted shapes →
      Ends admitted (Excused admitted) (changeShapes change shapes)
  | .list items, excused => by
      rw [changeShapes]
      refine (ends_changeEntries safe items (Excused.list_iff.mp excused)).map fun _ h => ?_
      exact Excused.list_iff.mpr h
  | .null, excused | .bool _, excused | .num _, excused | .text _, excused
  | .object _, excused => by
      rw [changeShapes]
      · exact excused
      · exact nofun
termination_by shapes => sizeOf shapes

theorem ends_changeEntries {change : Change (Members R)} (safe : SafeMembers admitted change) :
    ∀ items : List (Value R), (∀ item ∈ items, Excused admitted item) →
      Ends admitted (fun results => ∀ result ∈ results, Excused admitted result)
        (changeEntries change items)
  | [], excused => by
      rw [changeEntries]
      exact excused
  | entry :: rest, excused => by
      obtain ⟨hentry, hrest⟩ := List.forall_mem_cons.mp excused
      rw [changeEntries]
      refine (ends_changeEntries safe rest hrest).bind fun later _ hlater => ?_
      refine (ends_changeEntry safe entry hentry).bind fun own _ hown => ?_
      exact List.forall_mem_cons.mpr ⟨hown, hlater⟩
termination_by items => sizeOf items

theorem ends_changeEntry {change : Change (Members R)} (safe : SafeMembers admitted change) :
    ∀ entry : Value R, Excused admitted entry →
      Ends admitted (Excused admitted) (changeEntry change entry)
  | .object members, excused => by
      rw [changeEntry]
      split
      · refine Ends.map ((ends_changeItems safe members excused.entries).imp
          fun result h entries => ?_) fun _ h => h
        rw [changeItems_eq] at h
        exact excused.of_changed (fun _ hne => Members.get_adjust_of_ne h hne)
          (fun _ hflaw => nomatch hflaw) entries
      · exact (safe members excused).map fun _ h => h
  | .null, excused | .bool _, excused | .num _, excused | .text _, excused
  | .list _, excused => by
      rw [changeEntry]
      · exact excused
      · exact nofun
termination_by entry => sizeOf entry

theorem ends_changeItems {change : Change (Members R)} (safe : SafeMembers admitted change) :
    ∀ members : List (String × Value R), (∀ entry ∈ members, Excused admitted entry.2) →
      Ends admitted (fun result => ∀ entry ∈ result, Excused admitted entry.2)
        (changeItems change members)
  | [], excused => by
      rw [changeItems]
      exact excused
  | (key, value) :: rest, excused => by
      obtain ⟨hvalue, hrest⟩ := List.forall_mem_cons.mp excused
      rw [changeItems]
      split
      · refine (safe_changeShapes safe value hvalue).bind fun own _ hown => ?_
        exact List.forall_mem_cons.mpr ⟨hown, hrest⟩
      · refine (ends_changeItems safe rest hrest).bind fun later _ hlater => ?_
        exact List.forall_mem_cons.mpr ⟨hvalue, hlater⟩
termination_by members => sizeOf members

end

/-- A number in the place of masks is excused as a flaw, and stays as it is if it is zero. -/
theorem ends_changeMaskList {change : Change (Members R)} (safe : SafeMembers admitted change)
    {masks : Value R} (hflaw : (masks.holds && masks.quantity?.isSome) = true → admitted .wrongKind)
    (excused : Excused admitted masks) :
    Ends admitted (fun result => Excused admitted result ∧
        ((result.holds && result.quantity?.isSome) = true → admitted .wrongKind))
      (match masks with
      | .list _ => masks.adjustItems (Value.adjustMembers change)
      | .bool true => .error .wrongKind
      | .num n => if n.isZero then .ok masks else .error .wrongKind
      | masks => .ok masks) := by
  cases masks with
  | list items =>
      refine (safe.adjustMembers.adjustItems _ excused).imp fun result hchanged hresult => ?_
      obtain ⟨own, -, rfl⟩ := map_eq_ok.mp hchanged
      exact ⟨hresult, by simp [Value.quantity?]⟩
  | bool b =>
      cases b with
      | true => exact hflaw rfl
      | false => exact ⟨excused, hflaw⟩
  | num n =>
      dsimp only
      split
      · exact ⟨excused, hflaw⟩
      · rename_i hzero
        exact hflaw (by simpa [Value.holds, Value.quantity?] using hzero)
  | _ => exact ⟨excused, hflaw⟩

theorem safe_changeMasks {change : Change (Members R)} (safe : SafeMembers admitted change) :
    SafeMembers admitted (changeMasks change) := by
  intro layer excused
  unfold changeMasks
  split
  · rename_i flagged
    have hflaw := excused.own .masks
    rw [Flaw.isIn, flagged, Bool.true_and] at hflaw
    have hchange := ends_changeMaskList safe hflaw (excused.get "masksProperties")
    have hnull : ((Value.null : Value R).holds && (Value.null : Value R).quantity?.isSome) = true →
        admitted .wrongKind := fun h => by cases h
    refine (ends_adjust_concerned excused hnull hchange fun result _ hgood flaw hconcerned hisin =>
      ?_).imp fun _ _ h => h.1
    obtain rfl : flaw = .masks := List.mem_singleton.mp hconcerned
    rw [Flaw.isIn, Bool.and_assoc, Bool.and_eq_true] at hisin
    exact hgood hisin.2
  · exact excused

/-! ## Closed flags -/

theorem safe_closeUnder {flagKey pathKey : String} (hkey : Flaw.concerning pathKey = []) :
    SafeMembers admitted (closeUnder flagKey pathKey : Change (Members R)) := by
  intro members excused
  unfold closeUnder
  split
  · rename_i flag hflag
    have hclose : SafeMembers admitted fun bezier : Members R => .ok (bezier.set "c" flag) :=
      fun bezier hbezier => hbezier.set (by decide)
        (excused.entries _ (Members.mem_of_get? hflag))
    exact (safe_changeBeziers hclose).adjust hkey members excused
  · exact excused

theorem safe_closePaths : SafeMembers admitted (closePaths : Change (Members R)) := by
  refine (safe_changeMasks (safe_closeUnder (by decide))).bind fun layer excused => ?_
  split
  · refine Safe.adjust (safe_changeShapes ?_) (by decide) layer excused
    exact (safe_closeUnder (by decide)).ite fun entry => (entry.get "ty").isText "sh"
  · exact excused

/-! ## Texts -/

theorem safe_wrapTextDocument : SafeMembers admitted (wrapTextDocument : Change (Members R)) := by
  refine Safe.adjust (Safe.adjustMember (fun text excused => ?_) (by decide)) (by decide)
  have hframe : Excused admitted (.object [("s", text), ("t", .num (.whole 0))]) := by
    refine Excused.of_plain (fun flaw => by cases flaw <;> rfl) ?_
    exact List.forall_mem_cons.mpr ⟨excused, List.forall_mem_singleton.mpr (.num _)⟩
  refine Excused.of_plain (fun flaw => by cases flaw <;> rfl) ?_
  refine List.forall_mem_singleton.mpr (Excused.list_iff.mpr ?_)
  exact List.forall_mem_singleton.mpr hframe

theorem safe_wrapOption : Safe admitted (wrapOption : Change (Value R)) := by
  intro value excused
  cases value with
  | num n =>
      refine Excused.of_plain (fun flaw => by cases flaw <;> rfl) ?_
      exact List.forall_mem_cons.mpr ⟨.num _, List.forall_mem_singleton.mpr (.num n)⟩
  | _ => exact excused

theorem safe_wrapTextPath : SafeMembers admitted (wrapTextPath : Change (Members R)) := by
  refine Safe.adjust (Safe.adjustMember (SafeMembers.adjustMembers ?_) (by decide)) (by decide)
  have hoption : ∀ key, Flaw.concerning key = [] →
      SafeMembers admitted (Members.adjust key wrapOption : Change (Members R)) :=
    fun _ hkey => safe_wrapOption.adjust hkey
  exact (hoption "a" (by decide)).bind ((hoption "p" (by decide)).bind (hoption "r" (by decide)))

section Encodings

variable (arithmetic : AdmitsArithmetic R admitted)

include arithmetic

theorem safe_completeGlyphs : SafeMembers admitted (completeGlyphs : Change (Members R)) := by
  have hbezier := (safe_changeBezier (safe_makeAbsolute arithmetic)).adjustMember
    (show Flaw.concerning "k" = [] by decide)
  have hitems := (hbezier.adjustMember (show Flaw.concerning "ks" = [] by decide)).adjustItems
  have hfirst := (hitems.adjustMember (show Flaw.concerning "it" = [] by decide)).adjustFirst
  have hdata := hfirst.adjustMember (show Flaw.concerning "shapes" = [] by decide)
  exact (hdata.adjustMember (show Flaw.concerning "data" = [] by decide)).adjustItems.adjust
    (by decide)

/-! ## Colors -/

theorem ends_rescaleChannels {limit : Nat} {channels : List (Value R)}
    (excused : ∀ channel ∈ channels, Excused admitted channel) :
    Ends admitted (fun results => ∀ result ∈ results, Excused admitted result)
      (rescaleChannels limit channels) := by
  induction channels generalizing limit with
  | nil => cases limit <;> exact excused
  | cons channel rest ih =>
      cases limit with
      | zero => exact excused
      | succ limit =>
          obtain ⟨hchannel, hrest⟩ := List.forall_mem_cons.mp excused
          have hlater : ∀ own, Excused admitted own → Ends admitted
              (fun results => ∀ result ∈ results, Excused admitted result)
              (rescaleChannels limit rest >>= fun later => pure (own :: later)) :=
            fun own hown => (ih hrest).bind fun later _ hlater =>
              List.forall_mem_cons.mpr ⟨hown, hlater⟩
          rw [rescaleChannels]
          split
          · rename_i n _
            refine ((Number.ends_divide arithmetic n fun _ => rfl).map fun _ _ => ?_).bind
              fun own _ hown => hlater own hown
            exact .num _
          · exact hlater channel hchannel

theorem safe_rescaleColor : Safe admitted (rescaleColor : Change (Value R)) := by
  intro color excused
  cases color with
  | list channels =>
      refine (ends_rescaleChannels arithmetic (Excused.list_iff.mp excused)).map fun _ h => ?_
      exact Excused.list_iff.mpr h
  | _ => exact excused

theorem safe_rescaleEntry : SafeMembers admitted (rescaleEntry : Change (Members R)) := by
  refine SafeMembers.ite (Safe.adjust (Safe.adjustMember (fun content excused => ?_) ?_) ?_) _
  · have hcolor := safe_rescaleColor (R := R) arithmetic
    split
    · refine ((hcolor.adjust ?_).bind (hcolor.adjust ?_)).adjustMembers.adjustItems _ excused <;>
        decide
    · exact hcolor content excused
  · decide
  · decide

end Encodings

/-! ## Documents -/

theorem safe_changeLayerLists {change : Change (List (Value R))}
    (safe : ∀ layers, (∀ layer ∈ layers, Excused admitted layer) →
      Ends admitted (fun results => ∀ result ∈ results, Excused admitted result) (change layers)) :
    SafeMembers admitted (changeLayerLists change) := by
  intro document excused
  unfold changeLayerLists
  extract_lets changeList
  have hlist : Safe admitted changeList := by
    intro value excused
    cases value with
    | list layers =>
        refine (safe layers (Excused.list_iff.mp excused)).map fun _ h => ?_
        exact Excused.list_iff.mpr h
    | _ => exact excused
  refine ((hlist.adjust ?_).bind (((hlist.adjustMember ?_).adjustItems).adjust ?_)) document
    excused <;> decide

theorem safe_changeLayers {change : Change (Members R)} (safe : SafeMembers admitted change) :
    SafeMembers admitted (changeLayers change) :=
  safe_changeLayerLists fun _ excused => Ends.mapM fun layer hlayer =>
    safe.adjustMembers layer (excused layer hlayer)

theorem safe_changeLayersOf {kind : LayerKind} {change : Change (Members R)}
    (safe : SafeMembers admitted change) : SafeMembers admitted (changeLayersOf kind change) :=
  safe_changeLayers (safe.ite (isLayerKind kind))

/-- Migrating the encodings of a document keeps it excused. -/
theorem ends_migrateEncodings (arithmetic : AdmitsArithmetic R admitted) (version : Version)
    {document : Members R} (excused : Excused admitted (.object document)) :
    Ends admitted (fun result => Excused admitted (.object result))
      (migrateEncodings version document).outcome := by
  have step : ∀ {change : Change (Members R)}, SafeMembers admitted change → ∀ due : Bool,
      SafeMembers admitted fun document => if due then change document else .ok document :=
    fun safe due => safe.ite fun _ => due
  unfold migrateEncodings
  extract_lets due later
  -- all steps behind that for colors
  have hlater : ∀ colored : Members R, Excused admitted (.object colored) →
      Ends admitted (fun result => Excused admitted (.object result)) (later colored).outcome := by
    intro colored hcolored
    refine (step (safe_changeLayersOf safe_wrapTextDocument) _ _ hcolored).report
      fun worded _ hworded => ?_
    refine (step (safe_completeGlyphs arithmetic) _ _ hworded).report fun lettered _ hlettered => ?_
    refine (step (safe_changeLayersOf safe_wrapTextPath) _ _ hlettered).report
      fun laid _ hlaid => ?_
    exact step (safe_changeLayers safe_closePaths) _ _ hlaid
  split
  · have hcolors := Safe.adjust (safe_changeShapes (safe_rescaleEntry arithmetic))
      (show Flaw.concerning "shapes" = [] by decide)
    refine Ends.tell (Ends.report (safe_changeLayersOf hcolors document excused)
      fun colored _ hcolored => ?_)
    exact hlater colored hcolored
  · exact hlater document excused

end MotionScene
