import MotionScene.Proofs.Config.Entries
import MotionScene.Yaml.Write

/-!
# Option files in the built-in notation

The codec that the program runs with keeps the keys of a mapping apart, since a later entry takes
the place of an earlier one with its key (`Yaml.loadsKeyed_builtIn`).  A file with one entry of
plain scalars is a mapping with that entry (`Yaml.load_entry`).
-/

namespace MotionScene

namespace Yaml

/-! ## Keys -/

theorem mem_setEntry {entries : List (Yaml Float × Yaml Float)} {key value : Yaml Float}
    {entry : Yaml Float × Yaml Float} (h : entry ∈ setEntry entries key value) :
    entry.1 = key ∨ ∃ old ∈ entries, old.1 = entry.1 := by
  induction entries with
  | nil =>
      rw [setEntry, List.mem_singleton] at h
      exact .inl (congrArg Prod.fst h)
  | cons first rest ih =>
      rw [setEntry] at h
      split at h
      · rcases List.mem_cons.mp h with rfl | hrest
        · exact .inr ⟨first, List.mem_cons_self, rfl⟩
        · exact .inr ⟨entry, List.mem_cons_of_mem _ hrest, rfl⟩
      · rcases List.mem_cons.mp h with rfl | hrest
        · exact .inr ⟨_, List.mem_cons_self, rfl⟩
        · rcases ih hrest with hkey | ⟨old, hold, hsame⟩
          · exact .inl hkey
          · exact .inr ⟨old, List.mem_cons_of_mem _ hold, hsame⟩

theorem KeysDiffer.setEntry {entries : List (Yaml Float × Yaml Float)} (h : KeysDiffer entries)
    (key value : Yaml Float) : KeysDiffer (setEntry entries key value) := by
  unfold KeysDiffer at h ⊢
  induction entries with
  | nil => exact List.pairwise_singleton _ _
  | cons first rest ih =>
      rw [List.pairwise_cons] at h
      rw [Yaml.setEntry]
      split
      · exact List.pairwise_cons.mpr h
      · rename_i hdiffer
        -- what stands behind has the new key, which differs, or a key that was there before
        refine List.pairwise_cons.mpr ⟨fun later hlater => ?_, ih h.2⟩
        rcases mem_setEntry hlater with hkey | ⟨old, hold, hsame⟩
        · rw [hkey]
          exact Bool.eq_false_iff.mpr hdiffer
        · rw [← hsame]
          exact h.1 old hold

theorem keysDiffer_entryValues {nodes : List (Node × Node)}
    {done entries : List (Yaml Float × Yaml Float)} (hdone : KeysDiffer done)
    (h : entryValues done nodes = .ok entries) : KeysDiffer entries := by
  induction nodes generalizing done with
  | nil =>
      rw [entryValues] at h
      cases h
      exact hdone
  | cons node rest ih =>
      rw [entryValues] at h
      cases hkey : (keyValue node.1 : Except LoadFault (Yaml Float)) with
      | error fault =>
          rw [hkey] at h
          cases h
      | ok key =>
          cases hvalue : (valueOf node.2 : Except LoadFault (Yaml Float)) with
          | error fault =>
              rw [hkey, hvalue] at h
              cases h
          | ok value =>
              rw [hkey, hvalue] at h
              exact ih (hdone.setEntry key value) h

/-- A scalar is no mapping. -/
theorem isKeyed_scalarValue {isPlain : Bool} {source : List Char} {value : Yaml Float}
    (h : scalarValue isPlain source = .ok value) : value.IsKeyed := by
  unfold scalarValue at h
  split at h
  · cases hform : plainForm source <;> rw [hform, Plain.value] at h
    case date =>
      split at h <;> cases h
      trivial
    case moment | merge | default | noNumber => cases h
    case null | bool | whole | real | sexagesimal | special | text =>
      cases h
      trivial
  · cases h
    trivial

theorem loadsKeyed_builtIn : Codec.builtIn.LoadsKeyed := by
  intro text value h
  replace h : load text = .ok value := h
  unfold load at h
  split at h
  · rename_i node hnode
    cases node with
    | scalar isPlain source =>
        rw [valueOf] at h
        exact isKeyed_scalarValue h
    | list items =>
        rw [valueOf] at h
        cases hitems : (itemValues items : Except LoadFault (List (Yaml Float))) with
        | error fault =>
            rw [hitems] at h
            cases h
        | ok values =>
            rw [hitems] at h
            cases h
            trivial
    | mapping nodes =>
        rw [valueOf] at h
        cases hentries :
            (entryValues [] nodes : Except LoadFault (List (Yaml Float × Yaml Float))) with
        | error fault =>
            rw [hentries] at h
            cases h
        | ok keyed =>
            rw [hentries] at h
            cases h
            exact keysDiffer_entryValues List.Pairwise.nil hentries
  · cases h

/-! ## Files of one entry -/

/-- A file of one entry with plain scalars, each of which has the value of its form. -/
theorem load_entry (key value : String) (keyForm valueForm : Plain) {text : String}
    {k v : Yaml Float} (hread : readDocument text.toList =
      some (.mapping [(.scalar true key.toList, .scalar true value.toList)]))
    (hforms : plainForm key.toList = keyForm ∧ plainForm value.toList = valueForm)
    (hdefault : key.toList ≠ ['=']) (hkey : keyForm.value key.toList = .ok k)
    (hvalue : valueForm.value value.toList = .ok v) :
    Codec.builtIn.load text = .ok (.mapping [(k, v)]) := by
  have hkeyValue :
      (keyValue (.scalar true key.toList) : Except LoadFault (Yaml Float)) = .ok k := by
    rw [keyValue, scalarValue, if_pos rfl, hforms.1, hkey]
    exact fun _ hsign => absurd hsign hdefault
  have hvalueOf :
      (valueOf (.scalar true value.toList) : Except LoadFault (Yaml Float)) = .ok v := by
    rw [valueOf, scalarValue, if_pos rfl, hforms.2, hvalue]
  show load text = _
  rw [load, hread]
  dsimp only
  rw [valueOf, entryValues, hkeyValue, hvalueOf]
  rfl

end Yaml

end MotionScene
