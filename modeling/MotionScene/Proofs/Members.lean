import MotionScene.Document.Adjust
import MotionScene.Proofs.Outcome

/-!
# Members that were written

What is read from members after one of them was set or adjusted, after others were merged
over them, and after some were dropped; and which entries such members have.
-/

namespace MotionScene.Members

variable {R : Type}

theorem get_congr {members own : Members R} {key : String} (h : own.get? key = members.get? key) :
    own.get key = members.get key :=
  congrArg (·.getD .null) h

/-- A member that is not null is there. -/
theorem get?_of_get {members : Members R} {key : String} {value : Value R}
    (h : members.get key = value) (present : value ≠ .null) : members.get? key = some value := by
  rw [get] at h
  cases hvalue : members.get? key with
  | none =>
      rw [hvalue] at h
      exact absurd h.symm present
  | some own =>
      rw [hvalue] at h
      exact congrArg some h

/-! ## Set and adjusted members -/

theorem get_set_self (members : Members R) (key : String) (value : Value R) :
    (members.set key value).get key = value := by
  simp [get]

theorem get_set_of_ne (members : Members R) {key other : String} (value : Value R)
    (h : key ≠ other) : (members.set key value).get other = members.get other := by
  simp [get, get?_set_of_ne members value h]

theorem has_set_of_ne (members : Members R) {key other : String} (value : Value R)
    (h : key ≠ other) : (members.set key value).has other = members.has other := by
  simp [has, get?_set_of_ne members value h]

theorem get?_adjust_of_ne {key other : String} {change : Change (Value R)}
    {members result : Members R} (adjusted : adjust key change members = .ok result)
    (h : key ≠ other) : get? result other = get? members other := by
  induction members generalizing result with
  | nil =>
      cases adjusted
      rfl
  | cons entry rest ih =>
      obtain ⟨k, v⟩ := entry
      rw [adjust] at adjusted
      by_cases hk : k = key
      · rw [if_pos hk] at adjusted
        obtain ⟨w, -, hw⟩ := bind_eq_ok.mp adjusted
        rw [← pure_eq_ok.mp hw, get?_cons, get?_cons, if_neg (hk ▸ h), if_neg (hk ▸ h)]
      · rw [if_neg hk] at adjusted
        obtain ⟨later, hlater, hpure⟩ := bind_eq_ok.mp adjusted
        rw [← pure_eq_ok.mp hpure, get?_cons, get?_cons, ih hlater]

/-- An adjusted member is what the change makes of it, if there was one. -/
theorem rel_adjust {key : String} {change : Change (Value R)} {members result : Members R}
    (adjusted : adjust key change members = .ok result) :
    Option.Rel (fun value own => change value = .ok own) (members.get? key) (result.get? key) := by
  induction members generalizing result with
  | nil =>
      cases adjusted
      exact .none
  | cons entry rest ih =>
      obtain ⟨k, v⟩ := entry
      rw [adjust] at adjusted
      by_cases hk : k = key
      · rw [if_pos hk] at adjusted
        obtain ⟨changed, hchanged, hpure⟩ := bind_eq_ok.mp adjusted
        rw [← pure_eq_ok.mp hpure, get?_cons, get?_cons, if_pos hk, if_pos hk]
        exact .some hchanged
      · rw [if_neg hk] at adjusted
        obtain ⟨later, hlater, hpure⟩ := bind_eq_ok.mp adjusted
        rw [← pure_eq_ok.mp hpure, get?_cons, get?_cons, if_neg hk, if_neg hk]
        exact ih hlater

/-- The same for members that are null where there is none. -/
theorem get_adjust_self {key : String} {change : Change (Value R)} {members result : Members R}
    (adjusted : adjust key change members = .ok result) :
    members.get key = .null ∧ result.get key = .null ∨
      change (members.get key) = .ok (result.get key) := by
  have hrel := rel_adjust adjusted
  rw [get, get]
  generalize members.get? key = value? at hrel ⊢
  generalize result.get? key = own? at hrel ⊢
  cases hrel with
  | none => exact .inl ⟨rfl, rfl⟩
  | some hchanged => exact .inr hchanged

theorem get_adjust_of_ne {key other : String} {change : Change (Value R)}
    {members result : Members R} (adjusted : adjust key change members = .ok result)
    (h : key ≠ other) : result.get other = members.get other :=
  get_congr (get?_adjust_of_ne adjusted h)

/-! ## Merged members -/

theorem get?_merge_of_none {own extra : Members R} {key : String} (h : extra.get? key = none) :
    (own.merge extra).get? key = own.get? key := by
  induction extra generalizing own with
  | nil => rfl
  | cons entry rest ih =>
      obtain ⟨other, value⟩ := entry
      rw [get?_cons] at h
      split at h
      · cases h
      · rename_i hne
        show ((own.set other value).merge rest).get? key = _
        rw [ih h, get?_set_of_ne _ _ hne]

/-! ## Entries -/

theorem mem_of_get? {members : Members R} {key : String} {value : Value R}
    (h : members.get? key = some value) : (key, value) ∈ members := by
  induction members with
  | nil => cases h
  | cons entry rest ih =>
      obtain ⟨other, first⟩ := entry
      rw [get?_cons] at h
      split at h
      · rename_i heq
        cases h
        exact heq ▸ List.mem_cons_self
      · exact List.mem_cons_of_mem _ (ih h)

theorem ne_of_get?_eq_none {members : Members R} {key : String} (h : members.get? key = none)
    {entry : String × Value R} (hmem : entry ∈ members) : entry.1 ≠ key := by
  induction members with
  | nil => cases hmem
  | cons first rest ih =>
      rw [get?_cons] at h
      split at h
      · cases h
      · rename_i hne
        rcases List.mem_cons.mp hmem with rfl | hmem
        · exact hne
        · exact ih h hmem

theorem mem_set {members : Members R} {key : String} {value : Value R} {entry : String × Value R}
    (h : entry ∈ members.set key value) : entry = (key, value) ∨ entry ∈ members := by
  induction members with
  | nil => exact .inl (List.mem_singleton.mp h)
  | cons first rest ih =>
      obtain ⟨other, own⟩ := first
      rw [set] at h
      split at h
      · rename_i heq
        rcases List.mem_cons.mp h with rfl | h
        · exact .inl (heq ▸ rfl)
        · exact .inr (List.mem_cons_of_mem _ h)
      · rcases List.mem_cons.mp h with rfl | h
        · exact .inr List.mem_cons_self
        · exact (ih h).imp id (List.mem_cons_of_mem _)

theorem mem_merge {members extra : Members R} {entry : String × Value R}
    (h : entry ∈ members.merge extra) : entry ∈ extra ∨ entry ∈ members := by
  induction extra generalizing members with
  | nil => exact .inr h
  | cons first rest ih =>
      have hrest : entry ∈ (members.set first.1 first.2).merge rest := h
      rcases ih hrest with hmem | hset
      · exact .inl (List.mem_cons_of_mem _ hmem)
      · rcases mem_set hset with rfl | hmem
        · exact .inl List.mem_cons_self
        · exact .inr hmem

/-! ## Dropped members -/

theorem get?_filter {members : Members R} (keep : String → Bool) {key : String}
    (h : keep key = true) :
    Members.get? (members.filter fun entry => keep entry.1) key = members.get? key := by
  induction members with
  | nil => rfl
  | cons entry rest ih =>
      obtain ⟨other, value⟩ := entry
      by_cases hkeep : keep other = true
      · rw [List.filter_cons_of_pos (p := fun entry : String × Value R => keep entry.1) hkeep,
          get?_cons, get?_cons, ih]
      · have hne : other ≠ key := by
          rintro rfl
          exact hkeep h
        rw [List.filter_cons_of_neg (p := fun entry : String × Value R => keep entry.1) hkeep,
          get?_cons, if_neg hne, ih]

theorem get?_filter_of_not {members : Members R} (keep : String → Bool) {key : String}
    (h : keep key = false) :
    Members.get? (members.filter fun entry => keep entry.1) key = none := by
  cases hget : Members.get? (members.filter fun entry => keep entry.1) key with
  | none => rfl
  | some value =>
      have hkept := List.of_mem_filter (mem_of_get? hget)
      rw [h] at hkept
      cases hkept

theorem erase_of_get?_eq_none {members : Members R} {key : String} (h : members.get? key = none) :
    members.erase key = members :=
  List.filter_eq_self.mpr fun _ hentry => decide_eq_true (ne_of_get?_eq_none h hentry)

/-! ## Keys -/

theorem get?_set (members : Members R) (key : String) (value : Value R) (other : String) :
    (members.set key value).get? other =
      if key = other then some value else members.get? other := by
  split
  · rename_i h
    rw [h, get?_set_self]
  · rename_i h
    exact get?_set_of_ne members value h

/-- Setting a member to the value that it has changes nothing. -/
theorem set_of_get? {members : Members R} {key : String} {value : Value R}
    (h : members.get? key = some value) : members.set key value = members := by
  induction members with
  | nil => cases h
  | cons entry rest ih =>
      obtain ⟨other, own⟩ := entry
      rw [get?_cons] at h
      rw [set]
      split at h
      · rename_i heq
        cases h
        rw [if_pos heq, heq]
      · rename_i hne
        rw [if_neg hne, ih h]

theorem get?_eq_none_iff {members : Members R} {key : String} :
    members.get? key = none ↔ key ∉ members.keys := by
  induction members with
  | nil => simp [keys]
  | cons entry rest ih =>
      rw [get?_cons, keys, List.map_cons, List.mem_cons, not_or]
      split
      · rename_i h
        simp [h]
      · rename_i h
        rw [ih]
        exact ⟨fun hrest => ⟨fun heq => h heq.symm, hrest⟩, And.right⟩

theorem isSome_get?_iff {members : Members R} {key : String} :
    (members.get? key).isSome ↔ key ∈ members.keys := by
  rw [Option.isSome_iff_ne_none, ne_eq, get?_eq_none_iff, not_not]

theorem get?_eq_some_of_mem {members : Members R} (distinct : members.keys.Nodup)
    {entry : String × Value R} (h : entry ∈ members) :
    members.get? entry.1 = some entry.2 := by
  induction members with
  | nil => cases h
  | cons first rest ih =>
      obtain ⟨hfirst, hrest⟩ := List.nodup_cons.mp distinct
      rw [get?_cons]
      rcases List.mem_cons.mp h with rfl | h
      · exact if_pos rfl
      · have hne : first.1 ≠ entry.1 := by
          intro heq
          exact hfirst (List.mem_map.mpr ⟨entry, h, heq.symm⟩)
        rw [if_neg hne, ih hrest h]

theorem get?_of_sublist {members part : Members R} (distinct : members.keys.Nodup)
    (h : part.Sublist members) {key : String} {value : Value R}
    (hvalue : part.get? key = some value) : members.get? key = some value :=
  get?_eq_some_of_mem distinct (h.subset (mem_of_get? hvalue))

theorem nodup_keys_set {members : Members R} (distinct : members.keys.Nodup) (key : String)
    (value : Value R) : (members.set key value).keys.Nodup := by
  rw [keys_set]
  split
  · exact distinct
  · rename_i h
    refine List.nodup_append.mpr ⟨distinct, List.pairwise_singleton _ key, ?_⟩
    intro other hother own hown heq
    rw [← List.mem_singleton.mp hown, ← heq] at h
    exact h hother

theorem set_of_notMem {members : Members R} {key : String} (h : key ∉ members.keys)
    (value : Value R) : members.set key value = members ++ [(key, value)] := by
  induction members with
  | nil => rfl
  | cons entry rest ih =>
      obtain ⟨hfirst, hrest⟩ := not_or.mp (mt List.mem_cons.mpr h)
      rw [set, if_neg fun heq => hfirst heq.symm, ih hrest, List.cons_append]

/-- Members with keys of their own are merged by appending them. -/
theorem merge_eq_append {own extra : Members R} (distinct : extra.keys.Nodup)
    (apart : ∀ key ∈ extra.keys, key ∉ own.keys) : own.merge extra = own ++ extra := by
  induction extra generalizing own with
  | nil => exact (List.append_nil own).symm
  | cons entry rest ih =>
      obtain ⟨hentry, hrest⟩ := List.nodup_cons.mp distinct
      obtain ⟨hfirst, hlater⟩ := List.forall_mem_cons.mp apart
      show (own.set entry.1 entry.2).merge rest = _
      rw [set_of_notMem hfirst, ih hrest fun key hkey => ?_, List.append_assoc]
      · rfl
      · rw [keys, List.map_append, List.mem_append, not_or]
        refine ⟨hlater key hkey, fun h => hentry ?_⟩
        rwa [List.mem_singleton.mp h] at hkey

end MotionScene.Members
