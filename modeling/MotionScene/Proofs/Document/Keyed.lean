import MotionScene.Document.Json
import MotionScene.Proofs.Members

/-!
# Values whose objects have distinct keys

An object that is read from a text has every key once, and so has every object inside it
(`isKeyed_of_parse?`).  Setting, adjusting and dropping members keeps that.
-/

namespace MotionScene

variable {R : Type}

/-- No object of a value has a key twice. -/
inductive Value.IsKeyed : Value R → Prop
  | null : IsKeyed .null
  | bool (b : Bool) : IsKeyed (.bool b)
  | num (n : Number R) : IsKeyed (.num n)
  | text (s : String) : IsKeyed (.text s)
  | list {items : List (Value R)} (values : ∀ item ∈ items, IsKeyed item) : IsKeyed (.list items)
  | object {members : Members R} (distinct : (Members.keys members).Nodup)
      (values : ∀ entry ∈ members, IsKeyed entry.2) : IsKeyed (.object members)

/-- The members of an object without a key twice. -/
structure Members.AreKeyed (members : Members R) : Prop where
  distinct : members.keys.Nodup
  values : ∀ entry ∈ members, entry.2.IsKeyed

theorem Value.isKeyed_object {members : Members R} :
    (Value.object members).IsKeyed ↔ members.AreKeyed := by
  constructor
  · rintro ⟨⟩
    exact ⟨‹_›, ‹_›⟩
  · rintro ⟨distinct, values⟩
    exact .object distinct values

theorem Value.isKeyed_list {items : List (Value R)} :
    (Value.list items).IsKeyed ↔ ∀ item ∈ items, item.IsKeyed := by
  constructor
  · rintro ⟨⟩
    assumption
  · exact .list

theorem Value.IsKeyed.items {value : Value R} (keyed : value.IsKeyed) :
    ∀ item ∈ value.items, item.IsKeyed := by
  cases keyed with
  | list values => exact values
  | _ => exact nofun

theorem Value.IsKeyed.members {value : Value R} (keyed : value.IsKeyed) :
    value.members.AreKeyed := by
  cases keyed with
  | object distinct values => exact ⟨distinct, values⟩
  | _ => exact ⟨List.nodup_nil, nofun⟩

namespace Members

variable {members : Members R}

theorem areKeyed_nil : AreKeyed ([] : Members R) :=
  ⟨List.nodup_nil, nofun⟩

theorem AreKeyed.set (keyed : members.AreKeyed) (key : String) {value : Value R}
    (hvalue : value.IsKeyed) : (members.set key value).AreKeyed where
  distinct := nodup_keys_set keyed.distinct key value
  values entry hentry := by
    rcases mem_set hentry with rfl | h
    · exact hvalue
    · exact keyed.values entry h

theorem AreKeyed.get? (keyed : members.AreKeyed) {key : String} {value : Value R}
    (h : members.get? key = some value) : value.IsKeyed :=
  keyed.values (key, value) (mem_of_get? h)

theorem AreKeyed.get (keyed : members.AreKeyed) (key : String) : (members.get key).IsKeyed := by
  rw [Members.get]
  cases h : members.get? key with
  | none => exact .null
  | some value => exact keyed.get? h

end Members

/-! ## Reading -/

namespace Json

variable [Scalar R]

theorem isKeyed_of_readAtom {text rest : List Char} {value : Value R}
    (h : readAtom text = some (value, rest)) : value.IsKeyed := by
  unfold readAtom at h
  split at h
  · rename_i result hname
    cases h
    obtain ⟨entry, hentry, hword⟩ := List.exists_of_findSome?_eq_some hname
    obtain ⟨_, -, heq⟩ := Option.map_eq_some_iff.mp hword
    obtain rfl : entry.2 = value := (Prod.mk.inj heq).1
    simp only [names, List.mem_cons, List.not_mem_nil, or_false] at hentry
    rcases hentry with rfl | rfl | rfl | rfl | rfl | rfl
    · exact .null
    · exact .bool _
    · exact .bool _
    · exact .num _
    · exact .num _
    · exact .num _
  · obtain ⟨_, -, heq⟩ := Option.map_eq_some_iff.mp h
    obtain rfl := (Prod.mk.inj heq).1
    exact .num _

/-- What is read in a number of steps has no key twice. -/
structure ReadsKeyed (R : Type) [Scalar R] (steps : ℕ) : Prop where
  value : ∀ {text rest : List Char} {value : Value R},
    readValue steps text = some (value, rest) → value.IsKeyed
  items : ∀ {text rest : List Char} {items : List (Value R)},
    readItems steps text = some (items, rest) → ∀ item ∈ items, item.IsKeyed
  members : ∀ {own : Members R} {text rest : List Char} {members : Members R}, own.AreKeyed →
    readMembers steps own text = some (members, rest) → members.AreKeyed

section Steps

variable {steps : ℕ} (reads : ReadsKeyed R steps) {text rest : List Char}

include reads

theorem ReadsKeyed.value_succ {value : Value R}
    (h : readValue (steps + 1) text = some (value, rest)) : value.IsKeyed := by
  unfold readValue at h
  split at h
  · obtain ⟨_, -, heq⟩ := Option.map_eq_some_iff.mp h
    obtain rfl := (Prod.mk.inj heq).1
    exact .text _
  · split at h
    · cases h
      exact .list nofun
    · obtain ⟨⟨items, _⟩, hread, heq⟩ := Option.map_eq_some_iff.mp h
      obtain rfl := (Prod.mk.inj heq).1
      exact .list (reads.items hread)
  · split at h
    · cases h
      exact .object List.nodup_nil nofun
    · obtain ⟨⟨members, _⟩, hread, heq⟩ := Option.map_eq_some_iff.mp h
      obtain rfl := (Prod.mk.inj heq).1
      exact Value.isKeyed_object.mpr (reads.members Members.areKeyed_nil hread)
  · exact isKeyed_of_readAtom h

theorem ReadsKeyed.items_succ {items : List (Value R)}
    (h : readItems (steps + 1) text = some (items, rest)) : ∀ item ∈ items, item.IsKeyed := by
  unfold readItems at h
  obtain ⟨⟨item, after⟩, hitem, h⟩ := Option.bind_eq_some_iff.mp h
  dsimp only at h
  split at h
  · obtain ⟨⟨later, _⟩, hlater, heq⟩ := Option.bind_eq_some_iff.mp h
    cases heq
    exact List.forall_mem_cons.mpr ⟨reads.value hitem, reads.items hlater⟩
  · cases h
    exact List.forall_mem_singleton.mpr (reads.value hitem)
  · cases h

/-- A member that is read takes the place of the one with its key. -/
theorem ReadsKeyed.members_succ {own members : Members R} (keyed : own.AreKeyed)
    (h : readMembers (steps + 1) own text = some (members, rest)) : members.AreKeyed := by
  unfold readMembers at h
  split at h
  · obtain ⟨⟨key, after⟩, -, h⟩ := Option.bind_eq_some_iff.mp h
    dsimp only at h
    split at h
    · obtain ⟨⟨value, later⟩, hread, h⟩ := Option.bind_eq_some_iff.mp h
      have hset := keyed.set key (reads.value hread)
      dsimp only at h
      split at h
      · exact reads.members hset h
      · cases h
        exact hset
      · cases h
    · cases h
  · cases h

end Steps

theorem readsKeyed (steps : ℕ) : ReadsKeyed R steps := by
  -- on the steps and not on the text: the three readers call each other
  induction steps with
  | zero => exact ⟨nofun, nofun, fun _ h => nomatch h⟩
  | succ steps ih => exact ⟨ih.value_succ, ih.items_succ, ih.members_succ⟩

/-- A document that is read from a text has no key twice. -/
theorem isKeyed_of_parse? {text : String} {value : Value R} (h : parse? text = some value) :
    value.IsKeyed := by
  unfold parse? at h
  dsimp only at h
  split at h
  · rename_i hread
    split at h
    · cases h
      exact (readsKeyed _).value hread
    · cases h
  · cases h

end Json

end MotionScene
