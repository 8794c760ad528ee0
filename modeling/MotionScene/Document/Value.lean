import MotionScene.Number

/-!
# Document values

An animation document is a tree of values: null, truth values, numbers, texts, lists,
and objects whose members keep the order in which they were first written.  Members
are read by key and written by key; writing keeps the place of a key that is there and
appends one that is not (`get?_set_self`, `get?_set_of_ne`, `keys_set`).
-/

namespace MotionScene

inductive Value (R : Type) where
  | null
  | bool (b : Bool)
  | num (n : Number R)
  | text (s : String)
  | list (items : List (Value R))
  | object (members : List (String × Value R))
  deriving Inhabited, Repr

/-- The members of an object, in order. -/
abbrev Members (R : Type) := List (String × Value R)

/-! ## Members -/

namespace Members

variable {R : Type}

/-- The value of the first member with the given key. -/
def get? (members : Members R) (key : String) : Option (Value R) :=
  match members with
  | [] => none
  | (k, v) :: rest => if k = key then some v else get? rest key

/-- The value under a key, null where the key is missing. -/
def get (members : Members R) (key : String) : Value R :=
  (get? members key).getD .null

def has (members : Members R) (key : String) : Bool :=
  (get? members key).isSome

/-- Writes a member in the place of the one with its key, or at the end. -/
def set (members : Members R) (key : String) (value : Value R) : Members R :=
  match members with
  | [] => [(key, value)]
  | (k, v) :: rest => if k = key then (k, value) :: rest else (k, v) :: set rest key value

def erase (members : Members R) (key : String) : Members R :=
  members.filter (·.1 ≠ key)

/-- Writes every member of the second list over the first. -/
def merge (members extra : Members R) : Members R :=
  extra.foldl (fun result entry => result.set entry.1 entry.2) members

def keys (members : Members R) : List String :=
  members.map (·.1)

@[simp] theorem get?_nil (key : String) : get? ([] : Members R) key = none := rfl

theorem get?_cons (k : String) (v : Value R) (rest : Members R) (key : String) :
    get? ((k, v) :: rest) key = if k = key then some v else get? rest key := rfl

@[simp] theorem get?_set_self (members : Members R) (key : String) (value : Value R) :
    get? (set members key value) key = some value := by
  induction members with
  | nil => simp [set, get?]
  | cons entry rest ih =>
    obtain ⟨k, v⟩ := entry
    by_cases h : k = key <;> simp [set, get?, h, ih]

theorem get?_set_of_ne (members : Members R) {key other : String} (value : Value R)
    (h : key ≠ other) : get? (set members key value) other = get? members other := by
  induction members with
  | nil => simp [set, get?, h]
  | cons entry rest ih =>
    obtain ⟨k, v⟩ := entry
    by_cases hk : k = key
    · subst hk
      simp [set, get?, h]
    · simp [set, get?, hk, ih]

theorem keys_set (members : Members R) (key : String) (value : Value R) :
    keys (set members key value) =
      if key ∈ keys members then keys members else keys members ++ [key] := by
  induction members with
  | nil => simp [set, keys]
  | cons entry rest ih =>
    obtain ⟨k, v⟩ := entry
    by_cases hk : k = key
    · simp [set, keys, hk]
    · have hk' : ¬key = k := fun h => hk h.symm
      have := ih
      simp only [keys, List.map_cons, List.mem_cons] at this ⊢
      simp only [set, hk, if_false, List.map_cons, this, hk', false_or]
      by_cases h : key ∈ List.map (·.1) rest <;> simp [h]

@[simp] theorem get?_erase_self (members : Members R) (key : String) :
    get? (erase members key) key = none := by
  induction members with
  | nil => rfl
  | cons entry rest ih =>
    obtain ⟨k, v⟩ := entry
    by_cases h : k = key
    · simpa [erase, h] using ih
    · simpa [erase, h, get?] using ih

theorem get?_erase_of_ne (members : Members R) {key other : String} (h : key ≠ other) :
    get? (erase members key) other = get? members other := by
  induction members with
  | nil => rfl
  | cons entry rest ih =>
    obtain ⟨k, v⟩ := entry
    by_cases hk : k = key
    · subst hk
      simpa [erase, get?, h] using ih
    · have hkept : erase ((k, v) :: rest) key = (k, v) :: erase rest key := by simp [erase, hk]
      simp only [hkept, get?_cons, ih]

end Members

/-! ## Reading values -/

namespace Value

variable {R : Type}

def sort : Value R → ValueSort
  | null => .null
  | bool _ => .bool
  | num (.whole _) => .whole
  | num (.real _) => .real
  | text _ => .text
  | list _ => .list
  | object _ => .object

/-- The number a value is.  Truth values are none. -/
def number? : Value R → Option (Number R)
  | num n => some n
  | _ => none

/-- The number a value counts as in arithmetic, where truth values are 0 and 1. -/
def quantity? : Value R → Option (Number R)
  | num n => some n
  | bool b => some (.whole (if b then 1 else 0))
  | _ => none

def text? : Value R → Option String
  | text s => some s
  | _ => none

def items? : Value R → Option (List (Value R))
  | list items => some items
  | _ => none

def members? : Value R → Option (Members R)
  | object members => some members
  | _ => none

/-- The items of a list, none for any other value. -/
def items (value : Value R) : List (Value R) :=
  value.items?.getD []

def members (value : Value R) : Members R :=
  value.members?.getD []

def isNull : Value R → Bool
  | null => true
  | _ => false

variable [Scalar R]

/-- A value holds unless it is null, false, zero or empty. -/
def holds : Value R → Bool
  | null => false
  | bool b => b
  | num n => !n.isZero
  | text s => s ≠ ""
  | list items => !items.isEmpty
  | object members => !members.isEmpty

/-- The value itself if it holds, another one otherwise. -/
def orElse (value other : Value R) : Value R :=
  if value.holds then value else other

/-! ## Equality

Numbers are equal by amount, whole or not, and truth values are equal to 0 and 1.
Objects are equal when they have the same keys with equal values, in any order. -/

mutual

def same : Value R → Value R → Bool
  | null, null => true
  | bool a, bool b => a == b
  | bool a, num n => (Number.whole (if a then 1 else 0)).same n
  | num m, bool b => m.same (.whole (if b then 1 else 0))
  | num m, num n => m.same n
  | text s, text t => s == t
  | list xs, list ys => sameItems xs ys
  | object xs, object ys => xs.length == ys.length && sameMembers xs ys
  | _, _ => false

def sameItems : List (Value R) → List (Value R) → Bool
  | [], [] => true
  | x :: xs, y :: ys => same x y && sameItems xs ys
  | _, _ => false

/-- Every member of the first list is in the second with an equal value. -/
def sameMembers : List (String × Value R) → Members R → Bool
  | [], _ => true
  | (k, v) :: rest, other =>
    match other.get? k with
    | some w => same v w && sameMembers rest other
    | none => false

end

def isText (value : Value R) (s : String) : Bool :=
  match value with
  | text t => t == s
  | _ => false

end Value

end MotionScene
