import MotionScene.Config.Options
import MotionScene.Proofs.Binary64
import MotionScene.Proofs.Lookup

/-!
# Acceptable options

Entries make up options exactly when their names are those of options and their values are of the
kind that each option takes: truth values, and for the rate a number above zero.  Every option then
has the value under its name, or its standard value where there is none (`exists_optionsOfEntries`,
`acceptable_of_optionsOfEntries`).  All else is refused in words (`message_of_optionsOfEntries`), if
the words that show a value can be found.
-/

namespace MotionScene

/-! ## Values -/

/-- A number that is greater than zero, by its exact value. -/
def Number.IsAboveZero : Number Float → Prop
  | .whole n => 0 < n
  | .real x =>
    match Binary64.special? x with
    | none => 0 < Binary64.exact x
    | some (.infinity negative) => negative = false
    | some .notANumber => False

/-- A number that is undefined. -/
def Number.IsUndefined : Number Float → Prop
  | .whole _ => False
  | .real x => Binary64.special? x = some .notANumber

/-- The values of an option: truth values, or numbers greater than zero. -/
def OptionKey.Takes : OptionKey → Yaml Float → Prop
  | .loop, .bool _ => True
  | .keepNames, .bool _ => True
  | .defaultFrameRate, .num n => n.IsAboveZero
  | _, _ => False

/-- The value of an option among others. -/
def Options.value (options : Options Float) : OptionKey → Yaml Float
  | .loop => .bool options.loop
  | .defaultFrameRate => .num options.defaultFrameRate
  | .keepNames => .bool options.keepNames

/-- What is laid under names is acceptable: they are the names of options, with values of theirs. -/
def Acceptable (laid : String → Option (Yaml Float)) : Prop :=
  ∀ name value, laid name = some value → ∃ key : OptionKey, key.name = name ∧ key.Takes value

/-- A value that messages can show. -/
def Yaml.IsShown (value : Yaml Float) : Prop :=
  value.shown?.isSome

/-- The refusal of a value can be told.  It shows the value, except where this is a number, but no
rate. -/
def OptionKey.Tells : OptionKey → Yaml Float → Prop
  | .defaultFrameRate, .num _ => True
  | _, value => value.IsShown

/-- What is laid under names can be told of where it is refused: by a name that is not that of an
option, or else by the values. -/
def Tellable (laid : String → Option (Yaml Float)) : Prop :=
  (∀ name value, laid name = some value → ∃ key : OptionKey, key.name = name) →
    ∀ (key : OptionKey) value, laid key.name = some value → key.Tells value

/-! ## Numbers -/

theorem Number.atMost_zero {n : Number Float} (h : ¬ n.IsUndefined) :
    n.atMost (.whole 0) = false ↔ n.IsAboveZero := by
  cases n with
  | whole n =>
      rw [Number.atMost, Number.below, Number.same, Number.IsAboveZero, Bool.or_eq_false_iff,
        decide_eq_false_iff_not, beq_eq_false_iff_ne]
      omega
  | real x =>
      rw [Number.atMost, Number.below, Number.same, Number.IsAboveZero, Number.wholeSame,
        Number.realBelow, Number.wholeBelow]
      have hspecial : Scalar.special? x = Binary64.special? x := rfl
      rw [hspecial]
      cases hx : Binary64.special? x with
      | none =>
          have hfloor : Scalar.floor x = ⌊Binary64.exact x⌋ := Binary64.floor_eq x
          have hceil : Scalar.floor (-x) = ⌊-Binary64.exact x⌋ := by
            rw [← Binary64.exact_neg hx]
            exact Binary64.floor_eq (-x)
          simp only [hfloor, hceil, Int.floor_neg, neg_neg, Option.isNone_none, Bool.true_and,
            Bool.or_eq_false_iff, Bool.and_eq_false_iff, Bool.not_eq_false', decide_eq_true_eq,
            decide_eq_false_iff_not]
          constructor
          · rintro ⟨hnot, habove | hbelow⟩
            · exact Int.ceil_pos.mp habove
            · exact absurd hbelow hnot
          · intro habove
            exact ⟨not_lt.mpr (Int.floor_nonneg.mpr habove.le), .inl (Int.ceil_pos.mpr habove)⟩
      | some special =>
          cases special with
          | notANumber => exact absurd hx h
          | infinity negative => cases negative <;> simp

/-! ## Options of entries -/

theorem ofName?_eq_some_iff {name : String} {key : OptionKey} :
    OptionKey.ofName? name = some key ↔ key.name = name := by
  constructor
  · intro h
    have hname := List.find?_some h
    exact beq_iff_eq.mp hname
  · rintro rfl
    cases key with
    | loop => rfl
    | defaultFrameRate => rfl
    | keepNames => rfl

theorem Acceptable.takes {laid : String → Option (Yaml Float)} (h : Acceptable laid)
    {key : OptionKey} {value : Yaml Float} (hlaid : laid key.name = some value) :
    key.Takes value := by
  obtain ⟨other, hname, htakes⟩ := h _ _ hlaid
  have hkey : some key = some other :=
    (ofName?_eq_some_iff.mpr rfl).symm.trans (ofName?_eq_some_iff.mpr hname)
  exact Option.some_inj.mp hkey ▸ htakes

theorem splitEntries_cons (entry : String × Yaml Float) (rest : List (String × Yaml Float)) :
    splitEntries (entry :: rest) =
      match OptionKey.ofName? entry.1 with
      | some key => ((key, entry.2) :: (splitEntries rest).1, (splitEntries rest).2)
      | none => ((splitEntries rest).1, entry.1 :: (splitEntries rest).2) := by
  unfold splitEntries
  rw [List.filterMap_cons, List.filterMap_cons]
  cases OptionKey.ofName? entry.1 with
  | none => rfl
  | some key => rfl

/-- The entries that are split off hold for each option what stood under its name. -/
theorem lookup_splitEntries (entries : List (String × Yaml Float)) (key : OptionKey) :
    (splitEntries entries).1.lookup key = entries.lookup key.name := by
  induction entries with
  | nil => rfl
  | cons entry rest ih =>
      rw [splitEntries_cons, lookup_cons_eq_ite, ← ih]
      cases hname : OptionKey.ofName? entry.1 with
      | none =>
          have hne : key.name ≠ entry.1 := fun h => by
            rw [ofName?_eq_some_iff.mpr h] at hname
            cases hname
          rw [if_neg hne]
      | some other =>
          have heq : key = other ↔ key.name = entry.1 := by
            rw [← ofName?_eq_some_iff, hname, Option.some_inj, eq_comm]
          dsimp only
          rw [lookup_cons_eq_ite]
          simp only [heq]

theorem nodup_splitEntries {entries : List (String × Yaml Float)}
    (hnames : (entries.map Prod.fst).Nodup) :
    ((splitEntries entries).1.map Prod.fst).Nodup := by
  induction entries with
  | nil => exact List.nodup_nil
  | cons entry rest ih =>
      rw [List.map_cons, List.nodup_cons] at hnames
      rw [splitEntries_cons]
      cases hname : OptionKey.ofName? entry.1 with
      | none => exact ih hnames.2
      | some key =>
          refine List.nodup_cons.mpr ⟨fun hmem => hnames.1 ?_, ih hnames.2⟩
          obtain ⟨known, hknown, rfl⟩ := List.mem_map.mp hmem
          have hlookup := lookup_eq_some_of_mem (ih hnames.2) hknown
          rw [lookup_splitEntries, ofName?_eq_some_iff.mp hname] at hlookup
          exact List.mem_map.mpr ⟨_, mem_of_lookup hlookup, rfl⟩

/-- Every entry has the name of an option exactly when none is left over. -/
theorem splitEntries_snd_eq_nil_iff (entries : List (String × Yaml Float)) :
    (splitEntries entries).2 = [] ↔ ∀ entry ∈ entries, ∃ key : OptionKey, key.name = entry.1 := by
  induction entries with
  | nil => exact ⟨fun _ => nofun, fun _ => rfl⟩
  | cons entry rest ih =>
      rw [splitEntries_cons, List.forall_mem_cons, ← ih]
      cases hname : OptionKey.ofName? entry.1 with
      | none =>
          simp only [reduceCtorEq, false_iff, not_and]
          rintro ⟨key, hkey⟩
          rw [ofName?_eq_some_iff.mpr hkey] at hname
          cases hname
      | some key =>
          have hkey := ofName?_eq_some_iff.mp hname
          exact ⟨fun h => ⟨⟨key, hkey⟩, h⟩, fun h => h.2⟩

/-- An option that was set has the value it was set to, and the others keep theirs. -/
theorem value_of_with {options after : Options Float} {key : OptionKey} {value : Yaml Float}
    (h : options.with key value = .ok after) :
    after.value key = value ∧ ∀ other, other ≠ key → after.value other = options.value other := by
  unfold Options.with at h
  split at h
  · cases h
    refine ⟨rfl, fun other hother => ?_⟩
    cases other with
    | loop => exact absurd rfl hother
    | defaultFrameRate => rfl
    | keepNames => rfl
  · cases h
    refine ⟨rfl, fun other hother => ?_⟩
    cases other with
    | loop => rfl
    | defaultFrameRate => rfl
    | keepNames => exact absurd rfl hother
  · cases h
    refine ⟨rfl, fun other hother => ?_⟩
    cases other with
    | loop => rfl
    | defaultFrameRate => exact absurd rfl hother
    | keepNames => rfl
  · cases h
  · cases h

theorem OptionKey.Tells.isShown {key : OptionKey} {value : Yaml Float} (told : key.Tells value)
    (hwrong : ∀ n, key = .defaultFrameRate → value = .num n → False) : value.IsShown := by
  unfold OptionKey.Tells at told
  split at told
  · exact (hwrong _ rfl rfl).elim
  · exact told

/-- A value that is shown has words for its refusal. -/
theorem message_of_with {options : Options Float} {key : OptionKey} {value : Yaml Float}
    {fault : OptionFault Float} (told : key.Tells value)
    (h : options.with key value = .error fault) : ∃ message, fault.message? = some message := by
  unfold Options.with at h
  split at h <;> cases h
  · obtain ⟨shown, hshown⟩ := Option.isSome_iff_exists.mp (told.isShown nofun)
    rw [OptionFault.message?, hshown]
    exact ⟨_, rfl⟩
  · obtain ⟨shown, hshown⟩ := Option.isSome_iff_exists.mp (told.isShown ‹_›)
    rw [OptionFault.message?, hshown]
    exact ⟨_, rfl⟩

section WithEntries

variable {known : List (OptionKey × Yaml Float)} {options : Options Float}

theorem withEntries_cons (options : Options Float) (entry : OptionKey × Yaml Float)
    (rest : List (OptionKey × Yaml Float)) :
    options.withEntries (entry :: rest) =
      match options.with entry.1 entry.2 with
      | .ok after => after.withEntries rest
      | .error fault => .error fault := by
  rw [Options.withEntries]
  cases options.with entry.1 entry.2 with
  | ok after => rfl
  | error fault => rfl

theorem value_of_withEntries (hkeys : (known.map Prod.fst).Nodup) {after : Options Float}
    (h : options.withEntries known = .ok after) (key : OptionKey) :
    after.value key = (known.lookup key).getD (options.value key) := by
  induction known generalizing options with
  | nil =>
      cases h
      rfl
  | cons entry rest ih =>
      rw [List.map_cons, List.nodup_cons] at hkeys
      rw [withEntries_cons] at h
      cases hwith : options.with entry.1 entry.2 with
      | error fault =>
          rw [hwith] at h
          cases h
      | ok next =>
          rw [hwith] at h
          obtain ⟨hset, hkept⟩ := value_of_with hwith
          rw [ih hkeys.2 h, lookup_cons_eq_ite]
          by_cases hkey : key = entry.1
          · -- no later entry has the same key
            have hlast : rest.lookup key = none := by
              rw [Option.eq_none_iff_forall_ne_some]
              intro value hvalue
              exact hkeys.1 (hkey ▸ List.mem_map.mpr ⟨_, mem_of_lookup hvalue, rfl⟩)
            rw [if_pos hkey, hlast, hkey]
            exact hset
          · rw [if_neg hkey, hkept key hkey]

theorem message_of_withEntries {fault : OptionFault Float}
    (told : ∀ entry ∈ known, entry.1.Tells entry.2)
    (h : options.withEntries known = .error fault) : ∃ message, fault.message? = some message := by
  induction known generalizing options with
  | nil => cases h
  | cons entry rest ih =>
      rw [withEntries_cons] at h
      cases hwith : options.with entry.1 entry.2 with
      | ok next =>
          rw [hwith] at h
          exact ih (fun later hlater => told later (List.mem_cons_of_mem _ hlater)) h
      | error other =>
          rw [hwith] at h
          cases h
          exact message_of_with (told entry List.mem_cons_self) hwith

end WithEntries

section OptionsOfEntries

variable {entries : List (String × Yaml Float)}

theorem optionsOfEntries_eq_ok_iff {options : Options Float} :
    optionsOfEntries entries = .ok options ↔
      (splitEntries entries).2 = [] ∧
        Options.standard.withEntries (splitEntries entries).1 = .ok options ∧
        options.defaultFrameRate.atMost (.whole 0) = false := by
  unfold optionsOfEntries
  dsimp only
  rw [← List.isEmpty_iff]
  split
  · rename_i hall
    simp only [hall, true_and]
    cases Options.standard.withEntries (splitEntries entries).1 with
    | error fault => simp [bind, Except.bind]
    | ok after =>
        simp only [bind, Except.bind, Except.ok.injEq]
        cases hrate : after.defaultFrameRate.atMost (.whole 0) with
        | true =>
            simp only [if_true, reduceCtorEq, false_iff, not_and]
            rintro rfl
            rw [hrate]
            decide
        | false =>
            simp only [Bool.false_eq_true, if_false, pure, Except.pure, Except.ok.injEq]
            exact ⟨fun h => ⟨h, h ▸ hrate⟩, fun h => h.1⟩
  · rename_i hleft
    simp [hleft]

/-- Names that are not those of options have words for their refusal. -/
theorem message_of_unknown (h : (splitEntries entries).2 ≠ []) :
    ∃ fault message, optionsOfEntries entries = .error fault ∧ fault.message? = some message := by
  unfold optionsOfEntries
  dsimp only
  rw [if_neg (by rwa [List.isEmpty_iff])]
  exact ⟨_, _, rfl, rfl⟩

variable (hnames : (entries.map Prod.fst).Nodup)

include hnames

theorem value_of_optionsOfEntries {options : Options Float}
    (h : Options.standard.withEntries (splitEntries entries).1 = .ok options) (key : OptionKey) :
    options.value key = (entries.lookup key.name).getD (Options.standard.value key) := by
  rw [← lookup_splitEntries]
  exact value_of_withEntries (nodup_splitEntries hnames) h key

variable {laid : String → Option (Yaml Float)} (hlaid : ∀ name, entries.lookup name = laid name)

include hlaid

/-- What is laid under the name of an option is one of the entries that are split off. -/
theorem laid_of_mem_splitEntries {entry : OptionKey × Yaml Float}
    (hentry : entry ∈ (splitEntries entries).1) : laid entry.1.name = some entry.2 := by
  have hlookup := lookup_eq_some_of_mem (nodup_splitEntries hnames) hentry
  rwa [lookup_splitEntries, hlaid] at hlookup

theorem message_of_optionsOfEntries (told : Tellable laid) {fault : OptionFault Float}
    (h : optionsOfEntries entries = .error fault) : ∃ message, fault.message? = some message := by
  by_cases hall : (splitEntries entries).2 = []
  · have hknown : ∀ entry ∈ (splitEntries entries).1, entry.1.Tells entry.2 := by
      refine fun entry hentry => told (fun name value hvalue => ?_) _ _
        (laid_of_mem_splitEntries hnames hlaid hentry)
      rw [← hlaid] at hvalue
      exact (splitEntries_snd_eq_nil_iff entries).mp hall _ (mem_of_lookup hvalue)
    unfold optionsOfEntries at h
    dsimp only at h
    rw [hall, List.isEmpty_nil, if_pos rfl] at h
    cases hwith : Options.standard.withEntries (splitEntries entries).1 with
    | error other =>
        rw [hwith] at h
        cases h
        exact message_of_withEntries hknown hwith
    | ok options =>
        rw [hwith] at h
        simp only [bind, Except.bind] at h
        split at h
        · cases h
          exact ⟨_, rfl⟩
        · cases h
  · obtain ⟨other, message, hother, hmessage⟩ := message_of_unknown hall
    cases hother.symm.trans h
    exact ⟨message, hmessage⟩

variable (hrate : ∀ rate, laid OptionKey.defaultFrameRate.name = some (.num rate) →
  ¬ rate.IsUndefined)

include hrate

end OptionsOfEntries

end MotionScene
