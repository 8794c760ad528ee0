import MotionScene.Migration.Document
import MotionScene.Proofs.Migration.Walks

/-!
# The places that a migration names

Every migration names the places of a document that it changes: channels of colors, the text
and the path options of a text layer, the closed flags of beziers, the coordinates of handles,
and the members that completing a layer adds or replaces.  Here are the places that each of
them names within a value, and for each of them that it changes nothing else.
-/

namespace MotionScene

variable {R : Type}

/-! ## Colors -/

/-- The channels of a color that are rescaled: the first four, if they are numbers or truth
values. -/
inductive ChannelAt : Value R → Place → Prop
  | intro {channels : List (Value R)} {index : Nat} {channel : Value R}
      (first : index < 4) (item : channels[index]? = some channel)
      (number : channel.quantity?.isSome = true) : ChannelAt (.list channels) [.item index]

/-- The channels of the colors of a fill or a stroke: of a static color, or of those at the
start and at the end of its keyframes. -/
inductive EntryChannelAt (entry : Members R) : Place → Prop
  | static {color : Members R} {channels : List (Value R)} {place : Place}
      (colored : hasColor entry = true) (property : entry.get? "c" = some (.object color))
      (content : color.get? "k" = some (.list channels))
      (plain : ∀ first rest, channels ≠ .object first :: rest)
      (channel : ChannelAt (.list channels) place) :
      EntryChannelAt entry (.key "c" :: .key "k" :: place)
  | keyframe {color first keyframe : Members R} {rest : List (Value R)} {index : Nat}
      {side : String} {value : Value R} {place : Place}
      (colored : hasColor entry = true) (property : entry.get? "c" = some (.object color))
      (content : color.get? "k" = some (.list (.object first :: rest)))
      (item : (Value.object first :: rest)[index]? = some (.object keyframe))
      (known : side ∈ ["s", "e"]) (color : keyframe.get? side = some value)
      (channel : ChannelAt value place) :
      EntryChannelAt entry (.key "c" :: .key "k" :: .item index :: .key side :: place)

section Colors

variable [Scalar R]

/-- The first channel is rescaled if it is a number or a truth value. -/
theorem rescaleChannels_cons {limit : Nat} {channel : Value R} {rest own : List (Value R)}
    (rescaled : rescaleChannels (limit + 1) (channel :: rest) = .ok own) :
    ∃ first later, own = first :: later ∧ rescaleChannels limit rest = .ok later ∧
      (channel.quantity? = none → first = channel) := by
  rw [rescaleChannels] at rescaled
  split at rescaled
  · rename_i hnumber
    obtain ⟨first, -, hrest⟩ := bind_eq_ok.mp rescaled
    obtain ⟨later, hlater, hpure⟩ := bind_eq_ok.mp hrest
    refine ⟨first, later, (pure_eq_ok.mp hpure).symm, hlater, fun hnone => ?_⟩
    rw [hnone] at hnumber
    cases hnumber
  · obtain ⟨first, hfirst, hrest⟩ := bind_eq_ok.mp rescaled
    obtain ⟨later, hlater, hpure⟩ := bind_eq_ok.mp hrest
    exact ⟨first, later, (pure_eq_ok.mp hpure).symm, hlater, fun _ => (Except.ok.inj hfirst).symm⟩

theorem rescaleChannels_length {limit : Nat} {channels own : List (Value R)}
    (rescaled : rescaleChannels limit channels = .ok own) : own.length = channels.length := by
  induction limit generalizing channels own with
  | zero =>
      cases rescaled
      rfl
  | succ limit ih =>
      cases channels with
      | nil =>
          cases rescaled
          rfl
      | cons channel rest =>
          obtain ⟨first, later, rfl, hlater, -⟩ := rescaleChannels_cons rescaled
          rw [List.length_cons, List.length_cons, ih hlater]

/-- A channel past the limit stays, and so does one that is no number. -/
theorem rescaleChannels_getElem? {limit : Nat} {channels own : List (Value R)}
    (rescaled : rescaleChannels limit channels = .ok own) {index : Nat} {channel : Value R}
    (item : channels[index]? = some channel)
    (other : limit ≤ index ∨ channel.quantity? = none) : own[index]? = some channel := by
  induction limit generalizing channels own index with
  | zero =>
      cases rescaled
      exact item
  | succ limit ih =>
      cases channels with
      | nil => cases item
      | cons head rest =>
          obtain ⟨first, later, rfl, hlater, hkept⟩ := rescaleChannels_cons rescaled
          cases index with
          | zero =>
              cases item
              rw [hkept (other.resolve_left (by omega))]
              rfl
          | succ index => exact ih hlater item (other.imp_left (by omega))

theorem sameBut_rescaleColor {value result : Value R}
    (rescaled : rescaleColor value = .ok result) : SameBut (ChannelAt value) value result := by
  unfold rescaleColor at rescaled
  split at rescaled
  · rename_i channels
    obtain ⟨own, hown, rfl⟩ := map_eq_ok.mp rescaled
    refine .list (rescaleChannels_length hown) fun index channel changed hchannel hchanged => ?_
    by_cases hnamed : index < 4 ∧ channel.quantity?.isSome = true
    · exact .of_named (.intro hnamed.1 hchannel hnamed.2) channel changed
    · have hother : 4 ≤ index ∨ channel.quantity? = none := by
        rw [not_and_or, Nat.not_lt, Bool.not_eq_true, Option.isSome_eq_false_iff,
          Option.isNone_iff_eq_none] at hnamed
        exact hnamed
      rw [rescaleChannels_getElem? hown hchannel hother] at hchanged
      cases hchanged
      exact .refl channel
  · cases rescaled
    exact .refl value

/-- Rescaling the colors of an entry changes their channels only. -/
theorem sameBut_rescaleEntry {entry result : Members R}
    (rescaled : rescaleEntry entry = .ok result) :
    SameBut (EntryChannelAt entry) (.object entry) (.object result) := by
  unfold rescaleEntry at rescaled
  split at rescaled
  · rename_i hcolored
    refine sameBut_adjust rescaled fun color own hcolor hown => ?_
    refine sameBut_adjustMember hown fun members content own hmembers hcontent hchannels => ?_
    subst hmembers
    split at hchannels
    · rename_i first rest
      refine sameBut_adjustItems hchannels fun items index item own hitems hitem hkeyframe => ?_
      cases hitems
      refine sameBut_adjustMembers hkeyframe fun keyframe own hobject hsides => ?_
      subst hobject
      obtain ⟨started, hstarted, hended⟩ := bind_eq_ok.mp hsides
      have hside : ∀ {side : String} {before after : Members R}, side ∈ ["s", "e"] →
          before.get? side = Members.get? keyframe side → before.adjust side rescaleColor = .ok after →
          SameBut (fun place => EntryChannelAt entry
            (.key "c" :: .key "k" :: .item index :: place)) (.object before) (.object after) :=
        fun hknown hsame hadjusted => sameBut_adjust hadjusted fun value own hvalue hcolors =>
          (sameBut_rescaleColor hcolors).mono fun place hchannel =>
            .keyframe hcolored hcolor hcontent hitem hknown (hsame.symm.trans hvalue) hchannel
      refine (hside (by decide) rfl hstarted).trans (hside (by decide) ?_ hended)
      exact Members.get?_adjust_of_ne hstarted (by decide)
    · rename_i hplain
      refine (sameBut_rescaleColor hchannels).mono fun place hchannel => ?_
      obtain @⟨channels, index, channel, hindex, hitem, hnumber⟩ := hchannel
      refine .static hcolored hcolor hcontent (fun first rest h => ?_) (.intro hindex hitem hnumber)
      exact hplain first rest (congrArg Value.list h)
  · cases rescaled
    exact .refl _

end Colors

/-! ## Texts -/

/-- The path options of a text layer that are bare numbers. -/
inductive OptionAt (layer : Members R) : Place → Prop
  | intro {text path : Members R} {key : String} {n : Number R}
      (words : layer.get? "t" = some (.object text)) (options : text.get? "p" = some (.object path))
      (known : key ∈ ["a", "p", "r"]) (number : path.get? key = some (.num n)) :
      OptionAt layer [.key "t", .key "p", .key key]

theorem sameBut_wrapTextDocument [Scalar R] {layer result : Members R}
    (wrapped : wrapTextDocument layer = .ok result) :
    SameBut (fun place => place = [.key "t", .key "d"]) (.object layer) (.object result) := by
  refine sameBut_adjust wrapped fun text changed _ htext => ?_
  exact sameBut_adjustMember htext fun _ own changed _ _ _ => .of_named (by rfl) own changed

theorem sameBut_wrapTextPath [Scalar R] {layer result : Members R}
    (wrapped : wrapTextPath layer = .ok result) :
    SameBut (OptionAt layer) (.object layer) (.object result) := by
  refine sameBut_adjust wrapped fun text own htext hown => ?_
  refine sameBut_adjustMember hown fun members path own hmembers hpath hwrapped => ?_
  subst hmembers
  refine sameBut_adjustMembers hwrapped fun options own hoptions hsteps => ?_
  subst hoptions
  obtain ⟨first, hfirst, hrest⟩ := bind_eq_ok.mp hsteps
  obtain ⟨second, hsecond, hthird⟩ := bind_eq_ok.mp hrest
  have hstep : ∀ {key : String} {before after : Members R}, key ∈ ["a", "p", "r"] →
      before.get? key = Members.get? options key → before.adjust key wrapOption = .ok after →
      SameBut (fun place => OptionAt layer (.key "t" :: .key "p" :: place)) (.object before)
        (.object after) := by
    intro key before after hknown hsame hadjusted
    refine sameBut_adjust hadjusted fun value own hvalue hwrapped => ?_
    cases value with
    | num n => exact .of_named (.intro htext hpath hknown (hsame.symm.trans hvalue)) _ own
    | _ =>
        cases hwrapped
        exact .refl _
  refine ((hstep (by decide) rfl hfirst).trans (hstep (by decide) ?_ hsecond)).trans
    (hstep (by decide) ?_ hthird)
  · exact Members.get?_adjust_of_ne hfirst (by decide)
  · rw [Members.get?_adjust_of_ne hsecond (by decide), Members.get?_adjust_of_ne hfirst (by decide)]

/-! ## Handles -/

/-- The coordinates of handles that have a coordinate of their vertex to be added: the first
two. -/
inductive CoordinateAt (bezier : Members R) : Place → Prop
  | intro {side : String} {handles coordinates vertices addends : List (Value R)}
      {index axis : Nat} (known : side ∈ handleKeys) (content : bezier.get side = .list handles)
      (handle : handles[index]? = some (.list coordinates))
      (points : bezier.get "v" = .list vertices)
      (vertex : vertices[index]? = some (.list addends)) (first : axis < 2)
      (present : axis < addends.length) :
      CoordinateAt bezier [.key side, .item index, .item axis]

theorem CoordinateAt.of_same {bezier own : Members R} (same : SameHandles bezier own)
    {place : Place} (h : CoordinateAt own place) : CoordinateAt bezier place := by
  obtain ⟨known, content, handle, points, vertex, first, present⟩ := h
  rw [same _ (List.mem_cons_of_mem _ known)] at content
  rw [same _ List.mem_cons_self] at points
  exact .intro known content handle points vertex first present

/-- An item of paired lists stays or has a partner. -/
theorem Paired.getElem? {α β : Type} {becomes : α → β → α → Prop} {items results : List α}
    {partners : List β} (paired : Paired becomes items partners results) {index : Nat}
    {item result : α} (hitem : items[index]? = some item)
    (hresult : results[index]? = some result) :
    result = item ∨ ∃ partner, partners[index]? = some partner ∧ becomes item partner result := by
  induction paired generalizing index with
  | nil => cases hitem
  | alone => exact .inl (Option.some.inj (hresult.symm.trans hitem))
  | @cons first own partner items results partners hfirst _ ih =>
      cases index with
      | zero =>
          cases hitem
          cases hresult
          exact .inr ⟨partner, rfl, hfirst⟩
      | succ index => exact ih hitem hresult

theorem Paired.length {α β : Type} {becomes : α → β → α → Prop} {items results : List α}
    {partners : List β} (paired : Paired becomes items partners results) :
    results.length = items.length := by
  induction paired with
  | nil => rfl
  | alone => rfl
  | cons _ _ ih => rw [List.length_cons, List.length_cons, ih]

section Handles

variable [Scalar R]

theorem sameBut_handlesMoved {named : Place → Prop} {vertices : List (Value R)}
    {value result : Value R}
    (hnamed : ∀ handles coordinates addends index axis, value = .list handles →
      handles[index]? = some (.list coordinates) → vertices[index]? = some (.list addends) →
      axis < 2 → axis < addends.length → named [.item index, .item axis])
    (moved : HandlesMoved vertices value result) : SameBut named value result := by
  cases value with
  | list handles =>
      obtain ⟨own, rfl, hpaired⟩ := moved
      refine .list hpaired.length fun index handle changed hhandle hchanged => ?_
      rcases hpaired.getElem? hhandle hchanged with rfl | ⟨vertex, hvertex, hmoved⟩
      · exact .refl _
      · unfold HandleMoved at hmoved
        split at hmoved
        · rename_i coordinates addends
          obtain ⟨sums, rfl, hsums⟩ := hmoved
          refine .list hsums.length fun axis coordinate sum hcoordinate hsum => ?_
          rcases hsums.getElem? hcoordinate hsum with rfl | ⟨addend, haddend, -⟩
          · exact .refl _
          · rw [List.getElem?_take] at haddend
            split at haddend
            · rename_i haxis
              obtain ⟨hlength, -⟩ := List.getElem?_eq_some_iff.mp haddend
              exact .of_named (hnamed _ _ _ _ _ rfl hhandle hvertex haxis hlength) _ _
            · cases haddend
        · rw [hmoved]
          exact .refl _
  | _ =>
      cases moved
      exact .refl _

/-- Adding the vertices to the handles of a bezier changes their coordinates only. -/
theorem sameBut_makeAbsolute {bezier result : Members R}
    (absolute : makeAbsolute bezier = .ok result) :
    SameBut (CoordinateAt bezier) (.object bezier) (.object result) := by
  obtain ⟨incoming, hincoming, houtgoing⟩ := bind_eq_ok.mp absolute
  have hside : ∀ {side : String} {before after : Members R}, side ∈ handleKeys →
      before.get? side = bezier.get? side →
      before.adjust side (absoluteSide (bezier.get "v").items) = .ok after →
      SameBut (CoordinateAt bezier) (.object before) (.object after) := by
    intro side before after hknown hsame hadjusted
    refine sameBut_adjust hadjusted fun value own hvalue hmoved => ?_
    refine sameBut_handlesMoved (fun handles coordinates addends index axis => ?_)
      (handlesMoved_absoluteSide hmoved)
    rintro rfl hhandle hvertex haxis hlength
    have hhandles : bezier.get side = .list handles := by
      rw [Members.get, ← hsame, hvalue]
      rfl
    cases hvertices : bezier.get "v" with
    | list vertices =>
        rw [hvertices] at hvertex
        exact .intro hknown hhandles hhandle hvertices hvertex haxis hlength
    | _ =>
        rw [hvertices] at hvertex
        cases hvertex
  refine (hside (by decide) rfl hincoming).trans (hside (by decide) ?_ houtgoing)
  exact Members.get?_adjust_of_ne hincoming (by decide)

end Handles

/-! ## Glyphs -/

/-- The beziers of glyphs, with their places. -/
inductive GlyphAt (document : Members R) : Place → Members R → Prop
  | intro {glyphs rest items : List (Value R)} {glyph data first entry property bezier : Members R}
      {index place : Nat} (chars : document.get? "chars" = some (.list glyphs))
      (char : glyphs[index]? = some (.object glyph))
      (content : glyph.get? "data" = some (.object data))
      (shapes : data.get? "shapes" = some (.list (.object first :: rest)))
      (entries : first.get? "it" = some (.list items))
      (item : items[place]? = some (.object entry))
      (path : entry.get? "ks" = some (.object property))
      (static : property.get? "k" = some (.object bezier))
      (isBezier : isBezier (.object bezier) = true) :
      GlyphAt document [.key "chars", .item index, .key "data", .key "shapes", .item 0, .key "it",
        .item place, .key "ks", .key "k"] bezier

theorem GlyphAt.congr {document result : Members R}
    (same : result.get? "chars" = document.get? "chars") {place : Place} {bezier : Members R}
    (h : GlyphAt result place bezier) : GlyphAt document place bezier := by
  obtain ⟨chars, char, content, shapes, entries, item, path, static, isBezier⟩ := h
  exact .intro (same ▸ chars) char content shapes entries item path static isBezier

/-- Completing the glyphs of a document changes the coordinates of their handles only. -/
theorem sameBut_completeGlyphs [Scalar R] {named : Place → Prop} {document result : Members R}
    (hnamed : ∀ place bezier inner, GlyphAt document place bezier → CoordinateAt bezier inner →
      named (place ++ inner))
    (completed : completeGlyphs document = .ok result) :
    SameBut named (.object document) (.object result) := by
  -- one step down for every combinator of the change
  refine sameBut_adjust completed fun glyphs _ hglyphs h₁ => ?_
  refine sameBut_adjustItems h₁ fun glyphs index glyph _ hlist hglyph h₂ => ?_
  subst hlist
  refine sameBut_adjustMember h₂ fun glyph data _ hobject hdata h₃ => ?_
  subst hobject
  refine sameBut_adjustMember h₃ fun data shapes _ hobject hshapes h₄ => ?_
  subst hobject
  refine sameBut_adjustFirst h₄ fun first rest _ hlist h₅ => ?_
  subst hlist
  refine sameBut_adjustMember h₅ fun first content _ hobject hcontent h₆ => ?_
  subst hobject
  refine sameBut_adjustItems h₆ fun items place entry _ hlist hitem h₇ => ?_
  subst hlist
  refine sameBut_adjustMember h₇ fun entry property _ hobject hproperty h₈ => ?_
  subst hobject
  refine sameBut_adjustMember h₈ fun property value _ hobject hvalue h₉ => ?_
  subst hobject
  refine sameBut_changeBezier (fun bezier _ hobject hbezier habsolute => ?_) h₉
  subst hobject
  refine (sameBut_makeAbsolute habsolute).mono fun inner hcoordinate => ?_
  exact hnamed _ _ _ (.intro hglyphs hglyph hdata hshapes hcontent hitem hproperty hvalue hbezier)
    hcoordinate

end MotionScene
