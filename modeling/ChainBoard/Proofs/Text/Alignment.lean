import ChainBoard.Text.Alignment

/-!
# A fitted text is cut first and filled up then

A column shows the first characters of a text, as many as it may show, between the spaces that they
leave of the width. The spaces are added to what is left of the text and never shorten it, so that a
text that is longer than its column is wide stands out of it. The text, the width and the greatest
number of characters determine what is shown, and a text without spaces is read back, as far as it
is shown, by dropping the spaces.

## Main definitions

* `Alignment.Divides`: how the spaces stand around a text
* `Alignment.IsFitted`: what a column shows of a text, and the spaces around it

## Main results

* `Alignment.fit_eq_iff`: a text has one fitted form
* `Alignment.IsFitted.length_shown`: the greater of the width and the length of what is left
* `Alignment.IsFitted.filter_shown`: what is left, without the spaces
* `Alignment.fit_left_none`: a text at the left of its column
-/

namespace ChainBoard.Text.Alignment

/-- The spaces in front of a text and behind it: at the left, and where no place is asked for, there
is none in front; at the right there is none behind; in the centre there are as many in front as
behind, but for one that is behind where their number is odd. -/
def Divides : Option Alignment → Nat → Nat → Prop
  | none, front, _ => front = 0
  | some left, front, _ => front = 0
  | some centre, front, behind =>
    front = (front + behind) / 2 ∧ behind = (front + behind + 1) / 2
  | some right, _, behind => behind = 0

/-- A text `s` fitted to a column: `cut` is what is left of it when it is cut, and it stands between
`front` and `behind` spaces. -/
structure IsFitted (align? : Option Alignment) (width : Nat) (most? : Option Nat)
    (s shown cut : List Char) (front behind : Nat) : Prop where
  cut_starts : cut <+: s
  length_cut : cut.length = most?.elim s.length (min s.length)
  shown_eq : shown = List.replicate front ' ' ++ cut ++ List.replicate behind ' '
  spaces : front + behind = width - cut.length
  divides : Divides align? front behind

/-! ## The spaces -/

theorem divides_before (align? : Option Alignment) (spaces : Nat) :
    Divides align? ((align?.getD default).before spaces)
      (spaces - (align?.getD default).before spaces) := by
  cases align? with
  | none => rfl
  | some align =>
    cases align with
    | left => rfl
    | centre => constructor <;> simp only [Option.getD_some, before] <;> omega
    | right => exact Nat.sub_self spaces

/-- A number of spaces is divided in one way. -/
theorem Divides.unique {align? : Option Alignment} {front front' behind behind' : Nat}
    (h : Divides align? front behind) (h' : Divides align? front' behind')
    (hspaces : front + behind = front' + behind') : front = front' ∧ behind = behind' := by
  cases align? with
  | none => simp only [Divides] at h h'; omega
  | some align => cases align <;> simp only [Divides] at h h' <;> omega

/-! ## The fitted text -/

variable {align? : Option Alignment} {width : Nat} {most? : Option Nat}
  {s shown shown' cut cut' : List Char} {front front' behind behind' : Nat}

/-- What is fitted to a column is cut first and filled up then. -/
theorem exists_isFitted (align? : Option Alignment) (width : Nat) (most? : Option Nat)
    (s : List Char) :
    ∃ cut front behind,
      IsFitted align? width most? s ((align?.getD default).fit width most? s) cut front behind := by
  let cut := most?.elim s s.take
  have hfit : (align?.getD default).fit width most? s =
      List.replicate ((align?.getD default).before (width - cut.length)) ' ' ++ cut ++
        List.replicate
          (width - cut.length - (align?.getD default).before (width - cut.length)) ' ' := by
    cases most? <;> rfl
  refine ⟨cut, _, _, ?_, ?_, hfit, ?_, divides_before align? _⟩
  · cases most? with
    | none => exact List.prefix_rfl
    | some most => exact List.take_prefix most s
  · cases most? with
    | none => rfl
    | some most => exact List.length_take.trans (Nat.min_comm most s.length)
  · exact Nat.add_sub_cancel' (before_le _ _)

namespace IsFitted

/-- A text has one fitted form, in which its parts are told apart. -/
theorem unique (h : IsFitted align? width most? s shown cut front behind)
    (h' : IsFitted align? width most? s shown' cut' front' behind') :
    shown = shown' ∧ cut = cut' ∧ front = front' ∧ behind = behind' := by
  have hlength : cut.length = cut'.length := h.length_cut.trans h'.length_cut.symm
  obtain rfl : cut = cut' := by
    rw [List.prefix_iff_eq_take.1 h.cut_starts, List.prefix_iff_eq_take.1 h'.cut_starts, hlength]
  obtain ⟨rfl, rfl⟩ := h.divides.unique h'.divides (h.spaces.trans h'.spaces.symm)
  exact ⟨h.shown_eq.trans h'.shown_eq.symm, rfl, rfl, rfl⟩

/-- A text that may be shown in full is not cut. -/
theorem cut_eq (h : IsFitted align? width most? s shown cut front behind)
    (hmost : ∀ most ∈ most?, s.length ≤ most) : cut = s := by
  apply h.cut_starts.eq_of_length
  rw [h.length_cut]
  cases most? with
  | none => rfl
  | some most => exact Nat.min_eq_left (hmost most rfl)

/-- The column is filled up to its width, unless what is left of the text is longer. -/
theorem length_shown (h : IsFitted align? width most? s shown cut front behind) :
    shown.length = max width cut.length := by
  have hspaces := h.spaces
  rw [h.shown_eq, List.length_append, List.length_append, List.length_replicate,
    List.length_replicate]
  omega

/-- What is left of a text without spaces is what a column shows without the spaces. -/
theorem filter_shown (h : IsFitted align? width most? s shown cut front behind)
    (hs : ' ' ∉ s) : shown.filter (· ≠ ' ') = cut := by
  have hcut : cut.filter (· ≠ ' ') = cut := by
    apply List.filter_eq_self.2
    intro c hc
    have hne : c ≠ ' ' := fun he => hs (he ▸ h.cut_starts.subset hc)
    simpa using hne
  rw [h.shown_eq, List.filter_append, List.filter_append, hcut]
  simp

end IsFitted

/-- **A text has one fitted form.** -/
theorem fit_eq_iff :
    (align?.getD default).fit width most? s = shown ↔
      ∃ cut front behind, IsFitted align? width most? s shown cut front behind := by
  obtain ⟨cut, front, behind, h⟩ := exists_isFitted align? width most? s
  constructor
  · rintro rfl
    exact ⟨cut, front, behind, h⟩
  · rintro ⟨_, _, _, h'⟩
    exact (h.unique h').1

/-- An odd space stands behind a centred text. -/
example : centre.fit 8 (some 3) ['t', 'i', 'm', 'e'] =
    [' ', ' ', 't', 'i', 'm', ' ', ' ', ' '] := by decide

/-- A text at the left of its column is filled up behind. -/
theorem fit_left_none (width : Nat) (s : List Char) :
    left.fit width none s = s.rightpad width ' ' := by
  have h : IsFitted (some left) width none s (s.rightpad width ' ') s 0 (width - s.length) :=
    { cut_starts := List.prefix_rfl
      length_cut := rfl
      shown_eq := rfl
      spaces := Nat.zero_add _
      divides := rfl }
  have hfit := fit_eq_iff.2 ⟨_, _, _, h⟩
  exact hfit

end ChainBoard.Text.Alignment
