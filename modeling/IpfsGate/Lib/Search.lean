import Mathlib.Data.List.Infix

/-!
# Searching for a word

A search tries every place of a text, from the left. A word none of whose ends is one of its
starts cannot overlap itself, so where it stands behind a text that does not contain it, no
earlier place can match.
-/
namespace IpfsGate.Lib

variable {α β : Type} {lead text rest word x : List α} {f : List α → Option β}

/-- What `f` makes of the text from the first place on where it makes something of it. -/
def leftmost (f : List α → Option β) : List α → Option β
  | [] => f []
  | c :: text => (f (c :: text)).or (leftmost f text)

theorem leftmost_of_some {m : β} (h : f text = some m) : leftmost f text = some m := by
  cases text with
  | nil => exact h
  | cons c text => rw [leftmost, h, Option.some_or]

theorem leftmost_append (h : ∀ x, x ≠ [] → x <:+ lead → f (x ++ text) = none) :
    leftmost f (lead ++ text) = leftmost f text := by
  induction lead with
  | nil => rfl
  | cons c lead ih =>
    have hhere := h (c :: lead) (by simp) List.suffix_rfl
    rw [List.cons_append] at hhere
    rw [List.cons_append, leftmost, hhere, Option.none_or]
    exact ih (fun x hne hx => h x hne (hx.trans (List.suffix_cons c lead)))

/-- No proper end of the word is a start of it. -/
def Unbordered (word : List α) : Prop :=
  ∀ k < word.length, 0 < k → word.drop k ≠ word.take (word.length - k)

instance [DecidableEq α] (word : List α) : Decidable (Unbordered word) :=
  inferInstanceAs (Decidable (∀ k < word.length, 0 < k → _))

theorem Unbordered.not_prefix (h : Unbordered word) (hne : x ≠ []) (hx : ¬ word <:+: x) :
    ¬ word <+: x ++ (word ++ rest) := by
  intro hprefix
  rcases Nat.lt_or_ge x.length word.length with hlt | hle
  · obtain ⟨tail, htail⟩ := hprefix
    have htake : word.drop x.length = word.take (word.length - x.length) := by
      have hdrop := congrArg (List.drop x.length) htail
      rw [List.drop_append_of_le_length hlt.le, List.drop_left] at hdrop
      have hcut := congrArg (List.take (word.length - x.length)) hdrop
      rwa [List.take_left' (by simp), List.take_append_of_le_length (by omega)] at hcut
    exact h _ hlt (List.length_pos_iff.mpr hne) htake
  · have hshort : word <+: x := List.prefix_of_prefix_length_le hprefix (List.prefix_append _ _) hle
    exact hx hshort.isInfix

end IpfsGate.Lib
