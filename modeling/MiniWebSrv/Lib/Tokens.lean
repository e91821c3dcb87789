import Mathlib.Data.List.DropRight

/-! # Tokens

What stands between the separators of a list, with the blanks around it left out. Which elements are
blank is up to the user.
-/

namespace MiniWebSrv.Tokens

variable {α : Type} {blank : α → Bool} {xs front back : List α}

/-- The list without the blanks at both of its ends. -/
def trim (blank : α → Bool) (xs : List α) : List α := (xs.dropWhile blank).rdropWhile blank

/-- There is no blank at either end. -/
def Trimmed (blank : α → Bool) (xs : List α) : Prop :=
  (∀ x ∈ xs.head?, blank x = false) ∧ ∀ x ∈ xs.getLast?, blank x = false

instance (blank : α → Bool) (xs : List α) : Decidable (Trimmed blank xs) :=
  inferInstanceAs (Decidable (_ ∧ _))

theorem trim_blank (blanks : ∀ x ∈ xs, blank x = true) : trim blank xs = [] := by
  have nothing : xs.dropWhile blank = [] := List.dropWhile_eq_nil_iff.mpr blanks
  rw [trim, nothing, List.rdropWhile_nil]

theorem rdropWhile_append (blanks : ∀ x ∈ back, blank x = true) :
    (xs ++ back).rdropWhile blank = xs.rdropWhile blank := by
  induction back using List.reverseRecOn with
  | nil => rw [List.append_nil]
  | append_singleton rest x ih =>
      rw [← List.append_assoc, List.rdropWhile_concat_pos _ _ _ (blanks x (by simp))]
      exact ih fun y member => blanks y (List.mem_append_left _ member)

theorem trim_padded (before : ∀ x ∈ front, blank x = true) (behind : ∀ x ∈ back, blank x = true)
    (trimmed : Trimmed blank xs) : trim blank (front ++ (xs ++ back)) = xs := by
  cases xs with
  | nil =>
      refine trim_blank fun x member => ?_
      rcases List.mem_append.mp member with member | member
      · exact before x member
      · exact behind x member
  | cons x rest =>
      have first : blank x = false := trimmed.1 x rfl
      rw [trim, List.dropWhile_append_of_pos before, List.cons_append,
        List.dropWhile_cons_of_neg (by rw [first]; decide), ← List.cons_append,
        rdropWhile_append behind, List.rdropWhile_eq_self_iff]
      intro some_ last
      have other := trimmed.2 _ (List.getLast?_eq_some_getLast some_)
      rw [other] at last
      cases last

section Lists

variable [DecidableEq α]

/-- The pieces between the separators, the empty ones left out. -/
def tokens (separator : α) (xs : List α) : List (List α) :=
  (xs.splitOn separator).filter fun piece => decide (piece ≠ [])

theorem tokens_none {separator : α} (none_ : separator ∉ xs) :
    tokens separator xs = if xs = [] then [] else [xs] := by
  rw [tokens, List.splitOn_eq_singleton none_, List.filter_singleton]
  by_cases empty : xs = [] <;> simp [empty]

/-- A separator ends a piece, and the next one begins behind it. -/
theorem tokens_append {separator : α} (none_ : separator ∉ front) :
    tokens separator (front ++ separator :: back) =
      (if front = [] then [] else [front]) ++ tokens separator back := by
  rw [tokens, List.splitOn_append_cons_self_of_not_mem none_, List.filter_cons, tokens]
  by_cases empty : front = [] <;> simp [empty]

/-- The tokens with no blanks around them, and without those which are nothing but blanks. -/
def trimmedTokens (blank : α → Bool) (separator : α) (xs : List α) : List (List α) :=
  ((xs.splitOn separator).map (trim blank)).filter fun piece => decide (piece ≠ [])

/-- Trimming what is empty anyway makes no token of it. -/
theorem trimmedTokens_eq (blank : α → Bool) (separator : α) (xs : List α) :
    trimmedTokens blank separator xs =
      ((tokens separator xs).map (trim blank)).filter fun piece => decide (piece ≠ []) := by
  rw [trimmedTokens, tokens]
  induction xs.splitOn separator with
  | nil => rfl
  | cons piece rest ih =>
      rw [List.map_cons, List.filter_cons, ih, List.filter_cons]
      by_cases empty : piece = []
      · have nothing : trim blank ([] : List α) = [] := trim_blank nofun
        simp [empty, nothing]
      · simp [empty, List.filter_cons]

/-- A token in a list, with the blanks around it. A token which is empty stands for nothing but
    blanks. -/
structure Item (blank : α → Bool) (separator : α) where
  front : List α
  token : List α
  back : List α
  before : ∀ x ∈ front, blank x = true
  behind : ∀ x ∈ back, blank x = true
  trimmed : Trimmed blank token
  inside : separator ∉ front ++ (token ++ back)

variable {separator : α}

def Item.content (item : Item blank separator) : List α := item.front ++ (item.token ++ item.back)

/-- The tokens of a list are what it has been put together from. -/
theorem trimmedTokens_intercalate (items : List (Item blank separator)) (some_ : items ≠ []) :
    trimmedTokens blank separator ([separator].intercalate (items.map Item.content)) =
      (items.map Item.token).filter fun token => decide (token ≠ []) := by
  have apart : ∀ piece ∈ items.map Item.content, separator ∉ piece := by
    intro piece member
    obtain ⟨item, -, rfl⟩ := List.mem_map.mp member
    exact item.inside
  have nonempty : items.map Item.content ≠ [] := fun none_ => some_ (List.map_eq_nil_iff.mp none_)
  have trims : trim blank ∘ Item.content = (Item.token : Item blank separator → List α) := by
    funext item
    exact trim_padded item.before item.behind item.trimmed
  rw [trimmedTokens, List.splitOn_intercalate separator apart nonempty, List.map_map, trims]

end Lists

end MiniWebSrv.Tokens
