/-! # Blank characters

The white space of Unicode: 25 characters. A text splits at them into its
fields, the maximal runs of other characters.
-/

namespace PushRelabel.Text

def isBlank (c : Char) : Bool :=
  let n := c.toNat
  (9 ≤ n ∧ n ≤ 13) ∨ n = 0x20 ∨ n = 0x85 ∨ n = 0xA0 ∨ n = 0x1680 ∨ (0x2000 ≤ n ∧ n ≤ 0x200A) ∨
    n = 0x2028 ∨ n = 0x2029 ∨ n = 0x202F ∨ n = 0x205F ∨ n = 0x3000

/-- The pieces between the elements that satisfy `p`; always at least one. -/
def pieces {α : Type} (p : α → Bool) (xs : List α) : List (List α) :=
  xs.foldr (fun x ws =>
    if p x then [] :: ws
    else match ws with
      | w :: ws => (x :: w) :: ws
      | [] => [[x]]) [[]]

def fields (cs : List Char) : List (List Char) := (pieces isBlank cs).filter (· ≠ [])

/-- Without the blanks at both ends. -/
def trim (cs : List Char) : List Char :=
  ((cs.dropWhile isBlank).reverse.dropWhile isBlank).reverse

variable {α : Type} (p : α → Bool)

theorem pieces_ne_nil (xs : List α) : pieces p xs ≠ [] := by
  cases xs with
  | nil => simp [pieces]
  | cons x xs =>
      simp only [pieces, List.foldr_cons]
      split
      · simp
      · split <;> simp

theorem pieces_cons (x : α) (xs : List α) :
    pieces p (x :: xs) =
      if p x then [] :: pieces p xs
      else (x :: (pieces p xs).head (pieces_ne_nil p xs)) :: (pieces p xs).tail := by
  have hne := pieces_ne_nil p xs
  rw [pieces, List.foldr_cons, ← pieces]
  split
  · rfl
  · split
    · rename_i w ws heq
      simp [heq]
    · rename_i heq
      exact absurd heq hne

end PushRelabel.Text
