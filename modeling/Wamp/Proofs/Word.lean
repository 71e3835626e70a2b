import Mathlib.Data.List.TakeWhile

/-!
# First words

A text that people read begins with one word, such as a URI or the name of a kind, and goes on
behind a space if there is more to say. Here a text is cut at its first space, and a word that holds
no space is shown to be what comes out.
-/

namespace Wamp

/-- The text in front of the first space; all of it if it has none. -/
def firstWord (text : String) : String := String.ofList (text.toList.takeWhile (· ≠ ' '))

/-- The characters behind the first space. -/
def afterFirstWord (text : String) : List Char := (text.toList.dropWhile (· ≠ ' ')).tail

variable {word : String}

/-- No character of a text without a space is one. -/
theorem ne_space_of_mem (h : ' ' ∉ word.toList) : ∀ c ∈ word.toList, decide (c ≠ ' ') = true :=
  fun _ hc => decide_eq_true fun heq => h (heq ▸ hc)

/-- A text without a space is its own first word. -/
theorem firstWord_eq_self (h : ' ' ∉ word.toList) : firstWord word = word := by
  rw [firstWord, List.takeWhile_eq_self_iff.mpr (ne_space_of_mem h), String.ofList_toList]

/-- A word without a space is the first word of what goes on with one. -/
theorem firstWord_append_space (h : ' ' ∉ word.toList) (rest : String) :
    firstWord (word ++ " " ++ rest) = word := by
  have hcut : (word.toList ++ ' ' :: rest.toList).takeWhile (· ≠ ' ') = word.toList := by
    rw [List.takeWhile_append_of_pos (ne_space_of_mem h), List.takeWhile_cons_of_neg (by simp),
      List.append_nil]
  rw [firstWord, String.toList_append, String.toList_append, List.append_assoc]
  exact (congrArg String.ofList hcut).trans String.ofList_toList

/-- What follows a word without a space and a space is behind the first space. -/
theorem afterFirstWord_append_space (h : ' ' ∉ word.toList) (rest : String) :
    afterFirstWord (word ++ " " ++ rest) = rest.toList := by
  have hcut : (word.toList ++ ' ' :: rest.toList).dropWhile (· ≠ ' ') = ' ' :: rest.toList := by
    rw [List.dropWhile_append_of_pos (ne_space_of_mem h), List.dropWhile_cons_of_neg (by simp)]
  rw [afterFirstWord, String.toList_append, String.toList_append, List.append_assoc]
  exact congrArg List.tail hcut

end Wamp
