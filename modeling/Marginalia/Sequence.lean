/-!
Lists cut at separators, searched for a stretch of items, and read by position. The same
operations serve characters, bytes and lines.
-/

namespace Marginalia.Sequence

variable {α : Type}

/-- The stretches between the items that satisfy `p`. There is one more stretch than such items. -/
def splitWhen (p : α → Bool) : List α → List (List α)
  | [] => [[]]
  | x :: xs =>
    if p x then [] :: splitWhen p xs
    else match splitWhen p xs with
      | [] => [[x]]
      | s :: ss => (x :: s) :: ss

/-- The stretches between the separators. -/
def split [BEq α] (sep : α) : List α → List (List α) :=
  splitWhen (· == sep)

/-- The maximal runs of items that do not satisfy `p`. -/
def runs (p : α → Bool) (xs : List α) : List (List α) :=
  (splitWhen p xs).filter (fun s => !s.isEmpty)

/-- The position of the first non-empty tail that satisfies `p`. -/
def firstTail? (p : List α → Bool) : List α → Option Nat
  | [] => none
  | x :: xs => if p (x :: xs) then some 0 else (firstTail? p xs).map (· + 1)

/-- The position where `pat` first stands in a list. -/
def indexOf? [BEq α] (pat : List α) : List α → Option Nat
  | [] => if pat.isEmpty then some 0 else none
  | x :: xs => if pat.isPrefixOf (x :: xs) then some 0 else (indexOf? pat xs).map (· + 1)

/-- The list holds `pat` as a stretch of neighbouring items. -/
def occursIn [BEq α] (pat xs : List α) : Bool :=
  (indexOf? pat xs).isSome

/-- The items without the longest tail that satisfies `p`. -/
def dropEndWhile (p : α → Bool) (xs : List α) : List α :=
  (xs.reverse.dropWhile p).reverse

/-- The items from position `start` up to position `stop`, both cut to the list. -/
def slice (xs : List α) (start stop : Nat) : List α :=
  (xs.take stop).drop start

/-- The list with its first item changed. -/
def mapFirst (f : α → α) : List α → List α
  | [] => []
  | x :: xs => f x :: xs

/-- The list with all items but the first changed. -/
def mapRest (f : α → α) : List α → List α
  | [] => []
  | x :: xs => x :: xs.map f

/-- The list with its last item changed. -/
def mapLast (f : α → α) : List α → List α
  | [] => []
  | [x] => [f x]
  | x :: y :: xs => x :: mapLast f (y :: xs)

/-- The item at a position; a negative position counts from the end. -/
def atWrapped? (xs : List α) (i : Int) : Option α :=
  if 0 ≤ i then xs[i.toNat]?
  else if 0 ≤ xs.length + i then xs[(xs.length + i).toNat]?
  else none

/-- A sorted list with one more item, placed behind the items that have to stand before it. -/
def insertSorted (before : α → α → Bool) (x : α) : List α → List α
  | [] => [x]
  | y :: ys => if before y x then y :: insertSorted before x ys else x :: y :: ys

/-- The items in order; items of equal rank keep the order in which they came. -/
def sort (before : α → α → Bool) (xs : List α) : List α :=
  xs.foldr (insertSorted before) []

/-- The items without those whose key an earlier item has. -/
def distinctBy {κ : Type} [BEq κ] (key : α → κ) (xs : List α) : List α :=
  (xs.foldl (fun kept x => if kept.any (key · == key x) then kept else x :: kept) []).reverse

theorem splitWhen_ne_nil (p : α → Bool) (xs : List α) : splitWhen p xs ≠ [] := by
  cases xs with
  | nil => simp [splitWhen]
  | cons x xs =>
    simp only [splitWhen]
    split
    · simp
    · split <;> simp

theorem length_splitWhen_pos (p : α → Bool) (xs : List α) : 0 < (splitWhen p xs).length :=
  List.length_pos_iff.2 (splitWhen_ne_nil p xs)

end Marginalia.Sequence
