import ChipEight.Layout

/-!
# Access to plain data

A position in a list may be behind its end, a stretch may not fit, a copy may have
the wrong length, and a sum may be too great for the word that is to hold it.
`Checked` is a computation that looks before each such access and stops at the
first that is not covered. For each way of access one lemma says when it is.

How great a number may become depends on the word that is to hold it. A `limit` is
the first number that is too great.
-/

namespace ChipEight

/-- An access that is not covered. -/
inductive Breach where
  /-- There is no element `i` in a list of `length`. -/
  | element (i length : Nat)
  /-- A list of `length` does not have the stretch. -/
  | stretch (start stop length : Nat)
  /-- As many elements as `source` do not fill the place of `target` of them. -/
  | copy (target source : Nat)
  /-- A number is too great for its word, or would be below zero. -/
  | overflow
  /-- The display is not as long as it has to be. -/
  | display (length : Nat)
  /-- Memory has no room for any program. -/
  | layout
  deriving DecidableEq

/-- A result, or what kept it from being computed. -/
abbrev Checked (α : Type) := Except Breach α

namespace Checked

variable {α β : Type}

def element (xs : List α) (i : Nat) : Checked α :=
  match xs[i]? with
  | some a => .ok a
  | none => .error (.element i xs.length)

def replace (xs : List α) (i : Nat) (a : α) : Checked (List α) :=
  if i < xs.length then .ok (xs.set i a) else .error (.element i xs.length)

/-- The elements from `start` up to, and without, `stop`. -/
def stretch (xs : List α) (start stop : Nat) : Checked (List α) :=
  if start ≤ stop ∧ stop ≤ xs.length then .ok ((xs.drop start).take (stop - start))
  else .error (.stretch start stop xs.length)

/-- The list with the elements from `start` up to, and without, `stop` replaced by as many. -/
def copy (xs : List α) (start stop : Nat) (ys : List α) : Checked (List α) :=
  if start ≤ stop ∧ stop ≤ xs.length then
    if ys.length = stop - start then .ok (xs.take start ++ ys ++ xs.drop stop)
    else .error (.copy (stop - start) ys.length)
  else .error (.stretch start stop xs.length)

def add (limit a b : Nat) : Checked Nat :=
  if a + b < limit then .ok (a + b) else .error .overflow

def mul (limit a b : Nat) : Checked Nat :=
  if a * b < limit then .ok (a * b) else .error .overflow

def sub (a b : Nat) : Checked Nat := if b ≤ a then .ok (a - b) else .error .overflow

/-! ## What is covered -/

@[simp]
theorem ok_bind (a : α) (f : α → Checked β) : ((.ok a : Checked α) >>= f) = f a := rfl

theorem element_of_lt {xs : List α} {i : Nat} (h : i < xs.length) : element xs i = .ok xs[i] := by
  rw [element, List.getElem?_eq_getElem h]

theorem replace_of_lt {xs : List α} {i : Nat} (h : i < xs.length) (a : α) :
    replace xs i a = .ok (xs.set i a) := if_pos h

theorem stretch_of_le {xs : List α} {start n : Nat} (h : start + n ≤ xs.length) :
    stretch xs start (start + n) = .ok ((xs.drop start).take n) := by
  rw [stretch, if_pos ⟨Nat.le_add_right _ _, h⟩, Nat.add_sub_cancel_left]

theorem stretch_zero {xs : List α} {n : Nat} (h : n ≤ xs.length) :
    stretch xs 0 n = .ok (xs.take n) := if_pos ⟨Nat.zero_le _, h⟩

theorem copy_of_le {xs ys : List α} {start : Nat} (h : start + ys.length ≤ xs.length) :
    copy xs start (start + ys.length) ys
      = .ok (xs.take start ++ ys ++ xs.drop (start + ys.length)) := by
  rw [copy, if_pos ⟨Nat.le_add_right _ _, h⟩, if_pos (Nat.add_sub_cancel_left _ _).symm]

theorem copy_zero {xs ys : List α} {n : Nat} (hn : ys.length = n) (h : n ≤ xs.length) :
    copy xs 0 n ys = .ok (ys ++ xs.drop n) := by
  rw [copy, if_pos ⟨Nat.zero_le _, h⟩, Nat.sub_zero, if_pos hn]
  rfl

theorem add_of_lt {limit a b : Nat} (h : a + b < limit) : add limit a b = .ok (a + b) := if_pos h

theorem mul_of_lt {limit a b : Nat} (h : a * b < limit) : mul limit a b = .ok (a * b) := if_pos h

theorem sub_of_le {a b : Nat} (h : b ≤ a) : sub a b = .ok (a - b) := if_pos h

end Checked

end ChipEight
