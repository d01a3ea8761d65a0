import Mathlib.Order.Bounds.Basic
import MiniJava.Name.Suggestion

/-!
# The distance of two texts is the least number of edits

An edit inserts, deletes or substitutes one character, at any position. The rows of the distance
satisfy the usual recursion on both texts. From it one edit changes the distance to a third text by
at most one, and as many edits as the distance says suffice.
-/
namespace MiniJava.Name

inductive Edit : List Char → List Char → Prop
  | insert (c : Char) (s : List Char) : Edit s (c :: s)
  | delete (c : Char) (s : List Char) : Edit (c :: s) s
  | substitute (c d : Char) (s : List Char) : Edit (c :: s) (d :: s)
  | keep (c : Char) {s t : List Char} : Edit s t → Edit (c :: s) (c :: t)

/-- `Edits n s t`: the text `t` comes from `s` by `n` edits. -/
inductive Edits : Nat → List Char → List Char → Prop
  | done (s : List Char) : Edits 0 s s
  | next {n : Nat} {s t u : List Char} : Edit s t → Edits n t u → Edits (n + 1) s u

theorem Edit.symm {s t : List Char} (h : Edit s t) : Edit t s := by
  induction h with
  | insert c s => exact .delete c s
  | delete c s => exact .insert c s
  | substitute c d s => exact .substitute d c s
  | keep c _ ih => exact .keep c ih

namespace Edits
variable {n : Nat} {s t u : List Char}

theorem snoc (h : Edits n s t) (last : Edit t u) : Edits (n + 1) s u := by
  induction h with
  | done s => exact .next last (.done u)
  | next first _ ih => exact .next first (ih last)

theorem symm (h : Edits n s t) : Edits n t s := by
  induction h with
  | done s => exact .done s
  | next first _ ih => exact ih.snoc first.symm

theorem keep (c : Char) (h : Edits n s t) : Edits n (c :: s) (c :: t) := by
  induction h with
  | done s => exact .done (c :: s)
  | next first _ ih => exact .next (.keep c first) ih

end Edits

/-- The distance of two lists of characters is the head of their row. -/
def gap (as bs : List Char) : Nat := (row as bs).headD 0

theorem distance_eq_gap (s t : String) : distance s t = gap s.toList t.toList := rfl

/-- What follows the head of a row is the row of the shorter text. -/
theorem row_cons (as : List Char) (b : Char) (bs : List Char) :
    row as (b :: bs) = gap as (b :: bs) :: row as bs := by
  induction as with
  | nil => rfl
  | cons a as ih => rw [gap, row, ih, extendRow, List.headD_cons, row]

theorem row_nil (as : List Char) : row as [] = [gap as []] := by
  induction as with
  | nil => rfl
  | cons a as ih =>
    rw [gap, row, ih, extendRow]
    · rfl
    · nofun

theorem gap_nil (bs : List Char) : gap [] bs = bs.length := by
  cases bs with
  | nil => rfl
  | cons b bs => rfl

theorem gap_cons_nil (a : Char) (as : List Char) : gap (a :: as) [] = gap as [] + 1 := by
  rw [gap, row, row_nil]
  rfl

theorem gap_cons_cons (a : Char) (as : List Char) (b : Char) (bs : List Char) :
    gap (a :: as) (b :: bs) =
      min (gap as (b :: bs) + 1)
        (min (gap (a :: as) bs + 1) (gap as bs + if a = b then 0 else 1)) := by
  rw [gap, row, row_cons, extendRow, List.headD_cons]
  rfl

theorem gap_cons_le (a : Char) (as bs : List Char) : gap (a :: as) bs ≤ gap as bs + 1 := by
  cases bs with
  | nil => exact (gap_cons_nil a as).le
  | cons b bs =>
    rw [gap_cons_cons]
    exact min_le_left _ _

theorem gap_le_cons (as : List Char) (b : Char) (bs : List Char) :
    gap as (b :: bs) ≤ gap as bs + 1 := by
  cases as with
  | nil => rw [gap_nil, gap_nil, List.length_cons]
  | cons a as =>
    rw [gap_cons_cons]
    exact (min_le_right _ _).trans (min_le_left _ _)

theorem gap_le_of_insert (c : Char) (s u : List Char) : gap s u ≤ gap (c :: s) u + 1 := by
  induction u with
  | nil =>
    rw [gap_cons_nil]
    omega
  | cons b u ih =>
    have longer := gap_le_cons s b u
    rw [gap_cons_cons]
    split <;> omega

theorem gap_le_of_substitute (c d : Char) (s u : List Char) :
    gap (c :: s) u ≤ gap (d :: s) u + 1 := by
  induction u with
  | nil =>
    rw [gap_cons_nil, gap_cons_nil]
    exact Nat.le_succ _
  | cons b u ih =>
    rw [gap_cons_cons, gap_cons_cons]
    split <;> split <;> omega

theorem gap_le_of_keep (c : Char) {s t : List Char} (nearer : ∀ u, gap s u ≤ gap t u + 1)
    (u : List Char) : gap (c :: s) u ≤ gap (c :: t) u + 1 := by
  induction u with
  | nil =>
    have := nearer []
    rw [gap_cons_nil, gap_cons_nil]
    omega
  | cons b u ih =>
    have whole := nearer (b :: u)
    have rest := nearer u
    rw [gap_cons_cons, gap_cons_cons]
    omega

/-- One edit changes the distance to any text by at most one. -/
theorem Edit.gap_le {s t : List Char} (h : Edit s t) (u : List Char) :
    gap s u ≤ gap t u + 1 := by
  induction h generalizing u with
  | insert c s => exact gap_le_of_insert c s u
  | delete c s => exact gap_cons_le c s u
  | substitute c d s => exact gap_le_of_substitute c d s u
  | keep c _ ih => exact gap_le_of_keep c ih u

theorem gap_self (s : List Char) : gap s s = 0 := by
  induction s with
  | nil => rfl
  | cons c s ih => simp [gap_cons_cons, ih]

theorem Edits.gap_le {n : Nat} {s t : List Char} (h : Edits n s t) : gap s t ≤ n := by
  induction h with
  | done s => exact (gap_self s).le
  | next first _ ih => exact (first.gap_le _).trans (Nat.succ_le_succ ih)

theorem edits_of_nil (t : List Char) : Edits t.length [] t := by
  induction t with
  | nil => exact .done []
  | cons c t ih => exact .next (.insert c []) (ih.keep c)

theorem edits_first (a b : Char) {as bs : List Char} {n : Nat} (h : Edits n as bs) :
    Edits (n + if a = b then 0 else 1) (a :: as) (b :: bs) := by
  split
  · rename_i same
    exact same ▸ h.keep a
  · exact .next (.substitute a b as) (h.keep b)

theorem edits_gap (s t : List Char) : Edits (gap s t) s t := by
  induction s generalizing t with
  | nil =>
    rw [gap_nil]
    exact edits_of_nil t
  | cons a as shorter =>
    induction t with
    | nil =>
      rw [gap_cons_nil]
      exact .next (.delete a as) (shorter [])
    | cons b bs ih =>
      rw [gap_cons_cons]
      -- the least of the three is one of them, and each stands for one way to begin
      refine min_rec' (Edits · _ _) ?_ (min_rec' (Edits · _ _) ?_ ?_)
      · exact .next (.delete a as) (shorter (b :: bs))
      · exact .next (.insert b (a :: as)) (ih.keep b)
      · exact edits_first a b (shorter bs)

theorem isLeast_distance (s t : String) :
    IsLeast {n | Edits n s.toList t.toList} (distance s t) := by
  rw [distance_eq_gap]
  exact ⟨edits_gap s.toList t.toList, fun _ h => Edits.gap_le h⟩

theorem distance_comm (s t : String) : distance s t = distance t s := by
  have le : ∀ s t : String, distance s t ≤ distance t s := by
    intro s t
    rw [distance_eq_gap, distance_eq_gap]
    exact (edits_gap t.toList s.toList).symm.gap_le
  exact Nat.le_antisymm (le s t) (le t s)

end MiniJava.Name
