import Mathlib.Data.List.Forall2
import MiniJava.Proofs.IR.Text
import MiniJava.Timing

/-!
# The table of measurements

A measurement has a row as long as its indentation fits into the columns for labels, so a list has a
table exactly if nothing in it is nested more than 25 levels deep. A table that is made shows every
measurement in a line of its own, and its lines are equally long, but for labels and times that are
too wide for their columns.
-/
namespace MiniJava.Timing

@[simp] theorem length_spaces (n : Nat) : (spaces n).length = n := by
  rw [spaces, String.length_ofList, List.length_replicate]

theorem spaces_append (m n : Nat) : spaces m ++ spaces n = spaces (m + n) := by
  rw [spaces, spaces, spaces, ← String.ofList_append, List.replicate_append_replicate]

theorem length_padRight (width : Nat) (s : String) :
    (padRight width s).length = max width s.length := by
  rw [padRight, String.length_append, length_spaces]
  omega

theorem length_padLeft (width : Nat) (s : String) :
    (padLeft width s).length = max width s.length := by
  rw [padLeft, String.length_append, length_spaces]
  omega

theorem break_not_mem_spaces (n : Nat) : '\n' ∉ (spaces n).toList := by
  rw [spaces, String.toList_ofList]
  intro inside
  cases List.eq_of_mem_replicate inside

theorem break_not_mem_nat (n : Nat) : '\n' ∉ (toString n).toList := by
  have digits : (toString n).toList = Nat.toDigits 10 n := Nat.toList_repr
  rw [digits]
  intro inside
  cases Nat.isDigit_of_mem_toDigits (by decide) (by decide) inside

namespace Measurement
variable (m : Measurement)

def nanoseconds : Nat := m.secs * nanosPerSec + m.nanos

theorem millis_eq : m.millis = m.nanoseconds / 1000000 := by
  rw [millis, nanoseconds, nanosPerSec]
  omega

/-- What a row says, without the break behind it. -/
def line : String :=
  spaces (2 * m.indent) ++ padRight (labelColumns - 2 * m.indent) m.label ++ spaces 4 ++
    padLeft timeColumns (toString m.millis) ++ "ms"

theorem row?_eq : m.row? = if m.indent ≤ 25 then some (m.line ++ "\n") else none := by
  have room : 2 * m.indent ≤ labelColumns ↔ m.indent ≤ 25 := by
    rw [labelColumns]
    omega
  rw [row?]
  simp only [room]
  split
  · rw [line]
    simp only [String.append_assoc]
    rfl
  · rfl

/-- A line shows its measurement: the label behind two spaces for each level, then at least four
spaces, and the whole milliseconds at the end. If the label with its indentation has at most 50
characters, and the number at most 6 digits, the line has 62 characters. -/
structure Shows (line : String) : Prop where
  text : ∃ gap, 4 ≤ gap ∧ line = spaces (2 * m.indent) ++ m.label ++ spaces gap ++
    toString (m.nanoseconds / 1000000) ++ "ms"
  width : 2 * m.indent + m.label.length ≤ 50 →
    (toString (m.nanoseconds / 1000000)).length ≤ 6 → line.length = 62

theorem shows_line : m.Shows m.line where
  text := by
    let gap := (labelColumns - 2 * m.indent - m.label.length) + 4 +
      (timeColumns - (toString m.millis).length)
    refine ⟨gap, by omega, ?_⟩
    rw [← millis_eq, line, padRight, padLeft, ← spaces_append, ← spaces_append]
    simp only [String.append_assoc]
  width := by
    intro label time
    rw [← millis_eq] at time
    have ms : "ms".length = 2 := rfl
    simp only [line, String.length_append, length_spaces, length_padRight, length_padLeft,
      labelColumns, timeColumns, ms]
    omega

example : line ⟨"layout", 1, 0, 12345678⟩ =
    "  layout" ++ spaces 42 ++ "    " ++ "    12ms" := by
  cbv

theorem break_not_mem_line {m : Measurement} (label : '\n' ∉ m.label.toList) :
    '\n' ∉ m.line.toList := by
  have ms : '\n' ∉ "ms".toList := by decide
  simp only [line, padRight, padLeft, String.toList_append, List.mem_append, break_not_mem_spaces,
    break_not_mem_nat, label, ms, or_self, not_false_eq_true]

end Measurement

theorem table?_cons (m : Measurement) (ms : List Measurement) :
    table? (m :: ms) = m.row?.bind fun row => (table? ms).map (row ++ ·) := by
  rw [table?, table?, List.mapM_cons]
  cases m.row? with
  | none => rfl
  | some row => cases ms.mapM Measurement.row? <;> simp [String.join_cons]

theorem table?_eq (ms : List Measurement) :
    table? ms = if ∀ m ∈ ms, m.indent ≤ 25 then
      some (String.join ((ms.map (·.line)).map (· ++ "\n"))) else none := by
  induction ms with
  | nil => rfl
  | cons m ms ih =>
    rw [table?_cons, m.row?_eq, ih]
    by_cases here : m.indent ≤ 25
    · simp [here, String.join_cons]
    · simp [here]

/-- A text shows measurements in the given lines, in their order. If there are no line breaks in
the labels, these are the lines that the text is broken into. -/
structure Shown (ms : List Measurement) (lines : List String) (text : String) : Prop where
  shows : List.Forall₂ Measurement.Shows ms lines
  joined : text = String.join (lines.map (· ++ "\n"))
  broken : (∀ m ∈ ms, '\n' ∉ m.label.toList) →
    text.toList.splitOn '\n' = lines.map String.toList ++ [[]]

theorem shown_lines (ms : List Measurement) :
    Shown ms (ms.map (·.line)) (String.join ((ms.map (·.line)).map (· ++ "\n"))) where
  shows := List.forall₂_map_right_iff.mpr (List.forall₂_same.mpr fun m _ => m.shows_line)
  joined := rfl
  broken labels := by
    apply IR.lines_join
    rw [List.forall_mem_map]
    exact fun m hm => Measurement.break_not_mem_line (labels m hm)

/-- A list has a table, and the table shows it. -/
def Tabulated (ms : List Measurement) : Prop :=
  ∃ lines text, table? ms = some text ∧ Shown ms lines text

/-- A list that is nested at most 25 levels deep has a table that shows it, and no other list has a
table. -/
theorem tabulated_iff (ms : List Measurement) :
    (Tabulated ms ↔ ∀ m ∈ ms, m.indent ≤ 25) ∧ (table? ms = none ↔ ∃ m ∈ ms, 25 < m.indent) := by
  by_cases shallow : ∀ m ∈ ms, m.indent ≤ 25
  · have made := (table?_eq ms).trans (if_pos shallow)
    refine ⟨iff_of_true ⟨_, _, made, shown_lines ms⟩ shallow, ?_⟩
    rw [made]
    refine iff_of_false nofun ?_
    rintro ⟨m, hm, deep⟩
    exact Nat.not_lt.mpr (shallow m hm) deep
  · have refused := (table?_eq ms).trans (if_neg shallow)
    refine ⟨iff_of_false ?_ shallow, iff_of_true refused (by simpa using shallow)⟩
    rintro ⟨_, text, made, _⟩
    rw [refused] at made
    cases made

/-- At 26 levels the indentation is wider than the columns for labels. -/
theorem not_tabulated_deep : ¬ Tabulated [⟨"x", 26, 0, 0⟩] := by
  rintro ⟨_, text, made, _⟩
  cases made

end MiniJava.Timing
