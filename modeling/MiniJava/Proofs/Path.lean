import Mathlib.Data.List.TakeWhile
import MiniJava.Path

/-!
# The last name of a path

A path that does not end in a separator is a folder and a name. Putting an extension on the path
changes the name and leaves the folder, so the new path leads to a sibling of the old one, to the
same file only if the extension was there before.
-/
namespace MiniJava.Path

section Behind
variable {c : Char} {before behind text : List Char}

theorem bne_of_not_mem (h : c ∉ text) : ∀ d ∈ text.reverse, (d != c) = true := by
  intro d hd
  rw [bne_iff_ne]
  rintro rfl
  exact h (List.mem_reverse.mp hd)

theorem exists_behind (h : c ∈ text) :
    ∃ before behind, text = before ++ c :: behind ∧ c ∉ behind := by
  obtain ⟨behind, before, reversed, new⟩ := List.eq_append_cons_of_mem (List.mem_reverse.mpr h)
  refine ⟨before.reverse, behind.reverse, ?_, fun h' => new (List.mem_reverse.mp h')⟩
  rw [← List.reverse_reverse text, reversed]
  simp

theorem takeWhile_behind (h : c ∉ behind) :
    (before ++ c :: behind).reverse.takeWhile (· != c) = behind.reverse := by
  have text : (before ++ c :: behind).reverse = behind.reverse ++ c :: before.reverse := by simp
  rw [text, List.takeWhile_append_of_pos (bne_of_not_mem h), List.takeWhile_cons_of_neg (by simp),
    List.append_nil]

end Behind

/-- A path is a folder, with the separator behind it, and a name. -/
structure Ends (path : String) (folder name : List Char) : Prop where
  text : path.toList = folder ++ name
  slash : '/' ∉ name
  some : name ≠ []
  front : folder = [] ∨ ∃ before, folder = before ++ ['/']

namespace Ends
variable {path other : String} {folder folder' name name' : List Char}

theorem rename (h : Ends path folder name) (slash : '/' ∉ name') (some : name' ≠ []) :
    Ends (String.ofList (folder ++ name')) folder name' :=
  ⟨String.toList_ofList, slash, some, h.front⟩

theorem last_eq (h : Ends path folder name) :
    (path.toList.reverse.takeWhile (· != '/')).reverse = name := by
  rw [h.text]
  obtain rfl | ⟨before, rfl⟩ := h.front
  · rw [List.nil_append, List.takeWhile_eq_self_iff.mpr (bne_of_not_mem h.slash),
      List.reverse_reverse]
  · rw [List.append_assoc, List.singleton_append, takeWhile_behind h.slash, List.reverse_reverse]

theorem unique (h : Ends path folder name) (h' : Ends path folder' name') :
    folder = folder' ∧ name = name' := by
  obtain rfl : name = name' := h.last_eq.symm.trans h'.last_eq
  exact ⟨List.append_cancel_right (h.text.symm.trans h'.text), rfl⟩

end Ends

end MiniJava.Path
