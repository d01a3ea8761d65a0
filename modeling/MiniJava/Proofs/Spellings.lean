import MiniJava.Proofs.Document.Shaped
import MiniJava.Proofs.Document.Respelled
import MiniJava.Proofs.Json.Tokens

/-!
# Spellings of a program

However an accepted document is respelled, with blanks between its tokens as one likes, it is
accepted as the same program as long as it keeps to the levels that may be open; and no document is
accepted that has a mistake anywhere.
-/

namespace MiniJava.Document
open Json

theorem read?_of_spells {text : String} {v : Json} (h : Spells v text.toList) :
    read? text = (Shape.record .program).read? depth v := by
  rw [read?, parse?_iff.mpr h, read?_program]
  rfl

/-- Every spelling of an accepted document describes the same program as long as it keeps to the
levels, and no document with a mistake describes any. -/
theorem spellings_load_alike {text : String} {p : Program .bare} (h : read? text = some p) :
    ∃ v, Spells v text.toList ∧
      (∀ w text', Respelled (.record .program) v w → Spells w text'.toList →
        (read? text' = some p ↔ (Shape.record .program).levels w ≤ depth)) ∧
      ∀ w u text', At Spoils (.record .program) w u → Spells u text'.toList →
        read? text' = none := by
  obtain ⟨v, parsed, -⟩ := Option.bind_eq_some_iff.mp h
  have spelled : Spells v text.toList := parse?_iff.mp parsed
  have read : (Shape.record .program).read? depth v = some p := read?_of_spells spelled ▸ h
  refine ⟨v, spelled, fun w text' respelled hw => ?_, fun w u text' spoiled hu => ?_⟩
  · rw [read?_of_spells hw]
    exact read?_respelled respelled read depth
  · rw [read?_of_spells hu]
    exact unread_at spoiled depth

/-- A program with one variable, all in arrays. -/
def inArrays (var : List Json) : Json :=
  .arr [.arr [.int 7, .str "M", .str "a", .arr [.arr var]]]

theorem at_variable {change : Shape → Json → Json → Prop} {var var' : List Json}
    (h : At change (.record .var) (.arr var) (.arr var')) :
    At change (.record .program) (inArrays var) (inArrays var') := by
  have vars : At change (.list .var) (.arr ([] ++ .arr var :: [])) (.arr ([] ++ .arr var' :: [])) :=
    .item h
  have main : At change (.record .main)
      (.arr ([.int 7, .str "M", .str "a"] ++ .arr [.arr var] :: []))
      (.arr ([.int 7, .str "M", .str "a"] ++ .arr [.arr var'] :: [])) := .slot rfl vars
  have program : At change (.record .program) (.arr ([] ++ .arr _ :: []))
      (.arr ([] ++ .arr _ :: [])) := .slot rfl main
  exact program

set_option maxRecDepth 2000 in
theorem spellings_load_alike_variable :
    read? "[[7,\"M\",\"a\",[[3,\"Int\",\"x\"]]]]" =
      some ⟨⟨7, "M", "a", [⟨3, .int, "x"⟩], []⟩, []⟩ ∧
    read? "[\x7b \"name\": \"M\", \"skip\": [null], \"line\": 7, \"param_name\": \"a\",
        \"vars\": [[3, \x7b\"Int\":null\x7d, \"x\"]], \"statements\": [] \x7d]" =
      some ⟨⟨7, "M", "a", [⟨3, .int, "x"⟩], []⟩, []⟩ ∧
    read? "[[7,\"M\",\"a\",[[3,\"Int\",\"x\",4]]]]" = none := by
  have original : read? "[[7,\"M\",\"a\",[[3,\"Int\",\"x\"]]]]" =
      some ⟨⟨7, "M", "a", [⟨3, .int, "x"⟩], []⟩, []⟩ := by rfl
  obtain ⟨v, spelled, alike, refused⟩ := spellings_load_alike original
  have value : v = inArrays [.int 3, .str "Int", .str "x"] :=
    (Option.some.inj (parse?_iff.mpr spelled)).symm
  subst value
  have ty : At Rewrites (.record .var) (.arr ([.int 3] ++ .str "Int" :: [.str "x"]))
      (.arr ([.int 3] ++ .obj [("Int", .null)] :: [.str "x"])) := .slot rfl (.here (.plain rfl))
  have main : Respelled (.record .main)
      (.arr [.int 7, .str "M", .str "a", .arr [.arr [.int 3, .obj [("Int", .null)], .str "x"]]])
      (.obj [("name", .str "M"), ("skip", .arr [.null]), ("line", .int 7),
        ("param_name", .str "a"),
        ("vars", .arr [.arr [.int 3, .obj [("Int", .null)], .str "x"]]),
        ("statements", .arr [])]) :=
    .trans _ _ _ (respelled_trailing rfl rfl) (.symm _ _ (respelled_arr rfl))
  have program : ∀ v w, At Rewrites (.record .main) v w →
      At Rewrites (.record .program) (.arr ([] ++ v :: [])) (.arr ([] ++ w :: [])) :=
    fun v w h => .slot rfl h
  have respelled := Relation.EqvGen.trans _ _ _ (.rel _ _ (at_variable ty)) (main.inside program)
  have longer : At Spoils (.record .var) (.arr [.int 3, .str "Int", .str "x"])
      (.arr ([.int 3, .str "Int", .str "x"] ++ [.int 4])) := .here (.slotBeyond (by decide))
  refine ⟨original, (alike _ _ respelled ?_).mpr ?_, refused _ _ _ (at_variable longer) ?_⟩
  · exact parse?_iff.mp rfl
  · decide
  · exact parse?_iff.mp rfl

end MiniJava.Document
