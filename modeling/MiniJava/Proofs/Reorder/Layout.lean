import MiniJava.Proofs.Layout.Starts
import MiniJava.Proofs.Reorder.Table

/-!
# Layouts under other class numbers

With every class behind its parent, where a class starts and what it overrides is read from its
ancestors. So under other numbers each class is laid out as it was. That the parent of a class has a
smaller number is used in both tables, but which other classes stand between them does not matter.
-/
namespace MiniJava

section Moved
variable (σ : ClassId → ClassId)

def VTable.Entry.moved (e : VTable.Entry) : VTable.Entry := { e with ref := e.ref.moved σ }

def VTable.moved (v : VTable) : VTable :=
  { v with slots := v.slots.map (Option.map (VTable.Entry.moved σ)) }

/-- The layout of a class with other numbers for the class and its methods. -/
def ClassLayout.moved (l : ClassLayout) : ClassLayout :=
  { l with
    cls := σ l.cls
    vtable := l.vtable.moved σ }

/-- The numbers do not show in the text of a table. -/
theorem VTable.text_moved (v : VTable) : (v.moved σ).text = v.text := by
  have slot : slotText ∘ Option.map (VTable.Entry.moved σ) = slotText := by
    funext e
    cases e <;> rfl
  have empty : (v.moved σ).isEmpty = v.isEmpty := List.isEmpty_map
  have size : (v.moved σ).size = v.size := List.length_map _
  have type : (v.moved σ).type = v.type := by rw [VTable.type, size, VTable.type]
  rw [text, text, empty, type, moved, List.map_map, slot]
  rfl

end Moved

open ClassTable

variable {σ : Equiv.Perm ClassId} {t u : ClassTable}

namespace Layout

section Starts
variable (h : SameLookups σ t u) (forest : t.Forest) (forest' : u.Forest)
include h forest forest'

theorem introduced_moved (c : ClassId) (n : Name) : introduced u (σ c) n = introduced t c n := by
  rw [introduced, h.ancestors forest forest', List.all_map, introduced]
  exact congrArg (List.all _) (funext fun a => congrArg Option.isNone (h.ownMethod? a n))

theorem length_introductions_moved (cs : List ClassId) :
    ((cs.map σ).flatMap (introductions u)).length = (cs.flatMap (introductions t)).length := by
  have own : ∀ c, (introductions u (σ c)).length = (introductions t c).length := by
    intro c
    have names : ((fun m : Method => introduced u (σ c) m.name) ∘ Method.moved σ) =
        fun m => introduced t c m.name :=
      funext fun m => introduced_moved h forest forest' c m.name
    rw [introductions, h.methods, List.filter_map, List.length_map, names, introductions]
  induction cs with
  | nil => rfl
  | cons c cs ih =>
    rw [List.map_cons, List.flatMap_cons, List.flatMap_cons, List.length_append,
      List.length_append, ih, own]

theorem start_moved (c : ClassId) : start .parentPrefix u (σ c) = start .parentPrefix t c := by
  have fields : ∀ cs : List ClassId, (cs.map σ).flatMap u.fields = cs.flatMap t.fields := by
    intro cs
    rw [List.flatMap_map]
    exact congrArg (List.flatMap · cs) (funext h.fields)
  rw [start, earlier, h.ancestors forest forest', ← List.map_reverse, behind, fields,
    length_introductions_moved h forest forest', start, earlier, behind]

end Starts

variable (σ) in
theorem placeMethods_moved {parent parent' : Option ClassId}
    (slots : ∀ n, overridden? u parent' n = overridden? t parent n) (ms : List Method) :
    ∀ slot, (placeMethods u parent' slot (ms.map (Method.moved σ))).1 =
      (placeMethods t parent slot ms).1.map (Method.moved σ) := by
  induction ms with
  | nil => exact fun slot => rfl
  | cons m ms ih =>
    intro slot
    have name : (m.moved σ).name = m.name := rfl
    rw [List.map_cons, placeMethods, placeMethods, name, slots]
    cases overridden? t parent m.name with
    | some s => exact congrArg (_ :: ·) (ih slot)
    | none => exact congrArg (_ :: ·) (ih (slot + Method.slotSize))

/-- The slot that a method takes over is that of the same method. -/
theorem overridden?_moved {p : ClassId} (n : Name)
    (found : u.findMethod? (σ p) n = (t.findMethod? p n).map (MethodRef.moved σ))
    (above : ∀ a ∈ t.chain p, u.get? (σ a) = (t.get? a).map (Class.moved σ)) :
    overridden? u (some (σ p)) n = overridden? t (some p) n := by
  change (u.findMethod? (σ p) n).bind (fun r => (u.method? r).bind (·.slotOffset)) =
    (t.findMethod? p n).bind fun r => (t.method? r).bind (·.slotOffset)
  rw [found]
  cases hr : t.findMethod? p n with
  | none => rfl
  | some r =>
    have methods : u.methods (σ r.cls) = (t.methods r.cls).map (Method.moved σ) := by
      rw [methods, above r.cls (findMethod?_eq_some hr).1, methods]
      cases t.get? r.cls <;> rfl
    rw [Option.map_some, Option.bind_some, Option.bind_some, method?, MethodRef.moved, methods,
      List.getElem?_map, method?]
    cases (t.methods r.cls)[r.index]? <;> rfl

/-- Every class gets the offsets and the slots that it had under the other number. -/
theorem renumbered_assign (h : Renumbered σ t u) (wf : t.WellFormed) (wf' : u.WellFormed) :
    Renumbered σ (assign .parentPrefix t) (assign .parentPrefix u) := by
  have forest : t.Forest := wf.forest
  have forest' : u.Forest := wf'.forest
  have same := (sameDeclarations_assign wf .parentPrefix).outline
  have same' := (sameDeclarations_assign wf' .parentPrefix).outline
  refine ⟨fun c => ?_⟩
  induction c using Nat.strongRecOn with
  | ind c ih =>
    rw [get?_assign wf', h.get?, get?_assign wf]
    cases hk : t.get? c with
    | none => rfl
    | some k =>
      refine congrArg some ?_
      have slots : ∀ n, overridden? (assign .parentPrefix u) (k.parent.map σ) n =
          overridden? (assign .parentPrefix t) k.parent n := by
        intro n
        cases hp : k.parent with
        | none => rfl
        | some p =>
          refine overridden?_moved n ?_ fun a ha => ih a ?_
          · rw [same'.findMethod?, h.lookups.findMethod? forest forest', same.findMethod?]
          · rw [same.chain] at ha
            have parent : t.parent? c = some p := by rw [parent?, hk, Option.bind_some, hp]
            exact Nat.lt_of_le_of_lt (forest.le_of_mem_chain ha) (forest parent)
      have start := start_moved h.lookups forest forest' c
      have kind : (k.moved σ).isMain = k.isMain := rfl
      cases main : k.isMain with
      | true => rw [placed_of_main main, placed_of_main (kind.trans main)]
      | false =>
        have methods := placeMethods_moved σ slots k.methods
          (Layout.start .parentPrefix t c).slot
        rw [placed_of_not_main main, placed_of_not_main (kind.trans main), start]
        simp only [Class.moved, methods]

end Layout

namespace VTable

section Tables
variable (h : Renumbered σ t u)
include h

theorem entry_moved (r : MethodRef) :
    entry u (r.moved σ) = (entry t r).map (Prod.map id (Entry.moved σ)) := by
  rw [entry, entry, h.lookups.method?]
  cases t.method? r with
  | none => rfl
  | some m =>
    have slot : (m.moved σ).slot? = m.slot? := rfl
    rw [Option.map_some]
    dsimp only
    rw [slot]
    cases m.slot? with
    | none => rfl
    | some s =>
      rw [MethodRef.moved, h.lookups.nameOf]
      rfl

theorem entriesOf_moved (rs : List MethodRef) :
    entriesOf u (rs.map (MethodRef.moved σ)) =
      (entriesOf t rs).map (List.map (Prod.map id (Entry.moved σ))) := by
  induction rs with
  | nil => rfl
  | cons r rs ih =>
    rw [List.map_cons, entriesOf, entry_moved h, ih, entriesOf]
    cases entry t r with
    | error e => rfl
    | ok e => cases entriesOf t rs <;> rfl

theorem refs_moved (c : ClassId) : refs u (σ c) = (refs t c).map (MethodRef.moved σ) := by
  have inherited : ((u.get? (σ c)).map (·.inherited)).getD [] =
      (((t.get? c).map (·.inherited)).getD []).map (Inherited.moved σ) := by
    rw [h.get?]
    cases t.get? c <;> rfl
  rw [refs, inherited, h.lookups.methods, List.length_map, refs, List.map_append, List.map_map,
    List.map_map, List.map_map]
  rfl

end Tables

theorem fill_moved (es : List (Nat × Entry)) :
    fill (es.map (Prod.map id (Entry.moved σ))) = (fill es).map (Option.map (Entry.moved σ)) := by
  rw [fill, List.foldl_map, fill, List.map_map]
  refine List.map_congr_left fun i _ => ?_
  rw [List.filter_map, List.getLast?_map, Option.map_map, Function.comp_apply, Option.map_map]
  rfl

theorem build_moved (h : Renumbered σ t u) (c : ClassId) :
    build u (σ c) = (build t c).map (VTable.moved σ) := by
  rw [build, build, h.lookups.isMain, h.lookups.nameOf]
  split
  · rfl
  · rw [refs_moved h, entriesOf_moved h]
    cases entriesOf t (refs t c) with
    | error e => rfl
    | ok es => exact congrArg (fun slots => Except.ok (VTable.mk _ slots)) (fill_moved es)

end VTable

namespace Layout

/-- A class is laid out as it was under the other number. -/
theorem ofClass_moved (h : Renumbered σ t u) (forest : t.Forest) (forest' : u.Forest)
    (c : ClassId) : ofClass u (σ c) = (ofClass t c).map (ClassLayout.moved σ) := by
  rw [ofClass, ofClass, h.lookups.visibleFields forest forest', VTable.build_moved h,
    h.lookups.nameOf]
  cases regionEnd 0 (t.visibleFields c) with
  | error e => rfl
  | ok stop => cases VTable.build t c <;> rfl

end Layout

end MiniJava
