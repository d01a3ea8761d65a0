import MiniJava.Layout.Object
import MiniJava.Proofs.Class.Map

/-!
# What layouts do not see

A layout reads names, parents, types, offsets and slots, and it writes offsets and slots. A change of
every class that keeps these may be made before or after it.
-/
namespace MiniJava

/-- A change of classes, made of a change of fields and one of methods, that no layout sees. -/
structure Class.Unseen (F : Class → Class) (φ : Field → Field) (μ : Method → Method) : Prop where
  unnoticed : Class.Unnoticed F
  fields : ∀ k, (F k).fields = k.fields.map φ
  methods : ∀ k, (F k).methods = k.methods.map μ
  inherited : ∀ k, (F k).inherited = k.inherited
  members : ∀ k fields methods, F { k with fields, methods } =
    { F k with fields := fields.map φ, methods := methods.map μ }
  fieldName : ∀ f, (φ f).name = f.name
  fieldTy : ∀ f, (φ f).ty = f.ty
  offset : ∀ f, (φ f).offset = f.offset
  place : ∀ f offset, φ { f with offset } = { φ f with offset }
  methodName : ∀ m, (μ m).name = m.name
  signature : ∀ m, (μ m).signature = m.signature
  slot : ∀ m, (μ m).slotOffset = m.slotOffset
  number : ∀ m slotOffset, μ { m with slotOffset } = { μ m with slotOffset }

namespace Class.Unseen

open ClassTable Layout

variable {F : Class → Class} {φ : Field → Field} {μ : Method → Method}
variable (h : Class.Unseen F φ μ) (t : ClassTable)
include h

theorem method?_map (r : MethodRef) : (t.map F).method? r = (t.method? r).map μ := by
  rw [method?, methods_map F t r.cls h.methods, List.getElem?_map, method?]

theorem visibleFields_map (c : ClassId) :
    (t.map F).visibleFields c = (t.visibleFields c).map φ := by
  rw [visibleFields, chain_map h.unnoticed, funext fun a => fields_map F t a h.fields, visibleFields,
    List.map_flatMap]

theorem placeFields_map (offset : Nat) (fs : List Field) :
    placeFields offset (fs.map φ) = Prod.map (List.map φ) id (placeFields offset fs) := by
  induction fs generalizing offset with
  | nil => rfl
  | cons f fs ih =>
    have here := h.place f (some offset)
    simp only [List.map_cons, placeFields, ih, here, h.fieldTy, Prod.map, id]

theorem overridden?_map (parent : Option ClassId) (x : Name) :
    overridden? (t.map F) parent x = overridden? t parent x := by
  cases parent with
  | none => rfl
  | some p =>
    change ((t.map F).findMethod? p x >>= fun r => (t.map F).method? r >>= Method.slotOffset) =
      (t.findMethod? p x >>= fun r => t.method? r >>= Method.slotOffset)
    rw [findMethod?_map h.unnoticed]
    cases t.findMethod? p x with
    | none => rfl
    | some r =>
      change (t.map F).method? r >>= Method.slotOffset = t.method? r >>= Method.slotOffset
      rw [h.method?_map]
      cases t.method? r with
      | none => rfl
      | some m => exact h.slot m

theorem placeMethods_map (parent : Option ClassId) (slot : Nat) (ms : List Method) :
    placeMethods (t.map F) parent slot (ms.map μ) =
      Prod.map (List.map μ) id (placeMethods t parent slot ms) := by
  induction ms generalizing slot with
  | nil => rfl
  | cons m ms ih =>
    rw [List.map_cons, placeMethods, placeMethods, h.overridden?_map, h.methodName]
    cases overridden? t parent m.name with
    | some s =>
      have here := h.number m (some s)
      simp only [ih, here, h.methodName, List.map_cons, Prod.map, id]
    | none =>
      have here := h.number m (some slot)
      simp only [ih, here, h.methodName, List.map_cons, Prod.map, id]

theorem assignClass_map (s : Strategy) (st : State) (c : ClassId) :
    assignClass s ⟨st.table.map F, st.counters⟩ c =
      ⟨(assignClass s st c).table.map F, (assignClass s st c).counters⟩ := by
  obtain ⟨t, counters⟩ := st
  have source : source s (t.map F) c = source s t c := by
    cases s <;> simp only [Layout.source, root_map h.unnoticed, parent?_map h.unnoticed]
  have keeper : keeper s (t.map F) c = keeper s t c := by
    cases s <;> simp only [Layout.keeper, root_map h.unnoticed]
  rw [assignClass, assignClass]
  dsimp only
  rw [isMain_map h.unnoticed, source, keeper, fields_map F t c h.fields, methods_map F t c h.methods,
    parent?_map h.unnoticed, h.placeFields_map, h.placeMethods_map]
  split
  · rfl
  · exact congrArg (State.mk · _) (map_modify F t c fun k _ => h.members k _ _).symm

theorem assign_map (s : Strategy) : assign s (t.map F) = (assign s t).map F := by
  have run : ∀ (cs : List ClassId) (st : State),
      (cs.foldl (assignClass s) ⟨st.table.map F, st.counters⟩).table =
        (cs.foldl (assignClass s) st).table.map F := by
    intro cs
    induction cs with
    | nil => exact fun _ => rfl
    | cons c cs ih =>
      intro st
      rw [List.foldl_cons, h.assignClass_map]
      exact ih _
  rw [assign, ids_map, size_map]
  exact run t.ids ⟨t, Array.replicate t.size {}⟩

theorem entry_map (r : MethodRef) : VTable.entry (t.map F) r = VTable.entry t r := by
  rw [VTable.entry, h.method?_map, nameOf_map h.unnoticed, VTable.entry]
  cases t.method? r with
  | none => rfl
  | some m => simp only [Option.map_some, Method.slot?, h.slot, h.methodName, h.signature]

theorem entriesOf_map (rs : List MethodRef) :
    VTable.entriesOf (t.map F) rs = VTable.entriesOf t rs := by
  induction rs with
  | nil => rfl
  | cons r rs ih => rw [VTable.entriesOf, h.entry_map, ih, VTable.entriesOf]

theorem refs_map (c : ClassId) : VTable.refs (t.map F) c = VTable.refs t c := by
  have inherited : ((t.map F).get? c).map (·.inherited) = (t.get? c).map (·.inherited) := by
    rw [get?_map, Option.map_map]
    exact Option.map_congr fun k _ => h.inherited k
  rw [VTable.refs, inherited, methods_map F t c h.methods, List.length_map, VTable.refs]

theorem build_map (c : ClassId) : VTable.build (t.map F) c = VTable.build t c := by
  rw [VTable.build, isMain_map h.unnoticed, nameOf_map h.unnoticed, h.refs_map, h.entriesOf_map,
    VTable.build]

theorem fieldSizes_map (fs : List Field) : fieldSizes (fs.map φ) = fieldSizes fs := by
  induction fs with
  | nil => rfl
  | cons f fs ih => rw [List.map_cons, fieldSizes, h.fieldTy, ih, fieldSizes]

theorem regionEnd_map (stop : Nat) (fs : List Field) :
    regionEnd stop (fs.map φ) = regionEnd stop fs := by
  induction fs generalizing stop with
  | nil => rfl
  | cons f fs ih =>
    rw [List.map_cons, regionEnd, regionEnd, h.offset, h.fieldName, h.fieldTy]
    cases f.offset with
    | none => rfl
    | some offset => exact ih _

theorem ofClass_map (c : ClassId) : ofClass (t.map F) c = ofClass t c := by
  rw [ofClass, h.visibleFields_map, h.fieldSizes_map, h.regionEnd_map, h.build_map,
    nameOf_map h.unnoticed, ofClass]

theorem ofClasses_map (cs : List ClassId) : ofClasses (t.map F) cs = ofClasses t cs := by
  induction cs with
  | nil => rfl
  | cons c cs ih => rw [ofClasses, h.ofClass_map, ih, ofClasses]

/-- The layout is the same one, and the table is laid out as before. -/
theorem compute_map (s : Strategy) :
    compute s (t.map F) = Prod.map (ClassTable.map F) id (compute s t) := by
  rw [compute, h.assign_map, h.ofClasses_map, ids_map]
  rfl

theorem describe_map (l : Layout) : l.describe (t.map F) = l.describe t := by
  have line : ∀ owner f, fieldLine owner (φ f) = fieldLine owner f := by
    intro owner f
    rw [fieldLine, h.fieldName, h.fieldTy, h.offset, fieldLine]
  have lines : ∀ a, ((t.map F).fields a).map (fieldLine ((t.map F).nameOf a)) =
      (t.fields a).map (fieldLine (t.nameOf a)) := by
    intro a
    rw [fields_map F t a h.fields, nameOf_map h.unnoticed, List.map_map]
    exact List.map_congr_left fun f _ => line _ f
  have classes : describeClass (t.map F) = describeClass t := by
    funext k
    rw [describeClass, isMain_map h.unnoticed, chain_map h.unnoticed, funext lines, describeClass]
  rw [describe, classes, describe]

end Class.Unseen

end MiniJava
