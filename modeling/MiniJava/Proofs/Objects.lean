import MiniJava.Proofs.Codegen.Members
import MiniJava.Proofs.Limits.Idle

/-!
# Objects

The fields of an object lie apart from each other between its two headers, in the memory that is
asked for when the object is made, whatever classes were declared in between. So the code of a
method stays inside the object that it is called for, also if that belongs to a class below the one
that declares the method.
-/
namespace MiniJava

open IR Codegen Check ClassTable

namespace Codegen

/-- The code of a step asks first for so many bytes, and they are its result. -/
def Requests (bytes : Nat) (x : Gen Value) : Prop :=
  ∀ k, (x k).result = .ok (.temp k.temps) ∧ ∃ rest, (x k).code =
    .instr (.set k.temps (callBuiltin .calloc .bytes [(.i32, .int 1), (.i32, .int bytes)])) :: rest

theorem newObject_requests (l : ClassLayout) : Requests l.allocSize (newObject l) :=
  fun _ => ⟨rfl, _, rfl⟩

/-- A name in a body that stands for a field, where it is read or assigned to. -/
inductive StandsFor : Item Note Target → FieldRef → Prop
  | read {line : Nat} {x : Name} {ty : Ty} {r : FieldRef} :
      StandsFor (.expr (.node line (some ⟨ty, some (.var (.field r))⟩) (.name x))) r
  | assigned {x : Located Name} {r : FieldRef} : StandsFor (.target x (some (.field r))) r

/-- The pointer to a field is made of `this` and of where the field begins. -/
theorem varPointer_field {c : Env} {r : FieldRef} {f : Field} (hf : c.table.field? r = some f)
    {o : Nat} (ho : f.offset = some o) (k : Cursor) :
    varPointer c (.field r) k = ⟨.ok (.temp (k.temps + 1)), [
      .instr (.set k.temps (.address .i8 .this [.int (Layout.headerSize + o)])),
      .instr (.set (k.temps + 1) (.cast .bitcast .bytes (.temp k.temps) (.ptr f.ty.ir)))],
      { k with temps := k.temps + 2 }⟩ := by
  rw [varPointer, hf, ofOption_some, of_bind, ho, ofOption_some, of_bind]
  rfl

theorem StandsFor.denotes {s : Scope} {x : Item Note Target} {r : FieldRef} (h : StandsFor x r)
    (recorded : Typing.ItemRecorded s x) : ∃ y ty, Typing.Denotes s y (.field r) ty := by
  cases h with
  | read =>
    obtain ⟨i, note, derives⟩ := recorded
    obtain rfl := Option.some.inj note
    obtain ⟨v, ty, denotes, same⟩ := Typing.hasType_name.mp ((derives _).mpr rfl)
    cases same
    exact ⟨_, _, denotes⟩
  | assigned =>
    obtain ⟨v, ty, note, denotes, _⟩ := recorded
    obtain rfl := Option.some.inj note
    exact ⟨_, _, denotes⟩

end Codegen

/-- What a program makes of the objects of a class, which is laid out as `l`. -/
structure ObjectsFit (t : ClassTable) (layout : Layout) (p : Program .checked) (d : ClassId)
    (l : ClassLayout) : Prop where
  /-- The fields lie apart and between the headers. -/
  holds : Layout.Holds t d l.allocSize
  /-- The memory of the size that was computed is asked for wherever an object is made. -/
  requested : ∀ src, HasSource t layout p src → ∀ line note,
    .expr (.node line note (.newObject (t.nameOf d))) ∈ src.items →
      Requests l.allocSize (genExpr src.env (.node line note (.newObject (t.nameOf d))))
  /-- A name that stands for a field leads to the bytes of the field. -/
  named : ∀ r src, MethodSource t layout p r src → r.cls ∈ t.chain d →
    ∀ x ∈ src.items, ∀ q, StandsFor x q →
      ∃ f ∈ t.visibleFields d, ∃ o, t.field? q = some f ∧ f.offset = some o ∧
        ∀ k, (varPointer src.env (.field q) k).code = [
          .instr (.set k.temps (.address .i8 .this [.int (Layout.headerSize + o)])),
          .instr (.set (k.temps + 1) (.cast .bitcast .bytes (.temp k.temps) (.ptr f.ty.ir)))]
  /-- Whatever the methods touch through `this` is the header or a field, inside the object. -/
  inside : ∀ r src, MethodSource t layout p r src → r.cls ∈ t.chain d →
    ∀ n ty o, Accesses (src.function n).body ty o →
      Part t d ty o ∧ 0 ≤ o ∧ o + ty.storeSize + Layout.headerSize ≤ l.allocSize

section Prepared
variable {t u : ClassTable} {layout : Layout} (h : Layout.Prepared t u layout)
include h

theorem Layout.Prepared.laid_wellFormed : u.WellFormed :=
  h.wellFormed.of_sameOutline h.same.outline.symm

/-- The name of a class that is laid out stands for it. -/
theorem Layout.Prepared.find?_nameOf {d : ClassId} {l : ClassLayout} (hl : layout[d]? = some l) :
    u.find? (u.nameOf d) = some d := by
  obtain ⟨hlt, _⟩ := List.getElem?_eq_some_iff.mp hl
  obtain ⟨k, hk⟩ := get?_of_lt_size (h.complete.length ▸ hlt)
  exact h.laid_wellFormed.find?_eq_some_iff.mpr ⟨k, hk, by rw [nameOf, hk]; rfl⟩

end Prepared

section Accepted
variable {p : Program .bare} {c : Checked} {t u : ClassTable} {layout : Layout}
  (known : Accepted p c t) (h : Layout.Prepared t u layout)
include known h

/-- A new object is made from the layout of its class. -/
theorem Check.Accepted.requests {src : Source} (hs : HasSource u layout c.program src)
    {d : ClassId} {l : ClassLayout} (hl : layout[d]? = some l) {line : Nat} {note : Note}
    (he : .expr (.node line note (.newObject (u.nameOf d))) ∈ src.items) :
    Requests l.allocSize (genExpr src.env (.node line note (.newObject (u.nameOf d)))) := by
  obtain ⟨layouts, sc, checked⟩ := known.source_checked h hs
  have table : src.env.table = u := by
    cases hs <;> rfl
  obtain ⟨i, hi, derives⟩ := checked.recorded _ he
  obtain rfl : note = some i := hi
  obtain ⟨id, ⟨hid, _⟩, rfl⟩ := Typing.hasType_newObject.mp ((derives i).mpr rfl)
  rw [← checked.provides.serves.same.outline.find?, table, h.find?_nameOf hl] at hid
  obtain rfl := Option.some.inj hid
  rw [genExpr, genForm]
  simp only [ofOption_some, of_bind, resolvedClass, layouts, hl]
  exact newObject_requests l

/-- A field that a name stands for is one that the class of the method sees. -/
theorem Check.Accepted.names {r : MethodRef} {src : Source}
    (hs : MethodSource u layout c.program r src) {x : Item Note Target} (hx : x ∈ src.items)
    {q : FieldRef} (stands : StandsFor x q) :
    ∃ f ∈ u.visibleFields r.cls, ∃ o, u.field? q = some f ∧ f.offset = some o ∧
      ∀ k, (varPointer src.env (.field q) k).code = [
        .instr (.set k.temps (.address .i8 .this [.int (Layout.headerSize + o)])),
        .instr (.set (k.temps + 1) (.cast .bitcast .bytes (.temp k.temps) (.ptr f.ty.ir)))] := by
  cases hs with
  | @intro dcl d id m hd note hk hr hm =>
    have checked := known.method_checked h hd hk hr hm (u.nameOf id)
    obtain ⟨y, ty, denotes⟩ := stands.denotes (checked.recorded x hx)
    obtain ⟨f, hf, offset⟩ := checked.provides.serves.var denotes
    obtain ⟨o, ho⟩ := Option.isSome_iff_exists.mp offset
    exact ⟨f, h.visible denotes hf, o, hf, ho, fun k => by rw [varPointer_field hf ho]⟩

end Accepted

/-- What a class sees, the classes below it see as well. -/
theorem Codegen.Part.of_chain {t : ClassTable} (forest : t.Forest) {d a : ClassId}
    (ha : a ∈ t.chain d) {ty : IRType} {o : Int} (h : Part t a ty o) : Part t d ty o := by
  cases h with
  | header => exact .header
  | field hf hstart => exact .field (Layout.visibleFields_subset forest ha hf) hstart

/-- A part of an object lies in front of the spare header. -/
theorem Layout.Holds.part {t : ClassTable} {d : ClassId} {bytes : Nat} (h : Holds t d bytes)
    {ty : IRType} {o : Int} (part : Part t d ty o) :
    0 ≤ o ∧ o + ty.storeSize + headerSize ≤ bytes := by
  cases part with
  | header =>
    have size : IRType.storeSize (.ptr .bytes) = headerSize := rfl
    have headers := h.headers
    omega
  | field hf hstart =>
    obtain ⟨start, hstart', _, inside⟩ := h.placed _ hf
    obtain rfl := Option.some.inj (hstart.symm.trans hstart')
    rw [Ty.storeSize_ir]
    omega

theorem Check.Accepted.objectsFit {p : Program .bare} {c : Checked} {t u : ClassTable}
    {layout : Layout} (known : Accepted p c t) (h : Layout.Prepared t u layout) {d : ClassId}
    {l : ClassLayout} (hl : layout[d]? = some l) (holds : Layout.Holds u d l.allocSize) :
    ObjectsFit u layout c.program d l where
  holds := holds
  requested := fun src hs line note he => known.requests h hs hl he
  named := by
    intro r src hs hr x hx q stands
    obtain ⟨f, hf, field⟩ := known.names h hs hx stands
    exact ⟨f, Layout.visibleFields_subset h.laid_wellFormed.forest hr hf, field⟩
  inside := by
    intro r src hs hr n ty o access
    have part := (known.accesses h hs n access).of_chain h.laid_wellFormed.forest hr
    exact ⟨part, holds.part part⟩

/-- The objects of an accepted program fit, under both strategies, whatever the limit for errors
was. -/
theorem objects_fit {o : CheckOptions} {p : Program .bare} {c : Checked}
    (accepted : (check o p).result = .ok c) (s : Layout.Strategy) :
    ∃ t layout, Layout.compute s c.table = (t, .ok layout) ∧ SameDeclarations t c.table ∧
      layout.length = t.size ∧
      (∀ f ∈ (generate t layout c.program).1.functions, ∃ src n, f = src.function n ∧
        (src = .ofMain t layout c.program ∨ ∃ r, MethodSource t layout c.program r src)) ∧
      ∀ (d : ClassId) (l : ClassLayout), layout[d]? = some l → t.isMain d = false →
        ObjectsFit t layout c.program d l := by
  have sources : ∀ {t layout}, ∀ f ∈ (generate t layout c.program).1.functions,
      ∃ src n, f = src.function n ∧
        (src = .ofMain t layout c.program ∨ ∃ r, MethodSource t layout c.program r src) := by
    intro t layout f hf
    obtain ⟨src, n, hs, rfl⟩ := exists_source f hf
    exact ⟨src, n, rfl, hasSource_iff.mp hs⟩
  by_cases zero : o.maxErrors = some 0
  · -- the main class is the only one
    obtain ⟨_, strict⟩ := o
    subst zero
    rw [check_of_zero] at accepted
    obtain rfl := Except.ok.inj accepted
    have wf := unreported_wellFormed strict p
    obtain ⟨layout, computed, complete⟩ := Layout.compute_eq_ok wf (unreported_listed strict p)
      (unreported_agree strict p) s
    have same := Layout.sameDeclarations_assign wf s
    refine ⟨_, layout, computed, same, complete.length, sources, fun d l hl main => ?_⟩
    obtain ⟨hlt, _⟩ := List.getElem?_eq_some_iff.mp hl
    rw [complete.length, same.outline.size, unreported_size, Nat.lt_one_iff] at hlt
    rw [hlt, same.outline.isMain, wf.isMain_iff.mpr rfl] at main
    cases main
  · obtain ⟨t, known⟩ := exists_accepted zero accepted
    obtain ⟨u, layout, computed, prepared⟩ := known.prepared s
    refine ⟨u, layout, computed, prepared.same.trans known.same.symm, prepared.complete.length,
      sources, fun d l hl main => known.objectsFit prepared hl ?_⟩
    exact Layout.holds_of_compute (known.wellFormed.of_sameOutline known.same.outline.symm)
      computed hl main

theorem objects_fit_branches :
    ∃ c, (check {} branches).result = .ok c ∧
      ∃ t layout, Layout.compute .sharedRootCounter c.table = (t, .ok layout) ∧
        SameDeclarations t c.table ∧ layout.length = t.size ∧
        (∀ f ∈ (generate t layout c.program).1.functions, ∃ src n, f = src.function n ∧
          (src = .ofMain t layout c.program ∨ ∃ r, MethodSource t layout c.program r src)) ∧
        ∀ (d : ClassId) (l : ClassLayout), layout[d]? = some l → t.isMain d = false →
          ObjectsFit t layout c.program d l := by
  obtain ⟨c, accepted⟩ := exists_of_isOk (x := (check {} branches).result) (by decide +kernel)
  exact ⟨c, accepted, objects_fit accepted .sharedRootCounter⟩

end MiniJava
