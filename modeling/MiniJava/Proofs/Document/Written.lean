import MiniJava.Document.Writer
import MiniJava.Identity
import MiniJava.Proofs.Document.Variants

/-!
# Encoded programs are read back

The reader finds a program in its encoding as soon as it may open as many levels as the encoding has,
and it finds in any document a program whose encoding it accepts at the same depth. Both follow from
what the reader does with one encoded node whose parts are read back.
-/

namespace MiniJava

namespace Json

mutual

/-- How many brackets are open at once. -/
def levels : Json → Nat
  | .arr items => 1 + itemLevels items
  | .obj members => 1 + memberLevels members
  | .null | .bool _ | .int _ | .real _ | .str _ => 0

def itemLevels : List Json → Nat
  | [] => 0
  | v :: vs => max v.levels (itemLevels vs)

def memberLevels : List (Option String × Json) → Nat
  | [] => 0
  | (_, v) :: ms => max v.levels (memberLevels ms)

end

end Json

section Lines
variable {ν τ : Type} {N : Notes}

def Expr.lines (e : Expr ν) : List Nat := e.all.map (·.line)

mutual

def Stmt.lines : Stmt ν τ → List Nat
  | .block line body => line :: bodyLines body
  | .assign line _ _ e => line :: e.lines
  | .arrayAssign line _ _ i e => line :: (i.lines ++ e.lines)
  | .ifElse line c s t => line :: (c.lines ++ s.lines ++ t.lines)
  | .while line c s => line :: (c.lines ++ s.lines)
  | .print line e => line :: e.lines

def bodyLines : List (Stmt ν τ) → List Nat
  | [] => []
  | s :: ss => s.lines ++ bodyLines ss

end

def MethodDecl.lines (m : MethodDecl N) : List Nat :=
  m.line :: (m.params ++ m.vars).map (·.line) ++ bodyLines m.body ++ m.result.lines

def ClassDecl.lines (c : ClassDecl N) : List Nat :=
  c.line :: c.fields.map (·.line) ++ c.methods.flatMap (·.lines)

def MainClass.lines (c : MainClass N) : List Nat :=
  c.line :: c.vars.map (·.line) ++ bodyLines c.body

def Program.lines (p : Program N) : List Nat := p.main.lines ++ p.classes.flatMap (·.lines)

end Lines

namespace Document
open Json

/-- Lines that a document can hold. -/
def LinesFit (lines : List Nat) : Prop := ∀ line ∈ lines, line < UInt64.size

theorem nat64?_ofNat {n : Nat} (h : n < UInt64.size) : nat64? (ofNat n) = some n := by
  have below : n < 18446744073709551616 := h
  simp only [nat64?, natBelow?, ofNat, Bool.and_eq_true, decide_eq_true_eq, Int.toNat_natCast]
  exact if_pos ⟨by omega, by omega⟩

theorem lt_of_nat64? {v : Json} {n : Nat} (h : nat64? v = some n) : n < UInt64.size := by
  unfold nat64? natBelow? at h
  split at h
  · split at h
    · next bounds =>
      simp only [Bool.and_eq_true, decide_eq_true_eq] at bounds
      obtain rfl := Option.some.inj h
      omega
    · simp at h
  · simp at h

theorem lt_of_line? {slot : Option Json} {n : Nat} (h : line? slot = some n) :
    n < UInt64.size := by
  cases slot with
  | none => obtain rfl := Option.some.inj h; decide
  | some v => exact lt_of_nat64? h

theorem int32?_toInt (n : Int32) : int32? (.int n.toInt) = some n := by
  have low : -2147483648 ≤ n.toInt := n.le_toInt
  have high : n.toInt < 2147483648 := n.toInt_lt
  have bounds : (decide (-2147483648 ≤ n.toInt) && decide (n.toInt ≤ 2147483647)) = true := by
    simp only [Bool.and_eq_true, decide_eq_true_eq]
    omega
  rw [int32?, if_pos bounds, Int32.ofInt_toInt]

theorem record?_node (line : Nat) (kind : Json) :
    record? ["line", "kind"] (node line kind) = some [some (ofNat line), some kind] := by
  simp [record?, node, key, List.lookup_cons]

theorem expr?_node {n line : Nat} {f : ExprForm Unit} (hline : line < UInt64.size)
    (hf : form? n (ofForm f) = some f) :
    expr? (n + 1) (ofExpr (.node line () f)) = some (.node line () f) := by
  rw [ofExpr, expr?, record?_node]
  simp [line?, nat64?_ofNat hline, hf]

/-- The forms without content are written as strings. -/
theorem form?_plain (tag : String) {f : ExprForm Unit} (h : plainForm? tag = some f) (n : Nat) :
    form? n (ofForm f) = some f := by
  unfold plainForm? at h
  split at h <;> cases h <;> cases n <;> rfl

theorem form?_int (n : Nat) (v : Int32) : form? (n + 1) (ofForm (.int v)) = some (.int v) := by
  change (int32? (.int v.toInt)).map ExprForm.int = _
  rw [int32?_toInt]
  rfl

theorem form?_name (n : Nat) (x : Name) : form? (n + 1) (ofForm (.name x)) = some (.name x) := rfl

theorem form?_newObject (n : Nat) (c : Name) :
    form? (n + 1) (ofForm (.newObject c)) = some (.newObject c) := rfl

/-- Operators whose operand is read back are read back. -/
theorem form?_of_unary {tag : String} {make : Expr Unit → ExprForm Unit}
    (h : unary? tag = some make) {n : Nat} {e : Expr Unit} (he : expr? n (ofExpr e) = some e) :
    form? (n + 1) (ofForm (make e)) = some (make e) := by
  have written : ofForm (make e) = .obj [(some tag, ofExpr e)] := by
    unfold unary? at h
    split at h <;> first | (obtain rfl := Option.some.inj h; rfl) | simp at h
  rw [written, form?_unary h, he]
  rfl

theorem form?_of_binary {tag : String} {make : Expr Unit → Expr Unit → ExprForm Unit}
    (h : binary? tag = some make) {n : Nat} {a b : Expr Unit} (ha : expr? n (ofExpr a) = some a)
    (hb : expr? n (ofExpr b) = some b) :
    form? (n + 2) (ofForm (make a b)) = some (make a b) := by
  have written : ofForm (make a b) = .obj [(some tag, .arr [ofExpr a, ofExpr b])] := by
    unfold binary? at h
    split at h <;> first | (obtain rfl := Option.some.inj h; rfl) | simp at h
  rw [written, form?_binary h, ha, hb]
  rfl

theorem form?_of_send {n : Nat} {r : Expr Unit} {args : List (Expr Unit)} (m : Name)
    (hr : expr? (n + 1) (ofExpr r) = some r) (hargs : (ofArgs args).mapM (expr? n) = some args) :
    form? (n + 3) (ofForm (.send r m args)) = some (.send r m args) := by
  refine (form?_send n (ofExpr r) m (ofArgs args)).trans ?_
  rw [hr, hargs]
  rfl

section
variable {n line : Nat} (hline : line < UInt64.size)
include hline

theorem stmt?_node (tag : String) (content : Json) :
    stmt? (n + 1) (node line (variant tag content)) = statement? n line tag content := by
  rw [stmt?_succ, record?_node]
  change (nat64? (ofNat line)).bind _ = _
  rw [nat64?_ofNat hline]
  rfl

theorem stmt?_block {body : List (Stmt Unit Unit)}
    (hbody : (ofBody body).mapM (stmt? n) = some body) :
    stmt? (n + 3) (ofStmt (.block line body)) = some (.block line body) := by
  refine (stmt?_node hline "Block" (.arr (ofBody body))).trans ?_
  change ((ofBody body).mapM (stmt? n)).bind _ = _
  rw [hbody]
  rfl

theorem stmt?_assign (x : Name) {e : Expr Unit} (he : expr? n (ofExpr e) = some e) :
    stmt? (n + 3) (ofStmt (.assign line x () e)) = some (.assign line x () e) := by
  refine (stmt?_node hline "Assign" (.arr [ofText x, ofExpr e])).trans ?_
  change (expr? n (ofExpr e)).bind _ = _
  rw [he]
  rfl

theorem stmt?_arrayAssign (x : Name) {i e : Expr Unit} (hi : expr? n (ofExpr i) = some i)
    (he : expr? n (ofExpr e) = some e) :
    stmt? (n + 3) (ofStmt (.arrayAssign line x () i e)) = some (.arrayAssign line x () i e) := by
  refine (stmt?_node hline "ArrayAssign" (.arr [ofText x, ofExpr i, ofExpr e])).trans ?_
  change (expr? n (ofExpr i)).bind (fun i => (expr? n (ofExpr e)).bind _) = _
  rw [hi, he]
  rfl

theorem stmt?_ifElse {c : Expr Unit} {s t : Stmt Unit Unit} (hc : expr? n (ofExpr c) = some c)
    (hs : stmt? n (ofStmt s) = some s) (ht : stmt? n (ofStmt t) = some t) :
    stmt? (n + 3) (ofStmt (.ifElse line c s t)) = some (.ifElse line c s t) := by
  refine (stmt?_node hline "If" (.arr [ofExpr c, ofStmt s, ofStmt t])).trans ?_
  change (expr? n (ofExpr c)).bind (fun c => (stmt? n (ofStmt s)).bind fun s =>
    (stmt? n (ofStmt t)).bind _) = _
  rw [hc, hs, ht]
  rfl

theorem stmt?_while {c : Expr Unit} {s : Stmt Unit Unit} (hc : expr? n (ofExpr c) = some c)
    (hs : stmt? n (ofStmt s) = some s) :
    stmt? (n + 3) (ofStmt (.while line c s)) = some (.while line c s) := by
  refine (stmt?_node hline "While" (.arr [ofExpr c, ofStmt s])).trans ?_
  change (expr? n (ofExpr c)).bind (fun c => (stmt? n (ofStmt s)).bind _) = _
  rw [hc, hs]
  rfl

theorem stmt?_print {e : Expr Unit} (he : expr? n (ofExpr e) = some e) :
    stmt? (n + 2) (ofStmt (.print line e)) = some (.print line e) := by
  refine (stmt?_node hline "Print" (ofExpr e)).trans ?_
  simp [statement?, he]

end

/-- The slot of a list that is left out when it is empty. -/
def listSlot {α : Type} (item : α → Json) : List α → Option Json
  | [] => none
  | x :: xs => some (.arr ((x :: xs).map item))

theorem ofArgs_eq_map (es : List (Expr Unit)) : ofArgs es = es.map ofExpr := by
  induction es with
  | nil => rfl
  | cons e es ih => rw [ofArgs, ih, List.map_cons]

theorem ofBody_eq_map (ss : List (Stmt Unit Unit)) : ofBody ss = ss.map ofStmt := by
  induction ss with
  | nil => rfl
  | cons s ss ih => rw [ofBody, ih, List.map_cons]

theorem mapM_written {α : Type} {read : Json → Option α} {item : α → Json} {xs : List α}
    (h : ∀ x ∈ xs, read (item x) = some x) : (xs.map item).mapM read = some xs := by
  induction xs with
  | nil => rfl
  | cons x xs ih =>
    obtain ⟨hx, hxs⟩ := List.forall_mem_cons.mp h
    simp [List.mapM_cons, hx, ih hxs]

theorem list?_listSlot {α : Type} {item? : Nat → Json → Option α} {item : α → Json} {xs : List α}
    {n : Nat} (h : xs ≠ [] → ∃ m, n = m + 1 ∧ ∀ x ∈ xs, item? m (item x) = some x) :
    list? item? n (listSlot item xs) = some xs := by
  cases xs with
  | nil => cases n <;> rfl
  | cons x xs =>
    obtain ⟨m, rfl, hxs⟩ := h (List.cons_ne_nil x xs)
    exact mapM_written hxs

theorem ty?_ofTy {t : Ty} {n : Nat} (h : (ofTy t).levels ≤ n) : ty? n (ofTy t) = some t := by
  cases t with
  | int | boolean | intArray | booleanArray => rw [ofTy, ofText, ty?]; rfl
  | object name =>
    rw [ofTy, variant, levels] at h
    obtain ⟨m, rfl⟩ : ∃ m, n = m + 1 := ⟨n - 1, by omega⟩
    rfl

theorem record?_ofVar (v : VarDecl) : record? ["line", "ty", "name"] (ofVar v) =
    some [some (ofNat v.line), some (ofTy v.ty), some (ofText v.name)] := by
  simp [record?, ofVar, key, List.lookup_cons]

theorem record?_ofMethod (m : MethodDecl .bare) : record? methodFields (ofMethod m) =
    some [some (ofNat m.line), some (ofTy m.returnTy), some (ofText m.name),
      listSlot ofVar m.params, listSlot ofVar m.vars, listSlot ofStmt m.body,
      some (ofExpr m.result)] := by
  rcases m with ⟨line, note, ty, name, _ | ⟨p, ps⟩, _ | ⟨v, vs⟩, _ | ⟨s, ss⟩, result⟩ <;>
    simp [record?, ofMethod, ofList, key, List.lookup_cons, methodFields, listSlot]

theorem record?_ofClass (c : ClassDecl .bare) : record? classFields (ofClass c) =
    some [some (ofNat c.line), some (ofText c.name), c.superclass.map ofText,
      listSlot ofVar c.fields, listSlot ofMethod c.methods] := by
  rcases c with ⟨line, note, name, _ | s, _ | ⟨f, fs⟩, _ | ⟨m, ms⟩⟩ <;>
    simp [record?, ofClass, ofList, ofSuperclass, key, List.lookup_cons, classFields, listSlot]

theorem record?_ofMain (c : MainClass .bare) : record? mainFields (ofMain c) =
    some [some (ofNat c.line), some (ofText c.name), some (ofText c.param),
      listSlot ofVar c.vars, listSlot ofStmt c.body] := by
  rcases c with ⟨line, name, param, _ | ⟨v, vs⟩, _ | ⟨s, ss⟩⟩ <;>
    simp [record?, ofMain, ofList, key, List.lookup_cons, mainFields, listSlot]

theorem record?_toJson (p : Program .bare) : record? ["main_class", "classes"] (toJson p) =
    some [some (ofMain p.main), listSlot ofClass p.classes] := by
  rcases p with ⟨main, _ | ⟨c, cs⟩⟩ <;>
    simp [record?, toJson, ofList, key, List.lookup_cons, listSlot]

theorem var?_ofVar {v : VarDecl} {n : Nat} (hline : v.line < UInt64.size)
    (hty : ty? n (ofTy v.ty) = some v.ty) : var? (n + 1) (ofVar v) = some v := by
  rw [var?, record?_ofVar]
  simp [line?, nat64?_ofNat hline, hty, ofText, text?]

theorem method?_ofMethod {m : MethodDecl .bare} {n : Nat} (hline : m.line < UInt64.size)
    (hty : ty? n (ofTy m.returnTy) = some m.returnTy)
    (hparams : list? var? n (listSlot ofVar m.params) = some m.params)
    (hvars : list? var? n (listSlot ofVar m.vars) = some m.vars)
    (hbody : list? stmt? n (listSlot ofStmt m.body) = some m.body)
    (hresult : expr? n (ofExpr m.result) = some m.result) :
    method? (n + 1) (ofMethod m) = some m := by
  rw [method?, record?_ofMethod]
  simp [line?, nat64?_ofNat hline, hty, ofText, text?, hparams, hvars, hbody, hresult]

theorem superclass?_ofText (s : Option Name) : superclass? (s.map ofText) = some s := by
  cases s <;> rfl

theorem class?_ofClass {c : ClassDecl .bare} {n : Nat} (hline : c.line < UInt64.size)
    (hfields : list? var? n (listSlot ofVar c.fields) = some c.fields)
    (hmethods : list? method? n (listSlot ofMethod c.methods) = some c.methods) :
    class? (n + 1) (ofClass c) = some c := by
  rw [class?, record?_ofClass]
  simp [line?, nat64?_ofNat hline, ofText, text?, superclass?_ofText, hfields, hmethods]

theorem main?_ofMain {c : MainClass .bare} {n : Nat} (hline : c.line < UInt64.size)
    (hvars : list? var? n (listSlot ofVar c.vars) = some c.vars)
    (hbody : list? stmt? n (listSlot ofStmt c.body) = some c.body) :
    main? (n + 1) (ofMain c) = some c := by
  rw [main?, record?_ofMain]
  simp [line?, nat64?_ofNat hline, ofText, text?, hvars, hbody]

theorem program?_toJson {p : Program .bare} {n : Nat} (hmain : main? n (ofMain p.main) = some p.main)
    (hclasses : list? class? n (listSlot ofClass p.classes) = some p.classes) :
    program? (n + 1) (toJson p) = some p := by
  rw [program?, record?_toJson]
  simp [hmain, hclasses]

theorem linesFit_append {xs ys : List Nat} :
    LinesFit (xs ++ ys) ↔ LinesFit xs ∧ LinesFit ys := List.forall_mem_append

theorem linesFit_cons {x : Nat} {xs : List Nat} :
    LinesFit (x :: xs) ↔ x < UInt64.size ∧ LinesFit xs := List.forall_mem_cons

theorem linesFit_of_mem {α : Type} {lines : α → List Nat} {xs : List α}
    (h : LinesFit (xs.flatMap lines)) : ∀ x ∈ xs, LinesFit (lines x) :=
  fun x hx line hline => h line (List.mem_flatMap.mpr ⟨x, hx, hline⟩)

theorem memberLevels_append (ms ms' : List (Option String × Json)) :
    memberLevels (ms ++ ms') = max (memberLevels ms) (memberLevels ms') := by
  induction ms with
  | nil => simp [memberLevels]
  | cons m ms ih => rw [List.cons_append, memberLevels, memberLevels, ih, Nat.max_assoc]

theorem levels_le_itemLevels {v : Json} {vs : List Json} (h : v ∈ vs) :
    v.levels ≤ itemLevels vs := by
  induction vs with
  | nil => simp at h
  | cons u vs ih =>
    rw [itemLevels]
    rcases List.mem_cons.mp h with rfl | h
    · exact Nat.le_max_left ..
    · exact Nat.le_trans (ih h) (Nat.le_max_right ..)

/-- A list that is written takes a level, and its items stand inside. -/
theorem levels_of_ofList {α : Type} {name : String} {item : α → Json} {xs : List α} {n : Nat}
    (h : memberLevels (ofList name item xs) ≤ n) (some_item : xs ≠ []) :
    ∃ m, n = m + 1 ∧ ∀ x ∈ xs, (item x).levels ≤ m := by
  cases xs with
  | nil => contradiction
  | cons x xs =>
    simp only [ofList, key, memberLevels, levels] at h
    refine ⟨n - 1, by omega, fun y hy => ?_⟩
    have := levels_le_itemLevels (List.mem_map_of_mem (f := item) hy)
    omega

theorem levels_key (name : String) (v : Json) (ms : List (Option String × Json)) :
    memberLevels (key name v :: ms) = max v.levels (memberLevels ms) := rfl

theorem levels_variant (tag : String) (content : Json) :
    (variant tag content).levels = 1 + content.levels := by
  simp [variant, key, levels, memberLevels]

theorem levels_node (line : Nat) (kind : Json) : (node line kind).levels = 1 + kind.levels := by
  simp [node, key, ofNat, levels, memberLevels]

mutual

theorem expr?_of_levels : ∀ (e : Expr Unit) {n : Nat}, (ofExpr e).levels ≤ n → LinesFit e.lines →
    expr? n (ofExpr e) = some e
  | .node line _ f, n, h, lines => by
    rw [ofExpr, levels_node] at h
    obtain ⟨m, rfl⟩ : ∃ m, n = m + 1 := ⟨n - 1, by omega⟩
    rw [Expr.lines, Expr.all, List.map_cons, linesFit_cons] at lines
    exact expr?_node lines.1 (form?_of_levels f (by omega) lines.2)

theorem form?_of_levels : ∀ (f : ExprForm Unit) {n : Nat}, (ofForm f).levels ≤ n →
    LinesFit (f.all.map (·.line)) → form? n (ofForm f) = some f
  | .binary op a b, n, h, lines => by
    have tag : binary? (opTag op) = some (.binary op) := by cases op <;> rfl
    simp only [ofForm, levels_variant, levels, itemLevels] at h
    obtain ⟨m, rfl⟩ : ∃ m, n = m + 2 := ⟨n - 2, by omega⟩
    rw [ExprForm.all, List.map_append, linesFit_append] at lines
    exact form?_of_binary tag (expr?_of_levels a (by omega) lines.1)
      (expr?_of_levels b (by omega) lines.2)
  | .lookup a i, n, h, lines => by
    simp only [ofForm, levels_variant, levels, itemLevels] at h
    obtain ⟨m, rfl⟩ : ∃ m, n = m + 2 := ⟨n - 2, by omega⟩
    rw [ExprForm.all, List.map_append, linesFit_append] at lines
    have tag : binary? "ArrayLookup" = some .lookup := rfl
    exact form?_of_binary tag (expr?_of_levels a (by omega) lines.1)
      (expr?_of_levels i (by omega) lines.2)
  | .length a, n, h, lines => by
    simp only [ofForm, levels_variant] at h
    obtain ⟨m, rfl⟩ : ∃ m, n = m + 1 := ⟨n - 1, by omega⟩
    have tag : unary? "ArrayLength" = some .length := rfl
    exact form?_of_unary tag (expr?_of_levels a (by omega) lines)
  | .send r x args, n, h, lines => by
    simp only [ofForm, ofText, levels_variant, levels, itemLevels] at h
    obtain ⟨m, rfl⟩ : ∃ m, n = m + 3 := ⟨n - 3, by omega⟩
    rw [ExprForm.all, List.map_append, linesFit_append] at lines
    exact form?_of_send x (expr?_of_levels r (by omega) lines.1)
      (args_of_levels args (by omega) lines.2)
  | .int v, n, h, lines => by
    simp only [ofForm, levels_variant] at h
    obtain ⟨m, rfl⟩ : ∃ m, n = m + 1 := ⟨n - 1, by omega⟩
    exact form?_int m v
  | .tt, n, _, _ => form?_plain "True" rfl n
  | .ff, n, _, _ => form?_plain "False" rfl n
  | .name x, n, h, lines => by
    simp only [ofForm, levels_variant] at h
    obtain ⟨m, rfl⟩ : ∃ m, n = m + 1 := ⟨n - 1, by omega⟩
    exact form?_name m x
  | .this, n, _, _ => form?_plain "This" rfl n
  | .newIntArray e, n, h, lines => by
    simp only [ofForm, levels_variant] at h
    obtain ⟨m, rfl⟩ : ∃ m, n = m + 1 := ⟨n - 1, by omega⟩
    have tag : unary? "NewIntArray" = some .newIntArray := rfl
    exact form?_of_unary tag (expr?_of_levels e (by omega) lines)
  | .newBooleanArray e, n, h, lines => by
    simp only [ofForm, levels_variant] at h
    obtain ⟨m, rfl⟩ : ∃ m, n = m + 1 := ⟨n - 1, by omega⟩
    have tag : unary? "NewBooleanArray" = some .newBooleanArray := rfl
    exact form?_of_unary tag (expr?_of_levels e (by omega) lines)
  | .newObject c, n, h, lines => by
    simp only [ofForm, levels_variant] at h
    obtain ⟨m, rfl⟩ : ∃ m, n = m + 1 := ⟨n - 1, by omega⟩
    exact form?_newObject m c
  | .not e, n, h, lines => by
    simp only [ofForm, levels_variant] at h
    obtain ⟨m, rfl⟩ : ∃ m, n = m + 1 := ⟨n - 1, by omega⟩
    have tag : unary? "Not" = some .not := rfl
    exact form?_of_unary tag (expr?_of_levels e (by omega) lines)
  | .bracket e, n, h, lines => by
    simp only [ofForm, levels_variant] at h
    obtain ⟨m, rfl⟩ : ∃ m, n = m + 1 := ⟨n - 1, by omega⟩
    have tag : unary? "Bracket" = some .bracket := rfl
    exact form?_of_unary tag (expr?_of_levels e (by omega) lines)

theorem args_of_levels : ∀ (es : List (Expr Unit)) {n : Nat}, itemLevels (ofArgs es) ≤ n →
    LinesFit ((allArgs es).map (·.line)) → (ofArgs es).mapM (expr? n) = some es
  | [], _, _, _ => rfl
  | e :: es, n, h, lines => by
    rw [ofArgs, itemLevels] at h
    rw [allArgs, List.map_append, linesFit_append] at lines
    have he := expr?_of_levels e (n := n) (by omega) lines.1
    have hes := args_of_levels es (n := n) (by omega) lines.2
    simp [ofArgs, List.mapM_cons, he, hes]

end

mutual

theorem stmt?_of_levels : ∀ (s : Stmt Unit Unit) {n : Nat}, (ofStmt s).levels ≤ n →
    LinesFit s.lines → stmt? n (ofStmt s) = some s
  | .block line body, n, h, lines => by
    simp only [ofStmt, levels_node, levels_variant, levels] at h
    obtain ⟨m, rfl⟩ : ∃ m, n = m + 3 := ⟨n - 3, by omega⟩
    rw [Stmt.lines, linesFit_cons] at lines
    exact stmt?_block lines.1 (body_of_levels body (by omega) lines.2)
  | .assign line x _ e, n, h, lines => by
    simp only [ofStmt, ofText, levels_node, levels_variant, levels, itemLevels] at h
    obtain ⟨m, rfl⟩ : ∃ m, n = m + 3 := ⟨n - 3, by omega⟩
    rw [Stmt.lines, linesFit_cons] at lines
    exact stmt?_assign lines.1 x (expr?_of_levels e (by omega) lines.2)
  | .arrayAssign line x _ i e, n, h, lines => by
    simp only [ofStmt, ofText, levels_node, levels_variant, levels, itemLevels] at h
    obtain ⟨m, rfl⟩ : ∃ m, n = m + 3 := ⟨n - 3, by omega⟩
    rw [Stmt.lines, linesFit_cons, linesFit_append] at lines
    exact stmt?_arrayAssign lines.1 x (expr?_of_levels i (by omega) lines.2.1)
      (expr?_of_levels e (by omega) lines.2.2)
  | .ifElse line c s t, n, h, lines => by
    simp only [ofStmt, levels_node, levels_variant, levels, itemLevels] at h
    obtain ⟨m, rfl⟩ : ∃ m, n = m + 3 := ⟨n - 3, by omega⟩
    rw [Stmt.lines, linesFit_cons, linesFit_append, linesFit_append] at lines
    exact stmt?_ifElse lines.1 (expr?_of_levels c (by omega) lines.2.1.1)
      (stmt?_of_levels s (by omega) lines.2.1.2) (stmt?_of_levels t (by omega) lines.2.2)
  | .while line c s, n, h, lines => by
    simp only [ofStmt, levels_node, levels_variant, levels, itemLevels] at h
    obtain ⟨m, rfl⟩ : ∃ m, n = m + 3 := ⟨n - 3, by omega⟩
    rw [Stmt.lines, linesFit_cons, linesFit_append] at lines
    exact stmt?_while lines.1 (expr?_of_levels c (by omega) lines.2.1)
      (stmt?_of_levels s (by omega) lines.2.2)
  | .print line e, n, h, lines => by
    simp only [ofStmt, levels_node, levels_variant] at h
    obtain ⟨m, rfl⟩ : ∃ m, n = m + 2 := ⟨n - 2, by omega⟩
    rw [Stmt.lines, linesFit_cons] at lines
    exact stmt?_print lines.1 (expr?_of_levels e (by omega) lines.2)

theorem body_of_levels : ∀ (ss : List (Stmt Unit Unit)) {n : Nat}, itemLevels (ofBody ss) ≤ n →
    LinesFit (bodyLines ss) → (ofBody ss).mapM (stmt? n) = some ss
  | [], _, _, _ => rfl
  | s :: ss, n, h, lines => by
    rw [ofBody, itemLevels] at h
    rw [bodyLines, linesFit_append] at lines
    have hs := stmt?_of_levels s (n := n) (by omega) lines.1
    have hss := body_of_levels ss (n := n) (by omega) lines.2
    simp [ofBody, List.mapM_cons, hs, hss]

end

/-- A written list is read back when its items are. -/
theorem list?_of_levels {α : Type} {item? : Nat → Json → Option α} {item : α → Json}
    (name : String) {xs : List α} {n : Nat} (h : memberLevels (ofList name item xs) ≤ n)
    (back : ∀ x ∈ xs, ∀ m, (item x).levels ≤ m → item? m (item x) = some x) :
    list? item? n (listSlot item xs) = some xs := by
  refine list?_listSlot fun some_item => ?_
  obtain ⟨m, rfl, hm⟩ := levels_of_ofList h some_item
  exact ⟨m, rfl, fun x hx => back x hx m (hm x hx)⟩

theorem var?_of_levels {v : VarDecl} {n : Nat} (h : (ofVar v).levels ≤ n)
    (line : v.line < UInt64.size) : var? n (ofVar v) = some v := by
  simp only [ofVar, levels, levels_key] at h
  obtain ⟨m, rfl⟩ : ∃ m, n = m + 1 := ⟨n - 1, by omega⟩
  exact var?_ofVar line (ty?_ofTy (by omega))

theorem vars_of_levels (name : String) {vs : List VarDecl} {n : Nat}
    (h : memberLevels (ofList name ofVar vs) ≤ n) (lines : LinesFit (vs.map (·.line))) :
    list? var? n (listSlot ofVar vs) = some vs :=
  list?_of_levels name h fun v hv _ hm =>
    var?_of_levels hm (lines v.line (List.mem_map_of_mem hv))

theorem linesFit_of_bodyLines {ss : List (Stmt Unit Unit)} (h : LinesFit (bodyLines ss)) :
    ∀ s ∈ ss, LinesFit s.lines := by
  induction ss with
  | nil => simp
  | cons s ss ih =>
    rw [bodyLines, linesFit_append] at h
    exact List.forall_mem_cons.mpr ⟨h.1, ih h.2⟩

theorem stmts_of_levels (name : String) {ss : List (Stmt Unit Unit)} {n : Nat}
    (h : memberLevels (ofList name ofStmt ss) ≤ n) (lines : LinesFit (bodyLines ss)) :
    list? stmt? n (listSlot ofStmt ss) = some ss :=
  list?_of_levels name h fun s hs _ hm => stmt?_of_levels s hm (linesFit_of_bodyLines lines s hs)

theorem method?_of_levels {m : MethodDecl .bare} {n : Nat} (h : (ofMethod m).levels ≤ n)
    (lines : LinesFit m.lines) : method? n (ofMethod m) = some m := by
  simp only [ofMethod, levels, List.cons_append, List.nil_append, List.append_assoc, levels_key,
    memberLevels_append] at h
  obtain ⟨k, rfl⟩ : ∃ k, n = k + 1 := ⟨n - 1, by omega⟩
  simp only [MethodDecl.lines, List.map_append, List.cons_append, linesFit_cons,
    linesFit_append] at lines
  obtain ⟨line, ⟨⟨params, vars⟩, body⟩, result⟩ := lines
  exact method?_ofMethod line (ty?_ofTy (by omega)) (vars_of_levels "params" (by omega) params)
    (vars_of_levels "vars" (by omega) vars) (stmts_of_levels "statements" (by omega) body)
    (expr?_of_levels m.result (by omega) result)

theorem class?_of_levels {c : ClassDecl .bare} {n : Nat} (h : (ofClass c).levels ≤ n)
    (lines : LinesFit c.lines) : class? n (ofClass c) = some c := by
  simp only [ofClass, levels, List.cons_append, List.nil_append, List.append_assoc, levels_key,
    memberLevels_append] at h
  obtain ⟨k, rfl⟩ : ∃ k, n = k + 1 := ⟨n - 1, by omega⟩
  simp only [ClassDecl.lines, List.cons_append, linesFit_cons, linesFit_append] at lines
  obtain ⟨line, fields, methods⟩ := lines
  exact class?_ofClass line (vars_of_levels "fields" (by omega) fields)
    (list?_of_levels "methods" (by omega) fun m hm _ hk =>
      method?_of_levels hk (linesFit_of_mem methods m hm))

theorem main?_of_levels {c : MainClass .bare} {n : Nat} (h : (ofMain c).levels ≤ n)
    (lines : LinesFit c.lines) : main? n (ofMain c) = some c := by
  simp only [ofMain, levels, List.cons_append, List.nil_append, levels_key,
    memberLevels_append] at h
  obtain ⟨k, rfl⟩ : ∃ k, n = k + 1 := ⟨n - 1, by omega⟩
  simp only [MainClass.lines, List.cons_append, linesFit_cons, linesFit_append] at lines
  obtain ⟨line, vars, body⟩ := lines
  exact main?_ofMain line (vars_of_levels "vars" (by omega) vars)
    (stmts_of_levels "statements" (by omega) body)

theorem program?_of_levels {p : Program .bare} {n : Nat} (h : (toJson p).levels ≤ n)
    (lines : LinesFit p.lines) : program? n (toJson p) = some p := by
  simp only [toJson, levels, levels_key] at h
  obtain ⟨k, rfl⟩ : ∃ k, n = k + 1 := ⟨n - 1, by omega⟩
  rw [Program.lines, linesFit_append] at lines
  exact program?_toJson (main?_of_levels (by omega) lines.1)
    (list?_of_levels "classes" (by omega) fun c hc _ hk =>
      class?_of_levels hk (linesFit_of_mem lines.2 c hc))

end Document

end MiniJava
