import MiniJava.Identity

/-!
# Programs with other notes

Two programs of one shape may differ in their notes. Notes that are made anew from the numbers of the
expressions and targets are related to the old ones, if this holds number by number.
-/
namespace MiniJava

section Expr
variable {ν μ : Type} (R : Expr ν → μ → Prop)

mutual

/-- The same expression, with related notes on every node. -/
inductive Expr.Renoted : Expr ν → Expr μ → Prop
  | node {line : Nat} {note : ν} {note' : μ} {form : ExprForm ν} {form' : ExprForm μ} :
      R (.node line note form) note' → ExprForm.Renoted form form' →
        Expr.Renoted (.node line note form) (.node line note' form')

inductive ExprForm.Renoted : ExprForm ν → ExprForm μ → Prop
  | binary (op : BinOp) {a b : Expr ν} {a' b' : Expr μ} :
      Expr.Renoted a a' → Expr.Renoted b b' → ExprForm.Renoted (.binary op a b) (.binary op a' b')
  | lookup {a i : Expr ν} {a' i' : Expr μ} :
      Expr.Renoted a a' → Expr.Renoted i i' → ExprForm.Renoted (.lookup a i) (.lookup a' i')
  | length {a : Expr ν} {a' : Expr μ} :
      Expr.Renoted a a' → ExprForm.Renoted (.length a) (.length a')
  | send {r : Expr ν} {r' : Expr μ} (m : Name) {es : List (Expr ν)} {es' : List (Expr μ)} :
      Expr.Renoted r r' → ArgsRenoted es es' → ExprForm.Renoted (.send r m es) (.send r' m es')
  | int (n : Int32) : ExprForm.Renoted (.int n) (.int n)
  | tt : ExprForm.Renoted .tt .tt
  | ff : ExprForm.Renoted .ff .ff
  | name (x : Name) : ExprForm.Renoted (.name x) (.name x)
  | this : ExprForm.Renoted .this .this
  | newIntArray {n : Expr ν} {n' : Expr μ} :
      Expr.Renoted n n' → ExprForm.Renoted (.newIntArray n) (.newIntArray n')
  | newBooleanArray {n : Expr ν} {n' : Expr μ} :
      Expr.Renoted n n' → ExprForm.Renoted (.newBooleanArray n) (.newBooleanArray n')
  | newObject (c : Name) : ExprForm.Renoted (.newObject c) (.newObject c)
  | not {e : Expr ν} {e' : Expr μ} : Expr.Renoted e e' → ExprForm.Renoted (.not e) (.not e')
  | bracket {e : Expr ν} {e' : Expr μ} :
      Expr.Renoted e e' → ExprForm.Renoted (.bracket e) (.bracket e')

inductive ArgsRenoted : List (Expr ν) → List (Expr μ) → Prop
  | nil : ArgsRenoted [] []
  | cons {e : Expr ν} {e' : Expr μ} {es : List (Expr ν)} {es' : List (Expr μ)} :
      Expr.Renoted e e' → ArgsRenoted es es' → ArgsRenoted (e :: es) (e' :: es')

end

end Expr

section Stmt
variable {ν μ τ σ : Type} (R : Expr ν → μ → Prop) (T : Located Name → τ → σ → Prop)

mutual

/-- The same statement, with related notes on every expression and every target. -/
inductive Stmt.Renoted : Stmt ν τ → Stmt μ σ → Prop
  | block (line : Nat) {body : List (Stmt ν τ)} {body' : List (Stmt μ σ)} :
      BodyRenoted body body' → Stmt.Renoted (.block line body) (.block line body')
  | assign {line : Nat} {x : Name} {note : τ} {note' : σ} {e : Expr ν} {e' : Expr μ} :
      T ⟨line, x⟩ note note' → Expr.Renoted R e e' →
        Stmt.Renoted (.assign line x note e) (.assign line x note' e')
  | arrayAssign {line : Nat} {x : Name} {note : τ} {note' : σ} {i e : Expr ν} {i' e' : Expr μ} :
      T ⟨line, x⟩ note note' → Expr.Renoted R i i' → Expr.Renoted R e e' →
        Stmt.Renoted (.arrayAssign line x note i e) (.arrayAssign line x note' i' e')
  | ifElse (line : Nat) {e : Expr ν} {e' : Expr μ} {yes no : Stmt ν τ} {yes' no' : Stmt μ σ} :
      Expr.Renoted R e e' → Stmt.Renoted yes yes' → Stmt.Renoted no no' →
        Stmt.Renoted (.ifElse line e yes no) (.ifElse line e' yes' no')
  | while (line : Nat) {e : Expr ν} {e' : Expr μ} {body : Stmt ν τ} {body' : Stmt μ σ} :
      Expr.Renoted R e e' → Stmt.Renoted body body' →
        Stmt.Renoted (.while line e body) (.while line e' body')
  | print (line : Nat) {e : Expr ν} {e' : Expr μ} :
      Expr.Renoted R e e' → Stmt.Renoted (.print line e) (.print line e')

inductive BodyRenoted : List (Stmt ν τ) → List (Stmt μ σ) → Prop
  | nil : BodyRenoted [] []
  | cons {s : Stmt ν τ} {s' : Stmt μ σ} {body : List (Stmt ν τ)} {body' : List (Stmt μ σ)} :
      Stmt.Renoted s s' → BodyRenoted body body' → BodyRenoted (s :: body) (s' :: body')

end

end Stmt

namespace Counts

/-- The numbers after some expressions and some targets. -/
def past (n : Counts) (exprs targets : Nat) : Counts := ⟨n.exprs + exprs, n.targets + targets⟩

theorem past_past (n : Counts) (i j k l : Nat) :
    (n.past i j).past k l = n.past (i + k) (j + l) := by
  simp only [past, Nat.add_assoc]

end Counts

section Items
variable {ν τ : Type}

def Item.expr? : Item ν τ → Option (Expr ν)
  | .expr e => some e
  | .target .. => none

def Item.target? : Item ν τ → Option (Located Name × τ)
  | .expr _ => none
  | .target x note => some (x, note)

def itemExprs (items : List (Item ν τ)) : List (Expr ν) := items.filterMap Item.expr?

def itemTargets (items : List (Item ν τ)) : List (Located Name × τ) := items.filterMap Item.target?

@[simp] theorem itemExprs_append (xs ys : List (Item ν τ)) :
    itemExprs (xs ++ ys) = itemExprs xs ++ itemExprs ys := List.filterMap_append

@[simp] theorem itemTargets_append (xs ys : List (Item ν τ)) :
    itemTargets (xs ++ ys) = itemTargets xs ++ itemTargets ys := List.filterMap_append

@[simp] theorem itemExprs_target (x : Located Name) (note : τ) (xs : List (Item ν τ)) :
    itemExprs (.target x note :: xs) = itemExprs xs := rfl

@[simp] theorem itemTargets_target (x : Located Name) (note : τ) (xs : List (Item ν τ)) :
    itemTargets (.target x note :: xs) = (x, note) :: itemTargets xs := rfl

@[simp] theorem itemExprs_items (e : Expr ν) : itemExprs (e.items : List (Item ν τ)) = e.all := by
  rw [itemExprs, Expr.items, List.filterMap_map]
  exact List.filterMap_some

@[simp] theorem itemTargets_items (e : Expr ν) :
    itemTargets (e.items : List (Item ν τ)) = [] := by
  refine List.filterMap_eq_nil_iff.mpr fun x hx => ?_
  obtain ⟨y, _, rfl⟩ := List.mem_map.mp hx
  rfl

end Items

/-- Element `k` of a list is related to what belongs to the number `n + k`. -/
def NumberedTo {α : Type} (P : α → Nat → Prop) (n : Nat) (xs : List α) : Prop :=
  ∀ k x, xs[k]? = some x → P x (n + k)

namespace NumberedTo
variable {α : Type} {P : α → Nat → Prop} {n : Nat}

theorem cons_iff {x : α} {xs : List α} :
    NumberedTo P n (x :: xs) ↔ P x n ∧ NumberedTo P (n + 1) xs := by
  constructor
  · intro h
    refine ⟨h 0 x rfl, fun k y hy => ?_⟩
    rw [Nat.add_right_comm]
    exact h (k + 1) y hy
  · rintro ⟨hx, h⟩ (_ | k) y hy
    · obtain rfl := Option.some.inj hy
      exact hx
    · rw [← Nat.add_assoc, Nat.add_right_comm]
      exact h k y hy

theorem append_iff {xs ys : List α} :
    NumberedTo P n (xs ++ ys) ↔ NumberedTo P n xs ∧ NumberedTo P (n + xs.length) ys := by
  induction xs generalizing n with
  | nil => exact ⟨fun h => ⟨fun k x hx => (by cases hx), h⟩, fun h => h.2⟩
  | cons x xs ih =>
    rw [List.cons_append, cons_iff, ih, cons_iff, and_assoc, List.length_cons, Nat.add_assoc,
      Nat.add_comm 1]

end NumberedTo

section Relabel
variable {ν μ τ σ : Type} {f : Nat → ν → μ} {g : Nat → τ → σ} {R : Expr ν → μ → Prop}
  {T : Located Name → τ → σ → Prop}

mutual

theorem relabel_renoted : ∀ (e : Expr ν) (n : Counts),
    NumberedTo (fun x k => R x (f k x.note)) n.exprs e.all →
      Expr.Renoted R e (e.relabel f n).1 ∧ (e.relabel f n).2 = n.past e.all.length 0
  | .node line note form, n, h => by
    obtain ⟨hnode, h⟩ := NumberedTo.cons_iff.mp h
    obtain ⟨renoted, counts⟩ := relabelForm_renoted form (n.past 1 0) h
    refine ⟨.node hnode renoted, counts.trans ?_⟩
    rw [Counts.past_past, Expr.all, List.length_cons, Nat.add_comm]

theorem relabelForm_renoted : ∀ (form : ExprForm ν) (n : Counts),
    NumberedTo (fun x k => R x (f k x.note)) n.exprs form.all →
      ExprForm.Renoted R form (form.relabel f n).1 ∧
        (form.relabel f n).2 = n.past form.all.length 0
  | .binary op a b, n, h => by
    obtain ⟨ha, hb⟩ := NumberedTo.append_iff.mp h
    obtain ⟨ra, na⟩ := relabel_renoted a n ha
    obtain ⟨rb, nb⟩ := relabel_renoted b (a.relabel f n).2 (na ▸ hb)
    refine ⟨.binary op ra rb, nb.trans ?_⟩
    rw [na, Counts.past_past, ExprForm.all, List.length_append]
  | .lookup a i, n, h => by
    obtain ⟨ha, hi⟩ := NumberedTo.append_iff.mp h
    obtain ⟨ra, na⟩ := relabel_renoted a n ha
    obtain ⟨ri, ni⟩ := relabel_renoted i (a.relabel f n).2 (na ▸ hi)
    refine ⟨.lookup ra ri, ni.trans ?_⟩
    rw [na, Counts.past_past, ExprForm.all, List.length_append]
  | .length a, n, h => by
    obtain ⟨ra, na⟩ := relabel_renoted a n h
    exact ⟨.length ra, na⟩
  | .send r m args, n, h => by
    obtain ⟨hr, hargs⟩ := NumberedTo.append_iff.mp h
    obtain ⟨rr, nr⟩ := relabel_renoted r n hr
    obtain ⟨rargs, nargs⟩ := relabelArgs_renoted args (r.relabel f n).2 (nr ▸ hargs)
    refine ⟨.send m rr rargs, nargs.trans ?_⟩
    rw [nr, Counts.past_past, ExprForm.all, List.length_append]
  | .int v, _, _ => ⟨.int v, rfl⟩
  | .tt, _, _ => ⟨.tt, rfl⟩
  | .ff, _, _ => ⟨.ff, rfl⟩
  | .name x, _, _ => ⟨.name x, rfl⟩
  | .this, _, _ => ⟨.this, rfl⟩
  | .newIntArray e, n, h => by
    obtain ⟨re, ne⟩ := relabel_renoted e n h
    exact ⟨.newIntArray re, ne⟩
  | .newBooleanArray e, n, h => by
    obtain ⟨re, ne⟩ := relabel_renoted e n h
    exact ⟨.newBooleanArray re, ne⟩
  | .newObject c, _, _ => ⟨.newObject c, rfl⟩
  | .not e, n, h => by
    obtain ⟨re, ne⟩ := relabel_renoted e n h
    exact ⟨.not re, ne⟩
  | .bracket e, n, h => by
    obtain ⟨re, ne⟩ := relabel_renoted e n h
    exact ⟨.bracket re, ne⟩

theorem relabelArgs_renoted : ∀ (es : List (Expr ν)) (n : Counts),
    NumberedTo (fun x k => R x (f k x.note)) n.exprs (allArgs es) →
      ArgsRenoted R es (relabelArgs f es n).1 ∧
        (relabelArgs f es n).2 = n.past (allArgs es).length 0
  | [], _, _ => ⟨.nil, rfl⟩
  | e :: es, n, h => by
    obtain ⟨he, hes⟩ := NumberedTo.append_iff.mp h
    obtain ⟨re, ne⟩ := relabel_renoted e n he
    obtain ⟨res, nes⟩ := relabelArgs_renoted es (e.relabel f n).2 (ne ▸ hes)
    refine ⟨.cons re res, nes.trans ?_⟩
    rw [ne, Counts.past_past, allArgs, List.length_append]

end

/-- The new notes of what is listed are related to the old ones. -/
structure ItemsNumberedTo (R : Expr ν → μ → Prop) (T : Located Name → τ → σ → Prop)
    (f : Nat → ν → μ) (g : Nat → τ → σ) (n : Counts) (items : List (Item ν τ)) : Prop where
  exprs : NumberedTo (fun x k => R x (f k x.note)) n.exprs (itemExprs items)
  targets : NumberedTo (fun x k => T x.1 x.2 (g k x.2)) n.targets (itemTargets items)

/-- The numbers after all that is listed. -/
def Counts.pastItems (n : Counts) (items : List (Item ν τ)) : Counts :=
  n.past (itemExprs items).length (itemTargets items).length

theorem Counts.pastItems_append (n : Counts) (xs ys : List (Item ν τ)) :
    n.pastItems (xs ++ ys) = (n.pastItems xs).pastItems ys := by
  simp only [pastItems, past_past, itemExprs_append, itemTargets_append, List.length_append]

theorem Counts.pastItems_expr (n : Counts) (e : Expr ν) :
    n.pastItems (e.items : List (Item ν τ)) = n.past e.all.length 0 := by
  rw [pastItems, itemExprs_items, itemTargets_items, List.length_nil]

namespace ItemsNumberedTo
variable {n : Counts} {xs ys : List (Item ν τ)}

theorem append_iff : ItemsNumberedTo R T f g n (xs ++ ys) ↔
    ItemsNumberedTo R T f g n xs ∧ ItemsNumberedTo R T f g (n.pastItems xs) ys := by
  constructor
  · rintro ⟨exprs, targets⟩
    rw [itemExprs_append, NumberedTo.append_iff] at exprs
    rw [itemTargets_append, NumberedTo.append_iff] at targets
    exact ⟨⟨exprs.1, targets.1⟩, exprs.2, targets.2⟩
  · rintro ⟨hx, hy⟩
    constructor
    · rw [itemExprs_append]
      exact NumberedTo.append_iff.mpr ⟨hx.exprs, hy.exprs⟩
    · rw [itemTargets_append]
      exact NumberedTo.append_iff.mpr ⟨hx.targets, hy.targets⟩

theorem target {x : Located Name} {note : τ}
    (h : ItemsNumberedTo R T f g n (.target x note :: xs)) :
    T x note (g n.targets note) ∧ ItemsNumberedTo R T f g (n.past 0 1) xs := by
  obtain ⟨exprs, targets⟩ := h
  rw [itemTargets_target, NumberedTo.cons_iff] at targets
  exact ⟨targets.1, exprs, targets.2⟩

theorem expr {e : Expr ν} (h : ItemsNumberedTo R T f g n e.items) :
    Expr.Renoted R e (e.relabel f n).1 ∧
      (e.relabel f n).2 = n.pastItems (e.items : List (Item ν τ)) := by
  have exprs := h.exprs
  rw [itemExprs_items] at exprs
  rw [Counts.pastItems_expr]
  exact relabel_renoted e n exprs

end ItemsNumberedTo

theorem Counts.pastItems_target (n : Counts) (x : Located Name) (note : τ)
    (xs : List (Item ν τ)) : n.pastItems (.target x note :: xs) = (n.past 0 1).pastItems xs := by
  simp only [pastItems, past_past, itemExprs_target, itemTargets_target, List.length_cons,
    Nat.zero_add, Nat.add_comm 1]

mutual

theorem relabelStmt_renoted : ∀ (s : Stmt ν τ) (n : Counts),
    ItemsNumberedTo R T f g n s.items →
      Stmt.Renoted R T s (s.relabel f g n).1 ∧ (s.relabel f g n).2 = n.pastItems s.items
  | .block line body, n, h => by
    obtain ⟨renoted, counts⟩ := relabelBody_renoted body n h
    exact ⟨.block line renoted, counts⟩
  | .assign line x note e, n, h => by
    obtain ⟨hx, he⟩ := h.target
    obtain ⟨re, ne⟩ := he.expr
    refine ⟨.assign hx re, ?_⟩
    rw [Stmt.items, Counts.pastItems_target]
    exact ne
  | .arrayAssign line x note i e, n, h => by
    obtain ⟨hx, h⟩ := h.target
    obtain ⟨hi, he⟩ := ItemsNumberedTo.append_iff.mp h
    obtain ⟨ri, ni⟩ := hi.expr
    rw [← ni] at he
    obtain ⟨re, ne⟩ := he.expr
    refine ⟨.arrayAssign hx ri re, ?_⟩
    rw [Stmt.items, Counts.pastItems_target, Counts.pastItems_append, ← ni]
    exact ne
  | .ifElse line e yes no, n, h => by
    obtain ⟨h, hno⟩ := ItemsNumberedTo.append_iff.mp h
    obtain ⟨he, hyes⟩ := ItemsNumberedTo.append_iff.mp h
    obtain ⟨re, ne⟩ := he.expr
    rw [← ne] at hyes
    obtain ⟨ryes, nyes⟩ := relabelStmt_renoted yes _ hyes
    rw [Counts.pastItems_append, ← ne, ← nyes] at hno
    obtain ⟨rno, nno⟩ := relabelStmt_renoted no _ hno
    refine ⟨.ifElse line re ryes rno, ?_⟩
    rw [Stmt.items, Counts.pastItems_append, Counts.pastItems_append, ← ne, ← nyes]
    exact nno
  | .while line e body, n, h => by
    obtain ⟨he, hbody⟩ := ItemsNumberedTo.append_iff.mp h
    obtain ⟨re, ne⟩ := he.expr
    rw [← ne] at hbody
    obtain ⟨rbody, nbody⟩ := relabelStmt_renoted body _ hbody
    refine ⟨.while line re rbody, ?_⟩
    rw [Stmt.items, Counts.pastItems_append, ← ne]
    exact nbody
  | .print line e, n, h => by
    obtain ⟨re, ne⟩ := ItemsNumberedTo.expr h
    exact ⟨.print line re, ne⟩

theorem relabelBody_renoted : ∀ (body : List (Stmt ν τ)) (n : Counts),
    ItemsNumberedTo R T f g n (bodyItems body) →
      BodyRenoted R T body (relabelBody f g body n).1 ∧
        (relabelBody f g body n).2 = n.pastItems (bodyItems body)
  | [], _, _ => ⟨.nil, rfl⟩
  | s :: body, n, h => by
    obtain ⟨hs, hbody⟩ := ItemsNumberedTo.append_iff.mp h
    obtain ⟨rs, ns⟩ := relabelStmt_renoted s n hs
    rw [← ns] at hbody
    obtain ⟨rbody, nbody⟩ := relabelBody_renoted body _ hbody
    refine ⟨.cons rs rbody, ?_⟩
    rw [bodyItems, Counts.pastItems_append, ← ns]
    exact nbody

end

end Relabel

end MiniJava
