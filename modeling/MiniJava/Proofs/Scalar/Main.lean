import MiniJava.Proofs.Codegen.Checked
import MiniJava.Proofs.Codegen.Labels
import MiniJava.Proofs.Scalar.Body

/-!
# Running `main`

If the body of `main` is scalar, the function that is emitted for it does what the body does, for
everything that its locals may hold at first. It returns exactly if the body ends, with the same
output and the same values in the slots. What runs here is the emitted instructions, which the text
gives line by line if the names are identifiers (`module_lines`).
-/
namespace MiniJava.Codegen

open IR
open Check (Scope Accepted localOf)
open Typing (Denotes)

/-- Slots hold, at first, what was in memory before. -/
def Fresh (m : Machine) (c : Env) (x : Local) (slots : String → Option Word) : Prop :=
  slots (slotName c x.name) = (some (m.fresh (slotName c x.name))).filter (·.fits x.ty.ir)

theorem allocate_run {m : Machine} {c : Env} {b : Label} {rest : List Line} (xs : List Local)
    (distinct : (xs.map (·.name)).Nodup) {s : State}
    (stands : Stands m b (allocas c xs ++ rest) s) :
    ∃ s', m.Reaches s s' ∧ Stands m b rest s' ∧ s'.output = s.output ∧
      (∀ x ∈ xs, Fresh m c x s'.slots) ∧
        ∀ x, x ∉ xs.map (·.name) → s'.slots (slotName c x) = s.slots (slotName c x) := by
  induction xs generalizing s with
  | nil => exact ⟨s, .refl m s, stands, rfl, fun x hx => (by cases hx), fun _ _ => rfl⟩
  | cons x xs ih =>
    obtain ⟨new, distinct⟩ := List.nodup_cons.mp distinct
    obtain ⟨s₁, step, stands₁, output₁, slots₁⟩ := stands.alloca
    obtain ⟨s', reaches, stands', output, fresh, others⟩ := ih distinct stands₁
    refine ⟨s', .trans (.of_step step) reaches, stands', output.trans output₁, ?_, ?_⟩
    · intro y hy
      rcases List.mem_cons.mp hy with rfl | hy
      · rw [Fresh, others y.name new, slots₁]
        exact Function.update_self _ _ _
      · exact fresh y hy
    · intro y hy
      rw [List.map_cons, List.mem_cons, not_or] at hy
      rw [others y hy.2, slots₁]
      exact Function.update_of_ne (fun h => hy.1 (slotName_injective c h)) _ _

theorem holds_of_fresh {m : Machine} {c : Env} {σ : Store}
    (initial : Holds c σ fun x => some (m.fresh x)) {slots : String → Option Word}
    (fresh : ∀ x ∈ c.locals, Fresh m c x slots) : Holds c σ slots := by
  intro l hl scalar
  obtain ⟨hty, content⟩ := initial l hl scalar
  refine ⟨hty, ?_⟩
  rw [fresh l hl, Option.some.inj content, Option.filter_some, ← hty, Scalar.word_fits, if_pos rfl]

def returnZero : Line := .instr (.ret .i32 (.int 0))

/-- The code of `main` around the code of its body. -/
def mainCode (c : Env) (body : List Line) : List Line :=
  .label .entry :: (allocas c c.locals ++ (body ++ [returnZero]))

theorem mainBody_eq {c : Env} {body : List (Stmt Note Target)}
    (hbody : (genStmts c body { labels := {} }).result = .ok ()) :
    mainBody c body { labels := {} } =
      ⟨.ok (), mainCode c (genStmts c body { labels := {} }).code,
        (genStmts c body { labels := {} }).cursor⟩ := by
  have slots : genSlots c [] { labels := {} } =
      ⟨.ok (), .label .entry :: allocas c c.locals, { labels := {} }⟩ := by
    have allocated := allocate_eq c c.locals { labels := {} }
    rw [genSlots, startBlock_bind, bind_eq (congrArg Emitted.result allocated), allocated]
    simp only [storeParams, Gen.of, List.append_nil]
  rw [mainBody, bind_eq (congrArg Emitted.result slots), slots, bind_eq hbody]
  rfl

theorem generate_main {t : ClassTable} {l : Layout} {p : Program .checked} {c : Env}
    (hc : c = ⟨t, l, p.main.name ++ "_main", mainLocals t⟩)
    (hbody : (genStmts c p.main.body { labels := {} }).result = .ok ()) :
    ∃ functions, (generate t l p).1.functions =
      ⟨mainHeader, mainCode c (genStmts c p.main.body { labels := {} }).code, true⟩ ::
        functions := by
  rw [generate, programFunctions, ← hc, addFunction, mainBody_eq hbody]
  exact ⟨_, rfl⟩

section Run
variable {m : Machine} {c : Env} {k : Cursor} {e : Emitted Unit} {a : Effect}
  (once : m.Unambiguous) (code : m.code = mainCode c e.code) (entry : k.block = .entry)
  (distinct : (c.locals.map (·.name)).Nodup)
include once code entry distinct

theorem exists_started {σ : Store} (initial : Holds c σ fun x => some (m.fresh x)) :
    ∃ start s, m.start? = some start ∧ m.Reaches start s ∧
      Stands m k.block (e.code ++ [returnZero]) s ∧ s.output = [] ∧
        Holds c σ s.slots := by
  have started : m.start? = some ⟨allocas c c.locals ++ (e.code ++ [returnZero]), .entry, .entry,
      fun _ => none, fun _ => none, []⟩ := by
    rw [Machine.start?, code]
    rfl
  generalize hs : State.mk _ _ _ _ _ _ = start at started
  have stands : Stands m .entry
      (allocas c c.locals ++ (e.code ++ [returnZero])) start := by
    have := once .entry
    rw [code, mainCode, starts, if_pos rfl] at this
    subst hs
    exact ⟨rfl, code ▸ List.suffix_cons _ _, rfl, by omega⟩
  obtain ⟨s, reaches, stands, output, fresh, _⟩ := allocate_run c.locals distinct stands
  refine ⟨start, s, started, reaches, entry ▸ stands, ?_, holds_of_fresh initial fresh⟩
  rw [output, ← hs]

variable (performs : Performs m c k e a)
include performs

theorem main_forward {σ σ' : Store} {out : List Int32}
    (initial : Holds c σ fun x => some (m.fresh x)) (effect : a σ out σ') :
    ∃ start f, m.start? = some start ∧ m.Reaches start f ∧ f.rest = [returnZero] ∧
      f.output = out.map Int32.toInt ∧ Holds c σ' f.slots := by
  obtain ⟨start, s, started, reaches, stands, output, holds⟩ :=
    exists_started once code entry distinct initial
  obtain ⟨f, arrives⟩ := performs.forward effect holds stands
  refine ⟨start, f, started, reaches.trans arrives.reaches, arrives.stands.rest, ?_, arrives.holds⟩
  rw [arrives.output, output, List.nil_append]

theorem main_backward {σ : Store} (initial : Holds c σ fun x => some (m.fresh x)) {start f : State}
    (started : m.start? = some start) (reaches : m.Reaches start f) (returned : f.Returned) :
    ∃ out σ', a σ out σ' := by
  obtain ⟨start', s, started', reaches', stands, _, holds⟩ :=
    exists_started once code entry distinct initial
  obtain rfl := Option.some.inj (started.symm.trans started')
  obtain ⟨n, hn⟩ := reaches
  obtain ⟨r, _, returns⟩ := Machine.ReturnsIn.later ⟨f, hn, returned⟩ reaches'
  exact performs.backward holds stands returns

end Run

/-- The slot of a local of `main`. -/
def mainSlot (p : Program .bare) (x : Name) : String := p.main.name ++ "_main" ++ "_" ++ x

/-- Every scalar local of `main` has a value of its type, and its slot holds that value. -/
def MainHolds (p : Program .bare) (σ : Store) (slots : String → Option Word) : Prop :=
  ∀ v ∈ p.main.vars, v.ty.isScalar = true →
    (σ v.name).ty = v.ty ∧ slots (mainSlot p v.name) = some (σ v.name).word

def mainEnv (t : ClassTable) (l : Layout) (p : Program .bare) : Env :=
  ⟨t, l, p.main.name ++ "_main", mainLocals t⟩

section Accepted
variable {p : Program .bare} {c : Checked} {t u : ClassTable}

theorem mainHolds_iff (known : Accepted p c t) (same : ClassTable.SameDeclarations u t) (l : Layout)
    (σ : Store) (slots : String → Option Word) :
    MainHolds p σ slots ↔ Holds (mainEnv u l p) σ slots := by
  have locals := declared_mainLocals known same
  have vars : MainHolds p σ slots ↔ ∀ x ∈ p.main.vars.map (localOf false), x.ty.isScalar = true →
      (σ x.name).ty = x.ty ∧ slots (mainSlot p x.name) = some (σ x.name).word := by
    rw [List.forall_mem_map]
    rfl
  rw [vars, ← locals, List.forall_mem_map]
  rfl

theorem represents (known : Accepted p c t) (same : ClassTable.SameDeclarations u t) (l : Layout) :
    Represents (mainEnv u l p) (Typing.mainScope t) p.main.vars := by
  have locals := declared_mainLocals known same
  have distinct : ((p.main.vars.map (localOf false)).map (·.name)).Nodup := by
    rw [List.map_map]
    exact known.locals_nodup
  refine ⟨?_, ?_⟩
  · intro x v ty scalar denotes
    obtain ⟨d, hd, named⟩ := List.any_eq_true.mp scalar
    obtain ⟨named, small⟩ := Bool.and_eq_true_iff.mp named
    obtain rfl := eq_of_beq named
    cases denotes with
    | @loc i x hi hx =>
      obtain ⟨_, found, _⟩ := List.findIdx?_eq_some_iff_getElem.mp hi
      rw [locals_mainScope known] at hx
      have named : x.name = d.name := by
        simp only [locals_mainScope known] at found
        rw [(List.getElem?_eq_some_iff.mp hx).2] at found
        exact eq_of_beq found
      obtain rfl : x = localOf false d := List.inj_on_of_nodup_map distinct
        (List.mem_of_getElem? hx) (List.mem_map_of_mem hd) named
      rw [← locals, List.getElem?_map, Option.map_eq_some_iff] at hx
      obtain ⟨y, hy, declared⟩ := hx
      have ty : y.ty = d.ty := congrArg Local.ty declared
      exact ⟨i, y, rfl, hy, congrArg Local.name declared, ty, ty ▸ small⟩
    | field none _ _ _ =>
      rw [locals_mainScope known] at none
      exact absurd rfl (none _ (List.mem_map_of_mem hd))
  · rw [← locals, List.map_map] at distinct
    exact distinct

end Accepted

/-- `main` has returned 0; it has printed numbers, and its slots hold a store. -/
structure ReturnsZero (m : Machine) (p : Program .bare) (out : List Int32) (σ : Store)
    (f : State) : Prop where
  reached : ∃ start, m.start? = some start ∧ m.Reaches start f
  rest : f.rest = [returnZero]
  output : f.output = out.map Int32.toInt
  holds : MainHolds p σ f.slots

/-- The function emitted for a scalar `main` returns exactly if the body ends, and in the same
way, whatever its locals hold at first. A limit of 0 is left out, as it accepts bodies without types. -/
theorem scalar_main_preserved {o : CheckOptions} (positive : o.maxErrors ≠ some 0)
    {p : Program .bare} {c : Checked} (accepted : (check o p).result = .ok c)
    (scalar : scalarBody p.main.vars p.main.body = true) (s : Layout.Strategy) :
    ∃ t layout code functions, Layout.compute s c.table = (t, .ok layout) ∧
      (generate t layout c.program).1.functions = ⟨mainHeader, code, true⟩ :: functions ∧
      ∀ σ fresh, MainHolds p σ (fun x => some (fresh x)) →
        (∀ out σ', bodyEffect p.main.body σ out σ' → ∃ f, ReturnsZero ⟨code, fresh⟩ p out σ' f) ∧
          ∀ start f, Machine.start? ⟨code, fresh⟩ = some start →
            Machine.Reaches ⟨code, fresh⟩ start f → f.Returned →
              ∃ out σ', bodyEffect p.main.body σ out σ' ∧ ReturnsZero ⟨code, fresh⟩ p out σ' f := by
  obtain ⟨t, known⟩ := Check.exists_accepted positive accepted
  obtain ⟨u, layout, computed, prepared⟩ := known.prepared s
  have same := prepared.same
  have usable := known.usable prepared
  have body : c.program.main.body.map Stmt.bare = p.main.body :=
    congrArg (fun q : Program .bare => q.main.body) known.bare
  have env : mainEnv u layout p = ⟨u, layout, c.program.main.name ++ "_main", mainLocals u⟩ := by
    rw [mainEnv, ← known.bare]
    rfl
  obtain ⟨_, result⟩ := genStmts_succeeds c.program.main.body
    (usable.main (mainEnv u layout p).scope) { labels := {} }
  obtain ⟨functions, emitted⟩ := generate_main env result
  refine ⟨u, layout, _, functions, computed, emitted, fun σ fresh initial => ?_⟩
  generalize hm : Machine.mk _ fresh = m
  have once : m.Unambiguous := by
    rw [← hm]
    exact generate_startsOnce u layout c.program _ (emitted ▸ List.mem_cons_self)
  have code : m.code = mainCode (mainEnv u layout p)
      (genStmts (mainEnv u layout p) c.program.main.body { labels := {} }).code := by
    rw [← hm]
  have rep := represents known same layout
  have performs := genStmts_implements once rep c.program.main.body (body ▸ scalar)
    known.recorded.main (body ▸ known.typed.main) { labels := {} }
  rw [body] at performs
  have initial : Holds (mainEnv u layout p) σ fun x => some (m.fresh x) := by
    rw [← mainHolds_iff known same, ← hm]
    exact initial
  have forward : ∀ out σ', bodyEffect p.main.body σ out σ' → ∃ f, ReturnsZero m p out σ' f := by
    intro out σ' effect
    obtain ⟨start, f, started, reaches, rest, output, holds⟩ :=
      main_forward once code rfl rep.distinct performs initial effect
    exact ⟨f, ⟨start, started, reaches⟩, rest, output,
      (mainHolds_iff known same layout σ' _).mpr holds⟩
  refine ⟨forward, fun start f started reaches returned => ?_⟩
  obtain ⟨out, σ', effect⟩ :=
    main_backward once code rfl rep.distinct performs initial started reaches returned
  obtain ⟨f', zero⟩ := forward out σ' effect
  obtain ⟨start', started', reaches'⟩ := zero.reached
  obtain rfl := Option.some.inj (started.symm.trans started')
  obtain rfl : f' = f := reaches.returned_unique returned reaches' ⟨_, _, _, zero.rest⟩
  exact ⟨out, σ', effect, zero⟩

section Sample

open Check (plain exists_of_isOk)

/-- The second operand of the condition does not matter in the last round. -/
def countdown : Program .bare where
  main := ⟨1, "Main", "args", [⟨1, .int, "n"⟩, ⟨1, .boolean, "go"⟩], [
    .assign 1 "n" () (plain (.int 3)),
    .assign 1 "go" () (plain .tt),
    .while 1 (plain (.binary .and (plain (.name "go"))
        (plain (.bracket (plain (.binary .less (plain (.int 0)) (plain (.name "n"))))))))
      (.block 1 [
      .print 1 (plain (.name "n")),
      .ifElse 1 (plain (.binary .less (plain (.name "n")) (plain (.int 2))))
        (.assign 1 "go" () (plain (.not (plain (.name "go")))))
        (.assign 1 "n" () (plain (.binary .sub (plain (.name "n")) (plain (.int 1)))))]),
    .print 1 (plain (.binary .mul (plain (.name "n")) (plain (.int 5))))]⟩
  classes := []

def zeros : Store := fun x => if x = "go" then .boolean false else .int 0

def zeroed : String → Word := fun x => if x = mainSlot countdown "go" then .i1 0 else .i32 0

theorem countdown_initial : MainHolds countdown zeros fun x => some (zeroed x) := by
  intro v hv _
  simp only [countdown, List.mem_cons, List.not_mem_nil, or_false] at hv
  rcases hv with rfl | rfl
  · exact ⟨rfl, by decide⟩
  · exact ⟨rfl, by decide⟩

theorem countdown_effect :
    ∃ out σ, bodyEffect countdown.main.body zeros out σ ∧ out = [3, 2, 1, 5] :=
  ⟨_, _, .rule (.rule rfl) (.rule (.rule rfl) (.rule
    (.again rfl (.rule (.rule rfl) (.rule (.no rfl (.rule rfl)) .rule))
      (.again rfl (.rule (.rule rfl) (.rule (.no rfl (.rule rfl)) .rule))
        (.again rfl (.rule (.rule rfl) (.rule (.yes rfl (.rule rfl)) .rule)) (.done rfl))))
    (.rule (.rule rfl) .rule))), by rfl⟩

theorem scalar_main_preserved_countdown :
    ∃ c t layout code functions, (check {} countdown).result = .ok c ∧
      Layout.compute .parentPrefix c.table = (t, .ok layout) ∧
        (generate t layout c.program).1.functions = ⟨mainHeader, code, true⟩ :: functions ∧
          ∃ σ f, ReturnsZero ⟨code, zeroed⟩ countdown [3, 2, 1, 5] σ f := by
  obtain ⟨c, accepted⟩ := exists_of_isOk (x := (check {} countdown).result) (by decide +kernel)
  obtain ⟨t, layout, code, functions, computed, emitted, preserved⟩ :=
    scalar_main_preserved (by decide) accepted (by decide +kernel) .parentPrefix
  obtain ⟨out, σ, effect, rfl⟩ := countdown_effect
  obtain ⟨f, zero⟩ := (preserved zeros zeroed countdown_initial).1 _ σ effect
  exact ⟨c, t, layout, code, functions, accepted, computed, emitted, σ, f, zero⟩

end Sample

end MiniJava.Codegen
