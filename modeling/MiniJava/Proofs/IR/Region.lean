import MiniJava.Proofs.IR.Dominance
import MiniJava.Proofs.IR.Typing

/-!
# Regions

A region is a piece of code that is entered at its first line and left behind its last one, and in
which every operand has been given a type on the way. Single instructions are regions, and so are
choices, loops and checks with regions inside. What branches, phis, types and temporaries have to
satisfy in a function follows for every region from the regions inside it.
-/
namespace MiniJava.IR

/-- What is known between two lines: the next temporary, the block, and the names that have a type
however the lines were reached. -/
structure Point where
  temps : Nat
  block : Label
  known : Names

namespace Point

/-- Every temporary that is known has been set. -/
def Covered (p : Point) (set : List Nat) : Prop := ∀ n ty, (Value.temp n, ty) ∈ p.known → n ∈ set

/-- After the next temporary was set to a value of a type. -/
def define (p : Point) (ty : IRType) : Point :=
  ⟨p.temps + 1, p.block, (.temp p.temps, ty) :: p.known⟩

/-- At the start of a block that was branched to. -/
def enter (p : Point) (l : Label) : Point := { p with block := l }

/-- Where different ways come together, with what was known in front of them. -/
def join (p : Point) (l : Label) (q : Point) : Point := ⟨q.temps, l, p.known⟩

end Point

/-- The instruction goes on to the next line and introduces no name. -/
def Instr.plain : Instr → Bool
  | .store .. | .call .. => true
  | .alloca .. | .set .. | .jump _ | .branch .. | .ret .. | .unreachable => false

inductive Region : Point → List Line → Point → Prop
  | nil (p : Point) : Region p [] p
  | instr {p : Point} {i : Instr} : i.plain = true → i.Typed p.known → Region p [.instr i] p
  | set {p : Point} {rhs : Rhs} {ty : IRType} : rhs.phi? = none → rhs.Typed p.known →
      rhs.type? = some ty → ty ≠ .void → Region p [.instr (.set p.temps rhs)] (p.define ty)
  | append {p q r : Point} {code code' : List Line} : Region p code q → Region q code' r →
      Region p (code ++ code') r
  | and {p q r : Point} {code code' : List Line} {rhs fin : Label} {v w : Value} :
      Region p code q → v.HasType q.known .i1 →
      Region (q.enter rhs) code' r → w.HasType r.known .i1 →
      Region p (code ++ .instr (.branch v rhs fin) :: .label rhs :: (code' ++
        [.instr (.jump fin), .label fin,
          .instr (.set r.temps (.phi .i1 [(.bool false, q.block), (w, r.block)]))]))
        ((q.join fin r).define .i1)
  | ifElse {p q r s : Point} {code code' code'' : List Line} {yes no fin : Label} {v : Value} :
      Region p code q → v.HasType q.known .i1 →
      Region (q.enter yes) code' r → Region (q.join no r) code'' s →
      Region p (code ++ .instr (.branch v yes no) :: .label yes :: (code' ++ .instr (.jump fin) ::
        .label no :: (code'' ++ [.instr (.jump fin), .label fin]))) (q.join fin s)
  | loop {p q r : Point} {code code' : List Line} {cond body fin : Label} {v : Value} :
      Region (p.enter cond) code q → v.HasType q.known .i1 → Region (q.enter body) code' r →
      Region p (.instr (.jump cond) :: .label cond :: (code ++ .instr (.branch v body fin) ::
        .label body :: (code' ++ [.instr (.jump cond), .label fin]))) (q.join fin r)
  | check {p : Point} {ok err : Label} {v : Value} {i : Instr} : v.HasType p.known .i1 →
      i.plain = true → i.Typed p.known →
      Region p [.instr (.branch v ok err), .label err, .instr i, .instr .unreachable, .label ok]
        (p.enter ok)

section Plain
variable {i : Instr} (h : i.plain = true)
include h

theorem Instr.ends_of_plain : i.ends = false := by
  cases i with
  | store ty v ptr => rfl
  | call ty callee args => rfl
  | _ => cases h

theorem Instr.phi?_of_plain : i.phi? = none := by
  cases i with
  | set n rhs => cases h
  | _ => rfl

theorem Instr.sets_of_plain : i.sets = [] := by
  cases i with
  | set n rhs => cases h
  | _ => rfl

theorem Instr.declares_of_plain : i.declares = [] := by
  cases i with
  | alloca slot ty => cases h
  | set n rhs => cases h
  | _ => rfl

end Plain

theorem CallTyped.operands {names : Names} {ty : IRType} {callee : Value}
    {args : List (IRType × Value)} (h : CallTyped names ty callee args) :
    ∀ v ∈ callee :: args.map Prod.snd, ∃ ty, v.HasType names ty := by
  refine List.forall_mem_cons.mpr ⟨⟨_, h.1⟩, List.forall_mem_map.mpr fun a ha => ⟨_, h.2 a ha⟩⟩

theorem Rhs.Typed.operands {names : Names} {rhs : Rhs} (h : rhs.Typed names) :
    ∀ v ∈ rhs.operands, ∃ ty, v.HasType names ty := by
  cases rhs with
  | load ty ptr => exact List.forall_mem_singleton.mpr ⟨_, h⟩
  | arith op ty a b =>
    exact List.forall_mem_cons.mpr ⟨⟨_, h.2.1⟩, List.forall_mem_singleton.mpr ⟨_, h.2.2⟩⟩
  | compare cond ty a b =>
    exact List.forall_mem_cons.mpr ⟨⟨_, h.2.1⟩, List.forall_mem_singleton.mpr ⟨_, h.2.2⟩⟩
  | cast op source v target => exact List.forall_mem_singleton.mpr ⟨_, h.2⟩
  | address ty base path => exact List.forall_mem_cons.mpr ⟨⟨_, h.1⟩, fun i hi => ⟨_, h.2 i hi⟩⟩
  | call ty callee args => exact CallTyped.operands h
  | phi ty incoming => exact fun v hv => (by cases hv)

theorem Instr.Typed.operands {names : Names} {i : Instr} (h : i.Typed names) :
    ∀ v ∈ i.operands, ∃ ty, v.HasType names ty := by
  cases i with
  | set n rhs => exact h.1.operands
  | store ty v ptr =>
    exact List.forall_mem_cons.mpr ⟨⟨_, h.1⟩, List.forall_mem_singleton.mpr ⟨_, h.2⟩⟩
  | call ty callee args =>
    obtain ⟨_, _, typed⟩ := h
    exact typed.operands
  | branch cond yes no => exact List.forall_mem_singleton.mpr ⟨_, h⟩
  | ret ty v => exact List.forall_mem_singleton.mpr ⟨_, h⟩
  | alloca slot ty => exact fun v hv => (by cases hv)
  | jump l => exact fun v hv => (by cases hv)
  | «unreachable» => exact fun v hv => (by cases hv)

namespace Point
variable {p : Point} {set set' : List Nat}

theorem Covered.define (h : p.Covered set) (ty : IRType) :
    (p.define ty).Covered (p.temps :: set) := by
  intro n ty' hn
  rcases List.mem_cons.mp hn with same | hn
  · obtain rfl := Value.temp.inj (Prod.mk.inj same).1
    exact List.mem_cons_self
  · exact List.mem_cons_of_mem _ (h n ty' hn)

theorem Covered.mem (h : p.Covered set) {n : Nat} {ty : IRType}
    (typed : (Value.temp n).HasType p.known ty) : n ∈ set := by
  cases typed with
  | named hn => exact h n ty hn

section Keeping
variable {claims : List Claim} {i : Instr} {v : Value} {l l' : Label} (h : p.Covered set)
include h

/-- An instruction that is no phi reads what is known. -/
theorem Covered.keeping (typed : ∀ v ∈ i.operands, ∃ ty, v.HasType p.known ty)
    (plain : i.phi? = none) (edges : ∀ l ∈ i.targets, Leads claims p.block set l) :
    Keeping claims p.block set i where
  operands := by
    intro n hn
    obtain ⟨ty, hty⟩ := typed _ hn
    exact h.mem hty
  phi := by
    intro incoming phi
    rw [plain] at phi
    cases phi
  edges := edges

theorem Covered.plain (plain : i.plain = true) (typed : i.Typed p.known) :
    Keeping claims p.block set i := by
  refine h.keeping typed.operands (Instr.phi?_of_plain plain) ?_
  rw [targets_of_not_ends (Instr.ends_of_plain plain)]
  exact fun l hl => (by cases hl)

theorem Covered.jump (leads : Leads claims p.block set l) :
    Keeping claims p.block set (.jump l) :=
  h.keeping (fun v hv => (by cases hv)) rfl (List.forall_mem_singleton.mpr leads)

theorem Covered.branch (typed : v.HasType p.known .i1) (yes : Leads claims p.block set l)
    (no : Leads claims p.block set l') : Keeping claims p.block set (.branch v l l') :=
  h.keeping (List.forall_mem_singleton.mpr ⟨_, typed⟩) rfl
    (List.forall_mem_cons.mpr ⟨yes, List.forall_mem_singleton.mpr no⟩)

end Keeping

end Point

theorem Kept.plain {claims : List Claim} {b b' : Label} {set set' : List Nat} {i : Instr}
    {code : List Line} (plain : i.plain = true) (keeping : Keeping claims b set i)
    (h : Kept claims b set code b' set') : Kept claims b set (.instr i :: code) b' set' := by
  refine .instr keeping ?_
  rw [Instr.sets_of_plain plain]
  exact h

namespace Region
variable {p q : Point} {code : List Line}

/-- Regions are pieces of a control-flow graph. -/
theorem linked (h : Region p code q) : Linked p.block code q.block := by
  induction h with
  | nil p => exact .nil p.block
  | instr plain _ => exact .instr _ (Instr.ends_of_plain plain) (Instr.phi?_of_plain plain)
  | set plain _ _ _ => exact .instr _ rfl plain
  | append _ _ ih ih' => exact ih.append ih'
  | and _ _ _ _ ih ih' => exact ih.and ih'
  | ifElse _ _ _ _ ih ih' ih'' => exact ih.ifElse ih' ih''
  | loop _ _ _ ih ih' => exact .loop ih ih'
  | check _ plain _ =>
    exact .check (Instr.ends_of_plain plain) (Instr.phi?_of_plain plain)

/-- Nothing that is known is forgotten. -/
theorem known_subset (h : Region p code q) : p.known ⊆ q.known := by
  induction h with
  | nil p => exact List.Subset.refl _
  | instr _ _ => exact List.Subset.refl _
  | set _ _ _ _ => exact List.subset_cons_self _ _
  | append _ _ ih ih' => exact List.Subset.trans ih ih'
  | and _ _ _ _ ih _ => exact List.Subset.trans ih (List.subset_cons_self _ _)
  | ifElse _ _ _ _ ih _ _ => exact ih
  | loop _ _ _ ih _ => exact ih
  | check _ _ _ => exact List.Subset.refl _

/-- Temporaries are set in the order of their numbers, and none is left out. -/
theorem temporaries (h : Region p code q) :
    ∃ n, q.temps = p.temps + n ∧ IR.temporaries code = List.range' p.temps n := by
  induction h with
  | nil p => exact ⟨0, rfl, rfl⟩
  | instr plain _ =>
    refine ⟨0, rfl, ?_⟩
    rw [temporaries_cons, Line.sets, Instr.sets_of_plain plain]
    rfl
  | set _ _ _ _ => exact ⟨1, rfl, rfl⟩
  | append _ _ ih ih' =>
    obtain ⟨n, hn, first⟩ := ih
    obtain ⟨m, hm, second⟩ := ih'
    refine ⟨n + m, by omega, ?_⟩
    rw [temporaries_append, first, second, hn, List.range'_append_1]
  | and _ _ _ _ ih ih' =>
    obtain ⟨n, hn, first⟩ := ih
    obtain ⟨m, hm, second⟩ := ih'
    simp only [Point.enter] at hm second
    refine ⟨n + (m + 1), by simp only [Point.define, Point.join]; omega, ?_⟩
    simp only [temporaries_append, temporaries_cons, Line.sets, Instr.sets, first, second,
      List.nil_append, hm, hn]
    rw [← List.range'_append_1, ← List.range'_append_1]
    rfl
  | ifElse _ _ _ _ ih ih' ih'' =>
    obtain ⟨n, hn, first⟩ := ih
    obtain ⟨m, hm, second⟩ := ih'
    obtain ⟨o, ho, third⟩ := ih''
    simp only [Point.enter, Point.join] at hm second ho third
    refine ⟨n + (m + o), by simp only [Point.join]; omega, ?_⟩
    simp only [temporaries_append, temporaries_cons, Line.sets, Instr.sets, first, second, third,
      List.nil_append, hm, hn]
    rw [← List.range'_append_1, ← List.range'_append_1]
    exact congrArg _ (congrArg _ (List.append_nil _))
  | loop _ _ _ ih ih' =>
    obtain ⟨n, hn, first⟩ := ih
    obtain ⟨m, hm, second⟩ := ih'
    simp only [Point.enter] at hn first hm second
    refine ⟨n + m, by simp only [Point.join]; omega, ?_⟩
    simp only [temporaries_append, temporaries_cons, Line.sets, Instr.sets, first, second,
      List.nil_append, hn]
    rw [← List.range'_append_1]
    exact congrArg _ (List.append_nil _)
  | check _ plain _ =>
    refine ⟨0, rfl, ?_⟩
    simp only [temporaries_cons, Line.sets, Instr.sets_of_plain plain]
    rfl

/-- Only temporaries are introduced. -/
theorem declared_sublist (h : Region p code q) :
    ((declared code).map Prod.fst).Sublist ((IR.temporaries code).map .temp) := by
  induction h with
  | nil p => exact .slnil
  | @instr p i plain _ =>
    rw [declared_cons, Line.declares, Instr.declares_of_plain plain]
    exact List.nil_sublist _
  | @set p rhs ty _ _ hty _ =>
    rw [declared_cons, Line.declares, Instr.declares, hty]
    exact .refl _
  | append _ _ ih ih' =>
    rw [declared_append, temporaries_append, List.map_append, List.map_append]
    exact ih.append ih'
  | and _ _ _ _ ih ih' =>
    simp only [declared_append, declared_cons, temporaries_append, temporaries_cons,
      List.map_append]
    exact ih.append (ih'.append (.refl _))
  | ifElse _ _ _ _ ih ih' ih'' =>
    simp only [declared_append, declared_cons, temporaries_append, temporaries_cons,
      List.map_append]
    exact ih.append (ih'.append (ih''.append (.refl _)))
  | loop _ _ _ ih ih' =>
    simp only [declared_append, declared_cons, temporaries_append, temporaries_cons,
      List.map_append]
    exact ih.append (ih'.append (.refl _))
  | check _ plain _ =>
    simp only [declared_cons, Line.declares, Instr.declares_of_plain plain]
    exact List.nil_sublist _

/-- A region is left behind its last line only. -/
theorem not_ret (h : Region p code q) (ty : IRType) (v : Value) : .instr (.ret ty v) ∉ code := by
  induction h with
  | nil p => exact List.not_mem_nil
  | instr plain _ =>
    intro hi
    obtain rfl := Line.instr.inj (List.mem_singleton.mp hi)
    cases plain
  | set _ _ _ _ => simp
  | append _ _ ih ih' => simp [ih, ih']
  | and _ _ _ _ ih ih' => simp [ih, ih']
  | ifElse _ _ _ _ ih ih' ih'' => simp [ih, ih', ih'']
  | loop _ _ _ ih ih' => simp [ih, ih']
  | check _ plain _ =>
    intro hi
    simp only [List.mem_cons, reduceCtorEq, Line.instr.injEq, false_or, List.not_mem_nil,
      or_false] at hi
    subst hi
    cases plain

/-- If all names of a region have the types that they are introduced with, its instructions are
typed. -/
theorem typed (h : Region p code q) {names : Names} (known : p.known ⊆ names)
    (introduced : declared code ⊆ names) : q.known ⊆ names ∧ LinesTyped names code := by
  induction h with
  | nil p => exact ⟨known, .nil⟩
  | instr _ typed => exact ⟨known, .instr (typed.mono known) .nil⟩
  | @set p rhs ty plain typed hty value =>
    have named : (.temp p.temps, ty) ∈ names :=
      introduced (by simp [declared, Line.declares, Instr.declares, hty])
    exact ⟨List.cons_subset.mpr ⟨named, known⟩,
      .instr ⟨typed.mono known, ty, hty, value, .named named⟩ .nil⟩
  | append _ _ ih ih' =>
    rw [declared_append, List.append_subset] at introduced
    obtain ⟨known, first⟩ := ih known introduced.1
    obtain ⟨known, second⟩ := ih' known introduced.2
    exact ⟨known, first.append second⟩
  | @and p q r _ _ _ fin _ w _ hv _ hw ih ih' =>
    simp only [declared_append, declared_cons, Line.declares, Instr.declares, List.nil_append,
      List.append_subset] at introduced
    obtain ⟨known, first⟩ := ih known introduced.1
    obtain ⟨known', second⟩ := ih' known introduced.2.1
    have named : (.temp r.temps, .i1) ∈ names := introduced.2.2.1 (by simp [Rhs.type?])
    have phi : Instr.Typed names (.set r.temps (.phi .i1 [(.bool false, q.block), (w, r.block)])) :=
      ⟨⟨rfl, List.forall_mem_cons.mpr ⟨.bool false, List.forall_mem_singleton.mpr
        (hw.mono known')⟩⟩, .i1, rfl, by simp, .named named⟩
    have joined := LinesTyped.instr (i := .jump fin) trivial (.label fin (.instr phi .nil))
    exact ⟨List.cons_subset.mpr ⟨named, known⟩,
      first.append (.instr (hv.mono known) (.label _ (second.append joined)))⟩
  | ifElse _ hv _ _ ih ih' ih'' =>
    simp only [declared_append, declared_cons, Line.declares, Instr.declares, List.nil_append,
      List.append_subset] at introduced
    obtain ⟨known, first⟩ := ih known introduced.1
    obtain ⟨_, second⟩ := ih' known introduced.2.1
    obtain ⟨_, third⟩ := ih'' known introduced.2.2.1
    exact ⟨known, first.append (.instr (hv.mono known) (.label _ (second.append
      (.instr trivial (.label _ (third.append (.instr trivial (.label _ .nil))))))))⟩
  | loop _ hv _ ih ih' =>
    simp only [declared_append, declared_cons, Line.declares, Instr.declares, List.nil_append,
      List.append_subset] at introduced
    obtain ⟨known, first⟩ := ih known introduced.1
    obtain ⟨_, second⟩ := ih' known introduced.2.1
    exact ⟨known, .instr trivial (.label _ (first.append (.instr (hv.mono known)
      (.label _ (second.append (.instr trivial (.label _ .nil)))))))⟩
  | check hv plain typed =>
    exact ⟨known, .instr (hv.mono known) (.label _ (.instr (typed.mono known)
      (.instr trivial (.label _ .nil))))⟩

end Region

theorem lastBlock_mem (b : Label) (code : List Line) : lastBlock b code ∈ b :: started code := by
  induction code generalizing b with
  | nil => exact List.mem_cons_self
  | cons line code ih =>
    cases line with
    | label m => exact List.mem_cons_of_mem _ (ih m)
    | instr i => exact ih b

/-- If no block is started twice, there are claims that the lines keep to: what is known at the
start has been set there, and so has at the end what is known at the end. -/
def Claimable (p : Point) (code : List Line) (q : Point) : Prop :=
  (p.block :: started code).Nodup → ∀ set, p.Covered set → ∃ claims set',
    claims.map Claim.label = started code ∧ Kept claims p.block set code q.block set' ∧
      set ⊆ set' ∧ q.Covered set'

namespace Claimable
variable {p q r s : Point} {code code' code'' : List Line} {v w : Value}

theorem nil (p : Point) : Claimable p [] p :=
  fun _ set covered => ⟨[], set, rfl, .nil _ _, List.Subset.refl _, covered⟩

theorem instr {i : Instr} (plain : i.plain = true) (typed : i.Typed p.known) :
    Claimable p [.instr i] p :=
  fun _ set covered => ⟨[], set, rfl, .plain plain (covered.plain plain typed) (.nil _ _),
    List.Subset.refl _, covered⟩

theorem set {rhs : Rhs} (plain : rhs.phi? = none) (typed : rhs.Typed p.known) (ty : IRType) :
    Claimable p [.instr (.set p.temps rhs)] (p.define ty) := by
  intro _ set covered
  have keeping : Keeping [] p.block set (.set p.temps rhs) :=
    covered.keeping (i := .set p.temps rhs) typed.operands plain fun l hl => (by cases hl)
  exact ⟨[], p.temps :: set, rfl, .instr keeping (.nil _ _), List.subset_cons_self _ _,
    covered.define ty⟩

theorem append (h : Claimable p code q) (entered : q.block ∈ p.block :: started code)
    (h' : Claimable q code' r) : Claimable p (code ++ code') r := by
  intro once set covered
  rw [started_append, ← List.cons_append] at once
  obtain ⟨once₁, once₂, apart⟩ := List.nodup_append.mp once
  obtain ⟨claims₁, set₁, labels₁, kept₁, more₁, covered₁⟩ := h once₁ set covered
  obtain ⟨claims₂, set₂, labels₂, kept₂, more₂, covered₂⟩ :=
    h' (List.nodup_cons.mpr ⟨fun again => apart _ entered _ again rfl, once₂⟩) set₁ covered₁
  refine ⟨claims₁ ++ claims₂, set₂, ?_, ?_, List.Subset.trans more₁ more₂, covered₂⟩
  · rw [List.map_append, labels₁, labels₂, started_append]
  · exact (kept₁.mono (List.subset_append_left _ _)).append
      (kept₂.mono (List.subset_append_right _ _))

/-- The phi reads in the block that it is entered from, so what the second operand sets is claimed
for one way only. -/
theorem and {rhs fin : Label} (h : Claimable p code q) (hv : v.HasType q.known .i1)
    (decided : q.block ∈ p.block :: started code) (h' : Claimable (q.enter rhs) code' r)
    (hw : w.HasType r.known .i1) (computed : r.block ∈ rhs :: started code') :
    Claimable p (code ++ .instr (.branch v rhs fin) :: .label rhs :: (code' ++
      [.instr (.jump fin), .label fin,
        .instr (.set r.temps (.phi .i1 [(.bool false, q.block), (w, r.block)]))]))
      ((q.join fin r).define .i1) := by
  intro once set covered
  have once : ((p.block :: started code) ++ ((rhs :: started code') ++ [fin])).Nodup := by
    simpa [started_append, started] using once
  obtain ⟨once₁, once₂, apart⟩ := List.nodup_append.mp once
  have other : q.block ≠ r.block := fun same =>
    apart _ decided _ (List.mem_append_left _ computed) same
  obtain ⟨claims₁, set₁, labels₁, kept₁, more₁, covered₁⟩ := h once₁ set covered
  obtain ⟨claims₂, set₂, labels₂, kept₂, more₂, covered₂⟩ :=
    h' (List.nodup_append.mp once₂).1 set₁ covered₁
  generalize hin : [(Value.bool false, q.block), (w, r.block)] = incoming
  generalize hclaims : claims₁ ++ ⟨rhs, set₁, []⟩ :: (claims₂ ++ [⟨fin, set₁, incoming⟩]) = claims
  have sub₁ : claims₁ ⊆ claims := fun c hc => by simp [← hclaims, hc]
  have sub₂ : claims₂ ⊆ claims := fun c hc => by simp [← hclaims, hc]
  have first : ⟨rhs, set₁, []⟩ ∈ claims := by simp [← hclaims]
  have last : ⟨fin, set₁, incoming⟩ ∈ claims := by simp [← hclaims]
  have branch : Keeping claims q.block set₁ (.branch v rhs fin) := by
    refine covered₁.branch hv (.of_mem first (List.Subset.refl _))
      ⟨_, last, rfl, List.Subset.refl _, fun n hn => ?_⟩
    exact absurd hn (by simp [← hin, other])
  have jump : Keeping claims r.block set₂ (.jump fin) := by
    refine covered₂.jump ⟨_, last, rfl, more₂, fun n hn => ?_⟩
    obtain rfl : w = .temp n := by simpa [← hin, eq_comm] using hn
    exact covered₂.mem hw
  have phi : Keeping claims fin set₁ (.set r.temps (.phi .i1 incoming)) := by
    refine ⟨fun n hn => (by cases hn), fun incoming' h => ?_, fun l hl => (by cases hl)⟩
    obtain rfl := Option.some.inj h
    exact ⟨_, last, rfl, rfl⟩
  refine ⟨claims, r.temps :: set₁, ?_, ?_, ?_, ?_⟩
  · simp [← hclaims, labels₁, labels₂, started_append, started]
  · exact (kept₁.mono sub₁).append (.instr branch (.label first
      ((kept₂.mono sub₂).append (.instr jump (.label last (.instr phi (.nil _ _)))))))
  · exact List.Subset.trans more₁ (List.subset_cons_self _ _)
  · exact Point.Covered.define (p := q.join fin r) covered₁ .i1

theorem ifElse {yes no fin : Label} (h : Claimable p code q) (hv : v.HasType q.known .i1)
    (h' : Claimable (q.enter yes) code' r) (h'' : Claimable (q.join no r) code'' s) :
    Claimable p (code ++ .instr (.branch v yes no) :: .label yes :: (code' ++
      .instr (.jump fin) :: .label no :: (code'' ++ [.instr (.jump fin), .label fin])))
      (q.join fin s) := by
  intro once set covered
  have once : ((p.block :: started code) ++ ((yes :: started code') ++
      ((no :: started code'') ++ [fin]))).Nodup := by
    simpa [started_append, started] using once
  obtain ⟨once₁, once₂, _⟩ := List.nodup_append.mp once
  obtain ⟨once₂, once₃, _⟩ := List.nodup_append.mp once₂
  obtain ⟨once₃, _, _⟩ := List.nodup_append.mp once₃
  obtain ⟨claims₁, set₁, labels₁, kept₁, more₁, covered₁⟩ := h once₁ set covered
  obtain ⟨claims₂, set₂, labels₂, kept₂, more₂, covered₂⟩ := h' once₂ set₁ covered₁
  obtain ⟨claims₃, set₃, labels₃, kept₃, more₃, covered₃⟩ := h'' once₃ set₁ covered₁
  generalize hclaims : claims₁ ++ ⟨yes, set₁, []⟩ :: (claims₂ ++ ⟨no, set₁, []⟩ ::
    (claims₃ ++ [⟨fin, set₁, []⟩])) = claims
  have sub₁ : claims₁ ⊆ claims := fun c hc => by simp [← hclaims, hc]
  have sub₂ : claims₂ ⊆ claims := fun c hc => by simp [← hclaims, hc]
  have sub₃ : claims₃ ⊆ claims := fun c hc => by simp [← hclaims, hc]
  have first : ⟨yes, set₁, []⟩ ∈ claims := by simp [← hclaims]
  have second : ⟨no, set₁, []⟩ ∈ claims := by simp [← hclaims]
  have last : ⟨fin, set₁, []⟩ ∈ claims := by simp [← hclaims]
  have branch := covered₁.branch hv (.of_mem first (List.Subset.refl _))
    (.of_mem second (List.Subset.refl _))
  refine ⟨claims, set₁, ?_, ?_, more₁, covered₁⟩
  · simp [← hclaims, labels₁, labels₂, labels₃, started_append, started]
  · exact (kept₁.mono sub₁).append (.instr branch (.label first ((kept₂.mono sub₂).append
      (.instr (covered₂.jump (.of_mem last more₂)) (.label second ((kept₃.mono sub₃).append
        (.instr (covered₃.jump (.of_mem last more₃)) (.label last (.nil _ _)))))))))

/-- The block of the condition claims what was known in front of the loop; the body comes back to
it with more. -/
theorem loop {cond body fin : Label} (h : Claimable (p.enter cond) code q)
    (hv : v.HasType q.known .i1) (h' : Claimable (q.enter body) code' r) :
    Claimable p (.instr (.jump cond) :: .label cond :: (code ++ .instr (.branch v body fin) ::
      .label body :: (code' ++ [.instr (.jump cond), .label fin]))) (q.join fin r) := by
  intro once set covered
  have once : (p.block :: ((cond :: started code) ++
      ((body :: started code') ++ [fin]))).Nodup := by
    simpa [started_append, started] using once
  obtain ⟨once₁, once₂, _⟩ := List.nodup_append.mp (List.nodup_cons.mp once).2
  obtain ⟨once₂, _, _⟩ := List.nodup_append.mp once₂
  obtain ⟨claims₁, set₁, labels₁, kept₁, more₁, covered₁⟩ := h once₁ set covered
  obtain ⟨claims₂, set₂, labels₂, kept₂, more₂, covered₂⟩ := h' once₂ set₁ covered₁
  generalize hclaims : ⟨cond, set, []⟩ :: (claims₁ ++ ⟨body, set₁, []⟩ ::
    (claims₂ ++ [⟨fin, set₁, []⟩])) = claims
  have sub₁ : claims₁ ⊆ claims := fun c hc => by simp [← hclaims, hc]
  have sub₂ : claims₂ ⊆ claims := fun c hc => by simp [← hclaims, hc]
  have first : ⟨cond, set, []⟩ ∈ claims := by simp [← hclaims]
  have second : ⟨body, set₁, []⟩ ∈ claims := by simp [← hclaims]
  have last : ⟨fin, set₁, []⟩ ∈ claims := by simp [← hclaims]
  have branch := covered₁.branch hv (.of_mem second (List.Subset.refl _))
    (.of_mem last (List.Subset.refl _))
  refine ⟨claims, set₁, ?_, ?_, more₁, covered₁⟩
  · simp [← hclaims, labels₁, labels₂, started_append, started]
  · exact .instr (covered.jump (.of_mem first (List.Subset.refl _))) (.label first
      ((kept₁.mono sub₁).append (.instr branch (.label second ((kept₂.mono sub₂).append
        (.instr (covered₂.jump (.of_mem first (List.Subset.trans more₁ more₂)))
          (.label last (.nil _ _))))))))

theorem check {ok err : Label} {i : Instr} (hv : v.HasType p.known .i1) (plain : i.plain = true)
    (typed : i.Typed p.known) :
    Claimable p [.instr (.branch v ok err), .label err, .instr i, .instr .unreachable, .label ok]
      (p.enter ok) := by
  intro _ set covered
  generalize hclaims : [Claim.mk err set [], ⟨ok, set, []⟩] = claims
  have first : ⟨err, set, []⟩ ∈ claims := by simp [← hclaims]
  have last : ⟨ok, set, []⟩ ∈ claims := by simp [← hclaims]
  have branch := covered.branch hv (.of_mem last (List.Subset.refl _))
    (.of_mem first (List.Subset.refl _))
  have stop : Keeping claims err set i :=
    Point.Covered.plain (p := p.enter err) covered plain typed
  refine ⟨claims, set, by rw [← hclaims]; rfl, ?_, List.Subset.refl _, covered⟩
  exact .instr branch (.label first (.plain plain stop (.instr ⟨fun n hn => (by cases hn),
    fun _ h => (by cases h), fun l hl => (by cases hl)⟩ (.label last (.nil _ _)))))

end Claimable

namespace Region
variable {p q : Point} {code : List Line}

/-- A region ends in the block that it begins in or in one that it starts. -/
theorem block_mem (h : Region p code q) : q.block ∈ p.block :: started code :=
  h.linked.last ▸ lastBlock_mem _ _

/-- The blocks of a region keep to what is known where they are entered. -/
theorem claimable (h : Region p code q) : Claimable p code q := by
  induction h with
  | nil p => exact .nil p
  | instr plain typed => exact .instr plain typed
  | set plain typed _ _ => exact .set plain typed _
  | append h _ ih ih' => exact ih.append h.block_mem ih'
  | and h hv h' hw ih ih' => exact ih.and hv h.block_mem ih' hw h'.block_mem
  | ifElse _ hv _ _ ih ih' ih'' => exact ih.ifElse hv ih' ih''
  | loop _ hv _ ih ih' => exact .loop ih hv ih'
  | check hv plain typed => exact .check hv plain typed

end Region

end MiniJava.IR
