import Mathlib.Data.List.Pairwise
import MiniJava.FileSystem

/-!
# Files before and after a write

A write changes what one file holds, or puts one new file where there was nothing. Everything else
stands where it stood, so whatever path led somewhere leads there still, and the other files read as
before. Links and files that stand at several places are no exception: what counts is the file that a
path leads to.
-/
namespace MiniJava.FileSystem

section Entries
variable {s : FileSystem} {p q : Place} {id : FileId} {bytes : ByteArray}

theorem node?_eq_some_iff {n : Node} : s.node? p = some n ↔ s.item? p = some (.node n) := by
  rw [node?]
  split <;> simp_all

theorem mem_entries {e : Entry} (below : p ≠ []) (h : s.item? p = some e) : (p, e) ∈ s.entries := by
  rw [item?, if_neg below] at h
  obtain ⟨before, after, split, _⟩ := List.lookup_eq_some_iff.mp h
  rw [split]
  exact List.mem_append_right before List.mem_cons_self

theorem ne_nil_of_file (h : s.item? p = some (.node (.file id))) : p ≠ [] := by
  rintro rfl
  cases h

/-- A new number is above all that are in use. -/
theorem lt_fresh (h : s.item? p = some (.node (.file id))) : id < s.fresh := by
  have above : ∀ ids : List FileId, id ∈ ids → id < ids.foldr (fun id n => max (id + 1) n) 0 := by
    intro ids member
    induction ids with
    | nil => cases member
    | cons i ids ih =>
      rw [List.foldr_cons]
      obtain rfl | member := List.mem_cons.mp member
      · exact Nat.lt_of_lt_of_le (Nat.lt_succ_self id) (Nat.le_max_left _ _)
      · exact Nat.lt_of_lt_of_le (ih member) (Nat.le_max_right _ _)
  refine above _ (List.mem_filterMap.mpr ⟨(p, .node (.file id)), ?_, rfl⟩)
  exact mem_entries (ne_nil_of_file h) h

theorem item?_create (free : s.item? p = none) :
    (s.create p bytes).item? q =
      if q = p then some (.node (.file s.fresh)) else s.item? q := by
  have below : p ≠ [] := by
    rintro rfl
    cases free
  rw [item?, if_neg below] at free
  rw [item?, item?, create, List.lookup_append]
  by_cases here : q = p
  · subst here
    rw [if_neg below, if_pos rfl, free]
    simp
  · rw [if_neg here, List.lookup_cons, beq_false_of_ne here]
    simp

theorem content_replace {other : FileId} :
    (s.replace id bytes).content other = if other = id then bytes else s.content other := by
  rw [content, replace, List.lookup_cons]
  by_cases same : other = id
  · simp [same]
  · simp [same, beq_false_of_ne same, content]

/-- A created file holds what a replaced one holds. -/
theorem content_create {other : FileId} :
    (s.create p bytes).content other = (s.replace s.fresh bytes).content other := rfl

end Entries

/-- What stood at a place stands there still, and no link is new. -/
structure Kept (s s' : FileSystem) : Prop where
  current : s'.current = s.current
  stdin : s'.stdin = s.stdin
  entries : ∀ p e, s.item? p = some e → s'.item? p = some e
  links : ∀ p target, s'.item? p = some (.link target) → s.item? p = some (.link target)

theorem kept_refl (s : FileSystem) : s.Kept s := ⟨rfl, rfl, fun _ _ h => h, fun _ _ h => h⟩

theorem kept_replace (s : FileSystem) (id : FileId) (bytes : ByteArray) : s.Kept (s.replace id bytes) :=
  ⟨rfl, rfl, fun _ _ h => h, fun _ _ h => h⟩

theorem kept_create {s : FileSystem} {p : Place} (free : s.item? p = none) (bytes : ByteArray) :
    s.Kept (s.create p bytes) where
  current := rfl
  stdin := rfl
  entries q e h := by
    rw [item?_create free, if_neg, h]
    rintro rfl
    rw [free] at h
    cases h
  links q target h := by
    rw [item?_create free] at h
    split at h
    · cases h
    · exact h

/-- Where names lead from a place, through so many links at most. -/
inductive Leads (s : FileSystem) (create : Bool) : Nat → Place → List String → Place → Prop
  | arrive {links : Nat} {p : Place} (stop : ∀ target, s.item? p ≠ some (.link target)) :
    Leads s create links p [] p
  | link {links : Nat} {p q : Place} {names : List String} {target : String}
    (found : s.item? p = some (.link target))
    (on : Leads s create links (start p.dropLast target) (trail target ++ names) q) :
    Leads s create (links + 1) p names q
  | stay {links : Nat} {p q : Place} {name : String} {rest : List String}
    (folder : s.item? p = some (.node .folder)) (here : name = "" ∨ name = ".")
    (on : Leads s create links p rest q) : Leads s create links p (name :: rest) q
  | up {links : Nat} {p q : Place} {rest : List String}
    (folder : s.item? p = some (.node .folder)) (on : Leads s create links p.dropLast rest q) :
    Leads s create links p (".." :: rest) q
  | down {links : Nat} {p q : Place} {name : String} {rest : List String}
    (folder : s.item? p = some (.node .folder)) (own : ¬(name = "" ∨ name = ".") ∧ name ≠ "..")
    (allowed : ¬(create = true ∧ rest = [""])) (short : ¬maxName < name.utf8ByteSize)
    (on : Leads s create links (p ++ [name]) rest q) : Leads s create links p (name :: rest) q

section Following
variable {s : FileSystem} {create : Bool} {links : Nat} {p q r : Place} {name : String}
  {names rest : List String}

theorem advance_link {target : String} (found : s.item? p = some (.link target)) :
    s.advance create p names = .ok (.link p.dropLast target names) := by
  cases names <;> rw [advance, found]

theorem advance_arrive (stop : ∀ target, s.item? p ≠ some (.link target)) :
    s.advance create p [] = .ok (.arrived p) := by
  rw [advance]
  split
  · rename_i target link
    exact absurd link (stop target)
  · rfl

theorem advance_stay (folder : s.item? p = some (.node .folder)) (here : name = "" ∨ name = ".") :
    s.advance create p (name :: rest) = s.advance create p rest := by
  rw [advance, folder]
  exact if_pos here

theorem advance_up (folder : s.item? p = some (.node .folder)) :
    s.advance create p (".." :: rest) = s.advance create p.dropLast rest := by
  rw [advance, folder]
  rfl

theorem advance_down (folder : s.item? p = some (.node .folder))
    (own : ¬(name = "" ∨ name = ".") ∧ name ≠ "..") :
    s.advance create p (name :: rest) =
      if create = true ∧ rest = [""] then .error .isFolder
      else if maxName < name.utf8ByteSize then .error .nameTooLong
      else s.advance create (p ++ [name]) rest := by
  rw [advance, folder]
  dsimp only
  rw [if_neg own.1, if_neg own.2]

theorem follow_congr {names' : List String}
    (same : s.advance create p names = s.advance create r names') :
    s.follow create links p names = s.follow create links r names' := by
  rw [follow.eq_def, same, ← follow.eq_def]

theorem Leads.follow (h : Leads s create links p names q) :
    s.follow create links p names = .ok q := by
  induction h with
  | arrive stop => rw [FileSystem.follow, advance_arrive stop]
  | link found _ ih =>
    rw [FileSystem.follow, advance_link found]
    exact ih
  | stay folder here _ ih => rw [follow_congr (advance_stay folder here), ih]
  | up folder _ ih => rw [follow_congr (advance_up folder), ih]
  | down folder own allowed short _ ih =>
    rw [← ih]
    apply follow_congr
    rw [advance_down folder own, if_neg allowed, if_neg short]

theorem leads_of_follow (h : s.follow create links p names = .ok q) :
    Leads s create links p names q := by
  induction links using Nat.strongRecOn generalizing p names with
  | _ links fewer =>
    have behind : ∀ {p names target}, s.item? p = some (.link target) →
        s.follow create links p names = .ok q → Leads s create links p names q := by
      intro p names target found h
      rw [follow, advance_link found] at h
      cases links with
      | zero => cases h
      | succ n => exact .link found (fewer n n.lt_succ_self h)
    induction names generalizing p with
    | nil =>
      by_cases link : ∃ target, s.item? p = some (.link target)
      · obtain ⟨target, found⟩ := link
        exact behind found h
      · have stop := not_exists.mp link
        rw [follow, advance_arrive stop] at h
        cases h
        exact .arrive stop
    | cons name rest ih =>
      cases found : s.item? p with
      | none =>
        rw [follow, advance, found] at h
        cases h
      | some entry =>
        cases entry with
        | link target => exact behind found h
        | node node =>
          cases node with
          | file _ | device _ =>
            rw [follow, advance, found] at h
            cases h
          | folder =>
            by_cases here : name = "" ∨ name = "."
            · exact .stay found here (ih (follow_congr (advance_stay found here) ▸ h))
            by_cases up : name = ".."
            · subst up
              exact .up found (ih (follow_congr (advance_up found) ▸ h))
            have down : s.advance create p (name :: rest) = _ := advance_down found ⟨here, up⟩
            split at down
            · rw [follow, down] at h
              cases h
            · rename_i allowed
              split at down
              · rw [follow, down] at h
                cases h
              · rename_i short
                exact .down found ⟨here, up⟩ allowed short (ih (follow_congr down ▸ h))

theorem follow_eq_ok_iff :
    s.follow create links p names = .ok q ↔ Leads s create links p names q :=
  ⟨leads_of_follow, Leads.follow⟩

theorem Leads.eq (h : Leads s create links p names q) (h' : Leads s create links p names r) : q = r :=
  Except.ok.inj (h.follow.symm.trans h'.follow)

/-- Names lead where they led, whether a file is to be created there or not. -/
theorem Kept.leads {s' : FileSystem} (h : s.Kept s') {create' : Bool}
    (asked : create' = true → create = true) (leads : Leads s create links p names q) :
    Leads s' create' links p names q := by
  induction leads with
  | arrive stop => exact .arrive fun target link => stop target (h.links _ target link)
  | link found _ ih => exact .link (h.entries _ _ found) ih
  | stay folder here _ ih => exact .stay (h.entries _ _ folder) here ih
  | up folder _ ih => exact .up (h.entries _ _ folder) ih
  | down folder own allowed short _ ih =>
    exact .down (h.entries _ _ folder) own (fun ask => allowed (ask.imp_left asked)) short ih

end Following

section Paths
variable {s s' : FileSystem} {create : Bool} {path : String} {p : Place} {id : FileId}
  {bytes : ByteArray}

theorem locate_eq_ok_iff : s.locate create path = .ok p ↔
    path.isEmpty = false ∧ path.utf8ByteSize ≤ maxPath ∧
      Leads s create maxLinks (start s.current path) (trail path) p := by
  rw [locate, ← follow_eq_ok_iff]
  split
  · rename_i empty
    simp [empty]
  · rename_i some
    split
    · rename_i long
      simp [Nat.not_le_of_lt long]
    · rename_i short
      rw [Bool.not_eq_true] at some
      exact ⟨fun h => ⟨some, Nat.le_of_not_lt short, h⟩, fun h => h.2.2⟩

theorem Kept.relocate (h : s.Kept s') {create' : Bool} (asked : create' = true → create = true)
    (located : s.locate create path = .ok p) : s'.locate create' path = .ok p := by
  obtain ⟨some, short, leads⟩ := locate_eq_ok_iff.mp located
  exact locate_eq_ok_iff.mpr ⟨some, short, h.current ▸ h.leads asked leads⟩

theorem Kept.locate (h : s.Kept s') (located : s.locate create path = .ok p) :
    s'.locate create path = .ok p := h.relocate (fun ask => ask) located

/-- Where a file may be created, a path leads to open it as well. -/
theorem locate_open (located : s.locate true path = .ok p) : s.locate false path = .ok p :=
  (kept_refl s).relocate nofun located

/-- The file that a path leads to. -/
def file? (s : FileSystem) (path : String) : Option FileId :=
  match s.locate false path with
  | .error _ => none
  | .ok p => (s.item? p).bind Entry.file?

theorem file?_eq_some_iff : s.file? path = some id ↔
    ∃ p, s.locate false path = .ok p ∧ s.item? p = some (.node (.file id)) := by
  rw [file?]
  cases s.locate false path with
  | error e => simp
  | ok p =>
    simp only [Except.ok.injEq, exists_eq_left', Option.bind_eq_some_iff]
    constructor
    · rintro ⟨entry, found, file⟩
      rw [found]
      unfold Entry.file? at file
      split at file
      · cases file
        rfl
      · cases file
    · exact fun found => ⟨_, found, rfl⟩

theorem read_of_locate (located : s.locate false path = .ok p) : s.read path = s.readAt p := by
  rw [read, located]
  rfl

theorem read_of_file? (h : s.file? path = some id) : s.read path = .ok (some (s.content id)) := by
  obtain ⟨p, located, file⟩ := file?_eq_some_iff.mp h
  rw [read_of_locate located, readAt, node?_eq_some_iff.mpr file]

theorem Kept.file? (h : s.Kept s') (file : s.file? path = some id) : s'.file? path = some id := by
  obtain ⟨p, located, found⟩ := file?_eq_some_iff.mp file
  exact file?_eq_some_iff.mpr ⟨p, h.locate located, h.entries p _ found⟩

end Paths

/-- What a write of bytes makes of a file system. -/
inductive Stored (s : FileSystem) (path : String) (bytes : ByteArray) : FileSystem → Prop
  | replaced {p : Place} {id : FileId} (located : s.locate true path = .ok p)
    (file : s.item? p = some (.node (.file id))) : Stored s path bytes (s.replace id bytes)
  | created {p : Place} (located : s.locate true path = .ok p) (free : s.item? p = none) :
    Stored s path bytes (s.create p bytes)

section Write
variable {s s' : FileSystem} {path other : String} {bytes : ByteArray}

namespace Stored

theorem kept (h : Stored s path bytes s') : s.Kept s' := by
  cases h with
  | replaced _ _ => exact kept_replace s _ bytes
  | created _ free => exact kept_create free bytes

/-- The path leads to what was written. -/
theorem file? (h : Stored s path bytes s') :
    ∃ id, s'.file? path = some id ∧ s'.content id = bytes ∧
      (∀ other, other ≠ id → s'.content other = s.content other) ∧
      (s.file? path = some id ∨ ∀ other, s.file? other ≠ some id) := by
  have open' {p : Place} (located : s.locate true path = .ok p) : s'.locate false path = .ok p :=
    locate_open (h.kept.locate located)
  cases h with
  | @replaced p id located file =>
    refine ⟨id, file?_eq_some_iff.mpr ⟨p, open' located, file⟩, ?_, ?_, .inl ?_⟩
    · rw [content_replace, if_pos rfl]
    · intro other different
      rw [content_replace, if_neg different]
    · exact file?_eq_some_iff.mpr ⟨p, locate_open located, file⟩
  | @created p located free =>
    refine ⟨s.fresh, file?_eq_some_iff.mpr ⟨p, open' located, ?_⟩, ?_, ?_, .inr ?_⟩
    · rw [item?_create free, if_pos rfl]
    · rw [content_create, content_replace, if_pos rfl]
    · intro other different
      rw [content_create, content_replace, if_neg different]
    · intro other file
      obtain ⟨q, _, file⟩ := file?_eq_some_iff.mp file
      exact Nat.lt_irrefl _ (lt_fresh file)

theorem read (h : Stored s path bytes s') : s'.read path = .ok (some bytes) := by
  obtain ⟨id, file, held, _⟩ := h.file?
  rw [read_of_file? file, held]

end Stored

end Write

def Entry.isLink : Entry → Bool
  | .link _ => true
  | .node _ => false

/-- There are no links, no file stands at two places, and what there is stands in folders. -/
structure Plain (s : FileSystem) : Prop where
  linkless : ∀ e ∈ s.entries, e.2.isLink = false
  files : (s.entries.filterMap fun e => e.2.file?).Nodup
  above : ∀ e ∈ s.entries, s.item? e.1.dropLast = some (.node .folder)
  current : s.item? s.current = some (.node .folder)

instance (s : FileSystem) : Decidable s.Plain :=
  decidable_of_iff (_ ∧ _ ∧ _ ∧ _)
    ⟨fun ⟨h, h', h'', h'''⟩ => ⟨h, h', h'', h'''⟩,
      fun ⟨h, h', h'', h'''⟩ => ⟨h, h', h'', h'''⟩⟩

section Plain
variable {s : FileSystem} {create : Bool} {links : Nat} {p q : Place} {name : String}
  {names rest : List String} {id : FileId}

namespace Plain

end Plain
end Plain

end MiniJava.FileSystem
