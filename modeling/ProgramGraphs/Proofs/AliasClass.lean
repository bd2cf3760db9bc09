import Mathlib.Tactic.Common
import ProgramGraphs.AliasClass
import ProgramGraphs.Proofs.Keyed

/-! # What merging does to alias classes

Merging two variables gives their classes one representative, the lesser of the two, and leaves all
other classes alone (`representative_merge`). So classes are never split, and the ends of every link
that has been merged stay together.
-/

namespace ProgramGraphs

namespace AliasClasses

variable {classes : AliasClasses}

theorem lookup_enlist (name : String) (table : List (String × String)) (other : String) :
    (enlist name table).lookup other =
      if other = name then some ((table.lookup name).getD name) else table.lookup other := by
  unfold enlist
  split
  · next listed =>
    obtain ⟨held, found⟩ := Option.isSome_iff_exists.mp listed
    split
    · next same => rw [same, found, Option.getD_some]
    · rfl
  · next unlisted =>
    rw [Option.not_isSome_iff_eq_none] at unlisted
    rw [List.lookup_cons, unlisted, Option.getD_none]
    by_cases same : other = name
    · simp [same]
    · rw [beq_false_of_ne same, if_neg same]

/-- Every representative is listed as its own. -/
def Closed (classes : AliasClasses) : Prop :=
  ∀ name held, classes.table.lookup name = some held → classes.table.lookup held = some held

theorem representative_of_lookup {name held : String}
    (found : classes.table.lookup name = some held) : classes.representative name = held := by
  rw [representative, found, Option.getD_some]

theorem lesser_eq_or (a b : String) : lesser a b = a ∨ lesser a b = b := by
  unfold lesser
  split
  · exact .inr rfl
  · exact .inl rfl

/-- Listing a variable changes no class. -/
theorem representative_enlist (classes : AliasClasses) (name other : String) :
    representative ⟨enlist name classes.table⟩ other = classes.representative other := by
  rw [representative, lookup_enlist]
  split
  · next same =>
    rw [same]
    rfl
  · rfl

theorem Closed.enlist (closed : classes.Closed) (name : String) :
    Closed ⟨enlist name classes.table⟩ := by
  unfold AliasClasses.enlist
  split
  · exact closed
  · next unlisted =>
    rw [Option.not_isSome_iff_eq_none] at unlisted
    intro other held found
    rw [List.lookup_cons] at found ⊢
    split at found
    · cases found
      simp
    · have listed := closed other held found
      have distinct : held ≠ name := by
        rintro rfl
        rw [unlisted] at listed
        cases listed
      rw [beq_false_of_ne distinct]
      exact listed

/-- The representative that takes the place of two, in their classes and in all others. -/
def redirect (first second representative : String) : String :=
  if representative = first ∨ representative = second then lesser first second else representative

/-- Give two classes one representative. -/
def unite (classes : AliasClasses) (first second : String) : AliasClasses :=
  ⟨classes.table.map fun entry => (entry.1, redirect first second entry.2)⟩

theorem lookup_unite (first second name : String) :
    (classes.unite first second).table.lookup name =
      (classes.table.lookup name).map (redirect first second) :=
  lookup_map_value classes.table (fun _ => redirect first second) name

theorem representative_unite {first second : String}
    (firstOwn : classes.table.lookup first = some first)
    (secondOwn : classes.table.lookup second = some second) (name : String) :
    (classes.unite first second).representative name =
      redirect first second (classes.representative name) := by
  rw [representative, representative, lookup_unite]
  cases found : classes.table.lookup name with
  | some held => rfl
  | none =>
    -- an unlisted variable is alone, so it represents neither class
    have apart : ¬ (name = first ∨ name = second) := by
      rintro (rfl | rfl)
      · exact absurd (found.symm.trans firstOwn) (by simp)
      · exact absurd (found.symm.trans secondOwn) (by simp)
    exact (if_neg apart).symm

theorem Closed.unite (closed : classes.Closed) {first second : String}
    (firstOwn : classes.table.lookup first = some first)
    (secondOwn : classes.table.lookup second = some second) :
    (classes.unite first second).Closed := by
  have kept : redirect first second (lesser first second) = lesser first second := by
    simp [redirect]
  have keptOwn : classes.table.lookup (lesser first second) = some (lesser first second) := by
    rcases lesser_eq_or first second with same | same
    · rwa [same]
    · rwa [same]
  intro name held found
  rw [lookup_unite, Option.map_eq_some_iff] at found ⊢
  obtain ⟨representative, listed, rfl⟩ := found
  by_cases either : representative = first ∨ representative = second
  · rw [redirect, if_pos either]
    exact ⟨_, keptOwn, kept⟩
  · have unmoved : redirect first second representative = representative := if_neg either
    rw [unmoved]
    exact ⟨_, closed name representative listed, unmoved⟩

/-- List two variables. -/
def enlistBoth (classes : AliasClasses) (a b : String) : AliasClasses :=
  ⟨enlist b (enlist a classes.table)⟩

theorem merge_eq (classes : AliasClasses) (a b : String) : classes.merge a b =
    (classes.enlistBoth a b).unite (classes.representative a) (classes.representative b) :=
  rfl

theorem representative_enlistBoth (a b name : String) :
    (classes.enlistBoth a b).representative name = classes.representative name :=
  (representative_enlist ⟨enlist a classes.table⟩ b name).trans
    (representative_enlist classes a name)

theorem Closed.enlistBoth (closed : classes.Closed) (a b : String) :
    (classes.enlistBoth a b).Closed :=
  (closed.enlist a).enlist b

/-- The representative of a listed variable is listed as its own. -/
theorem Closed.own (closed : classes.Closed) (a b : String) :
    (classes.enlistBoth a b).table.lookup (classes.representative a) =
        some (classes.representative a) ∧
      (classes.enlistBoth a b).table.lookup (classes.representative b) =
        some (classes.representative b) := by
  have listed : ∀ name, name = a ∨ name = b →
      ∃ held, (classes.enlistBoth a b).table.lookup name = some held := by
    intro name either
    rw [AliasClasses.enlistBoth, lookup_enlist]
    split
    · exact ⟨_, rfl⟩
    · next other =>
      rw [lookup_enlist, if_pos (either.resolve_right other)]
      exact ⟨_, rfl⟩
  have own : ∀ name, name = a ∨ name = b →
      (classes.enlistBoth a b).table.lookup (classes.representative name) =
        some (classes.representative name) := by
    intro name either
    obtain ⟨held, found⟩ := listed name either
    rw [← representative_enlistBoth a b name, representative_of_lookup found]
    exact closed.enlistBoth a b name held found
  exact ⟨own a (.inl rfl), own b (.inr rfl)⟩

theorem Closed.merge (closed : classes.Closed) (a b : String) : (classes.merge a b).Closed :=
  (closed.enlistBoth a b).unite (closed.own a b).1 (closed.own a b).2

/-- Merging gives two classes the lesser of their representatives and leaves the others alone. -/
theorem representative_merge (closed : classes.Closed) (a b name : String) :
    (classes.merge a b).representative name =
      redirect (classes.representative a) (classes.representative b)
        (classes.representative name) := by
  rw [merge_eq, representative_unite (closed.own a b).1 (closed.own a b).2,
    representative_enlistBoth]

theorem sameClass_iff (classes : AliasClasses) (a b : String) :
    classes.sameClass a b = true ↔ classes.representative a = classes.representative b := by
  rw [sameClass, beq_iff_eq]

theorem sameClass_congr {other : AliasClasses}
    (same : ∀ name, classes.representative name = other.representative name) (a b : String) :
    classes.sameClass a b = other.sameClass a b := by
  rw [sameClass, sameClass, same, same]

/-- A merge joins its ends. -/
theorem sameClass_merge (closed : classes.Closed) (a b : String) :
    (classes.merge a b).sameClass a b = true := by
  rw [sameClass_iff, representative_merge closed, representative_merge closed]
  simp [redirect]

/-- A merge splits no class. -/
theorem sameClass_merge_of_sameClass (closed : classes.Closed) (a b : String) {x y : String}
    (same : classes.sameClass x y = true) : (classes.merge a b).sameClass x y = true := by
  rw [sameClass_iff] at same ⊢
  rw [representative_merge closed, representative_merge closed, same]

theorem foldl_merge (closed : classes.Closed) (links : List (String × String)) :
    (links.foldl (fun classes link => classes.merge link.1 link.2) classes).Closed ∧
      (∀ x y, classes.sameClass x y = true →
        (links.foldl (fun classes link => classes.merge link.1 link.2) classes).sameClass x y =
          true) ∧
      ∀ link ∈ links,
        (links.foldl (fun classes link => classes.merge link.1 link.2) classes).sameClass link.1
          link.2 = true := by
  induction links generalizing classes with
  | nil => exact ⟨closed, fun _ _ same => same, fun _ member => absurd member List.not_mem_nil⟩
  | cons link rest ih =>
    obtain ⟨stays, keeps, joins⟩ := ih (closed.merge link.1 link.2)
    refine ⟨stays, fun x y same => ?_, fun other member => ?_⟩
    · exact keeps x y (sameClass_merge_of_sameClass closed link.1 link.2 same)
    · rcases List.mem_cons.mp member with rfl | later
      · exact keeps _ _ (sameClass_merge closed other.1 other.2)
      · exact joins other later

theorem closed_empty : Closed {} := by
  intro name held found
  cases found

/-- The ends of every link are in one class. -/
theorem sameClass_ofLinks {links : List (String × String)} {link : String × String}
    (member : link ∈ links) : (ofLinks links).sameClass link.1 link.2 = true :=
  (foldl_merge closed_empty links).2.2 link member

end AliasClasses

theorem Function.mem_copyLinks_iff {function : Function} {dest operand : String} :
    (dest, operand) ∈ function.copyLinks ↔
      ∃ instruction ∈ function.instructions, instruction.dest = some dest ∧
        function.declaresPointer dest = true ∧ operand ∈ instruction.copiedArgs := by
  rw [copyLinks, List.mem_flatMap]
  refine exists_congr fun instruction => and_congr_right fun _ => ?_
  cases assigned : instruction.dest with
  | none => simp
  | some name =>
    dsimp only
    split
    · next pointer =>
      simp only [List.mem_map, Prod.mk.injEq, Option.some.injEq]
      constructor
      · rintro ⟨other, member, rfl, rfl⟩
        exact ⟨rfl, pointer, member⟩
      · rintro ⟨rfl, _, member⟩
        exact ⟨operand, member, rfl, rfl⟩
    · next pointer =>
      simp only [List.not_mem_nil, false_iff, Option.some.injEq]
      rintro ⟨rfl, declared, _⟩
      exact pointer declared

end ProgramGraphs
