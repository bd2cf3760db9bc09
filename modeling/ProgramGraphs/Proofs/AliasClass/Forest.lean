import Mathlib.Data.String.Basic
import ProgramGraphs.Proofs.AliasClass

/-! # Alias classes as a forest

Classes can also be kept as trees: a variable is linked to another of its class with a lesser name,
and the representative is where the links end. Looking for it shortens the links on the way, which
changes no root (`root_compress`); merging two classes links the greater root to the lesser
(`root_union`). So the roots are the representatives (`root_ofLinks`), and going over the variables
to list their roots lists the same classes in whatever order they come (`representative_sweep`).
-/

namespace ProgramGraphs

/-- Links from variables to variables that are listed, too, and have lesser names; the last link of
a variable counts, and roots are linked to themselves. -/
structure AliasForest where
  links : List (String × String) := []
  le : ∀ name parent, links.lookup name = some parent → parent ≤ name := by simp
  listed : ∀ name parent, links.lookup name = some parent →
    (links.lookup parent).isSome = true := by simp

namespace AliasForest

/-- Whether a variable is listed. -/
def Lists (forest : AliasForest) (name : String) : Prop :=
  (forest.links.lookup name).isSome = true

/-- The variable that a variable is linked to; a variable that is not listed is a root. -/
def parent (forest : AliasForest) (name : String) : String :=
  (forest.links.lookup name).getD name

/-- The number of links from variables with lesser names. -/
def below (forest : AliasForest) (name : String) : Nat :=
  forest.links.countP fun link => decide (link.1 < name)

variable (forest : AliasForest)

theorem parent_of_lookup {name parent : String} (linked : forest.links.lookup name = some parent) :
    forest.parent name = parent := by
  rw [AliasForest.parent, linked, Option.getD_some]

theorem parent_of_not_lists {name : String} (unlisted : ¬ forest.Lists name) :
    forest.parent name = name := by
  rw [Lists, Option.not_isSome_iff_eq_none] at unlisted
  rw [parent, unlisted, Option.getD_none]

theorem parent_le (name : String) : forest.parent name ≤ name := by
  cases linked : forest.links.lookup name with
  | none => rw [parent, linked, Option.getD_none]
  | some parent =>
    rw [forest.parent_of_lookup linked]
    exact forest.le name parent linked

theorem lists_parent {name : String} (listed : forest.Lists name) :
    forest.Lists (forest.parent name) := by
  obtain ⟨parent, linked⟩ := Option.isSome_iff_exists.mp listed
  rw [forest.parent_of_lookup linked]
  exact forest.listed name parent linked

theorem lists_of_parent_ne {name : String} (moves : forest.parent name ≠ name) :
    forest.Lists name :=
  not_not.mp fun unlisted => moves (forest.parent_of_not_lists unlisted)

theorem parent_lt {name : String} (moves : forest.parent name ≠ name) :
    forest.parent name < name :=
  lt_of_le_of_ne (forest.parent_le name) moves

/-- Below the parent of a variable there are fewer links. -/
theorem below_parent_lt {name : String} (moves : forest.parent name ≠ name) :
    forest.below (forest.parent name) < forest.below name := by
  have lower := forest.parent_lt moves
  obtain ⟨held, linked⟩ := Option.isSome_iff_exists.mp
    (forest.lists_parent (forest.lists_of_parent_ne moves))
  obtain ⟨before, behind, cut, -⟩ := List.lookup_eq_some_iff.mp linked
  have fewer (links : List (String × String)) :
      (links.countP fun link => decide (link.1 < forest.parent name)) ≤
        links.countP fun link => decide (link.1 < name) :=
    List.countP_mono_left fun link _ less =>
      decide_eq_true (lt_trans (of_decide_eq_true less) lower)
  have first := fewer before
  have last := fewer behind
  rw [below, below, cut, List.countP_append, List.countP_append, List.countP_cons_of_neg (by simp),
    List.countP_cons_of_pos (by simpa using lower)]
  omega

end AliasForest

/-- The end of the links from a variable. -/
def AliasForest.root (forest : AliasForest) (name : String) : String :=
  if forest.parent name = name then name else forest.root (forest.parent name)
termination_by forest.below name
decreasing_by exact forest.below_parent_lt ‹_›

namespace AliasForest

variable (forest : AliasForest)

theorem root_of_parent_eq {name : String} (top : forest.parent name = name) :
    forest.root name = name := by
  rw [root, if_pos top]

theorem root_of_parent_ne {name : String} (moves : forest.parent name ≠ name) :
    forest.root name = forest.root (forest.parent name) := by
  rw [root, if_neg moves]

theorem parent_root (name : String) : forest.parent (forest.root name) = forest.root name := by
  fun_induction forest.root name with
  | case1 name top => exact top
  | case2 name moves ih => exact ih

theorem root_le (name : String) : forest.root name ≤ name := by
  fun_induction forest.root name with
  | case1 name top => exact le_refl name
  | case2 name moves ih => exact ih.trans (forest.parent_le name)

theorem lists_root {name : String} (listed : forest.Lists name) :
    forest.Lists (forest.root name) := by
  fun_induction forest.root name with
  | case1 name top => exact listed
  | case2 name moves ih => exact ih (forest.lists_parent listed)

/-- Link a variable to itself or to a listed one with a lesser name. -/
def link (name parent : String) (lower : parent ≤ name)
    (listed : parent = name ∨ forest.Lists parent) : AliasForest where
  links := (name, parent) :: forest.links
  le other found linked := by
    rw [List.lookup_cons] at linked
    split at linked
    · next same =>
      cases linked
      rwa [eq_of_beq same]
    · exact forest.le other found linked
  listed other found linked := by
    rw [List.lookup_cons] at linked ⊢
    split
    · rfl
    · next apart =>
      split at linked
      · cases linked
        rcases listed with rfl | listed
        · simp at apart
        · exact listed
      · exact forest.listed other found linked

section Link

variable {name parent : String} (lower : parent ≤ name)
  (listed : parent = name ∨ forest.Lists parent)

theorem lists_link_iff (other : String) :
    (forest.link name parent lower listed).Lists other ↔ other = name ∨ forest.Lists other := by
  rw [Lists, Lists, link, List.lookup_cons]
  split
  · next same => simp [eq_of_beq same]
  · next apart => simp [ne_of_beq_false apart]

theorem parent_link (other : String) : (forest.link name parent lower listed).parent other =
    if other = name then parent else forest.parent other := by
  rw [AliasForest.parent, link, List.lookup_cons]
  split
  · next same => rw [if_pos (eq_of_beq same), Option.getD_some]
  · next apart =>
    rw [if_neg (ne_of_beq_false apart)]
    rfl

theorem below_link {bound : String} (upper : bound ≤ name) :
    (forest.link name parent lower listed).below bound = forest.below bound := by
  rw [below, below, link, List.countP_cons_of_neg]
  exact fun less => not_lt.mpr upper (of_decide_eq_true less)

end Link

/-- The root of a variable is listed where the variable is. -/
theorem root_eq_or_lists (name : String) :
    forest.root name = name ∨ forest.Lists (forest.root name) := by
  by_cases moves : forest.parent name = name
  · exact .inl (forest.root_of_parent_eq moves)
  · exact .inr (forest.lists_root (forest.lists_of_parent_ne moves))

/-- Link a variable to its root. -/
def shorten (name : String) : AliasForest :=
  forest.link name (forest.root name) (forest.root_le name) (forest.root_eq_or_lists name)

theorem root_shorten (name other : String) :
    (forest.shorten name).root other = forest.root other := by
  have parent_shorten (other : String) : (forest.shorten name).parent other =
      if other = name then forest.root name else forest.parent other :=
    forest.parent_link _ _ other
  have top : (forest.shorten name).root (forest.root name) = forest.root name := by
    refine root_of_parent_eq _ ?_
    rw [parent_shorten, forest.parent_root, ite_self]
  fun_induction forest.root other with
  | case1 other own =>
    by_cases same : other = name
    · subst same
      rwa [forest.root_of_parent_eq own] at top
    · exact root_of_parent_eq _ (by rw [parent_shorten, if_neg same, own])
  | case2 other moves ih =>
    by_cases same : other = name
    · subst same
      have climbs := forest.root_of_parent_ne moves
      have onward : (forest.shorten other).parent other = forest.root other := by
        rw [parent_shorten, if_pos rfl]
      have lower : (forest.shorten other).parent other ≠ other := by
        rw [onward, climbs]
        exact ne_of_lt (lt_of_le_of_lt (forest.root_le _) (forest.parent_lt moves))
      rw [root_of_parent_ne _ lower, onward, top, climbs]
    · have onward : (forest.shorten name).parent other = forest.parent other := by
        rw [parent_shorten, if_neg same]
      rw [root_of_parent_ne _ (by rwa [onward]), onward, ih]

theorem lists_shorten_iff {name : String} (listed : forest.Lists name) (other : String) :
    (forest.shorten name).Lists other ↔ forest.Lists other := by
  rw [shorten, lists_link_iff, or_iff_right_iff_imp]
  rintro rfl
  exact listed

end AliasForest

/-- Link a variable and all that its links lead through to their root. -/
def AliasForest.compress (forest : AliasForest) (name : String) : AliasForest :=
  if forest.parent name = name then forest
  else (forest.shorten name).compress (forest.parent name)
termination_by forest.below name
decreasing_by
  rw [shorten, below_link _ _ _ (forest.parent_le name)]
  exact forest.below_parent_lt ‹_›

namespace AliasForest

variable (forest : AliasForest)

theorem root_compress (name other : String) :
    (forest.compress name).root other = forest.root other := by
  fun_induction compress forest name with
  | case1 => rfl
  | case2 forest name moves ih => rw [ih, root_shorten]

theorem lists_compress_iff (name other : String) :
    (forest.compress name).Lists other ↔ forest.Lists other := by
  fun_induction compress forest name with
  | case1 => rfl
  | case2 forest name moves ih =>
    rw [ih, lists_shorten_iff _ (forest.lists_of_parent_ne moves)]

/-- List a variable that is not listed as a root. -/
def enlist (name : String) : AliasForest :=
  if (forest.links.lookup name).isSome then forest
  else forest.link name name (le_refl name) (.inl rfl)

theorem lists_enlist_iff (name other : String) :
    (forest.enlist name).Lists other ↔ other = name ∨ forest.Lists other := by
  rw [enlist]
  split
  · next listed =>
    rw [or_iff_right_of_imp]
    rintro rfl
    exact listed
  · rw [lists_link_iff]

theorem root_congr {forest other : AliasForest}
    (same : ∀ name, forest.parent name = other.parent name) (name : String) :
    forest.root name = other.root name := by
  fun_induction forest.root name with
  | case1 name top => exact (root_of_parent_eq other ((same name).symm.trans top)).symm
  | case2 name moves ih =>
    have onward := (same name).symm
    rw [root_of_parent_ne other (by rwa [onward]), onward, ih]

theorem root_enlist (name other : String) :
    (forest.enlist name).root other = forest.root other := by
  refine root_congr (fun other => ?_) other
  rw [enlist]
  split
  · rfl
  · next unlisted =>
    rw [parent_link]
    split
    · next same => rw [same, forest.parent_of_not_lists unlisted]
    · rfl

/-- Linking a root to another root changes the roots of its class. -/
theorem root_link_root {name parent : String} (lower : parent ≤ name)
    (listed : parent = name ∨ forest.Lists parent) (top : forest.parent name = name)
    (parentTop : forest.parent parent = parent) (apart : parent ≠ name) (other : String) :
    (forest.link name parent lower listed).root other =
      if forest.root other = name then parent else forest.root other := by
  have ends : (forest.link name parent lower listed).root parent = parent :=
    root_of_parent_eq _ (by rw [parent_link, if_neg apart, parentTop])
  fun_induction forest.root other with
  | case1 other own =>
    by_cases same : other = name
    · subst same
      have onward : (forest.link other parent lower listed).parent other = parent := by
        rw [parent_link, if_pos rfl]
      rw [if_pos rfl, root_of_parent_ne _ (by rwa [onward]), onward, ends]
    · rw [if_neg same]
      exact root_of_parent_eq _ (by rw [parent_link, if_neg same, own])
  | case2 other moves ih =>
    have same : other ≠ name := by
      rintro rfl
      exact moves top
    have onward : (forest.link name parent lower listed).parent other = forest.parent other := by
      rw [parent_link, if_neg same]
    rw [root_of_parent_ne _ (by rwa [onward]), onward, ih]

/-- Look for the root of a variable, and shorten the links that lead to it. -/
def find (name : String) : String × AliasForest :=
  (forest.root name, forest.compress name)

/-- List two variables and look for their roots. -/
def findBoth (a b : String) : (String × String) × AliasForest :=
  let first := ((forest.enlist a).enlist b).find a
  let second := first.2.find b
  ((first.1, second.1), second.2)

theorem roots_findBoth (a b : String) :
    (forest.findBoth a b).1 = (forest.root a, forest.root b) := by
  simp only [findBoth, find, root_compress, root_enlist]

theorem root_findBoth (a b other : String) :
    (forest.findBoth a b).2.root other = forest.root other := by
  simp only [findBoth, find, root_compress, root_enlist]

theorem lists_findBoth_iff (a b other : String) : (forest.findBoth a b).2.Lists other ↔
    other = b ∨ other = a ∨ forest.Lists other := by
  simp only [findBoth, find, lists_compress_iff, lists_enlist_iff]

/-- The roots that are found are listed. -/
theorem lists_min_findBoth (a b : String) : (forest.findBoth a b).2.Lists
    (min (forest.findBoth a b).1.1 (forest.findBoth a b).1.2) := by
  have listed (name : String) (either : name = b ∨ name = a) :
      (forest.findBoth a b).2.Lists (forest.root name) := by
    rw [← root_findBoth forest a b name]
    exact lists_root _ ((forest.lists_findBoth_iff a b name).mpr (either.imp_right .inl))
  rw [roots_findBoth]
  rcases min_choice (forest.root a) (forest.root b) with least | least
  · rw [least]
    exact listed a (.inr rfl)
  · rw [least]
    exact listed b (.inl rfl)

/-- Merge the classes of two variables: link the greater of their roots to the lesser. -/
def union (a b : String) : AliasForest :=
  let found := forest.findBoth a b
  if found.1.1 = found.1.2 then found.2
  else found.2.link (max found.1.1 found.1.2) (min found.1.1 found.1.2) min_le_max
    (.inr (forest.lists_min_findBoth a b))

theorem lesser_eq_min (a b : String) : AliasClasses.lesser a b = min a b := by
  rw [AliasClasses.lesser]
  split
  · next less => exact (min_eq_right (le_of_lt less)).symm
  · next upper => exact (min_eq_left (not_lt.mp upper)).symm

theorem redirect_eq (first second name : String) : AliasClasses.redirect first second name =
    if name = max first second then min first second else name := by
  rw [AliasClasses.redirect, lesser_eq_min]
  rcases le_total first second with le | le
  · rw [min_eq_left le, max_eq_right le]
    split_ifs <;> simp_all
  · rw [min_eq_right le, max_eq_left le]
    split_ifs <;> simp_all

/-- Merging two classes does to the roots what it does to representatives. -/
theorem root_union (a b other : String) : (forest.union a b).root other =
    AliasClasses.redirect (forest.root a) (forest.root b) (forest.root other) := by
  have found : (forest.findBoth a b).1 = (forest.root a, forest.root b) :=
    forest.roots_findBoth a b
  rw [redirect_eq, union]
  split
  · next same =>
    rw [found] at same
    dsimp only at same
    rw [root_findBoth, same, max_self, min_self]
    split
    · next own => exact own
    · rfl
  · next apart =>
    rw [found] at apart
    dsimp only at apart
    have top (name : String) : (forest.findBoth a b).2.parent (forest.root name) =
        forest.root name := by
      rw [← root_findBoth forest a b, parent_root]
    rw [root_link_root, root_findBoth]
    · rw [found]
    · rw [found]
      rcases max_choice (forest.root a) (forest.root b) with most | most
      · rw [most, top]
      · rw [most, top]
    · rw [found]
      rcases min_choice (forest.root a) (forest.root b) with least | least
      · rw [least, top]
      · rw [least, top]
    · rw [found]
      exact ne_of_lt (min_lt_max.mpr apart)

/-- The forest of links between variables. -/
def ofLinks (links : List (String × String)) : AliasForest :=
  links.foldl (fun forest link => forest.union link.1 link.2) {}

theorem root_foldl_union {forest : AliasForest} {classes : AliasClasses} (closed : classes.Closed)
    (same : ∀ name, forest.root name = classes.representative name)
    (links : List (String × String)) (name : String) :
    (links.foldl (fun forest link => forest.union link.1 link.2) forest).root name =
      (links.foldl (fun classes link => classes.merge link.1 link.2) classes).representative
        name := by
  induction links generalizing forest classes with
  | nil => exact same name
  | cons link rest ih =>
    refine ih (closed.merge link.1 link.2) fun other => ?_
    rw [root_union, AliasClasses.representative_merge closed, same, same, same]

/-- The roots are the representatives of the classes. -/
theorem root_ofLinks (links : List (String × String)) (name : String) :
    (ofLinks links).root name = (AliasClasses.ofLinks links).representative name := by
  refine root_foldl_union AliasClasses.closed_empty (fun name => ?_) links name
  exact root_of_parent_eq _ rfl

/-- List variables with their roots, looking for one after another. -/
def sweep (forest : AliasForest) : List String → List (String × String)
  | [] => []
  | name :: rest => (name, (forest.find name).1) :: (forest.find name).2.sweep rest

theorem sweep_eq (forest : AliasForest) (order : List String) :
    forest.sweep order = order.map fun name => (name, forest.root name) := by
  induction order generalizing forest with
  | nil => rfl
  | cons name rest ih =>
    rw [sweep, ih, find, List.map_cons]
    simp only [root_compress]

/-- In whatever order the variables come, they are listed with their roots. -/
theorem representative_sweep {order : List String} (all : ∀ name, forest.Lists name → name ∈ order)
    (name : String) :
    (⟨forest.sweep order⟩ : AliasClasses).representative name = forest.root name := by
  rw [AliasClasses.representative, sweep_eq, lookup_map_key order (fun name => name) forest.root]
  cases found : order.find? (· == name) with
  | some other =>
    have same := List.find?_some found
    rw [← eq_of_beq same]
    rfl
  | none =>
    have absent : name ∉ order := fun member =>
      List.find?_eq_none.mp found name member (beq_self_eq_true name)
    have top := forest.parent_of_not_lists fun listed => absent (all name listed)
    rw [forest.root_of_parent_eq top]
    rfl

/-- The classes that are listed have one member each where every variable is a root. -/
theorem isTrivial_sweep_iff {order : List String} (all : ∀ name, forest.Lists name → name ∈ order) :
    (⟨forest.sweep order⟩ : AliasClasses).isTrivial = true ↔ ∀ name, forest.root name = name := by
  simp only [AliasClasses.isTrivial, sweep_eq, List.all_map, List.all_eq_true, Function.comp_apply,
    beq_iff_eq]
  refine ⟨fun alone name => ?_, fun alone name _ => (alone name).symm⟩
  by_cases listed : forest.Lists name
  · exact (alone name (all name listed)).symm
  · exact forest.root_of_parent_eq (forest.parent_of_not_lists listed)

end AliasForest

end ProgramGraphs
