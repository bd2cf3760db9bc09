import Mathlib.Logic.Relation
import ProgramGraphs.Proofs.AliasClass.Forest
import ProgramGraphs.Proofs.ByteOrder

/-! # Alias classes are connected by copies

Every merge joins what a link joins and nothing else, and the representative of a class is never
greater than a member (`Sound`). So the classes are those of the least equivalence that holds
between the ends of links, each known by the least of its names (`Connects`). They depend on which
links there are, not on the order of the instructions that make them or of the variables when the
classes are listed (`aliasClasses_connect`).
-/

namespace ProgramGraphs

namespace AliasClasses

/-- What holds of classes that have been merged along links: a variable is connected to its
representative, which has no greater name. -/
structure Sound (linked : String → String → Prop) (classes : AliasClasses) : Prop where
  closed : classes.Closed
  distinct : (classes.table.map Prod.fst).Nodup
  connected : ∀ name, Relation.EqvGen linked name (classes.representative name)
  le : ∀ name, classes.representative name ≤ name

variable {linked : String → String → Prop} {classes : AliasClasses}

theorem nodup_enlist {name : String} {table : List (String × String)}
    (distinct : (table.map Prod.fst).Nodup) : ((enlist name table).map Prod.fst).Nodup := by
  rw [enlist]
  split
  · exact distinct
  · next unlisted =>
    refine List.nodup_cons.mpr ⟨fun member => unlisted ?_, distinct⟩
    obtain ⟨entry, inside, same⟩ := List.mem_map.mp member
    exact List.lookup_isSome_iff.mpr ⟨entry, inside, beq_iff_eq.mpr same.symm⟩

theorem sound_empty (linked : String → String → Prop) : Sound linked {} where
  closed := closed_empty
  distinct := List.nodup_nil
  connected name := .refl name
  le name := le_refl name

/-- Merging the ends of a link keeps what holds. -/
theorem Sound.merge (sound : Sound linked classes) {a b : String} (joined : linked a b) :
    Sound linked (classes.merge a b) where
  closed := sound.closed.merge a b
  distinct := by
    rw [AliasClasses.merge, List.map_map]
    exact nodup_enlist (nodup_enlist sound.distinct)
  connected name := by
    -- both representatives are connected to both ends
    have first := sound.connected a
    have second : Relation.EqvGen linked a (classes.representative b) :=
      .trans _ _ _ (.rel a b joined) (sound.connected b)
    have kept : Relation.EqvGen linked a
        (lesser (classes.representative a) (classes.representative b)) := by
      rcases lesser_eq_or (classes.representative a) (classes.representative b) with same | same
      · rwa [same]
      · rwa [same]
    rw [representative_merge sound.closed, redirect]
    split
    · next either =>
      have own : Relation.EqvGen linked a (classes.representative name) := by
        rcases either with same | same
        · rwa [same]
        · rwa [same]
      exact .trans _ _ _ (sound.connected name) (.trans _ _ _ (.symm _ _ own) kept)
    · exact sound.connected name
  le name := by
    rw [representative_merge sound.closed, redirect, AliasForest.lesser_eq_min]
    split
    · next either =>
      rcases either with same | same
      · exact (min_le_left _ _).trans (same ▸ sound.le name)
      · exact (min_le_right _ _).trans (same ▸ sound.le name)
    · exact sound.le name

theorem Sound.foldl_merge (sound : Sound linked classes) {links : List (String × String)}
    (joined : ∀ link ∈ links, linked link.1 link.2) :
    Sound linked (links.foldl (fun classes link => classes.merge link.1 link.2) classes) := by
  induction links generalizing classes with
  | nil => exact sound
  | cons link rest ih =>
    obtain ⟨here, others⟩ := List.forall_mem_cons.mp joined
    exact ih (sound.merge here) others

/-- The classes of some links are those of the least equivalence between the ends of links. -/
structure Connects (linked : String → String → Prop) (classes : AliasClasses) : Prop where
  sameClass_iff : ∀ a b, classes.sameClass a b = true ↔ Relation.EqvGen linked a b
  connected : ∀ a, Relation.EqvGen linked a (classes.representative a)
  least : ∀ a b, Relation.EqvGen linked a b → classes.representative a ≤ b
  isTrivial_iff : classes.isTrivial = true ↔ ∀ a, classes.representative a = a

/-- The same links give every variable the same representative. -/
theorem Connects.representative_eq {other : AliasClasses} (connects : Connects linked classes)
    (others : Connects linked other) (a : String) :
    other.representative a = classes.representative a :=
  le_antisymm (others.least a _ (connects.connected a)) (connects.least a _ (others.connected a))

/-- Every class has one member where no two variables are in one class. -/
theorem Connects.isTrivial_iff_sameClass (connects : Connects linked classes) :
    classes.isTrivial = true ↔ ∀ a b, classes.sameClass a b = true → a = b := by
  rw [connects.isTrivial_iff]
  constructor
  · intro alone a b together
    rw [← alone a, ← alone b]
    exact (AliasClasses.sameClass_iff classes a b).mp together
  · intro apart a
    exact (apart a _ ((connects.sameClass_iff a _).mpr (connects.connected a))).symm

theorem Sound.isTrivial_iff (sound : Sound linked classes) :
    classes.isTrivial = true ↔ ∀ a, classes.representative a = a := by
  rw [isTrivial, List.all_eq_true]
  constructor
  · intro alone a
    cases found : classes.table.lookup a with
    | none => rw [representative, found, Option.getD_none]
    | some held =>
      obtain ⟨before, behind, cut, -⟩ := List.lookup_eq_some_iff.mp found
      have own := alone (a, held) (by rw [cut]; simp)
      rw [representative_of_lookup found]
      exact (eq_of_beq own).symm
  · rintro alone ⟨name, held⟩ member
    have found := lookup_map_key_of_mem Prod.snd sound.distinct member
    rw [List.map_id'] at found
    exact beq_iff_eq.mpr ((alone name).symm.trans (representative_of_lookup found))

theorem connects_ofLinks (links : List (String × String)) :
    Connects (fun a b => (a, b) ∈ links) (ofLinks links) := by
  have sound : Sound (fun a b => (a, b) ∈ links) (ofLinks links) :=
    (sound_empty _).foldl_merge fun link member => member
  have same {a b : String} (connected : Relation.EqvGen (fun a b => (a, b) ∈ links) a b) :
      (ofLinks links).representative a = (ofLinks links).representative b := by
    induction connected with
    | rel a b member => exact (sameClass_iff _ a b).mp (sameClass_ofLinks member)
    | refl a => rfl
    | symm a b _ ih => exact ih.symm
    | trans a b c _ _ first second => exact first.trans second
  refine ⟨fun a b => ⟨fun together => ?_, fun connected => ?_⟩, sound.connected,
    fun a b connected => same connected ▸ sound.le b, sound.isTrivial_iff⟩
  · rw [AliasClasses.sameClass_iff] at together
    exact .trans _ _ _ (sound.connected a) (together ▸ .symm _ _ (sound.connected b))
  · exact (AliasClasses.sameClass_iff _ a b).mpr (same connected)

end AliasClasses

namespace Function

/-- What an instruction links: a destination that is a pointer with an operand that it copies or
offsets. -/
inductive Linked (function : Function) : String → String → Prop
  | copy {instruction : Instruction} {dest operand : String}
      (inside : instruction ∈ function.instructions)
      (operation : instruction.opcode = .id ∨ instruction.opcode = .phi)
      (assigned : instruction.dest = some dest) (pointer : function.declaresPointer dest = true)
      (member : operand ∈ instruction.args) : Linked function dest operand
  | offset {instruction : Instruction} {dest operand : String}
      (inside : instruction ∈ function.instructions) (operation : instruction.opcode = .ptradd)
      (assigned : instruction.dest = some dest) (pointer : function.declaresPointer dest = true)
      (first : instruction.args[0]? = some operand) : Linked function dest operand

variable {function other : Function}

theorem mem_copiedArgs_iff (instruction : Instruction) (operand : String) :
    operand ∈ instruction.copiedArgs ↔
      (instruction.opcode = .id ∨ instruction.opcode = .phi) ∧ operand ∈ instruction.args ∨
        instruction.opcode = .ptradd ∧ instruction.args[0]? = some operand := by
  rw [Instruction.copiedArgs]
  cases operation : instruction.opcode <;> cases instruction.args <;> simp [eq_comm]

theorem linked_iff (a b : String) : function.Linked a b ↔ (a, b) ∈ function.copyLinks := by
  rw [mem_copyLinks_iff]
  constructor
  · rintro (⟨inside, operation, assigned, pointer, member⟩ |
      ⟨inside, operation, assigned, pointer, first⟩)
    · exact ⟨_, inside, assigned, pointer,
        (mem_copiedArgs_iff _ _).mpr (.inl ⟨operation, member⟩)⟩
    · exact ⟨_, inside, assigned, pointer,
        (mem_copiedArgs_iff _ _).mpr (.inr ⟨operation, first⟩)⟩
  · rintro ⟨instruction, inside, assigned, pointer, copied⟩
    rcases (mem_copiedArgs_iff _ _).mp copied with ⟨operation, member⟩ | ⟨operation, first⟩
    · exact .copy inside operation assigned pointer member
    · exact .offset inside operation assigned pointer first

/-- Links depend on which instructions there are and on the types of variables. -/
theorem Linked.congr (inside : other.instructions.Perm function.instructions)
    (types : ∀ name, other.typeOf? name = function.typeOf? name) :
    other.Linked = function.Linked := by
  funext a b
  simp only [linked_iff, mem_copyLinks_iff, inside.mem_iff, declaresPointer, types]

theorem connects_aliasClasses (function : Function) :
    AliasClasses.Connects function.Linked function.aliasClasses := by
  have same : function.Linked = fun a b => (a, b) ∈ function.copyLinks := by
    funext a b
    exact propext (linked_iff a b)
  rw [same]
  exact AliasClasses.connects_ofLinks function.copyLinks

/-- The forest of the links of a function. -/
def aliasForest (function : Function) : AliasForest :=
  .ofLinks function.copyLinks

/-- Two variables are in one class where links connect them, the representative of a class is the
member with the least bytes, and the classes are trivial where each has one member. The order of the
instructions does not matter, nor does the order in which the variables of the forest are listed. -/
theorem aliasClasses_connect (function : Function) :
    (∀ a b, function.aliasClasses.sameClass a b = true ↔ Relation.EqvGen function.Linked a b) ∧
      (∀ a, Relation.EqvGen function.Linked a (function.aliasClasses.representative a) ∧
        ∀ b, Relation.EqvGen function.Linked a b →
          bytes (function.aliasClasses.representative a) ≤ bytes b) ∧
      (function.aliasClasses.isTrivial = true ↔
        ∀ a b, function.aliasClasses.sameClass a b = true → a = b) ∧
      (∀ other : Function, other.instructions.Perm function.instructions →
        (∀ name, other.typeOf? name = function.typeOf? name) →
          (∀ a, other.aliasClasses.representative a = function.aliasClasses.representative a) ∧
            (∀ a b, other.aliasClasses.sameClass a b = function.aliasClasses.sameClass a b) ∧
            other.aliasClasses.isTrivial = function.aliasClasses.isTrivial) ∧
      ∀ order : List String, (∀ name, name ∈ order ↔ function.aliasForest.Lists name) →
        (∀ a, AliasClasses.representative ⟨function.aliasForest.sweep order⟩ a =
            function.aliasClasses.representative a) ∧
          (∀ a b, AliasClasses.sameClass ⟨function.aliasForest.sweep order⟩ a b =
            function.aliasClasses.sameClass a b) ∧
          AliasClasses.isTrivial ⟨function.aliasForest.sweep order⟩ =
            function.aliasClasses.isTrivial := by
  have connects := connects_aliasClasses function
  refine ⟨connects.sameClass_iff, fun a => ⟨connects.connected a, fun b connected => ?_⟩,
    connects.isTrivial_iff_sameClass, fun other inside types => ?_, fun order listed => ?_⟩
  · rw [bytes_le_iff]
    exact connects.least a b connected
  · have others := connects_aliasClasses other
    rw [Linked.congr inside types] at others
    have same := connects.representative_eq others
    refine ⟨same, AliasClasses.sameClass_congr same, ?_⟩
    · rw [Bool.eq_iff_iff, others.isTrivial_iff, connects.isTrivial_iff]
      exact forall_congr' fun a => by rw [same]
  · have all (name : String) (member : function.aliasForest.Lists name) : name ∈ order :=
      (listed name).mpr member
    have same (a : String) : AliasClasses.representative ⟨function.aliasForest.sweep order⟩ a =
        function.aliasClasses.representative a := by
      rw [AliasForest.representative_sweep _ all, aliasForest, AliasForest.root_ofLinks,
        aliasClasses]
    refine ⟨same, AliasClasses.sameClass_congr same, ?_⟩
    · rw [Bool.eq_iff_iff, AliasForest.isTrivial_sweep_iff _ all, connects.isTrivial_iff]
      refine forall_congr' fun a => ?_
      rw [aliasForest, AliasForest.root_ofLinks, aliasClasses]

end Function

end ProgramGraphs
