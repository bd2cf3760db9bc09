import Mathlib.Data.String.Basic
import ProgramGraphs.Proofs.Json.Tree

/-! # The form in which values are kept

A value that is kept as data has the members of its objects in ascending order of their keys, each
key once. To bring a value into this form twice is to do it once; it makes nothing null and nests
nothing deeper.
-/

namespace ProgramGraphs.Json.Value

/-- Members in ascending order of their keys. -/
def Ascending (members : List (String × Value)) : Prop :=
  members.Pairwise fun first second => first.1 < second.1

theorem mem_insertMember {key : String} {value : Value} {members : List (String × Value)}
    {member : String × Value} (inside : member ∈ insertMember key value members) :
    member = (key, value) ∨ member ∈ members := by
  fun_induction insertMember key value members with
  | case1 => exact .inl (List.mem_singleton.mp inside)
  | case2 held rest =>
    rcases List.mem_cons.mp inside with same | inside
    · exact .inl same
    · exact .inr (List.mem_cons_of_mem _ inside)
  | case3 => exact List.mem_cons.mp inside
  | case4 other held rest _ _ ih =>
    rcases List.mem_cons.mp inside with same | inside
    · exact .inr (List.mem_cons.mpr (.inl same))
    · exact (ih inside).imp id (List.mem_cons_of_mem _)

theorem Ascending.insertMember {members : List (String × Value)} (ascending : Ascending members)
    (key : String) (value : Value) : Ascending (insertMember key value members) := by
  fun_induction Value.insertMember key value members with
  | case1 => exact List.pairwise_singleton _ _
  | case2 held rest =>
    exact List.pairwise_cons.mpr (List.pairwise_cons.mp ascending)
  | case3 other held rest _ less =>
    refine List.pairwise_cons.mpr ⟨fun member inside => ?_, ascending⟩
    rcases List.mem_cons.mp inside with rfl | inside
    · exact less
    · exact less.trans ((List.pairwise_cons.mp ascending).1 member inside)
  | case4 other held rest distinct notLess ih =>
    obtain ⟨before, later⟩ := List.pairwise_cons.mp ascending
    refine List.pairwise_cons.mpr ⟨fun member inside => ?_, ih later⟩
    rcases mem_insertMember inside with rfl | inside
    · exact (lt_or_gt_of_ne distinct).resolve_left notLess
    · exact before member inside

/-- A member with a greater key than all others is put behind them. -/
theorem insertMember_eq_append {key : String} {members : List (String × Value)}
    (last : ∀ member ∈ members, member.1 < key) (value : Value) :
    insertMember key value members = members ++ [(key, value)] := by
  induction members with
  | nil => rfl
  | cons member rest ih =>
    obtain ⟨less, others⟩ := List.forall_mem_cons.mp last
    rw [insertMember, if_neg (ne_of_gt less), if_neg (lt_asymm less), ih others, List.cons_append]

theorem mem_sortMembers {members : List (String × Value)} {member : String × Value}
    (inside : member ∈ sortMembers members) : member ∈ members := by
  have known : ∀ held ∈ sortMembers members, held ∈ members := by
    refine List.foldlRecOn (motive := fun sorted => ∀ held ∈ sorted, held ∈ members) members _
      (List.forall_mem_nil _) fun sorted known entry listed held inside => ?_
    rcases mem_insertMember inside with rfl | inside
    · exact listed
    · exact known held inside
  exact known member inside

theorem ascending_sortMembers (members : List (String × Value)) :
    Ascending (sortMembers members) :=
  List.foldlRecOn members _ List.Pairwise.nil fun _ ascending member _ =>
    ascending.insertMember member.1 member.2

theorem sortMembers_eq_self {members : List (String × Value)} (ascending : Ascending members) :
    sortMembers members = members := by
  have onward : ∀ todo held : List (String × Value), Ascending (held ++ todo) →
      todo.foldl (fun sorted (entry : String × Value) => insertMember entry.1 entry.2 sorted) held =
        held ++ todo := by
    intro todo
    induction todo with
    | nil => exact fun held _ => (List.append_nil held).symm
    | cons entry rest ih =>
      intro held sorted
      -- what is held stands before what is to come, so each member goes to the end
      have last : ∀ member ∈ held, member.1 < entry.1 := fun member inside =>
        (List.pairwise_append.mp sorted).2.2 member inside entry List.mem_cons_self
      rw [List.foldl_cons, insertMember_eq_append last, ih _ (by simpa using sorted)]
      simp
  exact onward members [] ascending

theorem normalizeItems_eq_self {items : List Value}
    (normal : ∀ item ∈ items, item.normalize = item) : normalizeItems items = items := by
  induction items with
  | nil => rfl
  | cons item rest ih =>
    obtain ⟨here, others⟩ := List.forall_mem_cons.mp normal
    rw [normalizeItems, here, ih others]

theorem normalizeMembers_eq_self {members : List (String × Value)}
    (normal : ∀ member ∈ members, member.2.normalize = member.2) :
    normalizeMembers members = members := by
  induction members with
  | nil => rfl
  | cons member rest ih =>
    obtain ⟨here, others⟩ := List.forall_mem_cons.mp normal
    rw [normalizeMembers, here, ih others]

mutual

theorem normalize_normalize (value : Value) : value.normalize.normalize = value.normalize := by
  cases value with
  | null => rfl
  | bool => rfl
  | number => rfl
  | string => rfl
  | array items =>
    rw [normalize, normalize, normalizeItems_eq_self (normalize_of_mem_items items)]
  | object members =>
    have normal : ∀ member ∈ sortMembers (normalizeMembers members),
        member.2.normalize = member.2 := fun member inside =>
      normalize_of_mem_members members member (mem_sortMembers inside)
    rw [normalize, normalize, normalizeMembers_eq_self normal,
      sortMembers_eq_self (ascending_sortMembers _)]

theorem normalize_of_mem_items (items : List Value) :
    ∀ item ∈ normalizeItems items, item.normalize = item := by
  cases items with
  | nil => exact fun _ inside => absurd inside List.not_mem_nil
  | cons item rest =>
    rw [normalizeItems]
    exact List.forall_mem_cons.mpr ⟨normalize_normalize item, normalize_of_mem_items rest⟩

theorem normalize_of_mem_members (members : List (String × Value)) :
    ∀ member ∈ normalizeMembers members, member.2.normalize = member.2 := by
  cases members with
  | nil => exact fun _ inside => absurd inside List.not_mem_nil
  | cons member rest =>
    rw [normalizeMembers]
    exact List.forall_mem_cons.mpr
      ⟨normalize_normalize member.2, normalize_of_mem_members rest⟩

end

mutual

theorem nesting_normalize_le (value : Value) : value.normalize.nesting ≤ value.nesting := by
  cases value with
  | null => exact Nat.le_refl _
  | bool => exact Nat.le_refl _
  | number => exact Nat.le_refl _
  | string => exact Nat.le_refl _
  | array items =>
    rw [normalize, nesting, nesting]
    exact Nat.succ_le_succ (itemNesting_normalizeItems_le items)
  | object members =>
    rw [normalize, nesting, nesting]
    refine Nat.succ_le_succ (memberNesting_le_iff.mpr fun member inside => ?_)
    exact memberNesting_le_iff.mp (memberNesting_normalizeMembers_le members) member
      (mem_sortMembers inside)

theorem itemNesting_normalizeItems_le (items : List Value) :
    itemNesting (normalizeItems items) ≤ itemNesting items := by
  cases items with
  | nil => exact Nat.le_refl _
  | cons item rest =>
    have here := nesting_normalize_le item
    have others := itemNesting_normalizeItems_le rest
    rw [normalizeItems, itemNesting, itemNesting]
    omega

theorem memberNesting_normalizeMembers_le (members : List (String × Value)) :
    memberNesting (normalizeMembers members) ≤ memberNesting members := by
  cases members with
  | nil => exact Nat.le_refl _
  | cons member rest =>
    have here := nesting_normalize_le member.2
    have others := memberNesting_normalizeMembers_le rest
    rw [normalizeMembers, memberNesting, memberNesting]
    omega

end

theorem eq_null_of_normalize {value : Value} (same : value.normalize = .null) : value = .null := by
  cases value with
  | null => rfl
  | bool | number | string | array | object => cases same

end ProgramGraphs.Json.Value
