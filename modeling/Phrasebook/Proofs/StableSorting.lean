import Phrasebook.Tree.Order

/-! What sorting by a total preorder comes to. Entries that compare alike form classes; a stable sort leaves the
order inside each class as it is, and nothing but that order and the classes matters to its result. -/

namespace Phrasebook.Proofs.StableSorting

open Catalog

variable {α : Type} {le : α → α → Bool}

def alike (le : α → α → Bool) (first second : α) : Bool := le first second && le second first

structure Lawful (le : α → α → Bool) : Prop where
  trans : ∀ first second third, le first second → le second third → le first third
  total : ∀ first second, (le first second || le second first) = true

theorem alike_symm {first second : α} (same : alike le first second = true) : alike le second first = true := by
  simpa only [alike, Bool.and_comm] using same

namespace Lawful

theorem alike_self (lawful : Lawful le) (entry : α) : alike le entry entry = true := by
  simpa [alike] using lawful.total entry entry

theorem alike_trans (lawful : Lawful le) {first second third : α} (one : alike le first second = true)
    (two : alike le second third = true) : alike le first third = true := by
  simp only [alike, Bool.and_eq_true] at one two ⊢
  exact ⟨lawful.trans _ _ _ one.1 two.1, lawful.trans _ _ _ two.2 one.2⟩

theorem filter_mergeSort (lawful : Lawful le) (entries : List α) (entry : α) :
    (entries.mergeSort le).filter (alike le entry) = entries.filter (alike le entry) := by
  have ordered : (entries.filter (alike le entry)).Pairwise (fun first second => le first second) := by
    apply List.pairwise_of_forall_mem_list
    intro first firstMember second secondMember
    have same := lawful.alike_trans (alike_symm (List.mem_filter.mp firstMember).2) (List.mem_filter.mp secondMember).2
    simp only [alike, Bool.and_eq_true] at same
    exact same.1
  have kept := (List.sublist_mergeSort lawful.trans lawful.total ordered List.filter_sublist).filter (alike le entry)
  simp only [List.filter_filter, Bool.and_self] at kept
  exact (kept.eq_of_length ((List.mergeSort_perm entries le).filter _).length_eq.symm).symm

/-- Sorted lists with the same classes are the same. -/
theorem eq_of_filter (lawful : Lawful le) {first second : List α} (firstSorted : first.Pairwise (le · ·))
    (secondSorted : second.Pairwise (le · ·))
    (classes : ∀ entry, first.filter (alike le entry) = second.filter (alike le entry)) : first = second := by
  have carries {source target : List α} (classes : ∀ entry, source.filter (alike le entry) = target.filter (alike le entry))
      {entry : α} (member : entry ∈ source) : entry ∈ target := by
    have inside : entry ∈ source.filter (alike le entry) := List.mem_filter.mpr ⟨member, lawful.alike_self entry⟩
    rw [classes entry] at inside
    exact (List.mem_filter.mp inside).1
  induction first generalizing second with
  | nil =>
    cases second with
    | nil => rfl
    | cons entry rest => exact absurd (carries (fun entry => (classes entry).symm) List.mem_cons_self) List.not_mem_nil
  | cons entry rest ih =>
    cases second with
    | nil => exact absurd (carries classes List.mem_cons_self) List.not_mem_nil
    | cons other others =>
      have reflexive (entry : α) : le entry entry = true := by simpa using lawful.total entry entry
      -- each first entry stands somewhere in the other list, so neither of the two is above the other
      have before : le entry other = true := by
        rcases List.mem_cons.mp (carries (fun entry => (classes entry).symm) List.mem_cons_self) with same | later
        · exact same ▸ reflexive other
        · exact List.rel_of_pairwise_cons firstSorted later
      have behind : le other entry = true := by
        rcases List.mem_cons.mp (carries classes List.mem_cons_self) with same | later
        · exact same ▸ reflexive entry
        · exact List.rel_of_pairwise_cons secondSorted later
      have same : alike le entry other = true := by simp [alike, before, behind]
      have heads := classes entry
      rw [List.filter_cons_of_pos (lawful.alike_self entry), List.filter_cons_of_pos same, List.cons.injEq] at heads
      obtain ⟨rfl, _⟩ := heads
      refine congrArg _ (ih firstSorted.tail secondSorted.tail fun third => ?_)
      have tails := classes third
      by_cases inClass : alike le third entry = true
      · rw [List.filter_cons_of_pos inClass, List.filter_cons_of_pos inClass] at tails
        exact (List.cons.inj tails).2
      · rwa [List.filter_cons_of_neg inClass, List.filter_cons_of_neg inClass] at tails

theorem mergeSort_congr (lawful : Lawful le) {first second : List α}
    (classes : ∀ entry, first.filter (alike le entry) = second.filter (alike le entry)) :
    first.mergeSort le = second.mergeSort le := by
  apply lawful.eq_of_filter
  · exact List.pairwise_mergeSort lawful.trans lawful.total first
  · exact List.pairwise_mergeSort lawful.trans lawful.total second
  · intro entry
    rw [lawful.filter_mergeSort, lawful.filter_mergeSort, classes entry]

/-- Entries of which no two compare alike may stand in any order in front of others. -/
theorem mergeSort_append_perm (lawful : Lawful le) {first second : List α} (same : first.Perm second)
    (apart : first.Pairwise fun entry other => alike le entry other = false) (rest : List α) :
    (first ++ rest).mergeSort le = (second ++ rest).mergeSort le := by
  apply lawful.mergeSort_congr
  intro entry
  rw [List.filter_append, List.filter_append]
  refine congrArg (· ++ _) ?_
  have classes := same.filter (alike le entry)
  have lonely := apart.filter (alike le entry)
  match found : first.filter (alike le entry) with
  | [] => rw [found] at classes; exact classes.nil_eq
  | [only] => rw [found] at classes; exact classes.singleton_eq
  | one :: two :: others =>
    rw [found] at lonely
    have inClass {member : α} (inside : member ∈ one :: two :: others) : alike le entry member = true :=
      (List.mem_filter.mp (found ▸ inside)).2
    have together := lawful.alike_trans (alike_symm (inClass List.mem_cons_self))
      (inClass (List.mem_cons_of_mem _ List.mem_cons_self))
    simp [List.rel_of_pairwise_cons lonely List.mem_cons_self] at together

/-- Entries behind others may be taken in the order in which sorting leaves them. -/
theorem mergeSort_append_filter (lawful : Lawful le) {first second : List α} {isSecond : α → Bool}
    (firstOut : ∀ entry ∈ first, isSecond entry = false) (secondIn : ∀ entry ∈ second, isSecond entry = true) :
    (first ++ ((first ++ second).mergeSort le).filter isSecond).mergeSort le = (first ++ second).mergeSort le := by
  apply lawful.mergeSort_congr
  intro entry
  have swapped (entries : List α) : (entries.filter isSecond).filter (alike le entry) =
      (entries.filter (alike le entry)).filter isSecond := by
    simp only [List.filter_filter, Bool.and_comm]
  have behind : (first ++ second).filter isSecond = second := by
    rw [List.filter_append, List.filter_eq_nil_iff.mpr (by simpa using firstOut), List.nil_append]
    exact List.filter_eq_self.mpr secondIn
  rw [List.filter_append, swapped, lawful.filter_mergeSort, ← swapped, behind, ← List.filter_append]

end Lawful

theorem lawful_names : Lawful fun (first second : String × Value) => decide (first.1 ≤ second.1) where
  trans _ _ _ one two := by
    simp only [decide_eq_true_eq] at one two ⊢
    exact String.le_trans one two
  total first second := by simpa using String.le_total first.1 second.1

theorem alike_names {first second : String × Value} :
    alike (fun first second => decide (first.1 ≤ second.1)) first second = true ↔ first.1 = second.1 := by
  simp only [alike, Bool.and_eq_true, decide_eq_true_eq]
  exact ⟨fun both => String.le_antisymm both.1 both.2, fun same => ⟨same ▸ String.le_refl _, same ▸ String.le_refl _⟩⟩

theorem lawful_comparator (comparator : Comparator) (sibling : String × Value → Sibling) :
    Lawful fun first second => comparator.order (sibling first) (sibling second) != .gt := by
  have lawful := comparator.lawful
  have le_iff (first second : Sibling) :
      (comparator.order first second != .gt) = true ↔ (comparator.order first second).isLE = true := by
    cases comparator.order first second <;> decide
  constructor
  · intro first second third one two
    rw [le_iff] at one two ⊢
    exact Std.TransCmp.isLE_trans one two
  · intro first second
    have swapped : comparator.order (sibling second) (sibling first) =
        (comparator.order (sibling first) (sibling second)).swap := Std.OrientedCmp.eq_swap
    rw [swapped]
    cases comparator.order (sibling first) (sibling second) <;> decide

/-- An order leaves entries alone or sorts them by a total preorder. -/
theorem arrange_cases (order : Order) (namespaceName : String) (keyOf : String → String) :
    (∀ entries, order.arrange namespaceName keyOf entries = entries) ∨
      ∃ le, Lawful le ∧ ∀ entries, order.arrange namespaceName keyOf entries = entries.mergeSort le := by
  cases order with
  | unsorted => exact Or.inl fun _ => rfl
  | unset => exact Or.inl fun _ => rfl
  | ascending => exact Or.inr ⟨_, lawful_names, fun _ => rfl⟩
  | «by» comparator => exact Or.inr ⟨_, lawful_comparator comparator _, fun _ => rfl⟩

theorem arrange_perm (order : Order) (namespaceName : String) (keyOf : String → String) (entries : Entries) :
    (order.arrange namespaceName keyOf entries).Perm entries := by
  rcases arrange_cases order namespaceName keyOf with same | ⟨le, _, sorts⟩
  · rw [same]
  · rw [sorts]
    exact List.mergeSort_perm entries le

theorem arrange_append_filter (order : Order) (namespaceName : String) (keyOf : String → String)
    {first second : Entries} {isSecond : String × Value → Bool}
    (firstOut : ∀ entry ∈ first, isSecond entry = false) (secondIn : ∀ entry ∈ second, isSecond entry = true) :
    order.arrange namespaceName keyOf
        (first ++ (order.arrange namespaceName keyOf (first ++ second)).filter isSecond) =
      order.arrange namespaceName keyOf (first ++ second) := by
  rcases arrange_cases order namespaceName keyOf with same | ⟨le, lawful, sorts⟩
  · rw [same, same, List.filter_append, List.filter_eq_nil_iff.mpr (by simpa using firstOut), List.nil_append,
      List.filter_eq_self.mpr secondIn]
  · simp only [sorts]
    exact lawful.mergeSort_append_filter firstOut secondIn

end Phrasebook.Proofs.StableSorting
