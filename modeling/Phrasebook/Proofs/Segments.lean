import Phrasebook.Tree.Build

/-! The segments of a path. Joining them gives the path back, and the paths above it are those whose segments are
a proper beginning of its own: marks are found from the left, so a beginning is cut where the whole was. -/

namespace Phrasebook.Proofs.Segments

open Text

theorem after?_append (mark behind : List Char) : after? mark (mark ++ behind) = some behind := by
  induction mark with
  | nil => rfl
  | cons c mark ih => simpa [after?] using ih

theorem dropStart?_append (mark text : String) : dropStart? mark (mark ++ text) = some text := by
  rw [dropStart?, String.toList_append, after?_append, Option.map_some, String.ofList_toList]

theorem cut?_nil {mark : List Char} (marked : mark ≠ []) : cut? mark [] = none := if_neg marked

/-- A mark that is not cut at does not occur. -/
theorem not_infix_of_cut? {mark text : List Char} (absent : cut? mark text = none) : ¬ mark <:+: text := by
  rintro ⟨before, behind, rfl⟩
  induction before with
  | nil =>
    cases mark with
    | nil => cases behind <;> simp [cut?, after?] at absent
    | cons m mark =>
      have found := after?_append (m :: mark) behind
      simp only [List.cons_append] at found
      simp [cut?, found] at absent
  | cons c before ih =>
    simp only [List.cons_append, cut?] at absent
    split at absent
    · cases absent
    · exact ih (Option.map_eq_none_iff.mp absent)

theorem cut?_before {mark text before behind : List Char} (marked : mark ≠ [])
    (found : cut? mark text = some (before, behind)) : cut? mark before = none := by
  induction text generalizing before with
  | nil => simp [cut?_nil marked] at found
  | cons c rest ih =>
    rw [cut?] at found
    split at found
    · obtain ⟨rfl, _⟩ := Prod.mk.inj (Option.some.inj found)
      exact cut?_nil marked
    next notHere =>
      obtain ⟨⟨inner, after⟩, foundInside, same⟩ := Option.map_eq_some_iff.mp found
      obtain ⟨rfl, rfl⟩ := Prod.mk.inj same
      have seen : after? mark (c :: inner) = none := by
        apply Option.eq_none_iff_forall_ne_some.mpr
        intro left here
        rw [eq_append_of_cut? foundInside, ← List.cons_append, ← List.cons_append,
          eq_append_of_after? here, List.append_assoc, List.append_assoc, after?_append] at notHere
        cases notHere
      simp [cut?, seen, ih foundInside]

/-- Where a mark is found first depends on nothing behind it. -/
theorem cut?_append {mark text before behind : List Char} (found : cut? mark text = some (before, behind))
    (other : List Char) : cut? mark (before ++ mark ++ other) = some (before, other) := by
  induction text generalizing before with
  | nil =>
    by_cases marked : mark = []
    · subst marked
      simp only [cut?, ite_true, Option.some.injEq, Prod.mk.injEq] at found
      obtain ⟨rfl, _⟩ := found
      cases other <;> simp [cut?, after?]
    · simp [cut?_nil marked] at found
  | cons c rest ih =>
    rw [cut?] at found
    split at found
    · obtain ⟨rfl, _⟩ := Prod.mk.inj (Option.some.inj found)
      have here := after?_append mark other
      cases text : mark ++ other with
      | nil =>
        obtain ⟨rfl, rfl⟩ := List.append_eq_nil_iff.mp text
        simp [cut?]
      | cons first others =>
        rw [text] at here
        simp [cut?, text, here]
    next notHere =>
      obtain ⟨⟨inner, after⟩, foundInside, same⟩ := Option.map_eq_some_iff.mp found
      obtain ⟨rfl, rfl⟩ := Prod.mk.inj same
      -- a mark that started here would end before the text that was changed
      have seen : after? mark (c :: (inner ++ mark ++ other)) = none := by
        apply Option.eq_none_iff_forall_ne_some.mpr
        intro left here
        have fits : mark <+: c :: (inner ++ mark) := by
          refine List.prefix_of_prefix_length_le ⟨left, (eq_append_of_after? here).symm⟩ ⟨other, by simp⟩ ?_
          simp only [List.length_cons, List.length_append]
          omega
        obtain ⟨more, same⟩ := fits
        rw [eq_append_of_cut? foundInside, ← List.cons_append, ← same, List.append_assoc, after?_append] at notHere
        cases notHere
      rw [List.cons_append, List.cons_append, cut?, seen, ih foundInside]
      rfl

theorem splitChars_of_cut?_none {mark text : List Char} (absent : cut? mark text = none) :
    splitChars mark text = [text] := by
  rw [splitChars]
  split
  · rfl
  next found => simp [absent] at found

theorem splitChars_of_cut?_some {mark text before behind : List Char} (marked : mark ≠ [])
    (found : cut? mark text = some (before, behind)) :
    splitChars mark text = before :: splitChars mark behind := by
  rw [splitChars]
  split
  next absent => simp [found] at absent
  next other after cut =>
    rw [found] at cut
    obtain ⟨rfl, rfl⟩ := Prod.mk.inj (Option.some.inj cut)
    rw [dif_neg marked]

theorem splitChars_ne_nil (mark text : List Char) : splitChars mark text ≠ [] := by
  fun_cases splitChars mark text <;> simp

theorem intercalate_splitChars (mark text : List Char) : mark.intercalate (splitChars mark text) = text := by
  fun_induction splitChars mark text with
  | case1 => simp
  | case2 => simp
  | case3 text before behind found marked shorter ih =>
    rw [List.intercalate_cons_of_ne_nil (splitChars_ne_nil mark behind), ih, eq_append_of_cut? found]

theorem cut?_of_mem_splitChars {mark text part : List Char} (marked : mark ≠ [])
    (member : part ∈ splitChars mark text) : cut? mark part = none := by
  fun_induction splitChars mark text with
  | case1 text absent => exact List.mem_singleton.mp member ▸ absent
  | case2 text before behind found unmarked => exact absurd unmarked marked
  | case3 text before behind found _ shorter ih =>
    rcases List.mem_cons.mp member with rfl | later
    · exact cut?_before marked found
    · exact ih later

/-- Parts from the beginning, put together, come apart again. -/
theorem splitChars_take {mark text : List Char} (marked : mark ≠ []) (count : Nat) :
    splitChars mark (mark.intercalate ((splitChars mark text).take (count + 1))) =
      (splitChars mark text).take (count + 1) := by
  fun_induction splitChars mark text generalizing count with
  | case1 text absent => simp [splitChars_of_cut?_none absent]
  | case2 text before behind found unmarked => exact absurd unmarked marked
  | case3 text before behind found _ shorter ih =>
    cases count with
    | zero => simp [splitChars_of_cut?_none (cut?_before marked found)]
    | succ count =>
      have some : (splitChars mark behind).take (count + 1) ≠ [] := by
        simpa using splitChars_ne_nil mark behind
      rw [List.take_succ_cons, List.intercalate_cons_of_ne_nil some,
        splitChars_of_cut?_some marked (cut?_append found _), ih]

variable {mark : String}

theorem toList_ne_nil (marked : mark ≠ "") : mark.toList ≠ [] := by
  simpa using marked

theorem join_split (mark path : String) : join mark (split mark path) = path := by
  rw [← String.toList_inj, join, String.toList_intercalate, split, List.map_map]
  simpa [Function.comp_def] using intercalate_splitChars mark.toList path.toList

theorem split_ne_nil (mark path : String) : split mark path ≠ [] := by
  simpa [split] using splitChars_ne_nil mark.toList path.toList

theorem split_injective {first second : String} (same : split mark first = split mark second) : first = second := by
  rw [← join_split mark first, same, join_split]

theorem split_take (marked : mark ≠ "") (path : String) (count : Nat) :
    split mark (join mark ((split mark path).take (count + 1))) = (split mark path).take (count + 1) := by
  have chars : (splitChars mark.toList
        (mark.toList.intercalate ((splitChars mark.toList path.toList).take (count + 1)))).map String.ofList =
      ((splitChars mark.toList path.toList).take (count + 1)).map String.ofList :=
    congrArg _ (splitChars_take (toList_ne_nil marked) count)
  rw [List.map_take] at chars
  have joined : (join mark ((split mark path).take (count + 1))).toList =
      mark.toList.intercalate ((splitChars mark.toList path.toList).take (count + 1)) := by
    rw [join, String.toList_intercalate, split, ← List.map_take, List.map_map]
    simp [Function.comp_def]
  rw [split, joined, chars]
  rfl

/-- A segment is all of its own segments. -/
theorem split_of_mem (marked : mark ≠ "") {path segment : String} (member : segment ∈ split mark path) :
    split mark segment = [segment] := by
  obtain ⟨part, inside, rfl⟩ := List.mem_map.mp member
  have absent := cut?_of_mem_splitChars (toList_ne_nil marked) inside
  simp [split, splitChars_of_cut?_none absent]

/-- Whether one path is above another: its segments are a proper beginning of the other's. -/
def Above (mark above path : String) : Prop :=
  split mark above <+: split mark path ∧ split mark above ≠ split mark path

theorem mem_pathsAbove (marked : mark ≠ "") {above path : String} :
    above ∈ Built.pathsAbove mark path ↔ Above mark above path := by
  simp only [Built.pathsAbove, List.mem_map, List.mem_range, Above]
  constructor
  · rintro ⟨count, inside, rfl⟩
    rw [split_take marked]
    refine ⟨List.take_prefix _ _, fun same => ?_⟩
    have lengths := congrArg List.length same
    rw [List.length_take] at lengths
    omega
  · rintro ⟨⟨rest, together⟩, different⟩
    have shorter : rest ≠ [] := by
      rintro rfl
      exact different (by simpa using together)
    have some := List.length_pos_iff.mpr (split_ne_nil mark above)
    have more := List.length_pos_iff.mpr shorter
    have total := congrArg List.length together
    rw [List.length_append] at total
    refine ⟨(split mark above).length - 1, by omega, ?_⟩
    rw [Nat.sub_add_cancel some, ← together, List.take_left', join_split]
    rfl

end Phrasebook.Proofs.Segments
