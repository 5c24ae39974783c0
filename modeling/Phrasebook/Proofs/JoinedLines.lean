import Mathlib.Data.List.Infix
import Mathlib.Data.List.TakeWhile
import Phrasebook.Markup.Text
import Phrasebook.Proofs.WrittenFiles

/-! What markup text is shown as. Each longest run of spaces, tabs and line breaks that breaks a line is to disappear at
the ends of the text and to become one space elsewhere. Lines are put together one by one instead, and every further
blank line leaves one more space. So the text is shown as it should be just where two line breaks with nothing but
indentation between them stand nowhere but at its end. -/

namespace Phrasebook

namespace Markup

def isSpacing (c : Char) : Bool := indents c || c = '\n'

/-- What is left of a run of spaces, tabs and line breaks. -/
def shownRun (atEnd : Bool) (run : List Char) : List Char :=
  if run.contains '\n' then (if atEnd then [] else [' ']) else run

/-- A text with its longest runs of spaces, tabs and line breaks resolved: of those that break a line nothing is left at
the ends of the text, and one space elsewhere. All else is as it was. -/
def resolved (atStart : Bool) (text : List Char) : List Char :=
  match text with
  | [] => []
  | c :: rest =>
    if isSpacing c then
      let behind := rest.dropWhile isSpacing
      shownRun (atStart || behind.isEmpty) (c :: rest.takeWhile isSpacing) ++ resolved false behind
    else c :: resolved false rest
termination_by text.length
decreasing_by
  · exact Nat.lt_succ_of_le (List.dropWhile_suffix isSpacing).length_le
  · exact Nat.lt_succ_self rest.length

/-- Whether two line breaks with nothing but indentation between them are followed by nothing. -/
def BreaksOnce (text : List Char) : Prop :=
  ∀ before gap behind, text = before ++ '\n' :: gap ++ '\n' :: behind → gap.all indents = true → behind = []

end Markup

namespace Proofs.JoinedLines

open Markup Segments Text WrittenFiles

section Resolved

variable {line text rest : List Char} {atStart : Bool}

theorem isSpacing_of_indents {c : Char} (blank : indents c = true) : isSpacing c = true := by simp [isSpacing, blank]

theorem resolved_cons {c : Char} (solid : isSpacing c = false) (text : List Char) :
    resolved atStart (c :: text) = c :: resolved false text := by
  rw [resolved, if_neg (by simp [solid])]

theorem resolved_run {run behind : List Char} (spacing : ∀ c ∈ run, isSpacing c = true) (some : run ≠ [])
    (apart : ∀ c ∈ behind.head?, isSpacing c = false) :
    resolved atStart (run ++ behind) = shownRun (atStart || behind.isEmpty) run ++ resolved false behind := by
  obtain ⟨c, run, rfl⟩ := List.exists_cons_of_ne_nil some
  obtain ⟨first, others⟩ := List.forall_mem_cons.mp spacing
  have stops : behind.takeWhile isSpacing = [] ∧ behind.dropWhile isSpacing = behind := by
    cases behind with
    | nil => simp
    | cons d behind => simp [apart d rfl]
  rw [List.cons_append, resolved, if_pos first]
  dsimp only
  rw [List.takeWhile_append_of_pos others, List.dropWhile_append_of_pos others, stops.1, stops.2, List.append_nil]

theorem resolved_of_notMem (whole : '\n' ∉ text) : resolved atStart text = text := by
  fun_induction resolved atStart text with
  | case1 => rfl
  | case2 atStart c rest spacing behind ih =>
    have inRun : (c :: rest.takeWhile isSpacing) ++ behind = c :: rest := by simp [behind]
    have absent : (c :: rest.takeWhile isSpacing).contains '\n' = false := by
      rw [← inRun, List.mem_append, not_or] at whole
      simpa using whole.1
    have later : '\n' ∉ behind := fun member => whole (inRun ▸ List.mem_append_right _ member)
    rw [ih later, shownRun, absent, if_neg Bool.false_ne_true, inRun]
  | case3 atStart c rest _ ih => rw [ih fun member => whole (List.mem_cons_of_mem _ member)]

/-- What follows a line break inside a text, resolved together with it. -/
def behindBreak (rest : List Char) : List Char :=
  if rest.all isSpacing then [] else ' ' :: resolved false (rest.dropWhile isSpacing)

theorem head?_dropWhile (text : List Char) : ∀ c ∈ (text.dropWhile isSpacing).head?, isSpacing c = false := by
  intro c first
  have solid := List.head?_dropWhile_not isSpacing text
  rw [Option.mem_def.mp first] at solid
  simpa using solid

/-- A line of indentation at the start of a text disappears with all spacing behind it. -/
theorem resolved_of_blank (blank : line.all indents = true) (rest : List Char) :
    resolved atStart (line ++ '\n' :: rest) =
      if atStart then resolved false (rest.dropWhile isSpacing) else behindBreak rest := by
  have spacing : ∀ c ∈ line ++ '\n' :: rest.takeWhile isSpacing, isSpacing c = true := by
    intro c member
    rcases List.mem_append.mp member with inLine | later
    · exact isSpacing_of_indents (List.all_eq_true.mp blank c inLine)
    · rcases List.mem_cons.mp later with rfl | inRun
      · rfl
      · exact List.all_eq_true.mp List.all_takeWhile c inRun
  have parts : line ++ '\n' :: rest = (line ++ '\n' :: rest.takeWhile isSpacing) ++ rest.dropWhile isSpacing := by simp
  rw [parts, resolved_run spacing (by simp) (head?_dropWhile rest), shownRun, if_pos (by simp)]
  cases atStart with
  | true => rfl
  | false =>
    have left : (rest.dropWhile isSpacing).isEmpty = rest.all isSpacing := by
      rw [Bool.eq_iff_iff, List.isEmpty_iff, List.dropWhile_eq_nil_iff, List.all_eq_true]
    rw [behindBreak, Bool.false_or, left, if_neg Bool.false_ne_true]
    split
    next nothing =>
      rw [List.dropWhile_eq_nil_iff.mpr (List.all_eq_true.mp nothing), resolved]
      rfl
    next => rfl

theorem trimLineEnd_append_cons {c : Char} (solid : indents c = false) (before behind : List Char) :
    trimLineEnd (before ++ c :: behind) = before ++ c :: trimLineEnd behind := by
  have kept : (c :: before.reverse).dropWhile indents = c :: before.reverse :=
    List.dropWhile_cons_of_neg (by simp [solid])
  simp only [trimLineEnd, List.reverse_append, List.reverse_cons, List.append_assoc, List.singleton_append,
    List.dropWhile_append, kept]
  split
  next nothing => simp [List.isEmpty_iff.mp nothing]
  next => simp

theorem trimLineEnd_of_blank (blank : line.all indents = true) : trimLineEnd line = [] := by
  rw [trimLineEnd, List.reverse_eq_nil_iff, List.dropWhile_eq_nil_iff]
  simpa using blank

theorem core_of_solid (solid : line.all indents = false) :
    ∃ c core, (∀ c ∈ line.takeWhile indents, indents c = true) ∧ indents c = false ∧
      line.takeWhile indents ++ c :: core = line ∧ trimLineStart line = c :: core := by
  cases trimmed : line.dropWhile indents with
  | nil =>
    rw [List.dropWhile_eq_nil_iff, ← List.all_eq_true, solid] at trimmed
    cases trimmed
  | cons c core =>
    have stops := List.head?_dropWhile_not indents line
    rw [trimmed] at stops
    exact ⟨c, core, fun c => List.mem_takeWhile_imp, by simpa using stops,
      trimmed ▸ List.takeWhile_append_dropWhile, trimmed⟩

/-- A line that is not blank, or not the first one, is shown without the blanks at its end where others follow. -/
theorem resolved_line {atStart : Bool} {line : List Char} (whole : '\n' ∉ line)
    (kept : atStart = true → line.all indents = false) (rest : List Char) :
    resolved atStart (line ++ '\n' :: rest) = trimLineEnd line ++ behindBreak rest := by
  cases blank : line.all indents with
  | true =>
    have inside : atStart = false := Bool.eq_false_iff.mpr fun start => Bool.false_ne_true ((kept start).symm.trans blank)
    rw [resolved_of_blank blank, inside, trimLineEnd_of_blank blank]
    rfl
  | false =>
    obtain ⟨c, core, indentation, first, parts, -⟩ := core_of_solid blank
    have shorter : core.length < line.length := by
      rw [← parts, List.length_append, List.length_cons]
      omega
    rw [← parts, List.mem_append, List.mem_cons, not_or, not_or] at whole
    have solidC : isSpacing c = false := by simp [isSpacing, first, Ne.symm whole.2.1]
    have indentation (c : Char) (member : c ∈ line.takeWhile indents) : isSpacing c = true :=
      isSpacing_of_indents (List.mem_takeWhile_imp member)
    have behind (atStart : Bool) : resolved atStart (c :: (core ++ '\n' :: rest)) =
        c :: (trimLineEnd core ++ behindBreak rest) := by
      rw [resolved_cons solidC, resolved_line whole.2.2 fun impossible => by cases impossible]
    rw [← parts, trimLineEnd_append_cons first, List.append_assoc, List.cons_append]
    by_cases none : line.takeWhile indents = []
    · rw [none, List.nil_append, behind]
      rfl
    · rw [resolved_run indentation none (by simp [solidC]), shownRun, behind, if_neg (by simpa using whole.1)]
      simp
termination_by line.length

end Resolved

section Lines

variable {line first second : List Char} {lines init others : List (List Char)}

/-- A line behind others, without the blanks around the line breaks. -/
def further (isLast : Bool) (line : List Char) : List Char :=
  ' ' :: (if isLast then trimLineStart line else trimLineEnd (trimLineStart line))

/-- Lines behind others, resolved: blank ones leave nothing. -/
def resolvedFurther : List (List Char) → List Char
  | [] => []
  | line :: rest => if line.all indents then resolvedFurther rest else further rest.isEmpty line ++ resolvedFurther rest

/-- Lines behind others, as they are shown: a blank one leaves nothing where it is the last one or stands before an
empty last one. -/
def shownFurther : List (List Char) → List Char
  | [] => []
  | line :: rest =>
    if line.all indents && (rest == [] || rest == [[]]) then [] else further rest.isEmpty line ++ shownFurther rest

theorem dropWhile_isSpacing (whole : '\n' ∉ line) : line.dropWhile isSpacing = trimLineStart line := by
  induction line with
  | nil => rfl
  | cons c line ih =>
    rw [List.mem_cons, not_or] at whole
    have same : isSpacing c = indents c := by simp [isSpacing, Ne.symm whole.1]
    rw [trimLineStart, List.dropWhile_cons, List.dropWhile_cons, same, ih whole.2, trimLineStart]

theorem all_isSpacing (whole : '\n' ∉ line) : line.all isSpacing = line.all indents := by
  rw [Bool.eq_iff_iff, List.all_eq_true, List.all_eq_true]
  refine forall₂_congr fun c member => ?_
  have other : c ≠ '\n' := fun same => whole (same ▸ member)
  simp [isSpacing, other]

theorem dropWhile_isSpacing_append (whole : '\n' ∉ line) (solid : line.all indents = false) (rest : List Char) :
    (line ++ rest).dropWhile isSpacing = trimLineStart line ++ rest := by
  have stops : (line.dropWhile isSpacing).isEmpty = false := by
    rw [Bool.eq_false_iff, Ne, List.isEmpty_iff, List.dropWhile_eq_nil_iff, ← List.all_eq_true, all_isSpacing whole, solid]
    exact Bool.false_ne_true
  rw [List.dropWhile_append, stops, if_neg Bool.false_ne_true, dropWhile_isSpacing whole]

theorem notMem_trimLineStart (whole : '\n' ∉ line) : '\n' ∉ trimLineStart line :=
  fun member => whole ((List.dropWhile_suffix indents).subset member)

theorem behindBreak_lines (some : lines ≠ []) (whole : ∀ line ∈ lines, '\n' ∉ line) :
    behindBreak (['\n'].intercalate lines) = resolvedFurther lines := by
  induction lines with
  | nil => exact absurd rfl some
  | cons line lines ih =>
    obtain ⟨here, others⟩ := List.forall_mem_cons.mp whole
    cases lines with
    | nil =>
      rw [List.intercalate_singleton, behindBreak, all_isSpacing here, dropWhile_isSpacing here,
        resolved_of_notMem (notMem_trimLineStart here)]
      simp [resolvedFurther, further]
    | cons next lines =>
      have later := ih (List.cons_ne_nil _ _) others
      rw [List.intercalate_cons_cons, List.append_assoc, List.singleton_append, resolvedFurther, ← later]
      cases blank : line.all indents with
      | true =>
        have spacing : ∀ c ∈ line, isSpacing c = true := List.all_eq_true.mp ((all_isSpacing here).trans blank)
        have brk : isSpacing '\n' = true := rfl
        rw [if_pos rfl, behindBreak, List.all_append, List.all_cons, all_isSpacing here, blank,
          List.dropWhile_append_of_pos spacing, List.dropWhile_cons_of_pos brk]
        rfl
      | false =>
        rw [if_neg Bool.false_ne_true, behindBreak, List.all_append, all_isSpacing here, blank,
          dropWhile_isSpacing_append here blank, resolved_line (notMem_trimLineStart here) fun impossible => by cases impossible]
        rfl

/-- Lines that neither are missing nor a single empty one let all lines before them leave something. -/
theorem shownFurther_append {tail : List (List Char)} (some : tail ≠ []) (more : tail ≠ [[]]) (init : List (List Char)) :
    shownFurther (init ++ tail) = init.flatMap (further false) ++ shownFurther tail := by
  induction init with
  | nil => rfl
  | cons line init ih =>
    have left : (init ++ tail == []) = false ∧ (init ++ tail == [[]]) = false := by
      rw [beq_eq_false_iff_ne, beq_eq_false_iff_ne]
      cases init with
      | nil => exact ⟨some, more⟩
      | cons next init => simp [some]
    have behind : (init ++ tail).isEmpty = false := by simp [some]
    rw [List.cons_append, shownFurther, left.1, left.2, behind, ih, List.flatMap_cons, List.append_assoc]
    simp

theorem ne_nil_of_solid (solid : line.all indents = false) : line ≠ [] := by
  rintro rfl
  cases solid

theorem joinFurther_append (init : List (List Char)) (line : List Char) :
    joinFurther (init ++ [line]) = init.flatMap (further false) ++ further true line := by
  induction init with
  | nil => rfl
  | cons first init ih =>
    rw [List.cons_append, joinFurther, ih, List.flatMap_cons, List.append_assoc]
    · rfl
    · simp

theorem joinLines_cons (some : lines ≠ []) (first : List Char) :
    joinLines (first :: lines) = trimLineEnd first ++ joinFurther lines := by
  rw [joinLines]
  exact some

theorem trimLineStart_trimLineEnd (line : List Char) :
    trimLineStart (trimLineEnd line) = trimLineEnd (trimLineStart line) := by
  cases blank : line.all indents with
  | true =>
    have nothing : trimLineStart line = [] := List.dropWhile_eq_nil_iff.mpr (List.all_eq_true.mp blank)
    rw [trimLineEnd_of_blank blank, nothing]
    rfl
  | false =>
    obtain ⟨c, core, indentation, first, parts, trimmed⟩ := core_of_solid blank
    rw [trimmed, ← List.nil_append (c :: core), trimLineEnd_append_cons first, ← parts, trimLineEnd_append_cons first,
      trimLineStart, List.dropWhile_append_of_pos indentation]
    simp [first]

/-- Lines of which the last one is shown without the blanks at its end. -/
theorem joinLines_trimmed (shape : first :: init = others.reverse ++ [second]) :
    joinLines (others.reverse ++ [trimLineEnd second]) = trimLineEnd first ++ init.flatMap (further false) := by
  cases earlier : others.reverse with
  | nil =>
    rw [earlier, List.nil_append] at shape
    obtain ⟨rfl, rfl⟩ := List.cons.inj shape
    simp [joinLines]
  | cons start more =>
    rw [earlier, List.cons_append] at shape
    obtain ⟨rfl, rfl⟩ := List.cons.inj shape
    rw [List.cons_append, joinLines_cons (by simp), joinFurther_append, List.flatMap_append]
    simp [further, trimLineStart_trimLineEnd]

theorem dropLastBlank_of_solid (solid : line.all indents = false) :
    ∀ others, dropLastBlank (line :: others) = line :: others
  | [] => rfl
  | [_] => by rw [dropLastBlank, solid, if_neg Bool.false_ne_true]
  | _ :: _ :: _ => by
    have some : line.isEmpty = false := List.isEmpty_eq_false_iff.mpr (ne_nil_of_solid solid)
    rw [dropLastBlank, some, solid, Bool.false_and, if_neg Bool.false_ne_true, if_neg Bool.false_ne_true]

/-- A blank last line is dropped, unless the line before it goes with it. -/
theorem dropLastBlank_of_blank (blank : line.all indents = true)
    (alone : line = [] → second.all indents = true → others = []) :
    dropLastBlank (line :: second :: others) = trimLineEnd second :: others := by
  cases others with
  | nil => rw [dropLastBlank, if_pos blank]
  | cons third others =>
    have kept : (line.isEmpty && second.all indents) = false := by
      rw [Bool.and_eq_false_imp, List.isEmpty_iff]
      exact fun empty => Bool.eq_false_iff.mpr fun gone => List.cons_ne_nil _ _ (alone empty gone)
    rw [dropLastBlank, kept, blank]
    rfl

theorem shownFurther_of_blank {last : List Char} (blank : last.all indents = true)
    (alone : last = [] → ∀ before line, init = before ++ [line] → line.all indents = false) :
    shownFurther (init ++ [last]) = init.flatMap (further false) := by
  by_cases empty : last = []
  · subst empty
    rcases List.eq_nil_or_concat init with rfl | ⟨before, line, rfl⟩
    · rfl
    · rw [List.concat_eq_append] at alone ⊢
      have solid := alone rfl before line rfl
      rw [List.append_assoc, shownFurther_append (by simp) (by simp)]
      simp [shownFurther, solid]
  · rw [shownFurther_append (by simp) (by simpa using empty)]
    simp [shownFurther, blank]

/-- Lines from which a blank last one is dropped. -/
theorem joinLines_dropLastBlank (some : lines ≠ []) (first : List Char) :
    joinLines (dropLastBlank (first :: lines).reverse).reverse = trimLineEnd first ++ shownFurther lines := by
  obtain ⟨init, last, rfl⟩ := (List.eq_nil_or_concat lines).resolve_left some
  rw [List.concat_eq_append, ← List.cons_append, List.reverse_append, List.reverse_singleton, List.singleton_append]
  obtain ⟨second, others, shape⟩ := List.exists_cons_of_ne_nil (List.reverse_ne_nil_iff.mpr (List.cons_ne_nil first init))
  have shape' : first :: init = others.reverse ++ [second] := by
    rw [← List.reverse_reverse (first :: init), shape, List.reverse_cons]
  cases blank : last.all indents with
  | false =>
    rw [dropLastBlank_of_solid blank, List.reverse_cons, List.reverse_reverse, List.cons_append,
      joinLines_cons (by simp), joinFurther_append,
      shownFurther_append (by simp) (by simpa using ne_nil_of_solid blank)]
    simp [shownFurther, blank]
  | true =>
    by_cases both : last = [] ∧ second.all indents = true ∧ others ≠ []
    · obtain ⟨rfl, gone, some⟩ := both
      -- the line before the last one goes with it
      obtain ⟨third, others, rfl⟩ := List.exists_cons_of_ne_nil some
      obtain ⟨init, rfl⟩ : ∃ earlier, init = earlier ++ [second] := by
        cases earlier : (third :: others).reverse with
        | nil => simp at earlier
        | cons start more =>
          rw [earlier, List.cons_append] at shape'
          exact ⟨more, (List.cons.inj shape').2⟩
      have shorter : first :: init = others.reverse ++ [third] := by
        rw [← List.cons_append, List.append_left_inj] at shape'
        simpa using shape'
      rw [shape, dropLastBlank, gone, List.isEmpty_nil, Bool.true_and, if_pos rfl, List.reverse_cons,
        joinLines_trimmed shorter, List.append_assoc, shownFurther_append (by simp) (by simp)]
      simp [shownFurther, gone]
    · have alone : last = [] → second.all indents = true → others = [] := fun empty gone =>
        not_not.mp fun some => both ⟨empty, gone, some⟩
      rw [shape, dropLastBlank_of_blank blank alone, List.reverse_cons, joinLines_trimmed shape']
      rw [shownFurther_of_blank blank]
      rintro empty before line rfl
      rw [← List.cons_append, List.append_singleton_inj] at shape'
      obtain ⟨earlier, rfl⟩ := shape'
      refine Bool.eq_false_iff.mpr fun gone => ?_
      simp [alone empty gone] at earlier

theorem length_resolvedFurther_le (lines : List (List Char)) :
    (resolvedFurther lines).length ≤ (shownFurther lines).length := by
  induction lines with
  | nil => exact Nat.le_refl _
  | cons line rest ih =>
    rw [resolvedFurther, shownFurther]
    cases blank : line.all indents with
    | false => simpa using ih
    | true =>
      rw [if_pos rfl, Bool.true_and]
      split
      next last =>
        simp only [Bool.or_eq_true, beq_iff_eq] at last
        rcases last with rfl | rfl <;> simp [resolvedFurther]
      next =>
        rw [List.length_append]
        omega

/-- Of the blank lines behind others all but the last one leave a space. -/
theorem shownFurther_eq_iff :
    shownFurther lines = resolvedFurther lines ↔
      ∀ line rest, line :: rest <:+ lines → line.all indents = true → rest = [] ∨ rest = [[]] := by
  induction lines with
  | nil => simp [shownFurther, resolvedFurther]
  | cons line rest ih =>
    simp only [List.suffix_cons_iff, List.cons.injEq, or_imp, forall_and]
    rw [← ih, resolvedFurther, shownFurther]
    cases blank : line.all indents with
    | false => simp +contextual [blank]
    | true =>
      rw [if_pos rfl, Bool.true_and]
      split
      next last =>
        simp only [Bool.or_eq_true, beq_iff_eq] at last
        rcases last with rfl | rfl <;> simp [resolvedFurther, shownFurther]
      next more =>
        simp only [Bool.or_eq_true, beq_iff_eq] at more
        have longer : further rest.isEmpty line ++ shownFurther rest ≠ resolvedFurther rest := by
          intro same
          have lengths := congrArg List.length same
          have shorter := length_resolvedFurther_le rest
          simp only [List.length_append, further, List.length_cons] at lengths
          omega
        exact iff_of_false longer fun once => more (once.1 line rest ⟨rfl, rfl⟩ blank)

theorem shownFurther_cons_of_blank (some : resolvedFurther (second :: lines) ≠ []) :
    ' ' :: joinLines (dropLastBlank (trimLineStart second :: lines).reverse).reverse =
      shownFurther (second :: lines) := by
  have shown : (second.all indents && (lines == [] || lines == [[]])) = false := by
    rw [Bool.and_eq_false_imp, Bool.or_eq_false_iff, beq_eq_false_iff_ne, beq_eq_false_iff_ne]
    intro blank
    constructor <;> rintro rfl <;> simp [resolvedFurther, blank] at some
  rw [shownFurther, shown, if_neg Bool.false_ne_true]
  cases lines with
  | nil => simp [dropLastBlank, joinLines, further, shownFurther]
  | cons third lines =>
    rw [joinLines_dropLastBlank (List.cons_ne_nil _ _)]
    rfl

end Lines

section Texts

variable {text : List Char} {first : List Char} {others : List (List Char)}

theorem notMem_of_mem_splitOn {line : List Char} (member : line ∈ text.splitOn '\n') : '\n' ∉ line :=
  cut?_eq_none_iff.mp (cut?_of_mem_splitChars (List.cons_ne_nil _ _) (splitChars_singleton _ text ▸ member))

theorem breaksOnce_iff (lines : text.splitOn '\n' = first :: others) :
    BreaksOnce text ↔ ∀ line rest, line :: rest <:+ others → line.all indents = true → rest = [] ∨ rest = [[]] := by
  have joined : ['\n'].intercalate (first :: others) = text := lines ▸ List.intercalate_splitOn '\n'
  constructor
  · rintro once line rest ⟨before, rfl⟩ blank
    refine or_iff_not_imp_left.mpr fun some => ?_
    have whole (part : List Char) (member : part ∈ first :: before ++ line :: rest) : '\n' ∉ part :=
      notMem_of_mem_splitOn (by rw [lines]; exact member)
    have around : (['\n'].intercalate (first :: before)).splitOn '\n' = first :: before ∧
        (['\n'].intercalate rest).splitOn '\n' = rest :=
      ⟨List.splitOn_intercalate '\n' (fun part member => whole part (List.mem_append_left _ member))
          (List.cons_ne_nil _ _),
        List.splitOn_intercalate '\n'
          (fun part member => whole part (List.mem_append_right _ (List.mem_cons_of_mem _ member))) some⟩
    have parts : ['\n'].intercalate (first :: before) ++ '\n' :: line ++ '\n' :: ['\n'].intercalate rest = text := by
      have here : '\n' ∉ line := whole line (List.mem_append_right _ List.mem_cons_self)
      rw [← joined, ← (List.intercalate_splitOn '\n' : _ = _ ++ '\n' :: line ++ _), List.append_assoc, List.cons_append,
        List.splitOn_append_cons_self, List.splitOn_append_cons_self_of_not_mem here, around.1, around.2]
      rfl
    rw [once _ _ _ parts.symm blank] at around
    exact around.2 ▸ rfl
  · rintro once before gap behind rfl blank
    have here : '\n' ∉ gap := fun member => absurd (List.all_eq_true.mp blank '\n' member) (by decide)
    obtain ⟨start, more, parts⟩ := List.exists_cons_of_ne_nil (List.splitOn_ne_nil '\n' before)
    rw [List.append_assoc, List.cons_append, List.splitOn_append_cons_self,
      List.splitOn_append_cons_self_of_not_mem here, parts, List.cons_append, List.cons.injEq] at lines
    have empty := (once gap _ ⟨more, lines.2⟩ blank).resolve_left (List.splitOn_ne_nil '\n' behind)
    rw [← (List.intercalate_splitOn '\n' : _ = behind), empty]
    rfl

theorem isBlank_of_isSpacing {c : Char} (spacing : isSpacing c = true) : isBlank c = true := by
  simp only [isSpacing, indents, Bool.or_eq_true, decide_eq_true_eq] at spacing
  rcases spacing with (rfl | rfl) | rfl <;> rfl

/-- Lines are put together as they should be just where none of them is blank between two others and not the last
but an empty one. -/
theorem joinLines_eq_iff (kept : ¬ (text.all isBlank = true ∧ '\n' ∈ text)) :
    joinLines (dropLastBlank (dropFirstBlank (splitChars ['\n'] text)).reverse).reverse = resolved true text ↔
      BreaksOnce text := by
  rw [splitChars_singleton]
  obtain ⟨first, others, lines⟩ := List.exists_cons_of_ne_nil (List.splitOn_ne_nil '\n' text)
  have whole (line : List Char) (member : line ∈ first :: others) : '\n' ∉ line :=
    notMem_of_mem_splitOn (lines ▸ member)
  obtain ⟨here, behind⟩ := List.forall_mem_cons.mp whole
  rw [breaksOnce_iff lines, ← shownFurther_eq_iff, lines]
  have joined : ['\n'].intercalate (first :: others) = text := lines ▸ List.intercalate_splitOn '\n'
  cases others with
  | nil =>
    rw [List.intercalate_singleton] at joined
    subst joined
    rw [resolved_of_notMem here]
    simp [dropFirstBlank, dropLastBlank, joinLines, shownFurther, resolvedFurther]
  | cons second rest =>
    rw [List.intercalate_cons_cons, List.append_assoc, List.singleton_append] at joined
    have resolvedBehind := behindBreak_lines (List.cons_ne_nil _ _) behind
    rw [dropFirstBlank]
    cases blank : first.all indents with
    | false =>
      rw [if_neg Bool.false_ne_true, joinLines_dropLastBlank (List.cons_ne_nil _ _), ← joined,
        resolved_line here (fun _ => blank), resolvedBehind, List.append_right_inj]
    | true =>
      have some : (['\n'].intercalate (second :: rest)).all isSpacing = false := by
        refine Bool.eq_false_iff.mpr fun spacing => kept ⟨List.all_eq_true.mpr fun c member => ?_, by simp [← joined]⟩
        rw [← joined, List.mem_append, List.mem_cons] at member
        rcases member with inFirst | rfl | later
        · exact isBlank_of_isSpacing (isSpacing_of_indents (List.all_eq_true.mp blank c inFirst))
        · rfl
        · exact isBlank_of_isSpacing (List.all_eq_true.mp spacing c later)
      rw [behindBreak, some, if_neg Bool.false_ne_true] at resolvedBehind
      rw [if_pos rfl, ← joined, resolved_of_blank blank, if_pos rfl,
        ← shownFurther_cons_of_blank (resolvedBehind ▸ List.cons_ne_nil _ _), ← resolvedBehind, List.cons_inj_right]

end Texts

/-- Nothing is left of blank text with a line break. Other text is shown as it should be just where two line breaks with
nothing but indentation between them stand nowhere but at its end. -/
theorem shownText?_resolved_iff (text : String) :
    (shownText? text = none ↔
      isBlankText (replace "\r\n" "\n" text) = true ∧ '\n' ∈ (replace "\r\n" "\n" text).toList) ∧
    ∀ shown, shownText? text = some shown →
      (shown.toList = resolved true (replace "\r\n" "\n" text).toList ↔
        BreaksOnce (replace "\r\n" "\n" text).toList) := by
  have brk : contains "\n" (replace "\r\n" "\n" text) = true ↔ '\n' ∈ (replace "\r\n" "\n" text).toList := by
    have found := not_congr (cut?_eq_none_iff : cut? ['\n'] (replace "\r\n" "\n" text).toList = none ↔ _)
    rwa [not_not, ← ne_eq, Option.ne_none_iff_isSome] at found
  simp only [shownText?, Bool.and_eq_true, brk]
  split
  next gone => simpa using gone
  next kept =>
    refine ⟨by simpa using kept, ?_⟩
    rintro shown found
    obtain rfl := Option.some.inj found
    rw [String.toList_ofList]
    exact joinLines_eq_iff kept

/-- A blank line between two others leaves a second space. -/
theorem blank_line_leaves_second_space :
    shownText? "a\n\nb" = some "a  b" ∧ resolved true "a\n\nb".toList = "a b".toList := by
  decide +kernel

end Proofs.JoinedLines

end Phrasebook
