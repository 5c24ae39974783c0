import Mathlib.Algebra.BigOperators.Ring.List
import Mathlib.Computability.Language
import Phrasebook.Pattern.Brace
import Phrasebook.Proofs.WrittenFiles

/-! What a pattern with alternatives in braces stands for. A pattern is printed from literals and groups, one in the
other as deep as one likes. Choosing one alternative in every group gives the patterns that expanding finds. Expanding
puts each alternative of the first group with no group inside in the place of that group, until no group is left. -/

namespace Phrasebook.Pattern

def isBrace (c : Char) : Bool := c = '\x7b' || c = '\x7d'

/-- The characters of literals: all but braces and, inside groups, commas. -/
def isLiteral (inside : Bool) (c : Char) : Bool := !isBrace c && !(inside && c = ',')

mutual

/-- Literals and groups side by side, inside a group or not. -/
inductive Sequence : Bool → Type
  | nothing {inside : Bool} : Sequence inside
  | literal {inside : Bool} (text : List Char) (plain : ∀ c ∈ text, isLiteral inside c = true)
      (rest : Sequence inside) : Sequence inside
  | group {inside : Bool} (first : Sequence true) (others : Branches) (rest : Sequence inside) : Sequence inside

/-- The alternatives of a group but its first one, which are one or more. -/
inductive Branches : Type
  | last (branch : Sequence true) : Branches
  | more (branch : Sequence true) (others : Branches) : Branches

end

mutual

def Sequence.print {inside : Bool} : Sequence inside → List Char
  | .nothing => []
  | .literal text _ rest => text ++ rest.print
  | .group first others rest => '\x7b' :: (first.print ++ (others.print ++ '\x7d' :: rest.print))

def Branches.print : Branches → List Char
  | .last branch => ',' :: branch.print
  | .more branch others => ',' :: (branch.print ++ others.print)

end

mutual

/-- The texts that come of choosing an alternative in every group. -/
def Sequence.language {inside : Bool} : Sequence inside → Language Char
  | .nothing => 1
  | .literal text _ rest => {text} * rest.language
  | .group first others rest => (first.language + others.language) * rest.language

def Branches.language : Branches → Language Char
  | .last branch => branch.language
  | .more branch others => branch.language + others.language

end

def Branches.all : Branches → List (Sequence true)
  | .last branch => [branch]
  | .more branch others => branch :: others.all

theorem isLiteral_of_imp {inner outer : Bool} (fits : outer = true → inner = true) {c : Char}
    (literal : isLiteral inner c = true) : isLiteral outer c = true := by
  cases outer with
  | true => exact fits rfl ▸ literal
  | false =>
    rw [isLiteral, Bool.and_eq_true] at literal
    rw [isLiteral, literal.1]
    rfl

/-- A sequence with another one behind it, in a place in which all of its literals can stand. -/
def Sequence.append {inner outer : Bool} (fits : outer = true → inner = true) :
    Sequence inner → Sequence outer → Sequence outer
  | .nothing, rest => rest
  | .literal text plain more, rest =>
    .literal text (fun c member => isLiteral_of_imp fits (plain c member)) (more.append fits rest)
  | .group first others more, rest => .group first others (more.append fits rest)

mutual

/-- A sequence with each alternative of the first group that has no group inside in the place of that group. -/
def Sequence.opened {inside : Bool} : Sequence inside → List (Sequence inside)
  | .nothing => []
  | .literal text plain rest => rest.opened.map (.literal text plain)
  | .group first others rest =>
    -- while a group inside is left, that one comes first
    match first.opened, others.opened with
    | [], [] => (first :: others.all).map fun branch => branch.append (fun _ => rfl) rest
    | [], opened => opened.map fun others => .group first others rest
    | opened, _ => opened.map fun first => .group first others rest

def Branches.opened : Branches → List Branches
  | .last branch => branch.opened.map .last
  | .more branch others =>
    match branch.opened with
    | [] => others.opened.map (.more branch)
    | opened => opened.map fun branch => .more branch others

end

end Phrasebook.Pattern

namespace Phrasebook.Proofs.BraceAlternatives

open Pattern Segments Text WrittenFiles

section Groups

variable {text front inner : List Char} {opened : List (List Char)}

/-- A text whose braces open first and which has a group of alternatives, whatever follows it, with the texts that have
an alternative each in the place of the group. -/
structure Opens (text : List Char) (opened : List (List Char)) : Prop where
  starts : ∃ front rest, text = front ++ '\x7b' :: rest ∧ ∀ c ∈ front, isBrace c = false
  group : ∃ before inner behind, (∀ more, braceGroup? (text ++ more) = some (before, inner, behind ++ more)) ∧
    opened = (splitChars [','] inner).map fun option => before ++ option ++ behind

theorem braceGroup?_cons {c : Char} (noBrace : c ≠ '\x7b') (rest : List Char) :
    braceGroup? (c :: rest) = (braceGroup? rest).map fun (before, inner, behind) => (c :: before, inner, behind) := by
  rw [braceGroup?, if_neg (by simp [noBrace])]

theorem takeWhile_inner (plain : ∀ c ∈ front, isBrace c = false) {c : Char} (brace : isBrace c = true)
    (rest : List Char) :
    (front ++ c :: rest).takeWhile (fun d => d ≠ '\x7b' && d ≠ '\x7d') = front := by
  rw [List.takeWhile_append_of_pos, List.takeWhile_cons_of_neg, List.append_nil]
  · rcases Bool.or_eq_true _ _ ▸ brace with same | same <;> simp [of_decide_eq_true same]
  · intro d member
    simpa [isBrace] using plain d member

theorem braceGroup?_open (starts : ∃ front rest, text = front ++ '\x7b' :: rest ∧ ∀ c ∈ front, isBrace c = false) :
    braceGroup? ('\x7b' :: text) =
      (braceGroup? text).map fun (before, inner, behind) => ('\x7b' :: before, inner, behind) := by
  obtain ⟨front, rest, rfl, plain⟩ := starts
  -- the next brace opens too, so the first one has no group of its own yet
  rw [braceGroup?, takeWhile_inner plain rfl, List.drop_left, if_neg (by simp)]

theorem braceGroup?_group (plain : ∀ c ∈ inner, isBrace c = false) (comma : ',' ∈ inner) (behind : List Char) :
    braceGroup? ('\x7b' :: (inner ++ '\x7d' :: behind)) = some ([], inner, behind) := by
  rw [braceGroup?, takeWhile_inner plain rfl, List.drop_left, if_pos (by simp [comma])]
  rfl

theorem braceGroup?_of_plain (plain : ∀ c ∈ text, isBrace c = false) : braceGroup? text = none := by
  induction text with
  | nil => rfl
  | cons c text ih =>
    rw [List.forall_mem_cons] at plain
    have noBrace : c ≠ '\x7b' := by
      rintro rfl
      exact absurd plain.1 (by decide)
    rw [braceGroup?_cons noBrace, ih plain.2, Option.map_none]

theorem Opens.append (opens : Opens text opened) (more : List Char) :
    Opens (text ++ more) (opened.map (· ++ more)) := by
  obtain ⟨⟨front, rest, rfl, plain⟩, before, inner, behind, found, rfl⟩ := opens
  refine ⟨⟨front, rest ++ more, by simp, plain⟩, before, inner, behind ++ more, fun further => ?_, ?_⟩
  · rw [List.append_assoc _ more, found, List.append_assoc]
  · simp

theorem Opens.cons {c : Char} (opens : Opens text opened) (noBrace : isBrace c = false) :
    Opens (c :: text) (opened.map (c :: ·)) := by
  obtain ⟨⟨front, rest, rfl, plain⟩, before, inner, behind, found, rfl⟩ := opens
  refine ⟨⟨c :: front, rest, rfl, List.forall_mem_cons.mpr ⟨noBrace, plain⟩⟩, c :: before, inner, behind,
    fun further => ?_, by simp⟩
  rw [List.cons_append, braceGroup?_cons (by rintro rfl; cases noBrace), found, Option.map_some]

theorem Opens.behind (opens : Opens text opened) (plain : ∀ c ∈ front, isBrace c = false) :
    Opens (front ++ text) (opened.map (front ++ ·)) := by
  induction front with
  | nil => simpa using opens
  | cons c front ih =>
    rw [List.forall_mem_cons] at plain
    simpa [Function.comp_def] using (ih plain.2).cons plain.1

theorem Opens.inBrace (opens : Opens text opened) : Opens ('\x7b' :: text) (opened.map ('\x7b' :: ·)) := by
  obtain ⟨⟨front, rest, rfl, plain⟩, before, inner, behind, found, rfl⟩ := opens
  refine ⟨⟨[], _, rfl, List.forall_mem_nil _⟩, '\x7b' :: before, inner, behind, fun further => ?_, by simp⟩
  rw [List.cons_append, braceGroup?_open ⟨front, rest ++ further, by simp, plain⟩, found, Option.map_some]

theorem opens_group (plain : ∀ c ∈ inner, isBrace c = false) (comma : ',' ∈ inner) (rest : List Char) :
    Opens ('\x7b' :: (inner ++ '\x7d' :: rest)) ((splitChars [','] inner).map (· ++ rest)) := by
  refine ⟨⟨[], _, rfl, List.forall_mem_nil _⟩, [], inner, rest, fun further => ?_, rfl⟩
  rw [List.cons_append, List.append_assoc, List.cons_append, braceGroup?_group plain comma]

end Groups

section Expanding

variable {text item : List Char} {opened : List (List Char)}

theorem nodup_foldl_new (items : List (List Char)) {known : List (List Char)} (distinct : known.Nodup) :
    (items.foldl (fun known item => if known.contains item then known else known ++ [item]) known).Nodup := by
  induction items generalizing known with
  | nil => exact distinct
  | cons item items ih =>
    apply ih
    dsimp only
    split
    · exact distinct
    next new =>
      refine distinct.append (List.nodup_singleton item) ?_
      rw [List.disjoint_singleton]
      simpa using new

theorem mem_foldl_new (items known : List (List Char)) :
    item ∈ items.foldl (fun known item => if known.contains item then known else known ++ [item]) known ↔
      item ∈ known ∨ item ∈ items := by
  induction items generalizing known with
  | nil => simp
  | cons first items ih =>
    rw [List.foldl_cons, ih]
    split
    next present =>
      rw [List.contains_iff_mem] at present
      constructor
      · rintro (old | later)
        · exact .inl old
        · exact .inr (List.mem_cons_of_mem _ later)
      · rintro (old | new)
        · exact .inl old
        · obtain rfl | later := List.mem_cons.mp new
          · exact .inl present
          · exact .inr later
    next => simp [or_assoc]

theorem alternatives_of_none (noGroup : braceGroup? text = none) : alternatives text = [text] := by
  rw [alternatives]
  split
  · rfl
  next found => cases noGroup.symm.trans found

theorem nodup_alternatives (text : List Char) : (alternatives text).Nodup := by
  rw [alternatives]
  split
  · exact List.nodup_singleton _
  · exact nodup_foldl_new _ List.nodup_nil

theorem mem_alternatives {before inner behind : List Char} (found : braceGroup? text = some (before, inner, behind)) :
    item ∈ alternatives text ↔ ∃ option ∈ splitChars [','] inner, item ∈ alternatives (before ++ option ++ behind) := by
  rw [alternatives]
  split
  next noGroup => cases noGroup.symm.trans found
  next foundAgain =>
    cases foundAgain.symm.trans found
    rw [mem_foldl_new, List.mem_flatMap]
    simp

theorem mem_alternatives_of_opens (opens : Opens text opened) :
    item ∈ alternatives text ↔ ∃ next ∈ opened, item ∈ alternatives next := by
  obtain ⟨-, before, inner, behind, found, rfl⟩ := opens
  have whole := found []
  rw [List.append_nil, List.append_nil] at whole
  rw [mem_alternatives whole]
  simp

theorem Opens.shorter (opens : Opens text opened) : ∀ next ∈ opened, next.length < text.length := by
  obtain ⟨-, before, inner, behind, found, rfl⟩ := opens
  have whole := found []
  rw [List.append_nil, List.append_nil] at whole
  have parts := braceGroup?_length whole
  intro next member
  obtain ⟨option, part, rfl⟩ := List.mem_map.mp member
  have within := length_le_of_mem_splitChars part
  simp only [List.length_append]
  omega

/-- Expanding goes on until no group is left. -/
theorem braceGroup?_of_mem_alternatives (member : item ∈ alternatives text) : braceGroup? item = none := by
  induction size : text.length using Nat.strongRecOn generalizing text with
  | ind bound ih =>
    subst size
    cases found : braceGroup? text with
    | none =>
      rw [alternatives_of_none found] at member
      exact List.mem_singleton.mp member ▸ found
    | some parts =>
      obtain ⟨before, inner, behind⟩ := parts
      obtain ⟨option, part, further⟩ := (mem_alternatives found).mp member
      have parts := braceGroup?_length found
      have within := length_le_of_mem_splitChars part
      refine ih _ ?_ further rfl
      simp only [List.length_append]
      omega

end Expanding

section Sequences

variable {inside : Bool}

theorem isBrace_of_isLiteral {c : Char} (literal : isLiteral inside c = true) : isBrace c = false := by
  rw [isLiteral, Bool.and_eq_true, Bool.not_eq_true'] at literal
  exact literal.1

theorem ne_comma_of_isLiteral {c : Char} (literal : isLiteral true c = true) : c ≠ ',' := by
  rintro rfl
  exact absurd literal (by decide)

section Opened

variable {first : Sequence true} {others : Branches} {rest : Sequence inside}

theorem opened_group_of_first (some : first.opened ≠ []) : (Sequence.group first others rest).opened =
    first.opened.map fun first => .group first others rest := by
  rw [Sequence.opened]
  split
  next none _ => exact (some none).elim
  next none _ => exact (some none).elim
  next => rfl

theorem opened_group_of_others (flat : first.opened = []) (some : others.opened ≠ []) :
    (Sequence.group first others rest).opened = others.opened.map fun others => .group first others rest := by
  rw [Sequence.opened, flat]
  split
  next none => exact (some none).elim
  next => rfl
  next noList _ => exact (noList rfl).elim

theorem opened_group_of_flat (flat : first.opened = []) (flatOthers : others.opened = []) :
    (Sequence.group first others rest).opened =
      (first :: others.all).map fun branch => branch.append (fun _ => rfl) rest := by
  rw [Sequence.opened, flat, flatOthers]

theorem opened_group_ne_nil : (Sequence.group first others rest).opened ≠ [] := by
  by_cases flat : first.opened = []
  · by_cases flatOthers : others.opened = []
    · rw [opened_group_of_flat flat flatOthers]
      exact List.cons_ne_nil _ _
    · rw [opened_group_of_others flat flatOthers]
      exact mt List.map_eq_nil_iff.mp flatOthers
  · rw [opened_group_of_first flat]
    exact mt List.map_eq_nil_iff.mp flat

theorem opened_more_of_branch (some : first.opened ≠ []) :
    (Branches.more first others).opened = first.opened.map fun branch => .more branch others := by
  rw [Branches.opened]
  split
  next none => exact (some none).elim
  next => rfl

theorem opened_more_of_others (flat : first.opened = []) :
    (Branches.more first others).opened = others.opened.map (.more first) := by
  rw [Branches.opened, flat]

end Opened

/-- A sequence that cannot be opened is one text. -/
theorem flat_of_opened (sequence : Sequence inside) (flat : sequence.opened = []) :
    (∀ c ∈ sequence.print, isLiteral inside c = true) ∧ sequence.language = {sequence.print} := by
  match sequence with
  | .nothing => exact ⟨List.forall_mem_nil _, rfl⟩
  | .literal text plain rest =>
    rw [Sequence.opened, List.map_eq_nil_iff] at flat
    obtain ⟨plainRest, same⟩ := flat_of_opened rest flat
    refine ⟨List.forall_mem_append.mpr ⟨plain, plainRest⟩, ?_⟩
    rw [Sequence.language, same]
    exact Set.image2_singleton
  | .group first others rest => exact (opened_group_ne_nil flat).elim
termination_by structural sequence

theorem flat_of_mem_all (others : Branches) (flat : others.opened = []) :
    ∀ branch ∈ others.all, branch.opened = [] := by
  match others with
  | .last branch =>
    rw [Branches.opened, List.map_eq_nil_iff] at flat
    exact List.forall_mem_singleton.mpr flat
  | .more branch others =>
    by_cases flatBranch : branch.opened = []
    · rw [opened_more_of_others flatBranch, List.map_eq_nil_iff] at flat
      exact List.forall_mem_cons.mpr ⟨flatBranch, flat_of_mem_all others flat⟩
    · rw [opened_more_of_branch flatBranch, List.map_eq_nil_iff] at flat
      exact (flatBranch flat).elim
termination_by structural others

theorem print_branches (first : Sequence true) (others : Branches) :
    first.print ++ others.print = [','].intercalate (first.print :: others.all.map Sequence.print) := by
  match others with
  | .last branch => simp [Branches.print, Branches.all, List.intercalate_cons_cons]
  | .more branch others =>
    rw [Branches.print, Branches.all, List.map_cons, List.intercalate_cons_cons, ← print_branches branch others]
    simp
termination_by structural others

theorem print_append {inner outer : Bool} (fits : outer = true → inner = true) (front : Sequence inner)
    (rest : Sequence outer) : (front.append fits rest).print = front.print ++ rest.print := by
  match front with
  | .nothing => rfl
  | .literal text plain more =>
    rw [Sequence.append, Sequence.print, Sequence.print, print_append fits more rest, List.append_assoc]
  | .group first others more =>
    rw [Sequence.append, Sequence.print, Sequence.print, print_append fits more rest]
    simp
termination_by structural front

theorem language_append {inner outer : Bool} (fits : outer = true → inner = true) (front : Sequence inner)
    (rest : Sequence outer) : (front.append fits rest).language = front.language * rest.language := by
  match front with
  | .nothing => exact (one_mul rest.language).symm
  | .literal text plain more =>
    rw [Sequence.append, Sequence.language, Sequence.language, language_append fits more rest, mul_assoc]
  | .group first others more =>
    rw [Sequence.append, Sequence.language, Sequence.language, language_append fits more rest, mul_assoc]
termination_by structural front

theorem isBrace_of_mem_print (others : Branches)
    (plain : ∀ branch ∈ others.all, ∀ c ∈ branch.print, isBrace c = false) : ∀ c ∈ others.print, isBrace c = false := by
  match others with
  | .last branch => exact List.forall_mem_cons.mpr ⟨rfl, plain branch List.mem_cons_self⟩
  | .more branch others =>
    have later := isBrace_of_mem_print others fun next member => plain next (List.mem_cons_of_mem _ member)
    exact List.forall_mem_cons.mpr ⟨rfl, List.forall_mem_append.mpr ⟨plain branch List.mem_cons_self, later⟩⟩
termination_by structural others

/-- A group in which nothing opens comes apart at its commas. -/
theorem print_of_flat {first : Sequence true} {others : Branches} (flat : first.opened = [])
    (flatOthers : others.opened = []) :
    (∀ c ∈ first.print ++ others.print, isBrace c = false) ∧ ',' ∈ first.print ++ others.print ∧
      splitChars [','] (first.print ++ others.print) = (first :: others.all).map Sequence.print := by
  have all : ∀ branch ∈ first :: others.all, branch.opened = [] :=
    List.forall_mem_cons.mpr ⟨flat, flat_of_mem_all others flatOthers⟩
  have literals : ∀ branch ∈ first :: others.all, ∀ c ∈ branch.print, isLiteral true c = true :=
    fun branch member => (flat_of_opened branch (all branch member)).1
  have plain : ∀ branch ∈ first :: others.all, ∀ c ∈ branch.print, isBrace c = false :=
    fun branch member c inside => isBrace_of_isLiteral (literals branch member c inside)
  refine ⟨?_, ?_, ?_⟩
  · obtain ⟨plainFirst, plainOthers⟩ := List.forall_mem_cons.mp plain
    exact List.forall_mem_append.mpr ⟨plainFirst, isBrace_of_mem_print others plainOthers⟩
  · apply List.mem_append_right
    cases others <;> exact List.mem_cons_self
  · rw [print_branches, ← List.map_cons (f := Sequence.print), List.map_cons, splitChars_intercalate]
    rw [← List.map_cons (f := Sequence.print), List.forall_mem_map]
    intro branch member comma
    exact ne_comma_of_isLiteral (literals branch member _ comma) rfl

mutual

/-- Opening a sequence is opening its text. -/
theorem opens_sequence {inside : Bool} (sequence : Sequence inside) (some : sequence.opened ≠ []) :
    Opens sequence.print (sequence.opened.map Sequence.print) := by
  match sequence with
  | .nothing => exact (some rfl).elim
  | .literal text plain rest =>
    rw [Sequence.opened, ne_eq, List.map_eq_nil_iff] at some
    have opens := (opens_sequence rest some).behind fun c member => isBrace_of_isLiteral (plain c member)
    rw [List.map_map] at opens
    rw [Sequence.opened, List.map_map]
    exact opens
  | .group first others rest =>
    by_cases flat : first.opened = []
    · have plain := (flat_of_opened first flat).1
      by_cases flatOthers : others.opened = []
      · obtain ⟨noBrace, comma, parts⟩ := print_of_flat flat flatOthers
        have opens := opens_group noBrace comma rest.print
        rw [parts, List.map_map, List.append_assoc] at opens
        rw [opened_group_of_flat flat flatOthers, List.map_map, Sequence.print]
        simpa only [Function.comp_def, print_append] using opens
      · have opens := (((opens_branches others flatOthers).append ('\x7d' :: rest.print)).behind
          fun c member => isBrace_of_isLiteral (plain c member)).inBrace
        rw [List.map_map, List.map_map, List.map_map] at opens
        rw [opened_group_of_others flat flatOthers, List.map_map]
        exact opens
    · have opens := ((opens_sequence first flat).append (others.print ++ '\x7d' :: rest.print)).inBrace
      rw [List.map_map, List.map_map] at opens
      rw [opened_group_of_first flat, List.map_map]
      exact opens
termination_by structural sequence

theorem opens_branches (branches : Branches) (some : branches.opened ≠ []) :
    Opens branches.print (branches.opened.map Branches.print) := by
  match branches with
  | .last branch =>
    rw [Branches.opened, ne_eq, List.map_eq_nil_iff] at some
    have opens := (opens_sequence branch some).cons (c := ',') rfl
    rw [List.map_map] at opens
    rw [Branches.opened, List.map_map]
    exact opens
  | .more branch others =>
    by_cases flat : branch.opened = []
    · have plain := (flat_of_opened branch flat).1
      rw [opened_more_of_others flat, ne_eq, List.map_eq_nil_iff] at some
      have opens := ((opens_branches others some).behind
        fun c member => isBrace_of_isLiteral (plain c member)).cons (c := ',') rfl
      rw [List.map_map, List.map_map] at opens
      rw [opened_more_of_others flat, List.map_map]
      exact opens
    · have opens := ((opens_sequence branch flat).append others.print).cons (c := ',') rfl
      rw [List.map_map, List.map_map] at opens
      rw [opened_more_of_branch flat, List.map_map]
      exact opens
termination_by structural branches

end

section Languages

variable {α : Type} {items : List α} {language : α → Language Char}

/-- What can be chosen beside each of some items can be chosen beside all of them. -/
theorem sum_map_add_const (some : items ≠ []) (other : Language Char) :
    (items.map fun item => language item + other).sum = (items.map language).sum + other := by
  induction items with
  | nil => exact (some rfl).elim
  | cons item items ih =>
    rw [List.map_cons, List.map_cons, List.sum_cons, List.sum_cons]
    cases items with
    | nil => simp
    | cons next items =>
      rw [ih (List.cons_ne_nil _ _), add_add_add_comm, add_idem]

theorem mem_sum_iff {item : List Char} : item ∈ (items.map language).sum ↔ ∃ next ∈ items, item ∈ language next := by
  induction items with
  | nil => simp
  | cons next items ih => rw [List.map_cons, List.sum_cons, Language.mem_add, ih, List.exists_mem_cons_iff]

end Languages

theorem sum_language_all (others : Branches) : (others.all.map Sequence.language).sum = others.language := by
  match others with
  | .last branch => exact add_zero branch.language
  | .more branch others =>
    rw [Branches.all, List.map_cons, List.sum_cons, sum_language_all others, Branches.language]
termination_by structural others

mutual

/-- The order in which groups are opened does not matter for what can be chosen. -/
theorem sum_language_opened {inside : Bool} (sequence : Sequence inside) (some : sequence.opened ≠ []) :
    (sequence.opened.map Sequence.language).sum = sequence.language := by
  match sequence with
  | .nothing => exact (some rfl).elim
  | .literal text plain rest =>
    rw [Sequence.opened, ne_eq, List.map_eq_nil_iff] at some
    rw [Sequence.opened, List.map_map, Sequence.language, ← sum_language_opened rest some, ← List.sum_map_mul_left]
    rfl
  | .group first others rest =>
    rw [Sequence.language]
    by_cases flat : first.opened = []
    · by_cases flatOthers : others.opened = []
      · rw [opened_group_of_flat flat flatOthers, List.map_map, Function.comp_def]
        simp only [language_append]
        rw [List.sum_map_mul_right, List.map_cons, List.sum_cons, sum_language_all]
      · rw [opened_group_of_others flat flatOthers, List.map_map, Function.comp_def]
        simp only [Sequence.language, add_comm first.language]
        rw [List.sum_map_mul_right, sum_map_add_const flatOthers, sum_language_opened_branches others flatOthers]
    · rw [opened_group_of_first flat, List.map_map, Function.comp_def]
      simp only [Sequence.language]
      rw [List.sum_map_mul_right, sum_map_add_const flat, sum_language_opened first flat]
termination_by structural sequence

theorem sum_language_opened_branches (branches : Branches) (some : branches.opened ≠ []) :
    (branches.opened.map Branches.language).sum = branches.language := by
  match branches with
  | .last branch =>
    rw [Branches.opened, ne_eq, List.map_eq_nil_iff] at some
    rw [Branches.opened, List.map_map, Branches.language, ← sum_language_opened branch some]
    rfl
  | .more branch others =>
    rw [Branches.language]
    by_cases flat : branch.opened = []
    · rw [opened_more_of_others flat, ne_eq, List.map_eq_nil_iff] at some
      rw [opened_more_of_others flat, List.map_map, Function.comp_def]
      simp only [Branches.language, add_comm branch.language]
      rw [sum_map_add_const some, sum_language_opened_branches others some]
    · rw [opened_more_of_branch flat, List.map_map, Function.comp_def]
      simp only [Branches.language]
      rw [sum_map_add_const flat, sum_language_opened branch flat]
termination_by structural branches

end

/-- Expanding the text of a sequence gives what can be chosen in it. -/
theorem mem_alternatives_print {item : List Char} (sequence : Sequence inside) :
    item ∈ alternatives sequence.print ↔ item ∈ sequence.language := by
  -- by induction on the length of the text, since opening makes new sequences that are no part of the old one
  induction size : sequence.print.length using Nat.strongRecOn generalizing sequence with
  | ind bound ih =>
    subst size
    by_cases flat : sequence.opened = []
    · obtain ⟨literals, same⟩ := flat_of_opened sequence flat
      have noGroup := braceGroup?_of_plain fun c member => isBrace_of_isLiteral (literals c member)
      rw [alternatives_of_none noGroup, same]
      exact List.mem_singleton
    · have opens := opens_sequence sequence flat
      rw [mem_alternatives_of_opens opens, ← sum_language_opened sequence flat, mem_sum_iff]
      constructor
      · rintro ⟨text, printed, found⟩
        obtain ⟨next, member, rfl⟩ := List.mem_map.mp printed
        exact ⟨next, member, (ih _ (opens.shorter _ printed) next rfl).mp found⟩
      · rintro ⟨next, member, chosen⟩
        have shorter := opens.shorter _ (List.mem_map_of_mem member)
        exact ⟨_, List.mem_map_of_mem member, (ih _ shorter next rfl).mpr chosen⟩

end Sequences

/-- Expanding a pattern gives each pattern once, and none that could be expanded again. The text of a sequence of
literals and groups is expanded to what comes of choosing an alternative in every group. -/
theorem expandBraces_choices :
    (∀ pattern : String, (expandBraces pattern).Nodup ∧ ∀ item ∈ expandBraces pattern, expandBraces item = [item]) ∧
    ∀ (sequence : Sequence false) (item : String),
      item ∈ expandBraces (String.ofList sequence.print) ↔ item.toList ∈ sequence.language := by
  refine ⟨fun pattern => ⟨?_, ?_⟩, fun sequence item => ?_⟩
  · exact (nodup_alternatives _).map fun _ _ same => String.ofList_injective same
  · intro item member
    obtain ⟨text, found, rfl⟩ := List.mem_map.mp member
    rw [expandBraces, String.toList_ofList, alternatives_of_none (braceGroup?_of_mem_alternatives found)]
    rfl
  · rw [expandBraces, String.toList_ofList, ← mem_alternatives_print]
    constructor
    · intro member
      obtain ⟨text, found, rfl⟩ := List.mem_map.mp member
      rwa [String.toList_ofList]
    · intro found
      exact List.mem_map.mpr ⟨item.toList, found, String.ofList_toList⟩

def letter {inside : Bool} (c : Char) (plain : isLiteral inside c = true) (rest : Sequence inside) : Sequence inside :=
  .literal [c] (List.forall_mem_singleton.mpr plain) rest

/-- A group in a group, and behind it one with an empty alternative. -/
def nested : Sequence false :=
  letter 'a' rfl <|
    .group (letter 'b' rfl .nothing)
      (.last <| .group (letter 'c' rfl .nothing) (.last <| letter 'd' rfl .nothing) <| letter 'e' rfl .nothing) <|
      .group .nothing (.last <| letter 'f' rfl .nothing) .nothing

example : String.ofList nested.print = "a\x7bb,\x7bc,d\x7de\x7d\x7b,f\x7d" := by decide

theorem acef_of_nested : "acef" ∈ expandBraces (String.ofList nested.print) ∧ expandBraces "acef" = ["acef"] := by
  have chosen : "acef".toList ∈ nested.language := by
    refine Language.append_mem_mul (a := ['a']) rfl (Language.append_mem_mul (a := ['c', 'e']) (.inr ?_) ?_)
    · refine Language.append_mem_mul (a := ['c']) (.inl ?_) ?_
      · exact Language.append_mem_mul (a := ['c']) rfl rfl
      · exact Language.append_mem_mul (a := ['e']) rfl rfl
    · refine Language.append_mem_mul (a := ['f']) (.inr ?_) rfl
      exact Language.append_mem_mul (a := ['f']) rfl rfl
  have member := (expandBraces_choices.2 nested "acef").mpr chosen
  exact ⟨member, (expandBraces_choices.1 _).2 _ member⟩

end Phrasebook.Proofs.BraceAlternatives
