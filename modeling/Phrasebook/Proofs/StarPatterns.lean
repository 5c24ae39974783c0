import Phrasebook.Pattern.Star

/-! What patterns with stars cover. A pattern covers the texts that come from it when each star is replaced by
characters of one line, and these texts with a line break behind them. At a star the matcher tries to pass over nothing
and then over one more character, so a star takes any beginning of the text that lies on one line. -/

namespace Phrasebook.Proofs.StarPatterns

open Pattern

/-- A pattern with the star at each position replaced by the characters that are given for the position. -/
def replaced (runs : Nat → List Char) (pattern : List Char) : List Char :=
  pattern.zipIdx.flatMap fun (c, position) => if c = '*' then runs position else [c]

/-- Whether a text is a pattern with each star replaced by characters of one line. -/
def Fills (pattern text : List Char) : Prop :=
  ∃ runs : Nat → List Char, (∀ position, '\n' ∉ runs position) ∧ text = replaced runs pattern

theorem replaced_cons (runs : Nat → List Char) (c : Char) (pattern : List Char) :
    replaced runs (c :: pattern) =
      (if c = '*' then runs 0 else [c]) ++ replaced (fun position => runs (position + 1)) pattern := by
  rw [replaced, List.zipIdx_cons', List.flatMap_cons, List.flatMap_map]
  rfl

theorem fills_nil {text : List Char} : Fills [] text ↔ text = [] := by
  constructor
  · rintro ⟨runs, -, same⟩
    exact same
  · intro nothing
    exact ⟨fun _ => [], by simp, nothing⟩

/-- What is given for the positions of a pattern with one more character in front. -/
def given (run : List Char) (runs : Nat → List Char) : Nat → List Char
  | 0 => run
  | position + 1 => runs position

theorem fills_cons {c : Char} {pattern text : List Char} :
    Fills (c :: pattern) text ↔
      ∃ run rest, '\n' ∉ run ∧ text = (if c = '*' then run else [c]) ++ rest ∧ Fills pattern rest := by
  constructor
  · rintro ⟨runs, onLines, same⟩
    have further : Fills pattern (replaced (fun position => runs (position + 1)) pattern) :=
      ⟨_, fun position => onLines (position + 1), rfl⟩
    exact ⟨runs 0, _, onLines 0, same.trans (replaced_cons runs c pattern), further⟩
  · rintro ⟨run, _, onLine, together, runs, onLines, rfl⟩
    refine ⟨given run runs, ?_, together.trans (replaced_cons (given run runs) c pattern).symm⟩
    intro position
    cases position with
    | zero => exact onLine
    | succ position => exact onLines position

theorem fills_star {pattern text : List Char} :
    Fills ('*' :: pattern) text ↔ ∃ run rest, '\n' ∉ run ∧ text = run ++ rest ∧ Fills pattern rest := by
  simp only [fills_cons, if_true]

theorem fills_literal {c : Char} (literal : c ≠ '*') {pattern text : List Char} :
    Fills (c :: pattern) text ↔ ∃ rest, text = c :: rest ∧ Fills pattern rest := by
  simp only [fills_cons, if_neg literal]
  constructor
  · rintro ⟨-, rest, -, same, fills⟩
    exact ⟨rest, same, fills⟩
  · rintro ⟨rest, same, fills⟩
    exact ⟨[], rest, List.not_mem_nil, same, fills⟩

/-- A star takes any characters of one line. -/
theorem starMatches_star {pattern text : List Char} :
    starMatches ('*' :: pattern) text = true ↔
      ∃ run rest, '\n' ∉ run ∧ text = run ++ rest ∧ starMatches pattern rest = true := by
  induction text with
  | nil =>
    rw [starMatches]
    constructor
    · intro matched
      exact ⟨[], [], List.not_mem_nil, rfl, matched⟩
    · rintro ⟨run, rest, -, nothing, matched⟩
      obtain ⟨-, rfl⟩ := List.append_eq_nil_iff.mp nothing.symm
      exact matched
  | cons c text ih =>
    rw [starMatches, Bool.or_eq_true, Bool.and_eq_true, bne_iff_ne, ih]
    constructor
    · rintro (matched | ⟨onLine, run, rest, others, rfl, matched⟩)
      · exact ⟨[], c :: text, List.not_mem_nil, rfl, matched⟩
      · exact ⟨c :: run, rest, by simp [others, Ne.symm onLine], rfl, matched⟩
    · rintro ⟨run, rest, onLine, together, matched⟩
      cases run with
      | nil =>
        left
        exact together ▸ matched
      | cons first run =>
        right
        obtain ⟨rfl, rfl⟩ := List.cons.inj together
        rw [List.mem_cons, not_or] at onLine
        exact ⟨Ne.symm onLine.1, run, rest, onLine.2, rfl, matched⟩

theorem starMatches_literal {c : Char} (literal : c ≠ '*') {pattern text : List Char} :
    starMatches (c :: pattern) text = true ↔ ∃ rest, text = c :: rest ∧ starMatches pattern rest = true := by
  cases text with
  | nil => rw [starMatches] <;> simp [literal]
  | cons first text =>
    rw [starMatches, Bool.and_eq_true, beq_iff_eq]
    · constructor
      · rintro ⟨same, matched⟩
        exact ⟨text, by rw [same], matched⟩
      · rintro ⟨rest, together, matched⟩
        obtain ⟨rfl, rfl⟩ := List.cons.inj together
        exact ⟨rfl, matched⟩
    · exact literal

/-- Whether a text fills a pattern, but perhaps for a line break at its end. -/
def FillsUpToBreak (pattern text : List Char) : Prop :=
  ∃ line left, text = line ++ left ∧ Fills pattern line ∧ (left = [] ∨ left = ['\n'])

theorem fillsUpToBreak_star {pattern text : List Char} :
    FillsUpToBreak ('*' :: pattern) text ↔
      ∃ run rest, '\n' ∉ run ∧ text = run ++ rest ∧ FillsUpToBreak pattern rest := by
  constructor
  · rintro ⟨whole, left, same, fills, ends⟩
    obtain ⟨run, line, onLine, rfl, further⟩ := fills_star.mp fills
    exact ⟨run, line ++ left, onLine, by rw [same, List.append_assoc], line, left, rfl, further, ends⟩
  · rintro ⟨run, rest, onLine, same, line, left, together, fills, ends⟩
    have whole : Fills ('*' :: pattern) (run ++ line) := fills_star.mpr ⟨run, line, onLine, rfl, fills⟩
    exact ⟨run ++ line, left, by rw [same, together, List.append_assoc], whole, ends⟩

theorem fillsUpToBreak_literal {c : Char} (literal : c ≠ '*') {pattern text : List Char} :
    FillsUpToBreak (c :: pattern) text ↔ ∃ rest, text = c :: rest ∧ FillsUpToBreak pattern rest := by
  constructor
  · rintro ⟨whole, left, same, fills, ends⟩
    obtain ⟨line, rfl, further⟩ := (fills_literal literal).mp fills
    exact ⟨line ++ left, same, line, left, rfl, further, ends⟩
  · rintro ⟨rest, same, line, left, together, fills, ends⟩
    have whole : Fills (c :: pattern) (c :: line) := (fills_literal literal).mpr ⟨line, rfl, fills⟩
    exact ⟨c :: line, left, by rw [same, together, List.cons_append], whole, ends⟩

/-- The matcher and what it stands for obey the same equations along the pattern. -/
theorem starMatches_iff {pattern text : List Char} :
    starMatches pattern text = true ↔ FillsUpToBreak pattern text := by
  induction pattern generalizing text with
  | nil =>
    rw [starMatches, Bool.or_eq_true, beq_iff_eq, beq_iff_eq]
    constructor
    · intro ends
      exact ⟨[], text, rfl, fills_nil.mpr rfl, ends⟩
    · rintro ⟨line, left, same, nothing, ends⟩
      rw [same, fills_nil.mp nothing]
      exact ends
  | cons c pattern ih =>
    by_cases star : c = '*'
    · subst star
      simp only [starMatches_star, fillsUpToBreak_star, ih]
    · simp only [starMatches_literal star, fillsUpToBreak_literal star, ih]

/-- A pattern covers the texts that come from it by replacing each star by characters of one line, and these texts with
a line break behind them. -/
theorem covers_iff_replaced (pattern text : String) :
    covers pattern text = true ↔
      ∃ runs : Nat → List Char, (∀ position, '\n' ∉ runs position) ∧
        (text.toList = replaced runs pattern.toList ∨ text.toList = replaced runs pattern.toList ++ ['\n']) := by
  rw [covers, starMatches_iff]
  constructor
  · rintro ⟨line, left, same, ⟨runs, onLines, fills⟩, ends⟩
    refine ⟨runs, onLines, ?_⟩
    rw [same, fills]
    exact ends.imp (fun nothing => by rw [nothing, List.append_nil]) (fun lineBreak => by rw [lineBreak])
  · rintro ⟨runs, onLines, same⟩
    have fills : Fills pattern.toList (replaced runs pattern.toList) := ⟨runs, onLines, rfl⟩
    rcases same with whole | withBreak
    · exact ⟨_, [], by rw [whole, List.append_nil], fills, .inl rfl⟩
    · exact ⟨_, ['\n'], withBreak, fills, .inr rfl⟩

example : covers "dynamic.*.title*" "dynamic.menu.file.title\n" = true ∧ covers "a*" "a\nb" = false := by cbv

end Phrasebook.Proofs.StarPatterns
