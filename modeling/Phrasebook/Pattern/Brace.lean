import Phrasebook.Text.Split

/-! Alternatives in braces, separated by commas. -/

namespace Phrasebook.Pattern

/-- The parts of a pattern before, inside and behind its first group of alternatives: braces with a comma and no
braces between them. -/
def braceGroup? : List Char → Option (List Char × List Char × List Char)
  | [] => none
  | c :: rest =>
    let inner := rest.takeWhile fun d => d ≠ '\x7b' && d ≠ '\x7d'
    let behind := rest.drop inner.length
    if c = '\x7b' && behind.head? == some '\x7d' && inner.contains ',' then some ([], inner, behind.drop 1)
    else (braceGroup? rest).map fun (before, inner, behind) => (c :: before, inner, behind)

theorem braceGroup?_length {cs before inner behind : List Char}
    (found : braceGroup? cs = some (before, inner, behind)) :
    before.length + inner.length + behind.length < cs.length := by
  induction cs generalizing before with
  | nil => cases found
  | cons c rest ih =>
    simp only [braceGroup?] at found
    split at found
    · simp only [Option.some.injEq, Prod.mk.injEq] at found
      obtain ⟨rfl, rfl, rfl⟩ := found
      have bound := (List.takeWhile_prefix (p := fun d => d ≠ '\x7b' && d ≠ '\x7d') (l := rest)).length_le
      simp only [List.length_nil, List.length_drop, List.length_cons]
      omega
    · simp only [Option.map_eq_some_iff, Prod.mk.injEq, Prod.exists] at found
      obtain ⟨before', inner', behind', later, rfl, rfl, rfl⟩ := found
      have := ih later
      simp only [List.length_cons]
      omega

def alternatives (pattern : List Char) : List (List Char) :=
  match found : braceGroup? pattern with
  | none => [pattern]
  | some (before, inner, behind) =>
    let expanded := (Text.splitChars [','] inner).attach.flatMap fun ⟨option, inside⟩ =>
      have : before.length + (option.length + behind.length) < pattern.length := by
        have := braceGroup?_length found
        have := Text.length_le_of_mem_splitChars inside
        omega
      alternatives (before ++ option ++ behind)
    expanded.foldl (fun known item => if known.contains item then known else known ++ [item]) []
termination_by pattern.length

/-- The patterns that a pattern with alternatives stands for, each once. -/
def expandBraces (pattern : String) : List String := (alternatives pattern.toList).map String.ofList

end Phrasebook.Pattern
