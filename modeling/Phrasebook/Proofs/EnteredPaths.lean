import Phrasebook.Proofs.Places
import Phrasebook.Proofs.Segments

/-! What entering a leaf under a path leaves as it was. The leaf stands at one place, which is along the segments of the
path unless a leaf is in the way of them and under the whole path on the root otherwise. A level on the way to this
place gets one name at most, and a tree anywhere else is what it was. It makes no difference whether missing levels are
made before it is known that the way is free: where one has to be made there are no leaves further down, so a leaf in
the way is met before anything has changed. -/

namespace Phrasebook.Proofs.EnteredPaths

open Places Phrasebook.Tree

variable {α : Type} {givesWay : α → Bool}

/-- Whether the way to a place leads through a leaf that does not give way. Where no leaf does, this is any leaf. -/
def Blocked (givesWay : α → Bool) (place : List String) (entries : Entries α) : Prop :=
  ∃ above value, above <+: place ∧ above ≠ place ∧ leafAt? above (.branch entries) = some value ∧
    givesWay value = false

/-- The names that a tree has at a place; there are none where it has no branch. -/
def namesAt (place : List String) (tree : Tree α) : List String :=
  match at? place tree with
  | some (.branch entries) => Table.names entries
  | _ => []

/-- Whether entries come from others by a leaf at a place, and by nothing else but names on the way to it. -/
structure Entered (place : List String) (value : α) (entries after : Entries α) : Prop where
  held : leafAt? place (.branch after) = some value
  /-- What stands neither on the way to the place nor there nor below it, branches included. -/
  kept : ∀ other, ¬ place <+: other → ¬ other <+: place → at? other (.branch after) = at? other (.branch entries)
  /-- Each level on the way has the names that it had, in their order, and behind them the next one if it is new. -/
  way : ∀ above name rest, place = above ++ name :: rest →
    ∃ level, at? above (.branch after) = some (.branch level) ∧
      Table.names level =
        if name ∈ namesAt above (.branch entries) then namesAt above (.branch entries)
        else namesAt above (.branch entries) ++ [name]

/-- What a tree holds in place of the one it is given is that one's entries, or nothing where it was no branch. -/
theorem branchAt?_cases {tree : Option (Tree α)} {level : Entries α} (held : branchAt? givesWay tree = some level) :
    tree = some (.branch level) ∨ level = [] ∧ (tree = none ∨ ∃ value, tree = some (.leaf value)) := by
  match tree with
  | none => exact .inr ⟨(Option.some.inj held).symm, .inl rfl⟩
  | some (.branch inside) => exact .inl (by rw [Option.some.inj held])
  | some (.leaf value) =>
    simp only [branchAt?, Option.ite_none_right_eq_some, Option.some.injEq] at held
    exact .inr ⟨held.2.symm, .inr ⟨value, rfl⟩⟩

/-- What is left behind by going along a path, with every missing level made when it is come to, and whether the end of
the path is reached and the tree put there. A leaf in the way ends it. -/
def goAlong (givesWay : α → Bool) (tree : Tree α) : List String → Entries α → Entries α × Bool
  | [], entries => (entries, true)
  | [segment], entries => (Table.put segment tree entries, true)
  | segment :: next :: rest, entries =>
    match branchAt? givesWay (Table.find? segment entries) with
    | none => (entries, false)
    | some level =>
      let (inner, arrived) := goAlong givesWay tree (next :: rest) level
      (Table.put segment (.branch inner) entries, arrived)

/-- Enters a tree under a path step by step. Where the end is not reached, the root of what is left takes it. -/
def enterStepwise (givesWay : α → Bool) (mark path : String) (tree : Tree α) (entries : Entries α) : Entries α :=
  let (left, arrived) := goAlong givesWay tree (Text.split mark path) entries
  if arrived then left else Table.put path tree left

theorem goAlong_of_entered {tree : Tree α} {place : List String} {entries after : Entries α}
    (entered : insertAt? givesWay tree place entries = some after) :
    goAlong givesWay tree place entries = (after, true) := by
  fun_induction insertAt? givesWay tree place entries generalizing after with
  | case1 | case2 =>
    obtain rfl := Option.some.inj entered
    rfl
  | case3 => cases entered
  | case4 segment next rest entries level held ih =>
    obtain ⟨deeper, enteredInside, rfl⟩ := Option.map_eq_some_iff.mp entered
    simp only [goAlong, held, ih enteredInside]

/-- A level that nothing can be entered into was there before. -/
theorem find?_of_blocked {tree : Tree α} {segment : String} {place : List String} {entries level : Entries α}
    (held : branchAt? givesWay (Table.find? segment entries) = some level)
    (blocked : insertAt? givesWay tree place level = none) : Table.find? segment entries = some (.branch level) := by
  have empty : (insertAt? givesWay tree place []).isSome = true := by
    apply insertAt?_isSome
    intro above value _ _ found
    rw [leafAt?_empty] at found
    cases found
  rcases branchAt?_cases held with found | ⟨nothing, _⟩
  · exact found
  · rw [nothing] at blocked
    simp [blocked] at empty

/-- Where the end of a path is not reached, no level has been made. -/
theorem goAlong_of_blocked {tree : Tree α} {place : List String} {entries : Entries α}
    (blocked : insertAt? givesWay tree place entries = none) :
    goAlong givesWay tree place entries = (entries, false) := by
  fun_induction insertAt? givesWay tree place entries with
  | case1 | case2 => cases blocked
  | case3 segment next rest entries held => simp only [goAlong, held]
  | case4 segment next rest entries level held ih =>
    have blockedInside := Option.map_eq_none_iff.mp blocked
    have same := Table.put_eq_self (find?_of_blocked held blockedInside)
    simp only [goAlong, held, ih blockedInside, same]

theorem enterStepwise_eq_insert (givesWay : α → Bool) (mark path : String) (tree : Tree α) (entries : Entries α) :
    enterStepwise givesWay mark path tree entries = Tree.insert givesWay (some mark) path tree entries := by
  cases entered : insertAt? givesWay tree (Text.split mark path) entries with
  | none => simp [enterStepwise, Tree.insert, entered, goAlong_of_blocked entered]
  | some after => simp [enterStepwise, Tree.insert, entered, goAlong_of_entered entered]

/-- What a tree holds in place of the one it is given has the same trees below it. -/
theorem at?_branchAt? {tree : Option (Tree α)} {level : Entries α} (held : branchAt? givesWay tree = some level)
    {place : List String} (below : place ≠ []) : at? place (.branch level) = tree.bind (at? place) := by
  obtain ⟨name, rest, rfl⟩ := List.exists_cons_of_ne_nil below
  rcases branchAt?_cases held with rfl | ⟨rfl, rfl | ⟨value, rfl⟩⟩ <;> rfl

theorem namesAt_branchAt? {name : String} {entries level : Entries α}
    (held : branchAt? givesWay (Table.find? name entries) = some level) (place : List String) :
    namesAt place (.branch level) = namesAt (name :: place) (.branch entries) := by
  rw [namesAt, namesAt, at?]
  rcases branchAt?_cases held with found | ⟨rfl, found | ⟨value, found⟩⟩
  · rw [found, Option.bind_some]
  · rw [found]
    cases place <;> rfl
  · rw [found]
    cases place <;> rfl

/-- A leaf in the way of a place keeps anything from being entered there. -/
theorem insertAt?_of_blocked {tree : Tree α} {place : List String} {entries : Entries α}
    (blocked : Blocked givesWay place entries) : insertAt? givesWay tree place entries = none := by
  obtain ⟨above, value, before, different, found, stays⟩ := blocked
  fun_induction insertAt? givesWay tree place entries generalizing above with
  | case1 => exact absurd (List.prefix_nil.mp before) different
  | case2 segment entries =>
    rcases List.prefix_cons_iff.mp before with rfl | ⟨rest, rfl, nothing⟩
    · cases found
    · exact absurd (congrArg (segment :: ·) (List.prefix_nil.mp nothing)) different
  | case3 => rfl
  | case4 segment next rest entries level held ih =>
    rcases List.prefix_cons_iff.mp before with rfl | ⟨further, rfl, inside⟩
    · cases found
    rw [leafAt?_cons_branch] at found
    -- the leaf in the way is not met here, or there would be no level to go on with
    have somewhere : further ≠ [] := by
      intro last
      subst last
      obtain ⟨tree, named, here⟩ := Option.bind_eq_some_iff.mp found
      cases tree with
      | branch inner => cases here
      | leaf other =>
        obtain rfl := Option.some.inj here
        simp [named, branchAt?, stays] at held
    rw [← leafAt?_branchAt? held somewhere] at found
    rw [ih further inside (fun same => different (congrArg _ same)) found, Option.map_none]

theorem kept_of_insertAt? {tree : Tree α} {place : List String} {entries after : Entries α}
    (entered : insertAt? givesWay tree place entries = some after) {other : List String}
    (notBelow : ¬ place <+: other) (notAbove : ¬ other <+: place) :
    at? other (.branch after) = at? other (.branch entries) := by
  fun_induction insertAt? givesWay tree place entries generalizing after other with
  | case1 => exact absurd List.nil_prefix notBelow
  | case2 segment entries =>
    obtain rfl := Option.some.inj entered
    cases other with
    | nil => exact absurd List.nil_prefix notAbove
    | cons name rest =>
      have different : name ≠ segment := by
        intro same
        exact notBelow ⟨rest, by rw [same, List.singleton_append]⟩
      rw [at?, at?, Table.find?_put_other different]
  | case3 => cases entered
  | case4 segment next rest entries level held ih =>
    obtain ⟨deeper, enteredInside, rfl⟩ := Option.map_eq_some_iff.mp entered
    cases other with
    | nil => exact absurd List.nil_prefix notAbove
    | cons name others =>
      by_cases same : name = segment
      · subst same
        have below : others ≠ [] := by
          intro last
          exact notAbove ⟨next :: rest, by rw [last, List.singleton_append]⟩
        rw [at?, at?, Table.find?_put_self, ← at?_branchAt? held below]
        apply ih enteredInside
        · exact mt (List.prefix_cons_inj name).mpr notBelow
        · exact mt (List.prefix_cons_inj name).mpr notAbove
      · rw [at?, at?, Table.find?_put_other same]

theorem names_of_insertAt? {tree : Tree α} {place : List String} {entries after : Entries α}
    (entered : insertAt? givesWay tree place entries = some after) {above rest : List String} {name : String}
    (way : place = above ++ name :: rest) :
    ∃ level, at? above (.branch after) = some (.branch level) ∧
      Table.names level =
        if name ∈ namesAt above (.branch entries) then namesAt above (.branch entries)
        else namesAt above (.branch entries) ++ [name] := by
  fun_induction insertAt? givesWay tree place entries generalizing after above with
  | case1 => simp at way
  | case2 segment entries =>
    obtain rfl := Option.some.inj entered
    cases above with
    | nil =>
      obtain ⟨rfl, -⟩ := List.cons.inj way
      exact ⟨_, rfl, Table.names_put segment tree entries⟩
    | cons first others => simp at way
  | case3 => cases entered
  | case4 segment next others entries level held ih =>
    obtain ⟨deeper, enteredInside, rfl⟩ := Option.map_eq_some_iff.mp entered
    cases above with
    | nil =>
      obtain ⟨rfl, -⟩ := List.cons.inj way
      exact ⟨_, rfl, Table.names_put segment (.branch deeper) entries⟩
    | cons first further =>
      obtain ⟨rfl, inside⟩ := List.cons.inj way
      rw [at?, Table.find?_put_self, ← namesAt_branchAt? held]
      exact ih enteredInside inside

theorem entered_of_insertAt? {value : α} {place : List String} {entries after : Entries α}
    (entered : insertAt? givesWay (.leaf value) place entries = some after) (somewhere : place ≠ []) :
    Entered place value entries after where
  held := by rw [leafAt?_insertAt? entered somewhere, if_pos rfl]
  kept _ := kept_of_insertAt? entered
  way _ _ _ := names_of_insertAt? entered

/-- On the root, a leaf under a whole path makes no level: what branches there are below the root were there. -/
theorem Entered.branch_of_root {path : String} {value : α} {entries after inner : Entries α}
    (entered : Entered [path] value entries after) {spot : List String} (somewhere : spot ≠ [])
    (found : at? spot (.branch after) = some (.branch inner)) : at? spot (.branch entries) = some (.branch inner) := by
  rw [← entered.kept, found]
  · rintro ⟨rest, below⟩
    rw [← below, at?_append, leafAt?_eq_some_iff.mp entered.held] at found
    cases rest <;> cases found
  · intro before
    rcases List.prefix_cons_iff.mp before with rfl | ⟨rest, rfl, nothing⟩
    · exact somewhere rfl
    · obtain rfl := List.prefix_nil.mp nothing
      rw [leafAt?_eq_some_iff.mp entered.held] at found
      cases found

/-- A leaf is entered along the segments of its path, unless a leaf is in the way of them: then it is entered under the
whole path on the root, and no level is made, not even when levels are made step by step. -/
theorem entered_insert (givesWay : α → Bool) (mark path : String) (value : α) (entries : Entries α) :
    let after := Tree.insert givesWay (some mark) path (.leaf value) entries
    enterStepwise givesWay mark path (.leaf value) entries = after ∧
    (Blocked givesWay (Text.split mark path) entries →
      Entered [path] value entries after ∧
        ∀ spot inner, spot ≠ [] → at? spot (.branch after) = some (.branch inner) →
          at? spot (.branch entries) = some (.branch inner)) ∧
    (¬ Blocked givesWay (Text.split mark path) entries → Entered (Text.split mark path) value entries after) := by
  intro after
  refine ⟨enterStepwise_eq_insert givesWay mark path (.leaf value) entries, ?_, ?_⟩
  · intro blocked
    have whole : insertAt? givesWay (.leaf value) [path] entries = some after := by
      simp only [after, Tree.insert, insertAt?_of_blocked blocked, Option.getD_none]
      rfl
    have entered := entered_of_insertAt? whole (List.cons_ne_nil _ _)
    exact ⟨entered, fun _ _ => entered.branch_of_root⟩
  · intro free
    have way : (insertAt? givesWay (.leaf value) (Text.split mark path) entries).isSome = true := by
      apply insertAt?_isSome
      intro above held before different found
      by_contra stays
      exact free ⟨above, held, before, different, found, Bool.eq_false_iff.mpr stays⟩
    obtain ⟨entered, done⟩ := Option.isSome_iff_exists.mp way
    have same : after = entered := by
      simp only [after, Tree.insert, done, Option.getD_some]
    exact same ▸ entered_of_insertAt? done (Segments.split_ne_nil mark path)

def pageTexts : Entries String :=
  [("file", .branch [("name", .leaf "File"), ("open", .leaf "Open")]), ("title", .leaf "Title")]

/-- A text below another one goes to the root, and a text two levels into an object makes the one that is missing. -/
theorem entered_in_pageTexts :
    Entered ["file.name.short"] "F" pageTexts
        (Tree.insert (fun _ => false) (some ".") "file.name.short" (.leaf "F") pageTexts) ∧
      Entered ["file", "save", "as"] "Save as" pageTexts
        (Tree.insert (fun _ => false) (some ".") "file.save.as" (.leaf "Save as") pageTexts) := by
  have below : Text.split "." "file.name.short" = ["file", "name", "short"] := by with_unfolding_all decide
  have inside : Text.split "." "file.save.as" = ["file", "save", "as"] := by with_unfolding_all decide
  constructor
  · refine ((entered_insert (fun _ => false) "." "file.name.short" "F" pageTexts).2.1 ?_).1
    rw [below]
    exact ⟨["file", "name"], "File", ⟨["short"], rfl⟩, by decide, rfl, rfl⟩
  · have free : ∀ above ∈ ["file", "save", "as"].inits, above ≠ ["file", "save", "as"] →
        leafAt? above (.branch pageTexts) = none := by
      decide
    rw [← inside]
    apply (entered_insert (fun _ => false) "." "file.save.as" "Save as" pageTexts).2.2
    rw [inside]
    rintro ⟨above, value, before, different, found, -⟩
    rw [free above ((List.mem_inits _ _).mpr before) different] at found
    cases found

end Phrasebook.Proofs.EnteredPaths
