import Mathlib.Data.List.Infix
import Mathlib.Tactic.SplitIfs
import Phrasebook.Project.Files
import Phrasebook.Proofs.Segments

/-! Reading what was written. A file is written at the place that its path names without detours, and read along the
path as it stands. Writing takes no directory away, keeps the other files as they are, and leaves a written file where
it can be written again. -/

namespace Phrasebook.Proofs.WrittenFiles

open Files Segments Text

variable {files after : Files} {path : String}

section Places

theorem cut?_of_notMem {mark : Char} {text : List Char} (absent : mark ∉ text) : cut? [mark] text = none := by
  cases found : cut? [mark] text with
  | none => rfl
  | some parts =>
    obtain ⟨before, behind⟩ := parts
    exact absurd (eq_append_of_cut? found ▸ by simp) absent

theorem cut?_eq_none_iff {mark : Char} {text : List Char} : cut? [mark] text = none ↔ mark ∉ text :=
  ⟨fun absent member => not_infix_of_cut? absent ((List.singleton_infix_iff mark text).mpr member), cut?_of_notMem⟩

theorem splitChars_singleton (mark : Char) (text : List Char) : splitChars [mark] text = text.splitOn mark := by
  fun_induction splitChars [mark] text with
  | case1 text absent => rw [List.splitOn_eq_singleton (cut?_eq_none_iff.mp absent)]
  | case2 text before behind found unmarked => cases unmarked
  | case3 text before behind found marked shorter ih =>
    have before' := cut?_eq_none_iff.mp (cut?_before marked found)
    rw [ih, eq_append_of_cut? found, List.append_assoc, List.singleton_append,
      List.splitOn_append_cons_self_of_not_mem before']

theorem cut?_append_of_notMem {mark : Char} {before : List Char} (absent : mark ∉ before) (behind : List Char) :
    cut? [mark] (before ++ mark :: behind) = some (before, behind) := by
  induction before with
  | nil => simp [cut?, after?]
  | cons c before ih =>
    rw [List.mem_cons, not_or] at absent
    simp [cut?, after?, absent.1, ih absent.2]

theorem splitChars_intercalate {mark : Char} {first : List Char} {rest : List (List Char)}
    (absent : ∀ part ∈ first :: rest, mark ∉ part) :
    splitChars [mark] ([mark].intercalate (first :: rest)) = first :: rest := by
  induction rest generalizing first with
  | nil => simpa using splitChars_of_cut?_none (cut?_of_notMem (absent first List.mem_cons_self))
  | cons second rest ih =>
    have cut := cut?_append_of_notMem (absent first List.mem_cons_self) ([mark].intercalate (second :: rest))
    have others := ih fun part member => absent part (List.mem_cons_of_mem _ member)
    rw [List.intercalate_cons_cons, List.append_assoc, List.singleton_append,
      splitChars_of_cut?_some (List.cons_ne_nil _ _) cut, others]

/-- Names on the way to a place: none is empty, a point or two, and none has a slash in it. -/
def Plain (place : Place) : Prop :=
  ∀ name ∈ place, name ≠ "" ∧ name ≠ "." ∧ name ≠ ".." ∧ '/' ∉ name.toList

theorem split_path {place : Place} (plain : Plain place) (some : place ≠ []) :
    split "/" place.path = place := by
  obtain ⟨first, rest, rfl⟩ := List.exists_cons_of_ne_nil some
  have noSlash : ∀ part ∈ (first :: rest).map String.toList, '/' ∉ part := by
    intro part member
    obtain ⟨name, inside, rfl⟩ := List.mem_map.mp member
    exact (plain name inside).2.2.2
  have slash : "/".toList = ['/'] := rfl
  rw [split, Place.path, join, String.toList_intercalate, slash, List.map_cons, splitChars_intercalate noSlash,
    ← List.map_cons, List.map_map]
  simp [Function.comp_def]

theorem foldl_enter {place : Place} (plain : Plain place) (start : Place) :
    place.foldl enter start = start ++ place := by
  induction place generalizing start with
  | nil => simp
  | cons name rest ih =>
    obtain ⟨notEmpty, noPoint, noPoints, _⟩ := plain name List.mem_cons_self
    rw [List.foldl_cons, ih fun other member => plain other (List.mem_cons_of_mem _ member)]
    simp [enter, notEmpty, noPoint, noPoints]

theorem notMem_of_mem_split {name : String} (member : name ∈ split "/" path) : '/' ∉ name.toList := by
  obtain ⟨part, inside, rfl⟩ := List.mem_map.mp member
  have absent := cut?_of_mem_splitChars (List.cons_ne_nil '/' []) inside
  rw [String.toList_ofList]
  intro slash
  obtain ⟨before, behind, rfl⟩ := List.append_of_mem slash
  exact not_infix_of_cut? absent ⟨before, behind, by simp⟩

theorem mem_placeOf {name : String} (member : name ∈ placeOf path) :
    name = ".." ∨ name ≠ "" ∧ name ≠ "." ∧ '/' ∉ name.toList := by
  revert name
  unfold placeOf
  refine List.foldlRecOn (motive := fun place : Place => ∀ {name}, name ∈ place →
    name = ".." ∨ name ≠ "" ∧ name ≠ "." ∧ '/' ∉ name.toList) _ enter (by simp) ?_
  intro place known step inPath name member
  unfold enter at member
  split_ifs at member with stays up top
  · exact known member
  · exact (List.mem_append.mp member).elim known fun added => Or.inl (List.mem_singleton.mp added)
  · exact known ((List.dropLast_sublist place).subset member)
  · refine (List.mem_append.mp member).elim known fun added => Or.inr ?_
    obtain rfl := List.mem_singleton.mp added
    simp only [Bool.or_eq_true, decide_eq_true_eq, not_or] at stays
    exact ⟨stays.1, stays.2, notMem_of_mem_split inPath⟩

theorem plain_placeOf (straight : ".." ∉ placeOf path) : Plain (placeOf path) := by
  intro name member
  have other : name ≠ ".." := fun same => straight (same ▸ member)
  obtain ⟨notEmpty, noPoint, noSlash⟩ := (mem_placeOf member).resolve_left other
  exact ⟨notEmpty, noPoint, other, noSlash⟩

/-- A path without detours leads to the place of the path it was made from. -/
theorem placeOf_normalized (straight : ".." ∉ placeOf path) : placeOf (normalized path) = placeOf path := by
  have plain := plain_placeOf straight
  by_cases none : placeOf path = []
  · have empty : split "/" "" = [""] := by simp [split, splitChars_of_cut?_none, cut?]
    have start : placeOf "" = [] := by rw [placeOf, empty]; rfl
    rw [normalized, none]
    exact start
  · rw [placeOf, normalized, split_path plain none, foldl_enter plain, List.nil_append]

end Places

section Walking

/-- The path as it stands leads to the place that it names without detours. -/
def Leads (files : Files) (path : String) : Prop := files.locate [] (split "/" path) = .ok (placeOf path)

/-- One step back leads from a place to the one around it. -/
theorem enter_up {place : Place} (some : place ≠ []) (straight : place.getLast? ≠ Option.some "..") :
    enter place ".." = place.dropLast := by
  have below : ¬ (decide (place = []) || place.getLast? == Option.some "..") = true := by
    simp only [Bool.or_eq_true, decide_eq_true_eq, beq_iff_eq, not_or]
    exact ⟨some, straight⟩
  rw [enter, if_neg (by decide), if_pos rfl, if_neg below]

/-- A step that can be taken leads where its name does. -/
theorem step?_eq_enter {place reached : Place} {name : String} (straight : ".." ∉ place)
    (found : files.step? place name = some reached) : enter place name = reached ∧ ".." ∉ reached := by
  unfold step? at found
  split_ifs at found with _ stays up top
  · obtain rfl := Option.some.inj found
    exact ⟨if_pos stays, straight⟩
  · obtain rfl := Option.some.inj found
    refine ⟨?_, fun member => straight ((List.dropLast_sublist place).subset member)⟩
    rw [up, enter_up top fun last => straight (List.mem_of_getLast? last)]
  · obtain rfl := Option.some.inj found
    refine ⟨by rw [enter, if_neg stays, if_neg up], ?_⟩
    simpa [straight] using Ne.symm up

theorem locate_eq_foldl {start place : Place} {names : List String} (straight : ".." ∉ start)
    (found : files.locate start names = .ok place) : place = names.foldl enter start := by
  induction names generalizing start with
  | nil => exact (Except.ok.inj found).symm
  | cons name rest ih =>
    rw [locate] at found
    split at found
    next reached stepped =>
      obtain ⟨rfl, others⟩ := step?_eq_enter straight stepped
      exact ih others found
    next => cases found

theorem leads_of_locate {place : Place} (found : files.locate [] (split "/" path) = .ok place) :
    Leads files path := by
  have same : place = placeOf path := locate_eq_foldl (by simp) found
  rw [Leads, found, same]

/-- Where no directory is taken away, a walk goes on to lead to its place. -/
theorem Leads.mono (leads : Leads files path)
    (stays : ∀ place, files.isFolder place = true → after.isFolder place = true) : Leads after path := by
  unfold Leads at leads ⊢
  generalize placeOf path = goal at leads ⊢
  generalize ([] : Place) = start at leads ⊢
  generalize split "/" path = names at leads ⊢
  induction names generalizing start with
  | nil => exact leads
  | cons name rest ih =>
    rw [locate] at leads ⊢
    split at leads
    next reached stepped =>
      have stepsOn : after.step? start name = some reached := by
        unfold step? at stepped ⊢
        split at stepped
        · cases stepped
        next isFolder =>
          rw [if_neg (by simpa using stays start (by simpa using isFolder))]
          exact stepped
      rw [stepsOn]
      exact ih _ leads
    next => cases leads

theorem locate_error {start : Place} {names : List String} {found : Found}
    (stopped : files.locate start names = .error found) : found = .missing ∨ found = .unreadable := by
  induction names generalizing start with
  | nil => cases stopped
  | cons name rest ih =>
    rw [locate] at stopped
    split at stopped
    · exact ih stopped
    · obtain rfl := Except.error.inj stopped
      split
      · exact Or.inr rfl
      · exact Or.inl rfl

theorem read_of_not_leads (astray : ¬ Leads files path) :
    files.read path = .missing ∨ files.read path = .unreadable := by
  unfold Files.read
  split
  next found stopped => exact locate_error stopped
  next place found => exact absurd (leads_of_locate found) astray

/-- What is read is the content of the file that the path leads to. -/
theorem read_eq_text_iff {text : String} : files.read path = .text text ↔
    Leads files path ∧ (files.find? (placeOf path)).bind Content.lines? = some text := by
  by_cases leads : Leads files path
  · rw [Files.read, leads]
    dsimp only
    cases files.find? (placeOf path) with
    | none => cases files.isFolder (placeOf path) <;> simp
    | some content =>
      dsimp only
      cases lines : content.lines? <;> simp [leads, lines]
  · rcases read_of_not_leads leads with nothing | nothing <;> simp [nothing, leads]

end Walking

section Writing

variable {content : Content}

theorem find?_write_self : (files.write path content).find? (placeOf path) = some content :=
  Table.find?_put_self _ _ _

theorem find?_write_other {place : Place} (other : place ≠ placeOf path) :
    (files.write path content).find? place = files.find? place :=
  Table.find?_put_other other _ _

theorem isFile_write {place : Place} (isFile : files.isFile place = true) :
    (files.write path content).isFile place = true := by
  by_cases same : place = placeOf path
  · rw [same, Files.isFile, find?_write_self]
    rfl
  · rw [Files.isFile, find?_write_other same]
    exact isFile

/-- Writing makes the directories on the way to the file, and no others. -/
theorem isFolder_write (folder : Place) : (files.write path content).isFolder folder =
    (files.isFolder folder || isInside (placeOf path) folder) := by
  have inside : (Table.put (placeOf path) content files.files).any (fun entry => isInside entry.1 folder) =
      (files.files.any (fun entry => isInside entry.1 folder) || isInside (placeOf path) folder) := by
    have names (table : List (Place × Content)) : table.any (fun entry => isInside entry.1 folder) =
        (Table.names table).any (isInside · folder) := by
      rw [Table.names, List.any_map]
      rfl
    rw [names, names, Table.names_put]
    split
    next known =>
      cases seen : isInside (placeOf path) folder with
      | false => rw [Bool.or_false]
      | true => rw [Bool.or_true, List.any_eq_true.mpr ⟨_, known, seen⟩]
    next => simp
  simp only [isFolder, write, inside, Bool.or_assoc]

theorem write_eq_self (known : files.find? (placeOf path) = some content) : files.write path content = files := by
  rw [write, Table.put_eq_self known]

theorem isInside_of_isFile {place folder : Place} (isFile : files.isFile place = true)
    (inside : isInside place folder = true) : files.isFolder folder = true := by
  obtain ⟨content, found⟩ := Option.isSome_iff_exists.mp isFile
  have among : files.files.any (fun entry => isInside entry.1 folder) = true :=
    List.any_eq_true.mpr ⟨_, Table.mem_of_find? found, inside⟩
  simp only [isFolder, among, Bool.or_true]

theorem canWrite_iff : files.canWrite path = true ↔ files.isFolder (placeOf path) = false ∧
    ∀ above, isInside (placeOf path) above = true → files.isFile above = false := by
  have above (folder : Place) : isInside (placeOf path) folder = true ↔
      ∃ count < (placeOf path).length, (placeOf path).take count = folder := by
    rw [isInside, Bool.and_eq_true, List.isPrefixOf_iff_prefix, decide_eq_true_eq]
    constructor
    · rintro ⟨begins, shorter⟩
      exact ⟨folder.length, shorter, (List.prefix_iff_eq_take.mp begins).symm⟩
    · rintro ⟨count, shorter, rfl⟩
      have begins := List.take_prefix count (placeOf path)
      exact ⟨begins, by rw [List.length_take]; omega⟩
  simp only [canWrite, Bool.and_eq_true, Bool.not_eq_true', List.all_eq_true, List.mem_range, above]
  refine and_congr_right fun _ => ⟨?_, fun clear count shorter => clear _ ⟨count, shorter, rfl⟩⟩
  rintro clear _ ⟨count, shorter, rfl⟩
  exact clear count shorter

/-- Where a file has been written it can be written again, whatever else is written. -/
theorem canWrite_write {other : String} (isFile : files.isFile (placeOf path) = true)
    (here : files.canWrite path = true) (there : files.canWrite other = true) :
    (files.write other content).canWrite path = true := by
  rw [canWrite_iff] at here there ⊢
  refine ⟨?_, fun above inside => ?_⟩
  · rw [isFolder_write, here.1, Bool.false_or, Bool.eq_false_iff]
    intro inside
    exact Bool.false_ne_true ((there.2 _ inside).symm.trans isFile)
  · by_cases same : above = placeOf other
    · have folder := isInside_of_isFile isFile (same ▸ inside)
      exact absurd (there.1.symm.trans folder) Bool.false_ne_true
    · rw [Files.isFile, find?_write_other same]
      exact here.2 above inside

theorem canWrite_write_self (here : files.canWrite path = true) : (files.write path content).canWrite path = true := by
  have itself : isInside (placeOf path) (placeOf path) = false := by simp [isInside]
  rw [canWrite_iff] at here ⊢
  refine ⟨?_, fun above inside => ?_⟩
  · rw [isFolder_write, here.1, itself]
    rfl
  · have other : above ≠ placeOf path := fun same => by simp [same, itself] at inside
    rw [Files.isFile, find?_write_other other]
    exact here.2 above inside

end Writing

section Endings

def stays (name : String) : Bool := name = "" || name = "."

theorem enter_of_stays {name : String} (seen : stays name = true) (place : Place) : enter place name = place :=
  if_pos seen

theorem enter_of_name {name : String} (seen : stays name = false) (other : name ≠ "..") (place : Place) :
    enter place name = place ++ [name] := by
  rw [enter, if_neg (by rw [← stays, seen]; decide), if_neg other]

theorem foldl_enter_straight {names : List String} (straight : ".." ∉ names) (start : Place) :
    names.foldl enter start = start ++ names.filter (fun name => !stays name) := by
  induction names generalizing start with
  | nil => simp
  | cons name rest ih =>
    rw [List.mem_cons, not_or] at straight
    rw [List.foldl_cons, ih straight.2]
    cases seen : stays name with
    | true => rw [enter_of_stays seen, List.filter_cons_of_neg (by simp [seen])]
    | false =>
      rw [enter_of_name seen (Ne.symm straight.1), List.filter_cons_of_pos (by simp [seen]), List.append_assoc,
        List.singleton_append]

theorem isInside_append {start rest : Place} (some : rest ≠ []) : isInside (start ++ rest) start = true := by
  have longer := List.length_pos_iff.mpr some
  simp [isInside, longer]

/-- A walk to a file ends with the file's name. -/
theorem locate_iff {goal : Place} (isFile : files.isFile goal = true) (noFolder : files.isFolder goal = false)
    {names : List String} (straight : ".." ∉ names) {start : Place} (reached : names.foldl enter start = goal) :
    files.locate start names = .ok goal ↔ ∀ last ∈ names.getLast?, stays last = false := by
  induction names generalizing start with
  | nil => simpa [locate] using reached
  | cons name rest ih =>
    have others : ".." ∉ rest := fun member => straight (List.mem_cons_of_mem _ member)
    have other : name ≠ ".." := fun same => straight (same ▸ List.mem_cons_self)
    rw [locate]
    by_cases isFolder : files.isFolder start = true
    · have stepped : files.step? start name = some (enter start name) := by
        rw [step?, if_neg (by simp [isFolder])]
        cases seen : stays name with
        | true =>
          rw [enter_of_stays seen]
          exact if_pos seen
        | false => rw [enter_of_name seen other, if_neg (by rw [← stays, seen]; decide), if_neg other]
      have further := ih others reached
      rw [stepped]
      cases rest with
      | cons second rest => simpa [List.getLast?_cons_cons] using further
      | nil =>
        -- the directory is not yet the file
        have notYet : start ≠ goal := fun same => by simp [← same, isFolder] at noFolder
        have named : stays name = false := by
          rw [Bool.eq_false_iff]
          exact fun seen => notYet (by simpa [enter_of_stays seen] using reached)
        simpa [named] using further
    · have stepped : files.step? start name = none := by
        rw [step?, if_pos (by simpa using isFolder)]
      have arrived : (name :: rest).filter (fun name => !stays name) = [] := by
        refine Classical.byContradiction fun more => isFolder (isInside_of_isFile isFile ?_)
        rw [← reached, foldl_enter_straight straight]
        exact isInside_append more
      obtain ⟨last, found⟩ : ∃ last, (name :: rest).getLast? = some last := by simp [List.getLast?_cons]
      have stays : stays last = true := by
        simpa using List.filter_eq_nil_iff.mp arrived last (List.mem_of_getLast? found)
      simp [stepped, found, stays]

/-- To a file, a path without two points leads unless it ends in a slash or a point. -/
theorem leads_iff (straight : ".." ∉ split "/" path) (isFile : files.isFile (placeOf path) = true)
    (noFolder : files.isFolder (placeOf path) = false) :
    Leads files path ↔ ∀ last ∈ (split "/" path).getLast?, stays last = false :=
  locate_iff isFile noFolder straight rfl

end Endings

end Phrasebook.Proofs.WrittenFiles
