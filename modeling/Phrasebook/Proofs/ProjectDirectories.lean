import Mathlib.Data.List.Basic
import Mathlib.Tactic.ByContra
import Phrasebook.Proofs.WrittenFiles

/-! Files in the directory of a project. A path is followed from the directory, or from the top of all directories when
it begins with a slash; points on the way stay and pairs of points lead back. A path stays in whatever directory it is
followed from just when it does not begin with a slash, leads back no further than where it began, and leads to
something. -/

namespace Phrasebook

open Text

namespace Files

/-- Whether a path is followed from the top of all directories. -/
def isRooted (path : String) : Bool := startsWith "/" path

/-- A path followed from a directory. -/
def joined (directory path : String) : String :=
  if isRooted path then path
  else if directory = "" || endsWith "/" directory then directory ++ path
  else directory ++ "/" ++ path

/-- Where a path leads: to names on the way from the top of all directories, or from wherever one is. -/
structure Spot where
  rooted : Bool
  place : Place
deriving DecidableEq

/-- The place that a name leads to. Nothing leads further back than to the top. -/
def enterFrom (rooted : Bool) (place : Place) (name : String) : Place :=
  if rooted && place.isEmpty && name == ".." then [] else enter place name

def spotOf (path : String) : Spot := ⟨isRooted path, (split "/" path).foldl (enterFrom (isRooted path)) []⟩

/-- Whether a path leads to something in the directory that another path leads to, or further down. -/
def Below (directory path : String) : Prop :=
  ∃ names, names ≠ [] ∧ ".." ∉ names ∧ spotOf path = ⟨(spotOf directory).rooted, (spotOf directory).place ++ names⟩

end Files

namespace Proofs.ProjectDirectories

open Files Segments WrittenFiles

section Walking

/-- What leads out of where one began is never taken back. -/
theorem climbs_enter {place : Place} (climbs : ".." ∈ place) (name : String) : ".." ∈ enter place name := by
  unfold enter
  split_ifs with stays up top
  · exact climbs
  · exact List.mem_append_left _ climbs
  · obtain ⟨before, last, rfl⟩ := (List.eq_nil_or_concat' place).resolve_left (List.ne_nil_of_mem climbs)
    have other : last ≠ ".." := by simpa using top
    rw [List.dropLast_concat]
    exact (List.mem_append.mp climbs).resolve_right fun same => other (List.mem_singleton.mp same).symm
  · exact List.mem_append_left _ climbs

theorem climbs_foldl {place : Place} (climbs : ".." ∈ place) (names : List String) : ".." ∈ names.foldl enter place := by
  induction names generalizing place with
  | nil => exact climbs
  | cons name names ih => exact ih (climbs_enter climbs name)

theorem enterFrom_of_some {rooted : Bool} {place : Place} (some : place ≠ []) (name : String) :
    enterFrom rooted place name = enter place name := by
  rw [enterFrom, if_neg (by simp [some])]

theorem enterFrom_of_other {rooted : Bool} {name : String} (other : name ≠ "..") (place : Place) :
    enterFrom rooted place name = enter place name := by
  rw [enterFrom, if_neg (by simp [other])]

theorem enterFrom_append {rooted : Bool} {start place : Place} {name : String} (straight : ".." ∉ enter place name) :
    enterFrom rooted (start ++ place) name = start ++ enter place name := by
  by_cases up : name = ".."
  · subst up
    have some : place ≠ [] := by
      rintro rfl
      exact straight (List.mem_singleton_self _)
    have last : place.getLast? ≠ Option.some ".." := fun last =>
      straight (climbs_enter (List.mem_of_getLast? last) _)
    have further : (start ++ place).getLast? ≠ Option.some ".." := by
      rwa [List.getLast?_append_of_ne_nil _ some]
    have both : start ++ place ≠ [] := List.append_ne_nil_of_right_ne_nil _ some
    rw [enterFrom_of_some both, enter_up both further, enter_up some last, List.dropLast_append_of_ne_nil some]
  · rw [enterFrom_of_other up]
    cases seen : WrittenFiles.stays name with
    | true => rw [enter_of_stays seen, enter_of_stays seen]
    | false => rw [enter_of_name seen up, enter_of_name seen up, List.append_assoc]

/-- A walk that never leads back behind its beginning is the same walk wherever it begins. -/
theorem foldl_enterFrom (rooted : Bool) (start : Place) {place : Place} {names : List String}
    (straight : ".." ∉ names.foldl enter place) :
    names.foldl (enterFrom rooted) (start ++ place) = start ++ names.foldl enter place := by
  induction names generalizing place with
  | nil => rfl
  | cons name names ih =>
    rw [List.foldl_cons, enterFrom_append fun climbs => straight (climbs_foldl climbs names)]
    exact ih straight

theorem split_append_slash (first second : String) :
    split "/" (first ++ "/" ++ second) = split "/" first ++ split "/" second := by
  have slash : "/".toList = ['/'] := rfl
  simp only [split, String.toList_append, slash, splitChars_singleton, List.append_assoc, List.singleton_append,
    List.splitOn_append_cons_self, List.map_append]

theorem isRooted_iff {path : String} : isRooted path = true ↔ path.toList.head? = some '/' := by
  have slash : "/".toList = ['/'] := rfl
  rw [isRooted, startsWith, slash]
  cases path.toList with
  | nil => simp [after?]
  | cons c rest => simp [after?, @eq_comm Char c]

theorem isRooted_append {front : String} (some : front ≠ "") (path : String) :
    isRooted (front ++ path) = isRooted front := by
  rw [Bool.eq_iff_iff, isRooted_iff, isRooted_iff, String.toList_append,
    List.head?_append_of_ne_nil _ (toList_ne_nil some)]

theorem exists_of_endsWith {path : String} (ends : endsWith "/" path = true) : ∃ front, path = front ++ "/" := by
  obtain ⟨front, found⟩ := Option.isSome_iff_exists.mp ends
  obtain ⟨reversed, seen, rfl⟩ := Option.map_eq_some_iff.mp found
  have whole := congrArg List.reverse (eq_append_of_after? seen)
  refine ⟨String.ofList reversed.reverse, String.toList_inj.mp ?_⟩
  simpa using whole

theorem spotOf_of_relative {path : String} (relative : isRooted path = false) : spotOf path = ⟨false, placeOf path⟩ := by
  have same : enterFrom false = enter := by
    funext place name
    simp [enterFrom]
  rw [spotOf, relative, same, placeOf]

theorem spotOf_append_slash (front path : String) (straight : ".." ∉ placeOf path) :
    spotOf (front ++ "/" ++ path) = ⟨isRooted (front ++ "/"),
      (split "/" front).foldl (enterFrom (isRooted (front ++ "/"))) [] ++ placeOf path⟩ := by
  have some : front ++ "/" ≠ "" := by simp
  have behind := foldl_enterFrom (isRooted (front ++ "/"))
    ((split "/" front).foldl (enterFrom (isRooted (front ++ "/"))) []) straight
  rw [List.append_nil] at behind
  rw [spotOf, isRooted_append some, split_append_slash, List.foldl_append, behind, placeOf]

theorem placeOf_empty : placeOf "" = [] := by decide +kernel

/-- From every directory, a path that does not begin with a slash goes on. -/
theorem spotOf_joined {path : String} (relative : isRooted path = false) (straight : ".." ∉ placeOf path)
    (directory : String) :
    spotOf (joined directory path) = ⟨(spotOf directory).rooted, (spotOf directory).place ++ placeOf path⟩ := by
  have notRooted : ¬ isRooted path = true := by simp [relative]
  rw [joined, if_neg notRooted]
  split
  next direct =>
    by_cases empty : directory = ""
    · subst empty
      rw [String.empty_append, spotOf_of_relative relative, spotOf_of_relative (by decide), placeOf_empty]
      rfl
    · obtain ⟨front, rfl⟩ := exists_of_endsWith (by simpa [empty] using direct)
      have here := spotOf_append_slash front "" (placeOf_empty ▸ List.not_mem_nil)
      rw [String.append_empty, placeOf_empty, List.append_nil] at here
      rw [spotOf_append_slash front path straight, here]
  next indirect =>
    have some : directory ≠ "" := fun empty => indirect (by simp [empty])
    rw [spotOf_append_slash directory path straight, isRooted_append some, spotOf]

/-- A path without detours begins without a slash. -/
theorem isRooted_normalized {path : String} (straight : ".." ∉ placeOf path) (some : placeOf path ≠ []) :
    isRooted (normalized path) = false := by
  refine Bool.eq_false_iff.mpr fun rooted => ?_
  obtain ⟨rest, shape⟩ := List.head?_eq_some_iff.mp (isRooted_iff.mp rooted)
  have slash : "/".toList = ['/'] := rfl
  have first : "" ∈ split "/" (normalized path) := by
    rw [split, slash, splitChars_singleton, shape, List.splitOn_cons_eq_if_modifyHead, if_pos (beq_self_eq_true '/')]
    exact List.mem_cons_self
  have plain := plain_placeOf straight
  rw [normalized, split_path plain some] at first
  exact (plain "" first).1 rfl

end Walking

/-- A path leads to something in whatever directory it is followed from just where it does not begin with a slash, leads
no further back than to where it began, and does not end there. -/
theorem below_joined_iff {path : String} : (∀ directory, Below directory (joined directory path)) ↔
    isRooted path = false ∧ ".." ∉ placeOf path ∧ placeOf path ≠ [] := by
  constructor
  · intro below
    have relative : isRooted path = false := by
      by_contra rooted
      obtain ⟨names, _, _, found⟩ := below "x"
      rw [joined, if_pos (by simpa using rooted)] at found
      exact rooted (congrArg Spot.rooted found)
    obtain ⟨names, some, straight, found⟩ := below ""
    have direct : joined "" path = path := by simp [joined]
    have start : spotOf "" = ⟨false, []⟩ := by decide +kernel
    rw [direct, spotOf_of_relative relative, start] at found
    obtain rfl : placeOf path = names := congrArg Spot.place found
    exact ⟨relative, straight, some⟩
  · rintro ⟨relative, straight, some⟩ directory
    exact ⟨placeOf path, some, straight, spotOf_joined relative straight directory⟩

end Proofs.ProjectDirectories

end Phrasebook
