import Phrasebook.Proofs.Outcomes
import Phrasebook.Proofs.ProjectDirectories

/-! Templates for the paths of catalogs. A catalog for all namespaces is found by leaving out the places for one, each
with the slash before it, and what stood behind a place moves up. Where a place stood at the beginning, a slash behind it
comes to begin the path, and where it stood between points, they come together. Behind a name neither happens. -/

namespace Phrasebook

open Text Files

/-- A part of a template: a character of its own, a place for the locale, or a place for the namespace. Both places can be
written in a long and in a short way. -/
inductive TemplatePart where
  | character (value : Char)
  | language (short : Bool)
  | place (short : Bool)
deriving DecidableEq

namespace TemplatePart

def shown : TemplatePart → String
  | character c => String.singleton c
  | language false => "\x7b\x7blanguage\x7d\x7d"
  | language true => "\x7b\x7blng\x7d\x7d"
  | place false => "\x7b\x7bnamespace\x7d\x7d"
  | place true => "\x7b\x7bns\x7d\x7d"

def chars (part : TemplatePart) : List Char := part.shown.toList

def text (parts : List TemplatePart) : String := String.ofList (parts.flatMap chars)

/-- The characters of a part in the path of a catalog for all namespaces. -/
def filled (locale : String) : TemplatePart → List Char
  | character c => [c]
  | language _ => locale.toList
  | place _ => []

def slash : TemplatePart := character '/'

def isPlace : TemplatePart → Bool
  | place _ => true
  | _ => false

/-- Whether a part makes a segment more than points. -/
def isName : TemplatePart → Bool
  | character c => c != '/' && c != '.'
  | language _ => true
  | place _ => false

/-- Whether a part before others is left out: it is a place for the namespace, or a slash before one. -/
def isLeftOut (part : TemplatePart) (rest : List TemplatePart) : Bool :=
  part.isPlace || (part == slash || part == character '\\') && rest.head?.any isPlace

/-- What stays of a template without its places for a namespace. -/
def remaining : List TemplatePart → List TemplatePart
  | [] => []
  | part :: rest => if part.isLeftOut rest then remaining rest else part :: remaining rest

/-- Whether everything that is left out stands behind a name, in the segment of what stays. -/
def sheltered : (named : Bool) → List TemplatePart → Bool
  | _, [] => true
  | named, part :: rest =>
    if part.isLeftOut rest then named && sheltered named rest
    else sheltered (part != slash && (named || part.isName)) rest

end TemplatePart

open TemplatePart

/-- A template that begins without a slash, leads to something without leading back, and has a name before each of its
places for a namespace. -/
structure ShelteredTemplate (parts : List TemplatePart) : Prop where
  unbraced : character '\x7b' ∉ parts
  relative : isRooted (text parts) = false
  straight : ".." ∉ split "/" (text parts)
  leads : placeOf (text parts) ≠ []
  sheltered : sheltered false parts = true

/-- A name for a locale that stays within its place: it has no slash and no brace, and is more than points. -/
structure LocaleName (locale : String) : Prop where
  unbraced : '\x7b' ∉ locale.toList
  whole : '/' ∉ locale.toList
  named : ∃ c ∈ locale.toList, c ≠ '.'

namespace Proofs.OutputTemplates

open Outcomes ProjectDirectories Segments WrittenFiles

variable {locale : String} {part : TemplatePart} {parts rest : List TemplatePart} {named : Bool}

section LeavingOut

theorem withoutNamespacePlaces_skip (front behind : List Char) :
    withoutNamespacePlaces front.length (front ++ behind) = withoutNamespacePlaces 0 behind := by
  induction front with
  | nil => rfl
  | cons c front ih => exact ih

theorem withoutNamespacePlaces_of_some {c : Char} {front behind : List Char}
    (found : afterNamespacePlace? (c :: (front ++ behind)) = some behind) :
    withoutNamespacePlaces 0 (c :: (front ++ behind)) = withoutNamespacePlaces 0 behind := by
  rw [withoutNamespacePlaces, found]
  simpa using withoutNamespacePlaces_skip front behind

theorem withoutNamespacePlaces_of_none {c : Char} {behind : List Char}
    (absent : afterNamespacePlace? (c :: behind) = none) :
    withoutNamespacePlaces 0 (c :: behind) = c :: withoutNamespacePlaces 0 behind := by
  rw [withoutNamespacePlaces, absent]

/-- The characters behind a place for a namespace that a text begins with. -/
def behindPlace? (text : List Char) : Option (List Char) := namespacePlaces.findSome? fun place => after? place text

theorem afterNamespacePlace?_slash {c : Char} (isSlash : c = '/' ∨ c = '\\') (text : List Char) :
    afterNamespacePlace? (c :: text) = behindPlace? text := by
  rcases isSlash with rfl | rfl <;> rfl

theorem afterNamespacePlace?_other {c : Char} (noSlash : ¬ (c = '/' ∨ c = '\\')) (text : List Char) :
    afterNamespacePlace? (c :: text) = behindPlace? (c :: text) := by
  rw [not_or] at noSlash
  unfold afterNamespacePlace?
  split
  next same => exact absurd (List.cons.inj same).1 noSlash.1
  next same => exact absurd (List.cons.inj same).1 noSlash.2
  next => rfl

theorem behindPlace?_place (short : Bool) (behind : List Char) :
    behindPlace? ((place short).chars ++ behind) = some behind := by
  cases short <;> simp [behindPlace?, namespacePlaces, chars, shown, after?]

theorem behindPlace?_of_ne {c : Char} (unbraced : c ≠ '\x7b') (behind : List Char) :
    behindPlace? (c :: behind) = none := by
  simp [behindPlace?, namespacePlaces, after?, Ne.symm unbraced]

theorem behindPlace?_language (short : Bool) (behind : List Char) :
    behindPlace? ((language short).chars ++ behind) = none := by
  cases short <;> simp [behindPlace?, namespacePlaces, chars, shown, after?]

theorem withoutNamespacePlaces_place (short : Bool) (behind : List Char) :
    withoutNamespacePlaces 0 ((place short).chars ++ behind) = withoutNamespacePlaces 0 behind := by
  obtain ⟨front, shape⟩ : ∃ front, (place short).chars = '\x7b' :: front := by cases short <;> exact ⟨_, rfl⟩
  have found := behindPlace?_place short behind
  rw [shape, List.cons_append] at found ⊢
  exact withoutNamespacePlaces_of_some ((afterNamespacePlace?_other (by decide) _).trans found)

theorem withoutNamespacePlaces_language (short : Bool) (behind : List Char) :
    withoutNamespacePlaces 0 ((language short).chars ++ behind) =
      (language short).chars ++ withoutNamespacePlaces 0 behind := by
  cases short <;> simp [withoutNamespacePlaces, afterNamespacePlace?, namespacePlaces, chars, shown, after?]

theorem toList_text (parts : List TemplatePart) : (text parts).toList = parts.flatMap chars := String.toList_ofList

theorem chars_character (c : Char) : (character c).chars = [c] := String.toList_singleton c

theorem ne_brace (unbraced : character '\x7b' ∉ parts) {c : Char} (member : character c ∈ parts) : c ≠ '\x7b' :=
  fun same => unbraced (same ▸ member)

theorem behindPlace?_of_kept (unbraced : character '\x7b' ∉ parts)
    (kept : parts.head?.any isPlace = false) : behindPlace? (parts.flatMap chars) = none := by
  cases parts with
  | nil => rfl
  | cons part rest =>
    rw [List.flatMap_cons]
    cases part with
    | character c =>
      rw [chars_character]
      exact behindPlace?_of_ne (ne_brace unbraced List.mem_cons_self) _
    | language short => exact behindPlace?_language short _
    | place short => cases kept

theorem isLeftOut_place (short : Bool) (rest : List TemplatePart) : (place short).isLeftOut rest = true := rfl

theorem isLeftOut_language (short : Bool) (rest : List TemplatePart) : (language short).isLeftOut rest = false := rfl

theorem exists_place_of_any (any : parts.head?.any isPlace = true) : ∃ short behind, parts = place short :: behind := by
  match parts, any with
  | place short :: behind, _ => exact ⟨short, behind, rfl⟩

/-- Leaving out the places for a namespace leaves the characters of the parts that stay. -/
theorem withoutNamespacePlaces_chars (unbraced : character '\x7b' ∉ parts) :
    withoutNamespacePlaces 0 (parts.flatMap chars) = (remaining parts).flatMap chars := by
  induction parts with
  | nil => rfl
  | cons part rest ih =>
    have unbracedRest : character '\x7b' ∉ rest := fun member => unbraced (List.mem_cons_of_mem _ member)
    have further := ih unbracedRest
    rw [List.flatMap_cons, remaining]
    cases part with
    | place short => rw [withoutNamespacePlaces_place, further, isLeftOut_place, if_pos rfl]
    | language short => rw [withoutNamespacePlaces_language, further, isLeftOut_language, if_neg Bool.false_ne_true,
        List.flatMap_cons]
    | character c =>
      have kept (absent : afterNamespacePlace? (c :: rest.flatMap chars) = none) :
          withoutNamespacePlaces 0 (c :: rest.flatMap chars) = (character c :: remaining rest).flatMap chars := by
        rw [withoutNamespacePlaces_of_none absent, further, List.flatMap_cons, chars_character, List.singleton_append]
      rw [chars_character, List.singleton_append]
      by_cases isSlash : c = '/' ∨ c = '\\'
      · have own : (character c == slash || character c == character '\\') = true := by simpa [slash] using isSlash
        cases before : rest.head?.any isPlace with
        | false =>
          rw [if_neg (by simp [isLeftOut, isPlace, before])]
          exact kept ((afterNamespacePlace?_slash isSlash _).trans (behindPlace?_of_kept unbracedRest before))
        | true =>
          obtain ⟨short, behind, rfl⟩ := exists_place_of_any before
          rw [if_pos (by simp [isLeftOut, own, isPlace]), ← further, List.flatMap_cons, withoutNamespacePlaces_place]
          exact withoutNamespacePlaces_of_some ((afterNamespacePlace?_slash isSlash _).trans (behindPlace?_place short _))
      · have other : (character c == slash || character c == character '\\') = false := by
          simpa [slash, not_or] using isSlash
        rw [if_neg (by simp [isLeftOut, isPlace, other])]
        refine kept ((afterNamespacePlace?_other isSlash _).trans ?_)
        exact behindPlace?_of_ne (ne_brace unbraced List.mem_cons_self) _

theorem notMem_remaining (short : Bool) : place short ∉ remaining parts := by
  induction parts with
  | nil => exact List.not_mem_nil
  | cons part rest ih =>
    rw [remaining]
    split
    · exact ih
    next kept =>
      rw [List.mem_cons, not_or]
      refine ⟨?_, ih⟩
      rintro rfl
      exact kept (isLeftOut_place short rest)

theorem mem_of_mem_remaining (member : part ∈ remaining parts) : part ∈ parts := by
  induction parts with
  | nil => exact member
  | cons first rest ih =>
    rw [remaining] at member
    split at member
    · exact List.mem_cons_of_mem _ (ih member)
    · exact (List.mem_cons.mp member).elim (fun same => same ▸ List.mem_cons_self)
        fun later => List.mem_cons_of_mem _ (ih later)

end LeavingOut

section Filling

/-- A text with another one in place of a mark. -/
def swapped (mark new text : List Char) : List Char := new.intercalate (splitChars mark text)

theorem toList_replace {mark : String} (marked : mark ≠ "") (new text : String) :
    (replace mark new text).toList = swapped mark.toList new.toList text.toList := by
  rw [replace, if_neg marked, join, String.toList_intercalate, split, List.map_map, swapped]
  simp [Function.comp_def]

variable {mark new : List Char}

theorem swapped_nil (marked : mark ≠ []) : swapped mark new [] = [] := by
  rw [swapped, splitChars_of_cut?_none (cut?_nil marked), List.intercalate_singleton]

theorem swapped_mark (marked : mark ≠ []) (rest : List Char) :
    swapped mark new (mark ++ rest) = new ++ swapped mark new rest := by
  have found : cut? mark (mark ++ rest) = some ([], rest) := by
    have first : cut? mark mark = some ([], []) := by
      obtain ⟨c, more, rfl⟩ := List.exists_cons_of_ne_nil marked
      have here := after?_append (c :: more) []
      rw [List.append_nil] at here
      rw [cut?, here]
    exact cut?_append first rest
  rw [swapped, splitChars_of_cut?_some marked found, List.intercalate_cons_of_ne_nil (splitChars_ne_nil _ _),
    List.nil_append, swapped]

theorem swapped_cons (marked : mark ≠ []) {c : Char} {rest : List Char} (absent : after? mark (c :: rest) = none) :
    swapped mark new (c :: rest) = c :: swapped mark new rest := by
  cases found : cut? mark rest with
  | none =>
    have whole : cut? mark (c :: rest) = none := by rw [cut?, absent, found]; rfl
    simp only [swapped, splitChars_of_cut?_none found, splitChars_of_cut?_none whole, List.intercalate_singleton]
  | some cut =>
    obtain ⟨before, behind⟩ := cut
    have whole : cut? mark (c :: rest) = some (c :: before, behind) := by rw [cut?, absent, found]; rfl
    simp only [swapped, splitChars_of_cut?_some marked found, splitChars_of_cut?_some marked whole,
      List.intercalate_cons_of_ne_nil (splitChars_ne_nil mark behind), List.cons_append]

/-- A text without the first character of a mark stays as it is. -/
theorem swapped_append_of_notMem {first : Char} {front : List Char} (absent : first ∉ front) (rest : List Char) :
    swapped (first :: mark) new (front ++ rest) = front ++ swapped (first :: mark) new rest := by
  induction front with
  | nil => rfl
  | cons c front ih =>
    rw [List.mem_cons, not_or] at absent
    have other : after? (first :: mark) (c :: (front ++ rest)) = none := by rw [after?, if_neg absent.1]
    rw [List.cons_append, swapped_cons (List.cons_ne_nil _ _) other, ih absent.2, List.cons_append]

theorem swapped_of_notMem {first : Char} {text : List Char} (absent : first ∉ text) :
    swapped (first :: mark) new text = text := by
  have same : swapped (first :: mark) new (text ++ []) = text ++ swapped (first :: mark) new [] :=
    swapped_append_of_notMem absent []
  rwa [swapped_nil (List.cons_ne_nil _ _), List.append_nil] at same

/-- Parts that each change to others change to them one by one. -/
theorem swapped_flatMap (marked : mark ≠ []) {before after : TemplatePart → List Char}
    (each : ∀ part ∈ parts, ∀ rest, swapped mark new (before part ++ rest) = after part ++ swapped mark new rest) :
    swapped mark new (parts.flatMap before) = parts.flatMap after := by
  induction parts with
  | nil => exact swapped_nil marked
  | cons part rest ih =>
    rw [List.flatMap_cons, each part List.mem_cons_self, ih fun other member => each other (List.mem_cons_of_mem _ member),
      List.flatMap_cons]

/-- The characters of a part once the place for the locale that is written in the long way is filled. -/
def halfFilled (locale : String) : TemplatePart → List Char
  | language false => locale.toList
  | part => part.chars

theorem swapped_other_language (rest : List Char) :
    swapped (language false).chars new ((language true).chars ++ rest) =
      (language true).chars ++ swapped (language false).chars new rest := by
  have marked : (language false).chars ≠ [] := by simp [chars, shown]
  simp only [show (language true).chars = ['\x7b', '\x7b', 'l', 'n', 'g', '}', '}'] from rfl, List.cons_append,
    List.nil_append]
  repeat rw [swapped_cons marked (by simp [chars, shown, after?])]

theorem swapped_character {first c : Char} (other : c ≠ first) (rest : List Char) :
    swapped (first :: mark) new ((character c).chars ++ rest) = (character c).chars ++ swapped (first :: mark) new rest := by
  rw [chars_character]
  exact swapped_append_of_notMem (by simpa using Ne.symm other) rest

theorem notMem_flatMap_filled (name : LocaleName locale) (unbraced : character '\x7b' ∉ parts) :
    '\x7b' ∉ parts.flatMap (filled locale) := by
  intro member
  obtain ⟨part, inside, brace⟩ := List.mem_flatMap.mp member
  cases part with
  | character c => exact ne_brace unbraced inside (List.mem_singleton.mp brace).symm
  | language short => exact name.unbraced brace
  | place short => cases brace

/-- The path for a locale has the locale's name in all its places. -/
theorem toList_fillPath (name : LocaleName locale) (unbraced : character '\x7b' ∉ parts)
    (placeless : ∀ short, place short ∉ parts) :
    (fillPath locale "" (text parts)).toList = parts.flatMap (filled locale) := by
  have long : ∀ part ∈ parts, ∀ rest, swapped (language false).chars locale.toList (part.chars ++ rest) =
      halfFilled locale part ++ swapped (language false).chars locale.toList rest := by
    intro part member rest
    match part with
    | character c => exact swapped_character (ne_brace unbraced member) rest
    | language false => exact swapped_mark (by simp [chars, shown]) rest
    | language true => exact swapped_other_language rest
    | place short => exact absurd member (placeless short)
  have short : ∀ part ∈ parts, ∀ rest, swapped (language true).chars locale.toList (halfFilled locale part ++ rest) =
      filled locale part ++ swapped (language true).chars locale.toList rest := by
    intro part member rest
    match part with
    | character c =>
      rw [filled, ← chars_character]
      exact swapped_character (ne_brace unbraced member) rest
    | language false => exact swapped_append_of_notMem name.unbraced rest
    | language true => exact swapped_mark (by simp [chars, shown]) rest
    | place short => exact absurd member (placeless short)
  have first : swapped "\x7b\x7blanguage\x7d\x7d".toList locale.toList (parts.flatMap chars) =
      parts.flatMap (halfFilled locale) := swapped_flatMap (by simp) long
  have second : swapped "\x7b\x7blng\x7d\x7d".toList locale.toList (parts.flatMap (halfFilled locale)) =
      parts.flatMap (filled locale) := swapped_flatMap (by simp) short
  rw [fillPath, toList_replace (by decide), toList_replace (by decide), toList_replace (by decide),
    toList_replace (by decide), toList_text, first, second]
  have unbracedPath := notMem_flatMap_filled name unbraced
  exact (congrArg _ (swapped_of_notMem unbracedPath)).trans (swapped_of_notMem unbracedPath)

end Filling

section Segments

theorem splitOn_append_of_notMem {mark : Char} {front : List Char} (absent : mark ∉ front) (behind : List Char) :
    (front ++ behind).splitOn mark = (behind.splitOn mark).modifyHead (front ++ ·) := by
  induction front with
  | nil =>
    rw [List.nil_append]
    cases behind.splitOn mark <;> rfl
  | cons c front ih =>
    rw [List.mem_cons, not_or] at absent
    rw [List.cons_append, List.splitOn_cons_eq_if_modifyHead, if_neg (by simpa using Ne.symm absent.1), ih absent.2,
      List.modifyHead_modifyHead]
    rfl

def segments (parts : List TemplatePart) : List (List TemplatePart) := parts.splitOn slash

theorem segments_slash (rest : List TemplatePart) : segments (slash :: rest) = [] :: segments rest := by
  rw [segments, List.splitOn_cons_eq_if_modifyHead, if_pos (beq_self_eq_true slash), segments]

theorem segments_cons (other : part ≠ slash) (rest : List TemplatePart) :
    segments (part :: rest) = (segments rest).modifyHead (part :: ·) := by
  rw [segments, List.splitOn_cons_eq_if_modifyHead, if_neg (by simpa using other), segments]

theorem exists_segments (parts : List TemplatePart) : ∃ first others, segments parts = first :: others :=
  List.exists_cons_of_ne_nil (List.splitOn_ne_nil slash parts)

/-- Where only slashes are shown with a slash, what is shown falls into the segments of the parts. -/
theorem splitOn_flatMap {shape : TemplatePart → List Char} (bar : shape slash = ['/'])
    (whole : ∀ part ≠ slash, '/' ∉ shape part) :
    (parts.flatMap shape).splitOn '/' = (segments parts).map (List.flatMap shape) := by
  induction parts with
  | nil => rfl
  | cons part rest ih =>
    rw [List.flatMap_cons]
    by_cases same : part = slash
    · subst same
      rw [bar, List.singleton_append, List.splitOn_cons_eq_if_modifyHead, if_pos (beq_self_eq_true '/'), ih,
        segments_slash]
      rfl
    · obtain ⟨first, others, known⟩ := exists_segments rest
      rw [splitOn_append_of_notMem (whole part same), ih, segments_cons same, known]
      rfl

theorem split_of_toList {path : String} {shape : TemplatePart → List Char} (bar : shape slash = ['/'])
    (whole : ∀ part ≠ slash, '/' ∉ shape part) (shows : path.toList = parts.flatMap shape) :
    split "/" path = (segments parts).map fun segment => String.ofList (segment.flatMap shape) := by
  have mark : "/".toList = ['/'] := rfl
  rw [split, mark, splitChars_singleton, shows, splitOn_flatMap bar whole, List.map_map]
  rfl

theorem split_text (parts : List TemplatePart) :
    split "/" (text parts) = (segments parts).map fun segment => String.ofList (segment.flatMap chars) := by
  refine split_of_toList (chars_character '/') (fun part other => ?_) (toList_text parts)
  match part with
  | character c => simpa [chars_character, slash, eq_comm] using other
  | language false | language true | place false | place true => simp [chars, shown]

theorem split_filled (name : LocaleName locale) {path : String} (shows : path.toList = parts.flatMap (filled locale)) :
    split "/" path = (segments parts).map fun segment => String.ofList (segment.flatMap (filled locale)) := by
  refine split_of_toList rfl (fun part other => ?_) shows
  match part with
  | character c => simpa [filled, slash, eq_comm] using other
  | language short => exact name.whole
  | place short => exact List.not_mem_nil

end Segments

section Shelter

def Named (segment : List TemplatePart) : Prop := ∃ part ∈ segment, part.isName = true

theorem Named.cons {segment : List TemplatePart} (named : Named segment) (part : TemplatePart) :
    Named (part :: segment) := by
  obtain ⟨other, member, isName⟩ := named
  exact ⟨other, List.mem_cons_of_mem _ member, isName⟩

theorem mem_tail_segments {segment : List TemplatePart} (member : segment ∈ (segments rest).tail)
    (part : TemplatePart) : segment ∈ (segments (part :: rest)).tail := by
  by_cases same : part = slash
  · rw [same, segments_slash]
    exact List.mem_of_mem_tail member
  · obtain ⟨first, others, known⟩ := exists_segments rest
    rw [segments_cons same, known]
    rw [known] at member
    exact member

/-- Every segment of what stays has a name or was a segment before, but for the first one where a name stands before
it. -/
theorem segments_remaining (behind : sheltered named parts = true) :
    (∀ segment ∈ (segments (remaining parts)).tail, Named segment ∨ segment ∈ (segments parts).tail) ∧
      (named = true ∨ (∃ first ∈ (segments (remaining parts)).head?, Named first) ∨
        (segments (remaining parts)).head? = (segments parts).head?) := by
  induction parts generalizing named with
  | nil => exact ⟨fun _ member => absurd member List.not_mem_nil, Or.inr (Or.inr rfl)⟩
  | cons part rest ih =>
    rw [sheltered] at behind
    rw [remaining]
    split at behind
    next left =>
      -- what stands behind joins the segment before, and that one has a name
      rw [Bool.and_eq_true] at behind
      rw [if_pos left]
      refine ⟨fun segment member => ?_, Or.inl behind.1⟩
      exact ((ih behind.2).1 segment member).imp_right fun old => mem_tail_segments old part
    next kept =>
      obtain ⟨others, first⟩ := ih behind
      obtain ⟨one, more, known⟩ := exists_segments (remaining rest)
      obtain ⟨old, olds, knownOld⟩ := exists_segments rest
      rw [known, knownOld] at others first
      simp only [List.head?_cons, Option.mem_some_iff, exists_eq_left', Option.some.injEq] at first
      rw [if_neg kept]
      by_cases same : part = slash
      · subst same
        rw [segments_slash, segments_slash, known, knownOld]
        refine ⟨List.forall_mem_cons.mpr ⟨?_, fun segment member => ?_⟩, Or.inr (Or.inr rfl)⟩
        · exact (first.resolve_left (by simp)).imp_right fun (equal : one = old) => equal ▸ List.mem_cons_self
        · exact (others segment member).imp_right (List.mem_cons_of_mem old)
      · rw [segments_cons same, segments_cons same, known, knownOld]
        refine ⟨others, ?_⟩
        simp only [List.modifyHead_cons, List.head?_cons, Option.mem_some_iff, exists_eq_left', Option.some.injEq]
        rcases first with before | here | equal
        · rw [Bool.and_eq_true, Bool.or_eq_true] at before
          exact before.2.imp_right fun isName => Or.inl ⟨part, List.mem_cons_self, isName⟩
        · exact Or.inr (Or.inl (here.cons part))
        · exact Or.inr (Or.inr (equal ▸ rfl))

/-- A template stays as it is unless a name stands before what is left out. -/
theorem remaining_cases (behind : sheltered named parts = true) :
    named = true ∨ Named (remaining parts) ∨ remaining parts = parts := by
  induction parts generalizing named with
  | nil => exact Or.inr (Or.inr rfl)
  | cons part rest ih =>
    rw [sheltered] at behind
    rw [remaining]
    split at behind
    next => exact Or.inl (Bool.and_eq_true _ _ ▸ behind).1
    next kept =>
      rw [if_neg kept]
      rcases ih behind with before | here | same
      · rw [Bool.and_eq_true, Bool.or_eq_true] at before
        exact before.2.imp_right fun isName => Or.inl ⟨part, List.mem_cons_self, isName⟩
      · exact Or.inr (Or.inl (here.cons part))
      · exact Or.inr (Or.inr (congrArg _ same))

theorem mem_segments_remaining (behind : sheltered false parts = true) {segment : List TemplatePart}
    (member : segment ∈ segments (remaining parts)) : Named segment ∨ segment ∈ segments parts := by
  obtain ⟨others, first⟩ := segments_remaining behind
  obtain ⟨one, more, known⟩ := exists_segments (remaining parts)
  obtain ⟨old, olds, knownOld⟩ := exists_segments parts
  rw [known] at others first member
  rw [knownOld] at others first ⊢
  simp only [List.head?_cons, Option.mem_some_iff, exists_eq_left', Option.some.injEq] at first
  rcases List.mem_cons.mp member with rfl | later
  · exact (first.resolve_left Bool.false_ne_true).imp_right fun (equal : segment = old) => equal ▸ List.mem_cons_self
  · exact (others segment later).imp_right (List.mem_cons_of_mem old)

theorem mem_of_mem_segments {segment : List TemplatePart} (inside : segment ∈ segments parts)
    (member : part ∈ segment) : part ∈ parts := by
  induction parts generalizing segment with
  | nil =>
    obtain rfl := List.mem_singleton.mp inside
    exact member
  | cons first rest ih =>
    obtain ⟨one, more, known⟩ := exists_segments rest
    rw [known] at ih
    by_cases same : first = slash
    · rw [same, segments_slash, known, List.mem_cons] at inside
      rcases inside with rfl | later
      · exact absurd member List.not_mem_nil
      · exact List.mem_cons_of_mem _ (ih later member)
    · rw [segments_cons same, known, List.modifyHead_cons, List.mem_cons] at inside
      rcases inside with rfl | later
      · exact (List.mem_cons.mp member).elim (fun own => own ▸ List.mem_cons_self)
          fun behind => List.mem_cons_of_mem _ (ih List.mem_cons_self behind)
      · exact List.mem_cons_of_mem _ (ih (List.mem_cons_of_mem _ later) member)

theorem exists_named_segment (named : Named parts) : ∃ segment ∈ segments parts, Named segment := by
  induction parts with
  | nil => exact absurd named (by simp [Named])
  | cons part rest ih =>
    obtain ⟨one, more, known⟩ := exists_segments rest
    rw [known] at ih
    obtain ⟨first, member, isName⟩ := named
    by_cases same : part = slash
    · rw [same, segments_slash, known]
      rcases List.mem_cons.mp member with rfl | later
      · rw [same] at isName
        cases isName
      · obtain ⟨segment, inside, here⟩ := ih ⟨first, later, isName⟩
        exact ⟨segment, List.mem_cons_of_mem _ inside, here⟩
    · rw [segments_cons same, known, List.modifyHead_cons]
      rcases List.mem_cons.mp member with rfl | later
      · exact ⟨_, List.mem_cons_self, first, List.mem_cons_self, isName⟩
      · obtain ⟨segment, inside, here⟩ := ih ⟨first, later, isName⟩
        rcases List.mem_cons.mp inside with rfl | behind
        · exact ⟨_, List.mem_cons_self, here.cons part⟩
        · exact ⟨segment, List.mem_cons_of_mem _ behind, here⟩

end Shelter

section Paths

variable {segment : List TemplatePart} {path : String}

theorem exists_of_named (name : LocaleName locale) (here : Named segment) :
    ∃ c ∈ segment.flatMap (filled locale), c ≠ '.' := by
  obtain ⟨part, member, isName⟩ := here
  match part with
  | character c =>
    have other : c ≠ '/' ∧ c ≠ '.' := by simpa [TemplatePart.isName] using isName
    exact ⟨c, List.mem_flatMap.mpr ⟨_, member, List.mem_singleton_self c⟩, other.2⟩
  | language short =>
    obtain ⟨c, inside, other⟩ := name.named
    exact ⟨c, List.mem_flatMap.mpr ⟨_, member, inside⟩, other⟩

/-- A segment without a name has the same characters in the template and in every path. -/
theorem flatMap_filled_of_nameless (nameless : ¬ Named segment) (placeless : ∀ short, place short ∉ segment) :
    segment.flatMap (filled locale) = segment.flatMap chars := by
  refine List.flatMap_congr fun part member => ?_
  match part with
  | character c => exact (chars_character c).symm
  | language short => exact absurd ⟨_, member, rfl⟩ nameless
  | place short => exact absurd member (placeless short)

theorem placeless_of_mem (inside : segment ∈ segments (remaining parts)) (short : Bool) : place short ∉ segment :=
  fun member => notMem_remaining short (mem_of_mem_segments inside member)

theorem placeOf_of_straight (straight : ".." ∉ split "/" path) :
    placeOf path = (split "/" path).filter fun name => !stays name := by
  rw [placeOf, foldl_enter_straight straight, List.nil_append]

theorem eq_point_of_stays {chars : List Char} (seen : stays (String.ofList chars) = true) : ∀ c ∈ chars, c = '.' := by
  rw [stays, Bool.or_eq_true, decide_eq_true_eq, decide_eq_true_eq] at seen
  rcases seen with empty | point
  · obtain rfl : chars = [] := by simpa using congrArg String.toList empty
    exact fun c member => absurd member List.not_mem_nil
  · obtain rfl : chars = ['.'] := by simpa using congrArg String.toList point
    exact fun c member => List.mem_singleton.mp member

variable (template : ShelteredTemplate parts) (name : LocaleName locale)
  (shows : path.toList = (remaining parts).flatMap (filled locale))
include template name shows

theorem isRooted_of_sheltered : isRooted path = false := by
  have relative := template.relative
  have behind := template.sheltered
  rw [Bool.eq_false_iff, ne_eq, isRooted_iff] at relative ⊢
  rw [toList_text] at relative
  rw [shows]
  match parts with
  | [] => simp [remaining]
  | part :: rest =>
    have kept : ¬ part.isLeftOut rest = true := by
      intro left
      rw [sheltered, if_pos left] at behind
      cases behind
    rw [remaining, if_neg kept, List.flatMap_cons]
    match part with
    | character c =>
      rw [List.flatMap_cons, chars_character] at relative
      exact relative
    | language short =>
      obtain ⟨first, more, letters⟩ := List.exists_cons_of_ne_nil (List.ne_nil_of_mem name.named.choose_spec.1)
      have other : first ≠ '/' := fun same => name.whole (letters ▸ same ▸ List.mem_cons_self)
      simpa [filled, letters] using other
    | place short => exact absurd (isLeftOut_place short rest) kept

theorem straight_of_sheltered : ".." ∉ split "/" path := by
  intro member
  rw [split_filled name shows] at member
  obtain ⟨segment, inside, points⟩ := List.mem_map.mp member
  have letters : segment.flatMap (filled locale) = ['.', '.'] := by simpa using congrArg String.toList points
  have nameless : ¬ Named segment := by
    intro named
    obtain ⟨c, here, other⟩ := exists_of_named name named
    rw [letters] at here
    exact other (by simpa using here)
  have old := (mem_segments_remaining template.sheltered inside).resolve_left nameless
  refine template.straight ?_
  rw [split_text]
  refine List.mem_map.mpr ⟨segment, old, ?_⟩
  rw [← flatMap_filled_of_nameless nameless (placeless_of_mem inside), points]

theorem leads_of_sheltered : placeOf path ≠ [] := by
  intro nowhere
  have straight := straight_of_sheltered template name shows
  have inPath := split_filled name shows
  have nameless (segment : List TemplatePart) (inside : segment ∈ segments (remaining parts)) : ¬ Named segment := by
    intro named
    obtain ⟨c, here, other⟩ := exists_of_named name named
    rw [placeOf_of_straight straight, List.filter_eq_nil_iff] at nowhere
    have stays := nowhere _ (inPath ▸ List.mem_map_of_mem inside)
    exact other (eq_point_of_stays (by simpa using stays) c here)
  have same : remaining parts = parts := by
    refine ((remaining_cases template.sheltered).resolve_left Bool.false_ne_true).resolve_left fun named => ?_
    obtain ⟨segment, inside, here⟩ := exists_named_segment named
    exact nameless segment inside here
  -- nothing was left out and nothing filled in, so the path is the template
  have whole : split "/" path = split "/" (text parts) := by
    rw [inPath, split_text, same]
    refine List.map_congr_left fun segment inside => congrArg _ ?_
    rw [← same] at inside
    exact flatMap_filled_of_nameless (nameless segment inside) (placeless_of_mem inside)
  exact template.leads (by rw [placeOf, ← whole]; exact nowhere)

end Paths

theorem toList_pathOf {update : Update} (output : update.settings.extraction.output = .template (text parts))
    (template : ShelteredTemplate parts) (name : LocaleName locale) :
    (pathOf update locale none).toList = (remaining parts).flatMap (filled locale) := by
  have unbraced : character '\x7b' ∉ remaining parts := fun member => template.unbraced (mem_of_mem_remaining member)
  have left : String.ofList (withoutNamespacePlaces 0 (text parts).toList) = text (remaining parts) := by
    rw [toList_text, withoutNamespacePlaces_chars template.unbraced, text]
  have path : pathOf update locale none = fillPath locale "" (text (remaining parts)) := by
    rw [pathOf, output, OutputPath.find, left]
  rw [path, toList_fillPath name unbraced notMem_remaining]

theorem path_of_sharedChange {update : Update} {files : Files} {journal : Journal} {change : CatalogChange}
    (made : ((update.sharedChange files locale).run.run journal).1 = .ok change) :
    change.path = normalized (pathOf update locale none) := by
  rw [gives_sharedChange update files locale journal, sharedOutcome] at made
  cases reading : readAt update files locale none with
  | error failure =>
    rw [reading] at made
    cases made
  | ok read =>
    rw [reading] at made
    obtain rfl := Except.ok.inj made
    rfl

/-- The catalog of a locale for all namespaces is read in the directory of every project just where its path begins
without a slash, leads back no further than to where it began, and does not end there. Where a name stands before every
place for a namespace, it is read there, and what becomes of it is written there. -/
theorem shared_catalog_stays_below (update : Update) (locale : String) :
    let path := pathOf update locale none
    ((∀ directory, Below directory (joined directory path)) ↔
      isRooted path = false ∧ ".." ∉ placeOf path ∧ placeOf path ≠ []) ∧
    ∀ parts, update.settings.extraction.output = .template (text parts) → ShelteredTemplate parts → LocaleName locale →
      ∀ directory, Below directory (joined directory path) ∧
        ∀ files journal change, ((update.sharedChange files locale).run.run journal).1 = .ok change →
          Below directory (joined directory change.path) := by
  intro path
  refine ⟨below_joined_iff, fun parts output template name directory => ?_⟩
  have shows : path.toList = (remaining parts).flatMap (filled locale) := toList_pathOf output template name
  have relative : isRooted path = false := isRooted_of_sheltered template name shows
  have leads : placeOf path ≠ [] := leads_of_sheltered template name shows
  have straight : ".." ∉ placeOf path := by
    rw [placeOf_of_straight (straight_of_sheltered template name shows)]
    exact fun member => straight_of_sheltered template name shows (List.mem_of_mem_filter member)
  refine ⟨below_joined_iff.mpr ⟨relative, straight, leads⟩ directory, fun files journal change made => ?_⟩
  rw [path_of_sharedChange made]
  have arrives := placeOf_normalized straight
  exact below_joined_iff.mpr ⟨isRooted_normalized straight leads, arrives ▸ straight, arrives ▸ leads⟩ directory

/-- A template for catalogs that has a place for the namespace in its name. -/
def namesBehindLocale : List TemplatePart :=
  "./locales/".toList.map character ++ [language true, slash, place true] ++ "-texts".toList.map character ++
    [slash, place false] ++ ".json".toList.map character

def updateWith (parts : List TemplatePart) : Update :=
  { settings := { locales := ["en", "pt-BR"], extraction := { output := .template (text parts) } }, sync := {}, groups := [] }

theorem sheltered_namesBehindLocale : ShelteredTemplate namesBehindLocale := by
  constructor <;> decide +kernel

theorem portuguese_catalog_stays_below :
    pathOf (updateWith namesBehindLocale) "pt-BR" none = "./locales/pt-BR-texts.json" ∧
      ∀ directory, Below directory (joined directory "./locales/pt-BR-texts.json") := by
  have path : pathOf (updateWith namesBehindLocale) "pt-BR" none = "./locales/pt-BR-texts.json" := by decide +kernel
  have name : LocaleName "pt-BR" := ⟨by decide +kernel, by decide +kernel, 'p', by decide +kernel, by decide⟩
  have stays := (shared_catalog_stays_below (updateWith namesBehindLocale) "pt-BR").2 namesBehindLocale rfl
    sheltered_namesBehindLocale name
  exact ⟨path, fun directory => path ▸ (stays directory).1⟩

/-- A place for the namespace at the beginning of a template leaves the slash behind it. -/
theorem leading_place_leaves_slash :
    let parts := [place false, slash, language false] ++ ".json".toList.map character
    isRooted (text parts) = false ∧ ".." ∉ split "/" (text parts) ∧
      pathOf (updateWith parts) "en" none = "/en.json" ∧
      ¬ Below "/home/app" (joined "/home/app" (pathOf (updateWith parts) "en" none)) := by
  intro parts
  have path : pathOf (updateWith parts) "en" none = "/en.json" := by decide +kernel
  refine ⟨by decide +kernel, by decide +kernel, path, ?_⟩
  rintro ⟨names, _, _, leads⟩
  have place : (spotOf (joined "/home/app" (pathOf (updateWith parts) "en" none))).place = ["en.json"] := by
    decide +kernel
  have app : (spotOf "/home/app").place = ["home", "app"] := by decide +kernel
  rw [leads, app] at place
  simp at place

end Proofs.OutputTemplates

end Phrasebook
