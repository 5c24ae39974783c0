import Phrasebook.Proofs.NumberText
import Phrasebook.Search.Element

/-! The tags in the text of an element's content. Texts and kept elements stand in it as they are, and every other element
is a pair of tags with its place among its neighbours, around what is in it. So pairs of numbered tags nest, and what
they tell of the elements can be read back. -/

namespace Phrasebook

namespace Piece

mutual

/-- Whether the texts in a piece, the names offered for its places and the names of its elements are of given kinds. -/
def throughout (ofText ofPlace ofName : String → Bool) : Piece → Bool
  | .text value => ofText value
  | .place names => names.all ofPlace
  | .element name _ _ content => name.all ofName && allThroughout ofText ofPlace ofName content

def allThroughout (ofText ofPlace ofName : String → Bool) : List Piece → Bool
  | [] => true
  | piece :: rest => throughout ofText ofPlace ofName piece && allThroughout ofText ofPlace ofName rest

end

/-- An element that keeps its tags: one with a kept name and without attributes, and with nothing but a text in it. -/
structure KeepsTags (kept : List String) (name : Option String) (attributes : Nat) (isComponent : Bool)
    (content : List Piece) : Prop where
  bare : isComponent = false ∧ attributes = 0
  known : ∃ tag ∈ name, tag ∈ kept
  content : content = [] ∨ ∃ value, content = [.text value]

end Piece

namespace Proofs.NumberedTags

open Catalog Decimal JsonText NumberText

/-- A part of a text with tags: text, a kept element without content, one around a text, or a pair of numbered tags around
other parts. -/
inductive Span where
  | text (value : String)
  | alone (name : String)
  | around (name value : String)
  | pair (number : Nat) (inside : List Span)

/-- Numbered elements, each with those in it. -/
inductive Numbered where
  | element (number : Nat) (inside : List Numbered)

namespace Span

mutual

def print : Span → String
  | text value => value
  | alone name => "<" ++ name ++ "/>"
  | around name value => Piece.tagged name value
  | pair number inside => Piece.tagged (toString number) (printAll inside)

def printAll : List Span → String
  | [] => ""
  | span :: rest => span.print ++ printAll rest

end

mutual

/-- Whether a part that so many others stand before has their count if it is a pair, and so on inside. -/
def Counted (index : Nat) : Span → Prop
  | text _ | alone _ | around _ _ => True
  | pair number inside => number = index ∧ AllCounted 0 inside

def AllCounted (index : Nat) : List Span → Prop
  | [] => True
  | span :: rest => span.Counted index ∧ AllCounted (index + 1) rest

end

mutual

/-- What stands between the signs of each tag. -/
def tags : Span → List (List Char)
  | text _ => []
  | alone name => [name.toList ++ ['/']]
  | around name _ => [name.toList, '/' :: name.toList]
  | pair number inside => digitsOf number :: (allTags inside ++ ['/' :: digitsOf number])

def allTags : List Span → List (List Char)
  | [] => []
  | span :: rest => span.tags ++ allTags rest

end

mutual

def numbered : Span → List Numbered
  | text _ | alone _ | around _ _ => []
  | pair number inside => [.element number (allNumbered inside)]

def allNumbered : List Span → List Numbered
  | [] => []
  | span :: rest => span.numbered ++ allNumbered rest

end

mutual

def throughout (ofText ofName : String → Bool) : Span → Bool
  | text value => ofText value
  | alone name => ofName name
  | around name value => ofName name && ofText value
  | pair _ inside => allThroughout ofText ofName inside

def allThroughout (ofText ofName : String → Bool) : List Span → Bool
  | [] => true
  | span :: rest => span.throughout ofText ofName && allThroughout ofText ofName rest

end

end Span

mutual

/-- Which part of a text shows a piece. -/
inductive Shows (kept : List String) : Piece → Span → Prop where
  | text (value : String) : Shows kept (.text value) (.text value)
  | place (names : List String) : Shows kept (.place names) (.text (Piece.placeText names))
  | alone {name : String} (known : name ∈ kept) : Shows kept (.element (some name) 0 false []) (.alone name)
  | around {name value : String} (known : name ∈ kept) :
      Shows kept (.element (some name) 0 false [.text value]) (.around name value)
  | pair {name : Option String} {attributes : Nat} {isComponent : Bool} {content : List Piece} {inside : List Span}
      (number : Nat) (other : ¬ Piece.KeepsTags kept name attributes isComponent content)
      (shown : AllShow kept content inside) :
      Shows kept (.element name attributes isComponent content) (.pair number inside)

/-- Pieces are shown one by one. -/
inductive AllShow (kept : List String) : List Piece → List Span → Prop where
  | nil : AllShow kept [] []
  | cons {piece : Piece} {rest : List Piece} {span : Span} {others : List Span} (first : Shows kept piece span)
      (behind : AllShow kept rest others) : AllShow kept (piece :: rest) (span :: others)

end

section Showing

variable {kept : List String}

theorem render_of_not_keepsTags {name : Option String} {attributes : Nat} {isComponent : Bool} {content : List Piece}
    (other : ¬ Piece.KeepsTags kept name attributes isComponent content) (index : Nat) :
    Piece.render kept index (.element name attributes isComponent content) =
      Piece.tagged (toString index) (Piece.renderAll kept 0 content) := by
  have keeps {tag : String} (named : (if isComponent || decide (0 < attributes) then none
      else name.filter kept.contains) = some tag) (inside : content = [] ∨ ∃ value, content = [.text value]) : False := by
    split at named
    · cases named
    next bare =>
      have known := Option.filter_eq_some_iff.mp named
      refine other ⟨by simpa using bare, ⟨tag, known.1, by simpa using known.2⟩, inside⟩
  refine Piece.render.eq_5 kept index name attributes isComponent content ?_ ?_
  · exact fun tag named inside => keeps named (Or.inl inside)
  · exact fun tag value named inside => keeps named (Or.inr ⟨value, inside⟩)

mutual

/-- Each piece is shown by a part with its number. -/
theorem exists_shows (index : Nat) (piece : Piece) :
    ∃ span, Shows kept piece span ∧ span.Counted index ∧ Piece.render kept index piece = span.print := by
  match piece with
  | .text value => exact ⟨_, .text value, trivial, rfl⟩
  | .place names => exact ⟨_, .place names, trivial, rfl⟩
  | .element name attributes isComponent content =>
    by_cases keeps : Piece.KeepsTags kept name attributes isComponent content
    · obtain ⟨⟨rfl, rfl⟩, ⟨tag, rfl, known⟩, rfl | ⟨value, rfl⟩⟩ := keeps
      · refine ⟨_, .alone known, trivial, ?_⟩
        exact Piece.render.eq_3 kept index (some tag) 0 false tag (by simpa [Option.filter] using known)
      · refine ⟨_, .around known, trivial, ?_⟩
        exact Piece.render.eq_4 kept index (some tag) 0 false tag value (by simpa [Option.filter] using known)
    · obtain ⟨inside, shown, counted, printed⟩ := exists_allShow 0 content
      refine ⟨_, .pair index keeps shown, ⟨rfl, counted⟩, ?_⟩
      rw [render_of_not_keepsTags keeps, printed, Span.print]
termination_by structural piece

theorem exists_allShow (index : Nat) (pieces : List Piece) :
    ∃ spans, AllShow kept pieces spans ∧ Span.AllCounted index spans ∧
      Piece.renderAll kept index pieces = Span.printAll spans := by
  match pieces with
  | [] => exact ⟨[], .nil, trivial, rfl⟩
  | piece :: rest =>
    obtain ⟨span, first, counted, printed⟩ := exists_shows index piece
    obtain ⟨others, behind, countedBehind, printedBehind⟩ := exists_allShow (index + 1) rest
    exact ⟨span :: others, .cons first behind, ⟨counted, countedBehind⟩, by
      rw [Piece.renderAll, printed, printedBehind, Span.printAll]⟩
termination_by structural pieces

end

/-- What the kinds of texts and names in pieces say of the kinds of those that are shown. -/
structure Conveys (kept : List String) (ofText ofPlace ofName inText inName : String → Bool) : Prop where
  text : ∀ value, ofText value = true → inText value = true
  place : ∀ names : List String, names.all ofPlace = true → inText (Piece.placeText names) = true
  name : ∀ name ∈ kept, ofName name = true → inName name = true

section Kinds

variable {ofText ofPlace ofName inText inName : String → Bool}

mutual

theorem throughout_of_shows (conveys : Conveys kept ofText ofPlace ofName inText inName) {piece : Piece} {span : Span}
    (shown : Shows kept piece span) (all : piece.throughout ofText ofPlace ofName = true) :
    span.throughout inText inName = true := by
  match shown with
  | .text value => exact conveys.text value all
  | .place offered => exact conveys.place offered all
  | .alone known => exact conveys.name _ known (Bool.and_eq_true _ _ ▸ all).1
  | .around known =>
    simp only [Piece.throughout, Piece.allThroughout, Option.all_some, Bool.and_true, Bool.and_eq_true] at all
    rw [Span.throughout, Bool.and_eq_true]
    exact ⟨conveys.name _ known all.1, conveys.text _ all.2⟩
  | .pair number other inside => exact allThroughout_of_allShow conveys inside (Bool.and_eq_true _ _ ▸ all).2
termination_by structural shown

theorem allThroughout_of_allShow (conveys : Conveys kept ofText ofPlace ofName inText inName) {pieces : List Piece}
    {spans : List Span} (shown : AllShow kept pieces spans)
    (all : Piece.allThroughout ofText ofPlace ofName pieces = true) :
    Span.allThroughout inText inName spans = true := by
  match shown with
  | .nil => rfl
  | .cons first behind =>
    rw [Piece.allThroughout, Bool.and_eq_true] at all
    rw [Span.allThroughout, Bool.and_eq_true]
    exact ⟨throughout_of_shows conveys first all.1, allThroughout_of_allShow conveys behind all.2⟩
termination_by structural shown

end

end Kinds

end Showing

section Tags

/-- Whether a text has no sign of a tag in it. -/
def isUnmarked (text : String) : Bool := text.toList.all fun c => c != '<' && c != '>'

/-- What stands between the signs of each tag in a text, behind what was seen of a tag. -/
def tagsFrom : Option (List Char) → List Char → List (List Char)
  | _, [] => []
  | none, c :: rest => if c = '<' then tagsFrom (some []) rest else tagsFrom none rest
  | some seen, c :: rest => if c = '>' then seen :: tagsFrom none rest else tagsFrom (some (seen ++ [c])) rest

def tagsIn (text : String) : List (List Char) := tagsFrom none text.toList

theorem isUnmarked_iff {text : String} : isUnmarked text = true ↔ '<' ∉ text.toList ∧ '>' ∉ text.toList := by
  simp only [isUnmarked, List.all_eq_true, Bool.and_eq_true, bne_iff_ne, ne_eq]
  constructor
  · exact fun all => ⟨fun member => (all _ member).1 rfl, fun member => (all _ member).2 rfl⟩
  · rintro ⟨opening, closing⟩ c member
    exact ⟨fun same => opening (same ▸ member), fun same => closing (same ▸ member)⟩

theorem unmarked_placeText {names : List String} (unmarked : names.all isUnmarked = true) :
    isUnmarked (Piece.placeText names) = true := by
  unfold Piece.placeText
  split
  next name only =>
    have member : name ∈ names := List.mem_of_mem_filter (only ▸ List.mem_singleton_self name)
    have clean := isUnmarked_iff.mp (List.all_eq_true.mp unmarked name member)
    rw [isUnmarked_iff]
    dsimp only
    split <;> simp [clean]
  next => rfl

theorem tagsFrom_text {text : List Char} (unmarked : '<' ∉ text) (rest : List Char) :
    tagsFrom none (text ++ rest) = tagsFrom none rest := by
  induction text with
  | nil => rfl
  | cons c text ih =>
    rw [List.mem_cons, not_or] at unmarked
    rw [List.cons_append, tagsFrom, if_neg (Ne.symm unmarked.1), ih unmarked.2]

theorem tagsFrom_body {body : List Char} (unmarked : '>' ∉ body) (seen rest : List Char) :
    tagsFrom (some seen) (body ++ '>' :: rest) = (seen ++ body) :: tagsFrom none rest := by
  induction body generalizing seen with
  | nil => rw [List.nil_append, tagsFrom, if_pos rfl, List.append_nil]
  | cons c body ih =>
    rw [List.mem_cons, not_or] at unmarked
    rw [List.cons_append, tagsFrom, if_neg (Ne.symm unmarked.1), ih unmarked.2, List.append_assoc, List.singleton_append]

theorem tagsFrom_tag {body : List Char} (unmarked : '>' ∉ body) (rest : List Char) :
    tagsFrom none ('<' :: (body ++ '>' :: rest)) = body :: tagsFrom none rest := by
  rw [tagsFrom, if_pos rfl, tagsFrom_body unmarked, List.nil_append]

theorem toList_tagged (name content : String) : (Piece.tagged name content).toList =
    '<' :: (name.toList ++ '>' :: (content.toList ++ '<' :: (('/' :: name.toList) ++ ['>']))) := by
  simp [Piece.tagged]

/-- A pair of tags, with the tags between them. -/
theorem tagsFrom_tagged {name content : String} {inside : List (List Char)} (unmarked : '>' ∉ name.toList)
    (known : ∀ rest, tagsFrom none (content.toList ++ rest) = inside ++ tagsFrom none rest) (rest : List Char) :
    tagsFrom none ((Piece.tagged name content).toList ++ rest) =
      name.toList :: (inside ++ ['/' :: name.toList]) ++ tagsFrom none rest := by
  have closing : '>' ∉ '/' :: name.toList := by simpa using unmarked
  have shape : (Piece.tagged name content).toList ++ rest =
      '<' :: (name.toList ++ '>' :: (content.toList ++ '<' :: (('/' :: name.toList) ++ '>' :: rest))) := by
    simp [toList_tagged]
  rw [shape, tagsFrom_tag unmarked, known, tagsFrom_tag closing]
  simp

theorem toList_number (number : ℕ) : (toString number).toList = digitsOf number := Nat.toList_repr

mutual

/-- The tags in the text of a part are its tags, if no sign of a tag stands in its texts and names. -/
theorem tagsFrom_print (span : Span) (unmarked : span.throughout isUnmarked isUnmarked = true) (rest : List Char) :
    tagsFrom none (span.print.toList ++ rest) = span.tags ++ tagsFrom none rest := by
  match span with
  | .text value => exact tagsFrom_text (isUnmarked_iff.mp unmarked).1 rest
  | .alone name =>
    have whole : '>' ∉ name.toList ++ ['/'] := by simpa using (isUnmarked_iff.mp unmarked).2
    have shape : (Span.alone name).print.toList ++ rest = '<' :: ((name.toList ++ ['/']) ++ '>' :: rest) := by
      simp [Span.print]
    rw [shape, tagsFrom_tag whole, Span.tags, List.singleton_append]
  | .around name value =>
    rw [Span.throughout, Bool.and_eq_true] at unmarked
    have known (rest : List Char) : tagsFrom none (value.toList ++ rest) = [] ++ tagsFrom none rest :=
      tagsFrom_text (isUnmarked_iff.mp unmarked.2).1 rest
    exact tagsFrom_tagged (isUnmarked_iff.mp unmarked.1).2 known rest
  | .pair number inside =>
    have whole : '>' ∉ (toString number).toList := toList_number number ▸ notMem_digitsOf (by decide) number
    have paired := tagsFrom_tagged whole (tagsFrom_printAll inside unmarked) rest
    rwa [toList_number] at paired
termination_by structural span

theorem tagsFrom_printAll (spans : List Span) (unmarked : Span.allThroughout isUnmarked isUnmarked spans = true)
    (rest : List Char) :
    tagsFrom none ((Span.printAll spans).toList ++ rest) = Span.allTags spans ++ tagsFrom none rest := by
  match spans with
  | [] => rfl
  | span :: others =>
    rw [Span.allThroughout, Bool.and_eq_true] at unmarked
    rw [Span.printAll, String.toList_append, List.append_assoc, tagsFrom_print span unmarked.1,
      tagsFrom_printAll others unmarked.2, Span.allTags, List.append_assoc]
termination_by structural spans

end

end Tags

section Reading

/-- What a numbered tag does to the element with its number. -/
inductive TagMark where
  | opens (number : Nat)
  | closes (number : Nat)

def number? (digits : List Char) : Option Nat :=
  if !digits.isEmpty && digits.all Char.isDigit then some (digitsValue digits) else none

/-- What a tag does if a number stands between its signs. -/
def mark? : List Char → Option TagMark
  | '/' :: digits => (number? digits).map .closes
  | digits => (number? digits).map .opens

/-- Whether tags with this name are no numbered ones. -/
def isUnnumbered (name : String) : Bool := (mark? name.toList).isNone

/-- Whether an element with this name is not taken for a numbered one: it does not keep its name, or the name is none of a
numbered tag. -/
def isDistinct (kept : List String) (name : String) : Bool := !kept.contains name || isUnnumbered name

/-- The elements that numbered tags make, behind those that are done and in those that have been opened. -/
def rebuild : (done : List Numbered) → (around : List (Nat × List Numbered)) → List TagMark → Option (List Numbered)
  | done, [], [] => some done
  | _, _ :: _, [] => none
  | done, around, .opens number :: rest => rebuild [] ((number, done) :: around) rest
  | done, (number, before) :: around, .closes other :: rest =>
    if other = number then rebuild (before ++ [.element number done]) around rest else none
  | _, [], .closes _ :: _ => none

/-- The numbered elements that the tags in a text tell of, if they nest. -/
def numberedIn? (text : String) : Option (List Numbered) := rebuild [] [] ((tagsIn text).filterMap mark?)

theorem number?_digitsOf (number : ℕ) : number? (digitsOf number) = some number := by
  have some : digitsOf number ≠ [] := (whole_digitsOf number).ne_nil
  have digits : (digitsOf number).all Char.isDigit = true :=
    List.all_eq_true.mpr fun c member => isDigit_of_mem_digitsOf member
  rw [number?, digits, digitsValue_digitsOf, if_pos (by simpa using some)]

theorem number?_of_mem {digits : List Char} {c : Char} (member : c ∈ digits) (other : c.isDigit = false) :
    number? digits = none := by
  have stops : digits.all Char.isDigit = false := List.all_eq_false.mpr ⟨c, member, by simp [other]⟩
  rw [number?, stops, Bool.and_false, if_neg Bool.false_ne_true]

theorem mark?_of_other {digits : List Char} (other : '/' ∉ digits.head?) :
    mark? digits = (number? digits).map .opens := by
  match digits with
  | [] => rfl
  | c :: rest =>
    rw [mark?]
    intro more same
    exact other ((List.cons.inj same).1 ▸ rfl)

theorem mark?_digitsOf (number : ℕ) : mark? (digitsOf number) = some (.opens number) := by
  have other : '/' ∉ (digitsOf number).head? := fun first =>
    notMem_digitsOf (by decide) number (List.mem_of_mem_head? first)
  rw [mark?_of_other other, number?_digitsOf, Option.map_some]

theorem mark?_closing (number : ℕ) : mark? ('/' :: digitsOf number) = some (.closes number) := by
  rw [mark?, number?_digitsOf, Option.map_some]

theorem isUnnumbered_of_kept {kept : List String} {name : String} (known : name ∈ kept)
    (distinct : isDistinct kept name = true) : isUnnumbered name = true := by
  simpa [isDistinct, known] using distinct

/-- The tag of a kept element without content opens and closes nothing. -/
theorem mark?_alone (name : List Char) : mark? (name ++ ['/']) = none := by
  cases name with
  | nil => rfl
  | cons c rest =>
    have last : '/' ∈ rest ++ ['/'] := List.mem_append_right _ (List.mem_singleton_self _)
    by_cases first : c = '/'
    · subst first
      rw [List.cons_append, mark?, number?_of_mem last (by decide), Option.map_none]
    · have other : '/' ∉ (c :: (rest ++ ['/'])).head? := by simpa using first
      rw [List.cons_append, mark?_of_other other, number?_of_mem (List.mem_cons_of_mem c last) (by decide), Option.map_none]

/-- Where the first of two tags opens nothing, the second closes nothing. -/
theorem mark?_closing_of_unnumbered {name : String} (unnumbered : isUnnumbered name = true) :
    mark? ('/' :: name.toList) = none := by
  rw [isUnnumbered, Option.isNone_iff_eq_none] at unnumbered
  by_cases first : '/' ∈ name.toList.head?
  · rw [mark?, number?_of_mem (List.mem_of_mem_head? first) (by decide), Option.map_none]
  · rw [mark?_of_other first, Option.map_eq_none_iff] at unnumbered
    rw [mark?, unnumbered, Option.map_none]

mutual

/-- The tags of a part make the elements in it, whatever has been opened before. -/
theorem rebuild_span (span : Span) (unnumbered : span.throughout (fun _ => true) isUnnumbered = true)
    (done : List Numbered) (around : List (Nat × List Numbered)) (rest : List TagMark) :
    rebuild done around (span.tags.filterMap mark? ++ rest) = rebuild (done ++ span.numbered) around rest := by
  match span with
  | .text value => rw [Span.tags, Span.numbered, List.filterMap_nil, List.nil_append, List.append_nil]
  | .alone name =>
    rw [Span.tags, Span.numbered, List.filterMap_cons_none (mark?_alone _), List.filterMap_nil, List.nil_append,
      List.append_nil]
  | .around name value =>
    have opening : isUnnumbered name = true := (Bool.and_eq_true _ _ ▸ unnumbered).1
    rw [Span.tags, Span.numbered, List.filterMap_cons_none (Option.isNone_iff_eq_none.mp opening),
      List.filterMap_cons_none (mark?_closing_of_unnumbered opening), List.filterMap_nil, List.nil_append,
      List.append_nil]
  | .pair number inside =>
    -- the tags inside leave the element on top that the closing tag is for
    have within := rebuild_all inside unnumbered [] ((number, done) :: around) (.closes number :: rest)
    rw [Span.tags, List.filterMap_cons_some (mark?_digitsOf number), List.filterMap_append,
      List.filterMap_cons_some (mark?_closing number), List.filterMap_nil, List.cons_append, List.append_assoc,
      List.singleton_append, rebuild, within, rebuild, if_pos rfl, List.nil_append, Span.numbered]
termination_by structural span

theorem rebuild_all (spans : List Span) (unnumbered : Span.allThroughout (fun _ => true) isUnnumbered spans = true)
    (done : List Numbered) (around : List (Nat × List Numbered)) (rest : List TagMark) :
    rebuild done around ((Span.allTags spans).filterMap mark? ++ rest) =
      rebuild (done ++ Span.allNumbered spans) around rest := by
  match spans with
  | [] => rw [Span.allTags, Span.allNumbered, List.filterMap_nil, List.nil_append, List.append_nil]
  | span :: others =>
    rw [Span.allThroughout, Bool.and_eq_true] at unnumbered
    rw [Span.allTags, List.filterMap_append, List.append_assoc, rebuild_span span unnumbered.1,
      rebuild_all others unnumbered.2, Span.allNumbered, List.append_assoc]
termination_by structural spans

end

end Reading

/-- A greeting with kept elements, a place for which nothing is shown, and an element in another one. -/
def greeting : List Piece :=
  [.text "Hello ", .place ["name", "title"], .element (some "strong") 0 false [.text "World"],
    .element (some "br") 0 false [],
    .element (some "Link") 1 true [.text "see ", .element (some "b") 0 false [.place ["count", "format"]], .text "!"]]

end Proofs.NumberedTags

end Phrasebook
