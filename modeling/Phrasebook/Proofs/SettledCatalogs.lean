import Phrasebook.Proofs.CatalogPairs
import Phrasebook.Proofs.WrittenFiles

/-! A catalog in the files after a run. Where its path leads to the file that was written, the content that was written
is read and stays as it is; where it does not, nothing is read, before the run and after it, and the same content is
made again. -/

namespace Phrasebook

/-- Lines are indented by spaces and tabs. -/
def Indentation.Blank : Indentation → Prop
  | .spaces _ => True
  | .text unit => ∀ c ∈ unit.toList, c = ' ' ∨ c = '\t'

end Phrasebook

namespace Phrasebook.Proofs.SettledCatalogs

open Catalog CatalogPairs Outcomes WrittenFiles

section Texts

theorem blank_unit {indentation : Indentation} (blank : indentation.Blank) :
    ∀ c ∈ indentation.unit.toList, c = ' ' ∨ c = '\t' := by
  cases indentation with
  | spaces count =>
    intro c member
    rw [Indentation.unit, String.toList_ofList] at member
    exact Or.inl (List.eq_of_mem_replicate member)
  | text unit => exact blank

variable {extraction : Extraction} (json : extraction.format = .json)
include json

theorem catalogText_eq (content : Entries) : catalogText extraction content =
    (Value.object content).render (.lines extraction.indentation.unit) ++ "\n" := by
  simp [catalogText, Format.write, Format.frame, json]

theorem catalogText_starts (content : Entries) :
    ∃ rest, (catalogText extraction content).toList = '\x7b' :: rest := by
  rw [catalogText_eq json, Value.render]
  cases content with
  | nil =>
    rw [Value.renderAt]
    exact ⟨_, rfl⟩
  | cons entry rest =>
    rw [Value.renderAt]
    simp only [String.toList_append]
    exact ⟨_, rfl⟩

theorem catalogText_ne_empty (content : Entries) : catalogText extraction content ≠ "" := by
  intro empty
  obtain ⟨rest, starts⟩ := catalogText_starts json content
  rw [empty] at starts
  cases starts

variable (blank : extraction.indentation.Blank)
include blank

theorem lines?_catalogText (content : Entries) :
    (Content.text (catalogText extraction content)).lines? = some (catalogText extraction content) := by
  have noReturn : '\r' ∉ extraction.indentation.unit.toList := by
    intro member
    rcases blank_unit blank _ member with same | same <;> exact absurd same (by decide)
  refine WrittenLines.lines?_text ?_
  rw [catalogText_eq json, String.toList_append, List.mem_append, not_or]
  exact ⟨WrittenLines.notMem_renderAt noReturn _ 0, by decide⟩

/-- The text of a catalog that can be written is read as its content. -/
theorem read_catalogText {content : Entries} (storable : (Value.object content).Storable) (path : String) :
    extraction.format.read path (catalogText extraction content) = .ok (.object content) := by
  have spaces : ∀ c ∈ extraction.indentation.unit.toList, JsonText.isSpace c = true := by
    intro c member
    rcases blank_unit blank _ member with rfl | rfl <;> rfl
  have noBlank : Text.isBlankText (catalogText extraction content) = false := by
    obtain ⟨rest, starts⟩ := catalogText_starts json content
    rw [Text.isBlankText, starts]
    rfl
  rw [Format.read, noBlank, json, catalogText_eq json]
  exact CatalogText.read_render spaces storable

end Texts

variable {update : Update} (json : update.settings.extraction.format = .json)

def rawPath (update : Update) (pair : Pair) : String := pathOf update pair.1 pair.2

theorem readCatalog_eq_ok_some_iff {format : Format} {files : Files} {path : String} {entries : Entries}
    {message : Option Message} : readCatalog format files path = .ok (some entries, message) ↔
      message = none ∧ ∃ text, files.read path = .text text ∧ format.read path text = .ok (.object entries) := by
  constructor
  · intro reading
    unfold readCatalog at reading
    split at reading
    · cases reading
    · cases reading
    next text found =>
      split at reading
      next inside =>
        obtain ⟨same, rfl⟩ := Prod.mk.inj (Except.ok.inj reading)
        exact ⟨rfl, text, found, Option.some.inj same ▸ inside⟩
      all_goals cases reading
  · rintro ⟨rfl, text, found, inside⟩
    simp only [readCatalog, found, inside]

theorem readAt_of_not_leads {files : Files} {pair : Pair} (astray : ¬ Leads files (rawPath update pair)) :
    ∃ message, readAt update files pair.1 pair.2 = .ok (none, message) := by
  rw [rawPath] at astray
  rw [readAt, readCatalog]
  rcases read_of_not_leads astray with nothing | nothing
  · exact ⟨_, by rw [nothing]⟩
  · exact ⟨_, by rw [nothing]⟩

theorem text_of_existing? {files : Files} {pair : Pair} {entries : Entries}
    (found : existing? update files pair = some entries) : ∃ text, files.read (rawPath update pair) = .text text ∧
      update.settings.extraction.format.read (rawPath update pair) text = .ok (.object entries) := by
  unfold existing? at found
  split at found
  next given => exact (readCatalog_eq_ok_some_iff.mp (found ▸ given)).2
  next => cases found

include json in
theorem storable_existing? {files : Files} {pair : Pair} {entries : Entries}
    (found : existing? update files pair = some entries) : (Value.object entries).Storable := by
  obtain ⟨text, _, reading⟩ := text_of_existing? found
  rw [Format.read, json] at reading
  simp only [decide_true, Bool.true_or, ite_true] at reading
  split at reading
  · exact Except.ok.inj reading ▸ .object List.nodup_nil (by simp)
  · exact StorableValues.storable_of_read reading

/-- What a catalog becomes has a property that what is read of it has, if the values that are made up have it. -/
theorem holds_change {holds : Value → Prop} (hereditary : Value.Hereditary holds)
    (plain : ∀ request, holds (update.settings.extraction.defaultSource.value request))
    (distinct : (Table.names update.groups).Nodup) {files : Files} {pair : Pair}
    (read : ∀ entries, existing? update files pair = some entries → holds (.object entries)) :
    holds (.object (change update files pair).content) := by
  refine holds_become hereditary plain distinct pair ?_
  cases found : existing? update files pair with
  | none => exact hereditary.empty
  | some entries => exact read entries found

def changes (update : Update) (files : Files) (pair : Pair) : Bool :=
  (change update files pair).isUpdate update.settings.extraction

/-- What a run leaves of its files: no directory is taken away, each catalog that has changed is written and can be
written again, and the others are as they were. -/
structure Updated (update : Update) (before after : Files) : Prop where
  folders : ∀ place, before.isFolder place = true → after.isFolder place = true
  made : ∀ pair ∈ pairs update, changes update before pair = true →
    after.find? (Files.placeOf (rawPath update pair)) =
      some (.text (catalogText update.settings.extraction (change update before pair).content)) ∧
    after.canWrite (Files.normalized (rawPath update pair)) = true
  kept : ∀ pair ∈ pairs update, changes update before pair = false →
    after.find? (Files.placeOf (rawPath update pair)) = before.find? (Files.placeOf (rawPath update pair))

include json in
theorem changes_of_none {files : Files} {pair : Pair} (nothing : existing? update files pair = none) :
    changes update files pair = true := by
  simp only [changes, change, CatalogChange.isUpdate, nothing, bne_iff_ne]
  exact catalogText_ne_empty json _

theorem changes_of_some {files : Files} {pair : Pair} {entries : Entries}
    (found : existing? update files pair = some entries) : changes update files pair = true ↔
      catalogText update.settings.extraction (become update pair entries) ≠
        catalogText update.settings.extraction entries := by
  simp only [changes, change, CatalogChange.isUpdate, found, bne_iff_ne, Option.getD_some]

theorem existing?_of_not_leads {files : Files} {pair : Pair} (astray : ¬ Leads files (rawPath update pair)) :
    existing? update files pair = none := by
  obtain ⟨message, reading⟩ := readAt_of_not_leads astray
  exact existing?_of_readAt reading

/-- What a catalog becomes after a run: it is read again, it becomes the same, and it counts as changed only if its path
does not lead to it, in which case it has been written. -/
structure Settled (update : Update) (before after : Files) (pair : Pair) : Prop where
  readable : ∃ read, readAt update after pair.1 pair.2 = .ok read
  content : (change update after pair).content = (change update before pair).content
  changes_iff : changes update after pair = true ↔ ¬ Leads after (rawPath update pair)
  written : ¬ Leads after (rawPath update pair) → changes update before pair = true

/-- The text of a content, where the path of a catalog leads, is read as that content. -/
theorem readAt_of_text {files : Files} {pair : Pair} (json : update.settings.extraction.format = .json)
    (blank : update.settings.extraction.indentation.Blank) {content : Entries}
    (storable : (Value.object content).Storable) (leads : Leads files (rawPath update pair))
    (there : files.find? (Files.placeOf (rawPath update pair)) =
      some (.text (catalogText update.settings.extraction content))) :
    readAt update files pair.1 pair.2 = .ok (some content, none) := by
  have lines := lines?_catalogText json blank content
  have reading := read_eq_text_iff.mpr ⟨leads, by rw [there]; exact lines⟩
  exact readCatalog_eq_ok_some_iff.mpr ⟨rfl, _, reading, read_catalogText json blank storable _⟩

section Cases

variable {before after : Files} {pair : Pair} (json : update.settings.extraction.format = .json)
include json

/-- A catalog to which its path does not lead is not read, before the run and after it. -/
theorem settled_of_not_leads (folders : ∀ place, before.isFolder place = true → after.isFolder place = true)
    (astray : ¬ Leads after (rawPath update pair)) : Settled update before after pair := by
  have astrayBefore : ¬ Leads before (rawPath update pair) := fun leads => astray (leads.mono folders)
  have nothing := existing?_of_not_leads astray
  have nothingBefore := existing?_of_not_leads astrayBefore
  obtain ⟨message, reading⟩ := readAt_of_not_leads astray
  exact {
    readable := ⟨_, reading⟩
    content := by simp only [change, nothing, nothingBefore]
    changes_iff := iff_of_true (changes_of_none json nothing) astray
    written := fun _ => changes_of_none json nothingBefore }

theorem settled_of_kept (folders : ∀ place, before.isFolder place = true → after.isFolder place = true)
    (readable : ∃ read, readAt update before pair.1 pair.2 = .ok read)
    (same : changes update before pair = false)
    (kept : after.find? (Files.placeOf (rawPath update pair)) = before.find? (Files.placeOf (rawPath update pair))) :
    Settled update before after pair := by
  cases found : existing? update before pair with
  | none => exact absurd (changes_of_none json found) (by simp [same])
  | some entries =>
    obtain ⟨text, reading, _⟩ := text_of_existing? found
    obtain ⟨leads, there⟩ := read_eq_text_iff.mp reading
    have leadsAfter := leads.mono folders
    have readingAfter : after.read (rawPath update pair) = .text text :=
      read_eq_text_iff.mpr ⟨leadsAfter, kept ▸ there⟩
    have readAfter : readAt update after pair.1 pair.2 = readAt update before pair.1 pair.2 := by
      rw [readAt, readAt, readCatalog, readCatalog, ← rawPath, reading, readingAfter]
    have changeAfter : change update after pair = change update before pair := by
      simp only [change, existing?, readAfter]
    have unchanged : changes update after pair = false := by
      rw [changes, changeAfter]
      exact same
    exact {
      readable := readAfter ▸ readable
      content := congrArg _ changeAfter
      changes_iff := by simp [unchanged, leadsAfter]
      written := fun astray => absurd leadsAfter astray }

variable (plain : ∀ request, (update.settings.extraction.defaultSource.value request).Storable)
  (distinct : (Table.names update.groups).Nodup)
include plain distinct

theorem storable_change (files : Files) (pair : Pair) : (Value.object (change update files pair).content).Storable :=
  holds_change Value.hereditary_storable plain distinct fun _ found => storable_existing? json found

variable (blank : update.settings.extraction.indentation.Blank)
include blank

theorem settled_of_made (made : after.find? (Files.placeOf (rawPath update pair)) =
      some (.text (catalogText update.settings.extraction (change update before pair).content)))
    (leads : Leads after (rawPath update pair)) : Settled update before after pair := by
  have readAfter : readAt update after pair.1 pair.2 = .ok (some (change update before pair).content, none) :=
    readAt_of_text json blank (storable_change json plain distinct before pair) leads made
  have found : existing? update after pair = some (change update before pair).content := existing?_of_readAt readAfter
  have again : become update pair (change update before pair).content = (change update before pair).content :=
    become_become distinct pair _
  have unchanged : changes update after pair ≠ true := by
    rw [ne_eq, changes_of_some found, again]
    simp
  exact {
    readable := ⟨_, readAfter⟩
    content := by
      show become update pair ((existing? update after pair).getD []) = _
      rw [found, Option.getD_some, again]
    changes_iff := by simp [unchanged, leads]
    written := fun astray => absurd leads astray }

/-- After a run every catalog is settled. -/
theorem settled_of_updated (readable : Readable update before) (updated : Updated update before after)
    {pair : Pair} (member : pair ∈ pairs update) : Settled update before after pair := by
  by_cases leads : Leads after (rawPath update pair)
  · cases same : changes update before pair with
    | true => exact settled_of_made json plain distinct blank (updated.made pair member same).1 leads
    | false => exact settled_of_kept json updated.folders (readable pair member) same (updated.kept pair member same)
  · exact settled_of_not_leads json updated.folders leads

end Cases

end Phrasebook.Proofs.SettledCatalogs
