/-! Tables in order of first entry: a name that is entered again keeps its place and takes the new value. -/

namespace Phrasebook.Table

variable {κ ν : Type} [DecidableEq κ]

def find? (name : κ) : List (κ × ν) → Option ν
  | [] => none
  | (other, value) :: rest => if other = name then some value else find? name rest

def has (name : κ) (table : List (κ × ν)) : Bool := (find? name table).isSome

def put (name : κ) (value : ν) : List (κ × ν) → List (κ × ν)
  | [] => [(name, value)]
  | (other, old) :: rest => if other = name then (name, value) :: rest else (other, old) :: put name value rest

def erase (name : κ) : List (κ × ν) → List (κ × ν)
  | [] => []
  | (other, value) :: rest => if other = name then rest else (other, value) :: erase name rest

def names (table : List (κ × ν)) : List κ := table.map Prod.fst

/-- A table of given entries, later ones replacing earlier ones of the same name. -/
def ofList (entries : List (κ × ν)) : List (κ × ν) :=
  entries.foldl (fun table (name, value) => put name value table) []

omit [DecidableEq κ] in
@[simp] theorem names_nil : names ([] : List (κ × ν)) = [] := rfl

omit [DecidableEq κ] in
@[simp] theorem names_cons (entry : κ × ν) (rest : List (κ × ν)) :
    names (entry :: rest) = entry.1 :: names rest := rfl

omit [DecidableEq κ] in
@[simp] theorem names_append (first second : List (κ × ν)) :
    names (first ++ second) = names first ++ names second := List.map_append

@[simp] theorem find?_put_self (name : κ) (value : ν) (table : List (κ × ν)) :
    find? name (put name value table) = some value := by
  induction table with
  | nil => simp [put, find?]
  | cons entry rest ih =>
    obtain ⟨other, old⟩ := entry
    by_cases same : other = name <;> simp [put, find?, same, ih]

theorem find?_put_other {name other : κ} (different : other ≠ name) (value : ν) (table : List (κ × ν)) :
    find? other (put name value table) = find? other table := by
  induction table with
  | nil => simp [put, find?, Ne.symm different]
  | cons entry rest ih =>
    obtain ⟨third, old⟩ := entry
    by_cases same : third = name
    · subst same; simp [put, find?, Ne.symm different]
    · by_cases hit : third = other
      · subst hit; simp [put, find?, same]
      · simp [put, find?, same, hit, ih]

theorem find?_map {μ : Type} (convert : ν → μ) (name : κ) (table : List (κ × ν)) :
    find? name (table.map fun entry => (entry.1, convert entry.2)) = (find? name table).map convert := by
  induction table with
  | nil => rfl
  | cons entry rest ih =>
    obtain ⟨other, value⟩ := entry
    by_cases same : other = name <;> simp [find?, same, ih]

theorem find?_map_named {μ : Type} (convert : κ → ν → μ) (name : κ) (table : List (κ × ν)) :
    find? name (table.map fun entry => (entry.1, convert entry.1 entry.2)) =
      (find? name table).map (convert name) := by
  induction table with
  | nil => rfl
  | cons entry rest ih =>
    obtain ⟨other, value⟩ := entry
    by_cases same : other = name
    · subst same
      simp [find?]
    · simp [find?, same, ih]

theorem mem_of_find? {name : κ} {value : ν} {table : List (κ × ν)} (found : find? name table = some value) :
    (name, value) ∈ table := by
  induction table with
  | nil => cases found
  | cons entry rest ih =>
    obtain ⟨other, old⟩ := entry
    by_cases same : other = name
    · simp only [find?, same, ite_true, Option.some.injEq] at found
      simp [same, found]
    · simp only [find?, same, ite_false] at found
      exact List.mem_cons_of_mem _ (ih found)

theorem find?_eq_none_iff {name : κ} {table : List (κ × ν)} : find? name table = none ↔ name ∉ names table := by
  induction table with
  | nil => simp [find?]
  | cons entry rest ih =>
    obtain ⟨other, old⟩ := entry
    by_cases same : other = name
    · simp [find?, same]
    · simp [find?, same, ih, Ne.symm same]

theorem has_iff {name : κ} {table : List (κ × ν)} : has name table = true ↔ name ∈ names table := by
  rw [has, Option.isSome_iff_ne_none, ne_eq, find?_eq_none_iff, Classical.not_not]

/-- In a table that names nothing twice, the entries are what looking up finds. -/
theorem find?_eq_some_iff {name : κ} {value : ν} {table : List (κ × ν)} (distinct : (names table).Nodup) :
    find? name table = some value ↔ (name, value) ∈ table := by
  refine ⟨mem_of_find?, fun member => ?_⟩
  induction table with
  | nil => cases member
  | cons entry rest ih =>
    obtain ⟨other, old⟩ := entry
    rw [names_cons, List.nodup_cons] at distinct
    rcases List.mem_cons.mp member with first | later
    · simp_all [find?]
    · have named : name ∈ names rest := List.mem_map_of_mem later
      have different : other ≠ name := fun same => distinct.1 (same ▸ named)
      simpa [find?, different] using ih distinct.2 later

/-- Where a table names nothing twice, what is kept of an entry is found under its name. -/
theorem find?_filterMap {μ : Type} (keep : κ → ν → Option μ) {table : List (κ × ν)} (distinct : (names table).Nodup)
    (name : κ) :
    find? name (table.filterMap fun entry => (keep entry.1 entry.2).map fun kept => (entry.1, kept)) =
      (find? name table).bind (keep name) := by
  induction table with
  | nil => rfl
  | cons entry rest ih =>
    obtain ⟨other, value⟩ := entry
    rw [names_cons, List.nodup_cons] at distinct
    have later := ih distinct.2
    by_cases same : other = name
    · subst same
      rw [find?_eq_none_iff.mpr distinct.1] at later
      cases kept : keep other value <;> simp [find?, kept, later]
    · cases kept : keep other value <;> simp [find?, kept, same, later]

/-- Looking up finds an entry that is the only one of its name. -/
theorem find?_eq_of_only {name : κ} {value : ν} {table : List (κ × ν)} (member : (name, value) ∈ table)
    (only : ∀ other, (name, other) ∈ table → other = value) : find? name table = some value := by
  cases found : find? name table with
  | none => exact absurd (List.mem_map_of_mem member) (find?_eq_none_iff.mp found)
  | some other => exact congrArg some (only other (mem_of_find? found))

theorem find?_append_of_find? {name : κ} {value : ν} {first : List (κ × ν)} (found : find? name first = some value)
    (second : List (κ × ν)) : find? name (first ++ second) = some value := by
  induction first with
  | nil => cases found
  | cons entry rest ih =>
    obtain ⟨other, old⟩ := entry
    by_cases same : other = name
    · simpa [find?, same] using found
    · simp only [find?, same, ite_false] at found
      rw [List.cons_append, find?, if_neg same, ih found]

theorem find?_append_of_none {first : List (κ × ν)} {name : κ} (lacks : find? name first = none)
    (second : List (κ × ν)) : find? name (first ++ second) = find? name second := by
  induction first with
  | nil => rfl
  | cons entry rest ih =>
    obtain ⟨other, value⟩ := entry
    by_cases same : other = name
    · simp [find?, same] at lacks
    · simp only [find?, same, ite_false] at lacks
      rw [List.cons_append, find?, if_neg same, ih lacks]

theorem mem_put {name : κ} {value : ν} {entry : κ × ν} {table : List (κ × ν)}
    (member : entry ∈ put name value table) : entry = (name, value) ∨ entry ∈ table := by
  induction table with
  | nil => exact Or.inl (List.mem_singleton.mp member)
  | cons first rest ih =>
    by_cases same : first.1 = name
    · simp only [put, same, ite_true] at member
      exact (List.mem_cons.mp member).imp_right (List.mem_cons_of_mem _)
    · simp only [put, same, ite_false] at member
      rcases List.mem_cons.mp member with here | later
      · exact Or.inr (here ▸ List.mem_cons_self)
      · exact (ih later).imp_right (List.mem_cons_of_mem _)

theorem mem_of_mem_erase {name : κ} {entry : κ × ν} {table : List (κ × ν)} (member : entry ∈ erase name table) :
    entry ∈ table := by
  induction table with
  | nil => cases member
  | cons first rest ih =>
    rw [erase] at member
    split at member
    · exact List.mem_cons_of_mem _ member
    · rcases List.mem_cons.mp member with here | later
      · exact here ▸ List.mem_cons_self
      · exact List.mem_cons_of_mem _ (ih later)

theorem put_ne_nil (name : κ) (value : ν) (table : List (κ × ν)) : put name value table ≠ [] := by
  cases table with
  | nil => exact List.cons_ne_nil _ _
  | cons entry rest =>
    rw [put]
    split <;> exact List.cons_ne_nil _ _

theorem names_put (name : κ) (value : ν) (table : List (κ × ν)) :
    names (put name value table) = if name ∈ names table then names table else names table ++ [name] := by
  induction table with
  | nil => simp [put]
  | cons entry rest ih =>
    obtain ⟨other, old⟩ := entry
    by_cases same : other = name
    · simp [put, same]
    · by_cases member : name ∈ names rest <;> simp [put, same, ih, member, Ne.symm same]

theorem nodup_names_put {table : List (κ × ν)} (distinct : (names table).Nodup) (name : κ) (value : ν) :
    (names (put name value table)).Nodup := by
  rw [names_put]
  split
  · exact distinct
  next absent =>
    refine List.nodup_append.mpr ⟨distinct, by simp, ?_⟩
    intro other member _ added same
    exact absent (List.mem_singleton.mp added ▸ same ▸ member)

theorem put_eq_self {name : κ} {value : ν} {table : List (κ × ν)} (found : find? name table = some value) :
    put name value table = table := by
  induction table with
  | nil => cases found
  | cons entry rest ih =>
    obtain ⟨other, old⟩ := entry
    by_cases same : other = name
    · simp_all [put, find?]
    · simp only [find?, same, ite_false] at found
      rw [put, if_neg same, ih found]

/-- What is entered under a name leaves the entries of others as they are. -/
theorem filter_put {keeps : κ → Bool} {name : κ} (left : keeps name = false) (value : ν) (table : List (κ × ν)) :
    (put name value table).filter (fun entry => keeps entry.1) = table.filter fun entry => keeps entry.1 := by
  induction table with
  | nil => simp [put, left]
  | cons entry rest ih =>
    obtain ⟨other, old⟩ := entry
    by_cases same : other = name
    · simp [put, same, left]
    · simp [put, same, List.filter_cons, ih]

theorem filter_erase {keeps : κ → Bool} {name : κ} (left : keeps name = false) (table : List (κ × ν)) :
    (erase name table).filter (fun entry => keeps entry.1) = table.filter fun entry => keeps entry.1 := by
  induction table with
  | nil => rfl
  | cons entry rest ih =>
    obtain ⟨other, old⟩ := entry
    by_cases same : other = name
    · simp [erase, same, left]
    · simp [erase, same, List.filter_cons, ih]

theorem put_of_notMem {name : κ} {table : List (κ × ν)} (absent : name ∉ names table) (value : ν) :
    put name value table = table ++ [(name, value)] := by
  induction table with
  | nil => rfl
  | cons entry rest ih =>
    obtain ⟨other, old⟩ := entry
    rw [names_cons, List.mem_cons, not_or] at absent
    rw [put, if_neg (Ne.symm absent.1), ih absent.2, List.cons_append]

/-- Entries that name nothing twice are a table as they are. -/
theorem ofList_eq_self {entries : List (κ × ν)} (distinct : (names entries).Nodup) : ofList entries = entries := by
  suffices later : ∀ table : List (κ × ν), (names (table ++ entries)).Nodup →
      entries.foldl (fun table (name, value) => put name value table) table = table ++ entries from
    later [] distinct
  clear distinct
  induction entries with
  | nil => simp
  | cons entry rest ih =>
    intro table distinct
    obtain ⟨name, value⟩ := entry
    have absent : name ∉ names table := by
      intro member
      rw [names_append, List.nodup_append] at distinct
      exact distinct.2.2 _ member _ List.mem_cons_self rfl
    have added := put_of_notMem absent value
    rw [List.foldl_cons]
    dsimp only
    rw [added, ih _ (by simpa using distinct), List.append_assoc, List.singleton_append]

theorem nodup_names_ofList (entries : List (κ × ν)) : (names (ofList entries)).Nodup := by
  unfold ofList
  refine List.foldlRecOn (motive := fun table => (names table).Nodup) _ _ List.nodup_nil ?_
  exact fun table distinct entry _ => nodup_names_put distinct entry.1 entry.2

theorem mem_of_mem_ofList {entry : κ × ν} {entries : List (κ × ν)} (member : entry ∈ ofList entries) :
    entry ∈ entries := by
  suffices known : ∀ entry ∈ ofList entries, entry ∈ entries from known entry member
  unfold ofList
  refine List.foldlRecOn (motive := fun table => ∀ entry ∈ table, entry ∈ entries) _ _ (by simp) ?_
  intro table known added inside entry member
  rcases mem_put member with rfl | old
  · exact inside
  · exact known entry old

end Phrasebook.Table
