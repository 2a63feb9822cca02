/-!
# Bindings

Names with what they are bound to, in the order in which they were first bound.

* `Bindings.get?` is the view: what a name is bound to.
* `Bindings.insert` binds a name, and the lemmas beside it say what it does to the view.
-/

namespace LoxLang

/-- Names with what they are bound to. -/
structure Bindings (α : Type) where
  entries : List (String × α)
  deriving Inhabited

namespace Bindings

variable {α : Type}

def empty : Bindings α := ⟨[]⟩

/-- The first entry for a name. -/
def lookup (name : String) : List (String × α) → Option α
  | [] => none
  | (key, a) :: rest => if key = name then some a else lookup name rest

/-- Replaces the first entry for a name, or adds one at the end. -/
def update (name : String) (a : α) : List (String × α) → List (String × α)
  | [] => [(name, a)]
  | (key, b) :: rest => if key = name then (key, a) :: rest else (key, b) :: update name a rest

def get? (b : Bindings α) (name : String) : Option α := lookup name b.entries

def contains (b : Bindings α) (name : String) : Bool := (b.get? name).isSome

/-- Binds a name, in place of what it was bound to before. -/
def insert (b : Bindings α) (name : String) (a : α) : Bindings α := ⟨update name a b.entries⟩

def names (b : Bindings α) : List String := b.entries.map (·.1)

/-- Binds every name of a list to the same thing. -/
def ofNames (names : List String) (a : α) : Bindings α :=
  names.foldl (fun b name => b.insert name a) empty

/-! ## The view after each operation -/

@[simp] theorem get?_empty (name : String) : (empty : Bindings α).get? name = none := rfl

/-- Entering a name changes what is found under that name, and under no other. -/
theorem lookup_update (name other : String) (a : α) (entries : List (String × α)) :
    lookup other (update name a entries) =
      if name = other then some a else lookup other entries := by
  induction entries with
  | nil => simp [update, lookup]
  | cons entry rest ih =>
    obtain ⟨key, b⟩ := entry
    by_cases hname : key = name
    · subst hname
      by_cases hother : key = other <;> simp [update, lookup, hother]
    · by_cases hother : key = other
      · subst hother
        simp [update, lookup, hname, Ne.symm hname]
      · simp [update, lookup, hname, hother, ih]

/-- The law of the table: a name that is bound anew shadows what it was bound to, and nothing
else. -/
theorem get?_insert (b : Bindings α) (name other : String) (a : α) :
    (b.insert name a).get? other = if name = other then some a else b.get? other :=
  lookup_update name other a b.entries

@[simp] theorem get?_insert_self (b : Bindings α) (name : String) (a : α) :
    (b.insert name a).get? name = some a := by
  simp [get?_insert]

theorem get?_insert_of_ne (b : Bindings α) {name other : String} (a : α) (h : name ≠ other) :
    (b.insert name a).get? other = b.get? other := by
  simp [get?_insert, h]

/-- Bound one after the other, names are bound to the last thing that was given for each. -/
theorem get?_foldl_insert {β : Type} (key : β → String) (value : β → α) (xs : List β)
    (b : Bindings α) (name : String) :
    (xs.foldl (fun b x => b.insert (key x) (value x)) b).get? name =
      ((xs.reverse.find? fun x => key x == name).map value).or (b.get? name) := by
  induction xs generalizing b with
  | nil => simp
  | cons x xs ih =>
    rw [List.foldl_cons, ih, get?_insert, List.reverse_cons, List.find?_append]
    cases hfind : xs.reverse.find? fun x => key x == name with
    | some found => simp
    | none => by_cases hname : key x = name <;> simp [hname]

/-- All the given names are bound to the same thing, and no others are bound. -/
theorem get?_ofNames (names : List String) (a : α) (name : String) :
    (ofNames names a).get? name = if name ∈ names then some a else none := by
  have hfold := get?_foldl_insert id (fun _ => a) names empty name
  unfold ofNames
  refine hfold.trans ?_
  cases hfind : names.reverse.find? fun x => id x == name with
  | none =>
    have habsent : name ∉ names := by
      intro hmem
      simpa using List.find?_eq_none.1 hfind name (List.mem_reverse.2 hmem)
    simp [habsent]
  | some found =>
    have hname : found = name := by simpa using List.find?_some hfind
    have hmem : found ∈ names := List.mem_reverse.1 (List.mem_of_find?_eq_some hfind)
    simp [← hname, hmem]

/-- Of two entries for one name only the last one counts, and it stands where the first one
stood. -/
theorem update_update (name : String) (a b : α) (entries : List (String × α)) :
    update name b (update name a entries) = update name b entries := by
  induction entries with
  | nil => simp [update]
  | cons entry rest ih =>
    by_cases h : entry.1 = name
    · simp [update, h]
    · simp [update, h, ih]

/-- Binding a name twice is binding it to the second thing. -/
theorem insert_insert (b : Bindings α) (name : String) (a a' : α) :
    (b.insert name a).insert name a' = b.insert name a' :=
  congrArg Bindings.mk (update_update name a a' b.entries)

/-- The names that are bound are those that are listed. -/
theorem contains_iff_mem_names (b : Bindings α) (name : String) :
    b.contains name = true ↔ name ∈ b.names := by
  have hlookup : ∀ entries : List (String × α),
      (lookup name entries).isSome = true ↔ name ∈ entries.map (·.1) := by
    intro entries
    induction entries with
    | nil => simp [lookup]
    | cons entry rest ih =>
      by_cases h : entry.1 = name
      · simp [lookup, h]
      · simp only [lookup, if_neg h, List.map_cons, List.mem_cons, Ne.symm h, false_or, ih]
  exact hlookup b.entries

theorem contains_insert (b : Bindings α) (name other : String) (a : α) :
    (b.insert name a).contains other = (decide (name = other) || b.contains other) := by
  by_cases h : name = other <;> simp [contains, get?_insert, h]

end Bindings

end LoxLang
