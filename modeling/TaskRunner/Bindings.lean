/-!
# Bindings

Names bound to values, kept in ascending order of name. The order is that of code points, which is
also the order of the UTF-8 bytes. `insert` replaces an earlier binding of the same name.
-/
namespace TaskRunner

structure Bindings (α : Type) where
  entries : List (String × α)
deriving DecidableEq, Repr, Inhabited

namespace Bindings

variable {α : Type}

def empty : Bindings α := ⟨[]⟩

/-- One pass over the entries: stops at the name itself or at the first greater one. -/
def insertEntry (name : String) (value : α) : List (String × α) → List (String × α)
  | [] => [(name, value)]
  | (n, v) :: rest =>
    if name = n then (name, value) :: rest
    else if name < n then (name, value) :: (n, v) :: rest
    else (n, v) :: insertEntry name value rest

def insert (b : Bindings α) (name : String) (value : α) : Bindings α :=
  ⟨insertEntry name value b.entries⟩

def lookup (name : String) : List (String × α) → Option α
  | [] => none
  | (n, v) :: rest => if name = n then some v else lookup name rest

def get? (b : Bindings α) (name : String) : Option α := lookup name b.entries

def ofList (entries : List (String × α)) : Bindings α :=
  entries.foldl (fun b e => b.insert e.1 e.2) empty

def map {β : Type} (f : α → β) (b : Bindings α) : Bindings β :=
  ⟨b.entries.map fun e => (e.1, f e.2)⟩

/-! ## Lookup after insertion -/

theorem lookup_insertEntry (name : String) (value : α) (m : String) (es : List (String × α)) :
    lookup m (insertEntry name value es) = if m = name then some value else lookup m es := by
  induction es with
  | nil => simp [insertEntry, lookup]
  | cons e es ih =>
    obtain ⟨n, v⟩ := e
    simp only [insertEntry]
    split
    · subst name; simp only [lookup]; split <;> rfl
    · split
      · simp [lookup]
      · simp only [lookup, ih]
        split <;> split <;> simp_all

@[simp] theorem get?_insert (b : Bindings α) (name : String) (value : α) (m : String) :
    (b.insert name value).get? m = if m = name then some value else b.get? m :=
  lookup_insertEntry name value m b.entries

@[simp] theorem get?_empty (m : String) : (empty : Bindings α).get? m = none := rfl

end Bindings

end TaskRunner
