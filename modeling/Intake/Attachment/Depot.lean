import Intake.Attachment

/-!
# Shared shelves

An uploader that keeps attachments in memory may be handed on: a copy of it
uses the same shelf, so what is stored through one is found through the other.
A `Depot` holds the shelves and, for each handle, which shelf it stands for.
Handles are numbered in the order in which they were made.
-/

namespace Intake

/-- Shelves, and the shelf of each handle. -/
structure Depot where
  shelves : List Shelf
  handles : List Nat

namespace Depot

variable {α : Type}

/-- One handle, to an empty shelf. -/
def start : Depot := ⟨[Dict.empty], [0]⟩

/-- A further handle, to an empty shelf of its own. -/
def addShelf (d : Depot) : Depot :=
  ⟨d.shelves ++ [Dict.empty], d.handles ++ [d.shelves.length]⟩

/-- A further handle, to the shelf of the handle `h`. -/
def share (d : Depot) (h : Nat) : Depot := { d with handles := d.handles ++ d.handles[h]?.toList }

def shelf? (d : Depot) (h : Nat) : Option Shelf := d.handles[h]?.bind fun i => d.shelves[i]?

def view (d : Depot) : List Shelf := d.handles.filterMap fun i => d.shelves[i]?

/-- The attachment under a reference, through a handle. -/
def get? (d : Depot) (h : Nat) (reference : String) : Option Json :=
  (d.shelf? h).bind fun shelf => shelf.get? reference

/-- Does something with the shelf of a handle. -/
def onShelf (d : Depot) (h : Nat) (action : StateM Shelf α) : Option (α × Depot) :=
  match d.handles[h]? with
  | none => none
  | some i =>
    d.shelves[i]?.map fun shelf =>
      ((action.run shelf).1, { d with shelves := d.shelves.set i (action.run shelf).2 })

end Depot

end Intake
