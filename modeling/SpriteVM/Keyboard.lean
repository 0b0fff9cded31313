import SpriteVM.Message

/-!
# Keyboard

The sixteen keys `0x0` to `0xF`, each up or down. What happens to a keyboard is an `Edit`. An edit
of a key that does not exist changes nothing and is worth a warning; overwriting all keys at once
needs exactly sixteen states and is refused otherwise.
-/

namespace SpriteVM

/-- The state of the keys. -/
structure Keyboard where
  /-- which keys are down -/
  keys : Vector Bool 16
  deriving DecidableEq, Repr

namespace Keyboard

/-- The number of keys. -/
def size : Nat := 16

/-- The keyboard with every key up. -/
def released : Keyboard :=
  ⟨Vector.replicate 16 false⟩

/-- Whether a key is down; there is no way to hold a key that does not exist. -/
def isDown (k : Keyboard) (key : Nat) : Bool :=
  k.keys[key]?.getD false

/-- The lowest key that is down. -/
def lowest? (k : Keyboard) : Option Nat :=
  (List.range size).find? k.isDown

/-- The states of all keys, key 0 first. -/
def states (k : Keyboard) : List Bool :=
  k.keys.toList

/-- A change to the keyboard. -/
inductive Edit where
  /-- put a key down -/
  | press (key : Nat)
  /-- let a key up -/
  | release (key : Nat)
  /-- change a key to its other state -/
  | toggle (key : Nat)
  /-- put a key down or let it up -/
  | set (key : Nat) (down : Bool)
  /-- overwrite the whole keyboard -/
  | setAll (states : List Bool)
  deriving DecidableEq, Repr

/-- Whether an edit can be carried out at all. -/
def Edit.accepted : Edit → Bool
  | .setAll states => states.length == size
  | _ => true

/-- The warning about a key that does not exist. -/
def Edit.warning? : Edit → Option Message
  | .press key | .release key | .set key _ =>
    if key < size then none else some (.noKeyToSet key)
  | .toggle key => if key < size then none else some (.noKeyToToggle key)
  | .setAll _ => none

/-- Puts a key down or lets it up. -/
def setKey (k : Keyboard) (key : Nat) (down : Bool) : Keyboard :=
  ⟨k.keys.setIfInBounds key down⟩

theorem isDown_setKey (k : Keyboard) (key : Nat) (down : Bool) (c : Nat) :
    (k.setKey key down).isDown c = if c = key ∧ c < size then down else k.isDown c := by
  simp only [isDown, setKey, size, Vector.getElem?_setIfInBounds]
  grind

theorem isDown_of_size_le {k : Keyboard} {c : Nat} (h : size ≤ c) : k.isDown c = false := by
  simp only [size] at h
  simp [isDown, h]

/-- The lowest key that is down is a key, it is down and those below it are not. -/
theorem lowest?_eq_some {k : Keyboard} {key : Nat} :
    k.lowest? = some key ↔ key < size ∧ k.isDown key ∧ ∀ c < key, k.isDown c = false := by
  rw [lowest?, List.find?_range_eq_some]
  simp only [List.mem_range, Bool.not_eq_eq_eq_not, Bool.not_true]
  exact and_left_comm

/-- There is no lowest key when none is down. -/
theorem lowest?_eq_none {k : Keyboard} : k.lowest? = none ↔ ∀ c, k.isDown c = false := by
  simp only [lowest?, List.find?_eq_none, List.mem_range, Bool.not_eq_true]
  constructor
  · intro h c
    rcases Nat.lt_or_ge c size with hc | hc
    · exact h c hc
    · exact isDown_of_size_le hc
  · intro h c _
    exact h c

/-- Carries out an edit. -/
def apply (k : Keyboard) : Edit → Keyboard
  | .press key => k.setKey key true
  | .release key => k.setKey key false
  | .toggle key => k.setKey key !(k.isDown key)
  | .set key down => k.setKey key down
  | .setAll states =>
    if h : states.length = 16 then ⟨⟨states.toArray, by simpa using h⟩⟩ else k

/-- Carries out edits from the first to the last. -/
def applyAll (k : Keyboard) (es : List Edit) : Keyboard :=
  es.foldl apply k

/-- The keyboard on which exactly the given keys are down. -/
def holding (keys : List Nat) : Keyboard :=
  released.applyAll (keys.map .press)

end Keyboard

end SpriteVM
