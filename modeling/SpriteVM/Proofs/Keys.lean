import SpriteVM.Machine.Action

/-!
# Keys

What a list of edits makes of a keyboard, seen from one key. An edit concerns the key that it names,
and one that overwrites the whole keyboard concerns every key if it has a state for each. Of an edit
that concerns a key `Edit.outcome` says what becomes of the state of this key; every other edit
leaves it (`isDown_apply`).

So a key ends up in the state that the edits which concern it lead to, in their order
(`isDown_applyAll`). Two lists of edits that agree for each key have the same effect
(`applyAll_congr`), and edits of different keys may change places.
-/

namespace SpriteVM

namespace Keyboard

/-! ## Edits seen from one key -/

/-- The key that an edit names. One that overwrites the whole keyboard names none. -/
def Edit.key? : Edit → Option Nat
  | .press key | .release key | .toggle key | .set key _ => some key
  | .setAll _ => none

/-- Whether an edit has something to say about a key. -/
def Edit.concerns (key : Nat) : Edit → Bool
  | .setAll states => states.length == size
  | e => e.key? == some key

/-- What an edit makes of the state of a key that it concerns. -/
def Edit.outcome (key : Nat) (down : Bool) : Edit → Bool
  | .press _ => true
  | .release _ => false
  | .toggle _ => !down
  | .set _ state => state
  | .setAll states => states.getD key down

variable {k l : Keyboard} {e f : Edit} {es fs : List Edit} {key : Nat}

/-- Whether a key is down is its entry in the keyboard. -/
theorem isDown_eq_getElem (h : key < 16) : k.isDown key = k.keys[key] := by
  rw [isDown, Vector.getElem?_eq_getElem h, Option.getD_some]

/-- A keyboard is known by its keys. -/
theorem eq_of_isDown (h : ∀ key < size, k.isDown key = l.isDown key) : k = l := by
  refine congrArg Keyboard.mk (Vector.ext fun key hkey => ?_)
  rw [← isDown_eq_getElem hkey, ← isDown_eq_getElem hkey, h key hkey]

theorem isDown_setAll {states : List Bool} (h : states.length = size) (hkey : key < size) :
    (k.apply (.setAll states)).isDown key = states.getD key (k.isDown key) := by
  have h16 : states.length = 16 := h
  have hlt : key < states.length := h ▸ hkey
  rw [apply, dif_pos h16, isDown, Vector.getElem?_mk, List.getElem?_toArray,
    List.getD_eq_getElem?_getD, List.getElem?_eq_getElem hlt, Option.getD_some, Option.getD_some]

/-- **Step lemma.** An edit changes the keys that it concerns and no others. -/
theorem isDown_apply (hkey : key < size) :
    (k.apply e).isDown key =
      if e.concerns key then e.outcome key (k.isDown key) else k.isDown key := by
  cases e with
  | setAll states =>
    by_cases h : states.length = size
    · simp [isDown_setAll h hkey, Edit.concerns, Edit.outcome, h]
    · have h16 : states.length ≠ 16 := h
      simp [apply, h16, Edit.concerns, h]
  | press c | release c | toggle c | set c state =>
    rw [apply, isDown_setKey]
    by_cases h : c = key
    · subst h
      simp [Edit.concerns, Edit.key?, Edit.outcome, hkey]
    · simp [Edit.concerns, Edit.key?, h, Ne.symm h]

/-- **Run lemma.** The state of a key is what the edits that concern it make of its first state. -/
theorem isDown_applyAll (hkey : key < size) :
    (k.applyAll es).isDown key =
      (es.filter (Edit.concerns key)).foldl (Edit.outcome key) (k.isDown key) := by
  induction es generalizing k with
  | nil => rfl
  | cons e es ih =>
    have hrest : (k.applyAll (e :: es)).isDown key =
        (es.filter (Edit.concerns key)).foldl (Edit.outcome key) ((k.apply e).isDown key) := ih
    rw [hrest, isDown_apply hkey]
    by_cases h : e.concerns key
    · rw [List.filter_cons_of_pos h, List.foldl_cons, if_pos h]
    · rw [List.filter_cons_of_neg h, if_neg h]

/-! ## What follows for whole keyboards -/

/-- Edits that agree for each key have the same effect. -/
theorem applyAll_congr
    (h : ∀ key < size, es.filter (Edit.concerns key) = fs.filter (Edit.concerns key)) :
    k.applyAll es = k.applyAll fs := by
  refine eq_of_isDown fun key hkey => ?_
  rw [isDown_applyAll hkey, isDown_applyAll hkey, h key hkey]

/-- An edit that concerns no key changes nothing. -/
theorem apply_eq_self (h : ∀ key < size, e.concerns key = false) : k.apply e = k := by
  refine eq_of_isDown fun key hkey => ?_
  rw [isDown_apply hkey, h key hkey, if_neg Bool.false_ne_true]

theorem concerns_of_key? {c : Nat} (h : e.key? = some c) : e.concerns key = (c == key) := by
  cases e with
  | setAll states => cases h
  | press d | release d | toggle d | set d state =>
    obtain rfl := Option.some.inj h
    rfl

/-- What is refused is to overwrite the keyboard with another number of states than it has keys. -/
theorem accepted_eq_false :
    e.accepted = false ↔ ∃ states, e = .setAll states ∧ states.length ≠ size := by
  cases e <;> simp [Edit.accepted]

/-- Edits of different keys may change places. -/
theorem applyAll_swap {a b : Nat} (he : e.key? = some a) (hf : f.key? = some b) (hne : a ≠ b)
    (before after : List Edit) :
    k.applyAll (before ++ e :: f :: after) = k.applyAll (before ++ f :: e :: after) := by
  refine applyAll_congr fun key _ => ?_
  have hpair : [e, f].filter (Edit.concerns key) = [f, e].filter (Edit.concerns key) := by
    -- the key is the one of `e`, or `e` is of no account
    by_cases h : a = key
    · have hb : b ≠ key := fun hb => hne (h.trans hb.symm)
      simp [concerns_of_key? he, concerns_of_key? hf, h, hb]
    · simp [concerns_of_key? he, h, List.filter_cons]
  have hmiddle : ∀ x y : Edit, before ++ x :: y :: after = before ++ ([x, y] ++ after) :=
    fun _ _ => rfl
  rw [hmiddle, hmiddle, List.filter_append, List.filter_append, hpair, List.filter_append,
    List.filter_append]

/-- **Keys stand apart.** Whatever the keys were at first and whatever edits are carried out,
refused ones among them, the state of a key is found from the edits that concern it alone, in their
order: those that name just this key and those that have a state for each of the sixteen keys, from
which it takes its own. A byte below sixteen is read as the state of its key, any other as a key
that is up. An edit that names no key of the keyboard changes nothing, and neither does one with
another number of states, which is refused. So the effect of edits depends only on the lists of
those that concern each key, and edits of different keys may change places anywhere. -/
theorem keys_apart (k : Keyboard) (es : List Edit) :
    (∀ key (h : key < 16), (k.applyAll es).keys[key] =
      (es.filter (Edit.concerns key)).foldl (Edit.outcome key) k.keys[key]) ∧
    (∀ c : UInt8, (k.applyAll es).isDown c.toNat =
      if h : c.toNat < 16 then (k.applyAll es).keys[c.toNat] else false) ∧
    (∀ e key, Edit.key? e = some key → 16 ≤ key → k.apply e = k) ∧
    (∀ states, states.length ≠ 16 → k.apply (.setAll states) = k) ∧
    (∀ (m : Machine) e, (m.act (.edit e)).answer = .badEdit ↔
      ∃ states, e = .setAll states ∧ states.length ≠ 16) ∧
    (∀ fs, (∀ key < 16, es.filter (Edit.concerns key) = fs.filter (Edit.concerns key)) →
      k.applyAll es = k.applyAll fs) ∧
    ∀ before after e f a b, Edit.key? e = some a → Edit.key? f = some b → a ≠ b →
      k.applyAll (before ++ e :: f :: after) = k.applyAll (before ++ f :: e :: after) := by
  refine ⟨?_, ?_, ?_, ?_, ?_, fun fs => applyAll_congr, fun before after e f a b he hf hne =>
    applyAll_swap he hf hne before after⟩
  · intro key h
    rw [← isDown_eq_getElem h, ← isDown_eq_getElem h]
    exact isDown_applyAll h
  · intro c
    split
    · next h => exact isDown_eq_getElem h
    · next h => exact isDown_of_size_le (Nat.not_lt.1 h)
  · intro e c he hc
    refine apply_eq_self fun key hkey => ?_
    rw [concerns_of_key? he, beq_eq_false_iff_ne]
    exact Nat.ne_of_gt (Nat.lt_of_lt_of_le hkey hc)
  · intro states h
    exact apply_eq_self fun key _ => beq_eq_false_iff_ne.2 h
  · intro m e
    refine Iff.trans ?_ accepted_eq_false
    rw [Machine.act, Machine.actEdit]
    cases e.accepted <;> simp

/-- Edits of a key, of all keys, of keys that do not exist and of one key too few. -/
theorem keys_apart_mixed :
    let states := (List.range 16).map (· == 2)
    let es : List Edit := [.press 0xA, .setAll states, .toggle 0x1A,
      .set (Numeral.wordLimit - 1) true, .toggle 0xA, .setAll (states.drop 1), .release 2]
    let k := released.applyAll es
    k.keys[0xA] = true ∧ k.isDown (0x1A : UInt8).toNat = false ∧
      k.apply (.press 0x12) = k ∧ k.apply (.setAll (states.drop 1)) = k ∧
      k = released.applyAll [.press 0xA, .setAll states, .release 2, .toggle 0xA] ∧
      k.applyAll [.press 3, .toggle 0xA] = k.applyAll [.toggle 0xA, .press 3] := by
  intro states es k
  obtain ⟨hkey, hbyte, -, -, -, hsame, -⟩ := keys_apart released es
  obtain ⟨-, -, hunknown, hshort, -, -, hswap⟩ := keys_apart k []
  refine ⟨(hkey 0xA (by decide)).trans (by decide), hbyte 0x1A, ?_, ?_, ?_, ?_⟩
  · exact hunknown (.press 0x12) 0x12 rfl (by decide)
  · exact hshort _ (by decide)
  · exact hsame _ (by decide)
  · exact hswap [] [] (.press 3) (.toggle 0xA) 3 0xA rfl rfl (by decide)

end Keyboard

end SpriteVM
