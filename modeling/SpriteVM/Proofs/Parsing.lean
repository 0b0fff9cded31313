import SpriteVM.Proofs.Numbers

/-!
# The grammar of commands

`Command.Reads` says what the words of a line mean, or which of their mistakes counts. The numbers
come first: a word behind the first one that denotes no number is a mistake whatever the line begins
with. Then comes the name, and last whether the numbers suit the verb, whose `Form` tells how many of
them it takes.

Every list of words is read in one way, the one that `Command.ofWords` finds (`reads_iff`). Hence
the words of a line are all that matters, and the two names of a verb can stand for each other
(`parse_grammar`).
-/

namespace SpriteVM

open Numeral

/-! ## The grammar -/

/-- The forms of arguments, with the commands that are made of them. -/
inductive Form where
  /-- no argument -/
  | bare (c : Command)
  /-- an address and perhaps a count -/
  | ranged (c : Nat → Nat → Command)
  /-- perhaps a count -/
  | counted (c : Nat → Command)
  /-- a key -/
  | keyed (c : Nat → Command)

/-- What comes of the arguments of a form. -/
inductive Form.Takes : Form → List Nat → Except CommandError Command → Prop where
  /-- no argument -/
  | bare (c : Command) : Takes (.bare c) [] (.ok c)
  /-- an argument where there should be none -/
  | noArguments {c : Command} {args : List Nat} (h : args.length ≠ 0) :
      Takes (.bare c) args (.error .noArguments)
  /-- an address, for sixteen words or bytes -/
  | address (c : Nat → Nat → Command) (address : Nat) :
      Takes (.ranged c) [address] (.ok (c address 16))
  /-- an address and a count -/
  | range (c : Nat → Nat → Command) (address count : Nat) :
      Takes (.ranged c) [address, count] (.ok (c address count))
  /-- neither an address nor an address and a count -/
  | noRange {c : Nat → Nat → Command} {args : List Nat} (h : args.length ≠ 1)
      (h' : args.length ≠ 2) : Takes (.ranged c) args (.error .wrongCount)
  /-- once -/
  | once (c : Nat → Command) : Takes (.counted c) [] (.ok (c 1))
  /-- so many times -/
  | times (c : Nat → Command) (count : Nat) : Takes (.counted c) [count] (.ok (c count))
  /-- more than a count -/
  | noCount {c : Nat → Command} {args : List Nat} (h : args.length ≠ 0) (h' : args.length ≠ 1) :
      Takes (.counted c) args (.error .wrongCount)
  /-- a key that there is -/
  | key (c : Nat → Command) {key : Nat} (h : key < 16) : Takes (.keyed c) [key] (.ok (c key))
  /-- a key that there is not -/
  | noSuchKey {c : Nat → Command} {key : Nat} (h : 16 ≤ key) :
      Takes (.keyed c) [key] (.error (.noSuchKey key))
  /-- no key or several -/
  | noKey {c : Nat → Command} {args : List Nat} (h : args.length ≠ 1) :
      Takes (.keyed c) args (.error .wrongCount)

namespace Verb

/-- The form of the arguments of a verb. -/
def form : Verb → Form
  | .disassemble => .ranged .disassemble
  | .registers => .bare .registers
  | .step => .counted .step
  | .video => .bare .video
  | .dump => .ranged .dump
  | .press => .keyed .press
  | .release => .keyed .release
  | .tick => .counted .tick
  | .help => .bare .help
  | .quit => .bare .quit

/-- A word is one of the names of a verb. -/
def Named (v : Verb) (word : List Char) : Prop :=
  word = v.name.toList ∨ word = v.shortName.toList

end Verb

/-- What comes of the words of a line. -/
inductive Command.Reads : List (List Char) → Except CommandError Command → Prop where
  /-- there is no word -/
  | empty : Reads [] (.error .empty)
  /-- the first word that should be a number is none, whatever the name -/
  | notANumber {name word : List Char} {before after : List (List Char)}
      (hbefore : ∀ w ∈ before, ∃ n, Denotes w n) (hword : ∀ n, ¬ Denotes word n) :
      Reads (name :: (before ++ word :: after)) (.error (.notANumber (String.ofList word)))
  /-- the name is that of no verb -/
  | unknown {name : List Char} {words : List (List Char)} {args : List Nat}
      (hargs : List.Forall₂ Denotes words args) (hname : ∀ v : Verb, ¬ v.Named name) :
      Reads (name :: words) (.error (.unknown (String.ofList name)))
  /-- the name is that of a verb, and its arguments decide -/
  | verb {v : Verb} {name : List Char} {words : List (List Char)} {args : List Nat}
      {r : Except CommandError Command} (hargs : List.Forall₂ Denotes words args)
      (hname : v.Named name) (h : v.form.Takes args r) : Reads (name :: words) r

/-! ## Verbs -/

namespace Verb

variable {v : Verb} {word : List Char}

theorem mem_all (v : Verb) : v ∈ all := by
  cases v <;> decide

/-- The verb of a word has this word as a name. -/
theorem ofName?_eq_some : ofName? (String.ofList word) = some v ↔ v.Named word := by
  have hname : ∀ s : String, s = String.ofList word ↔ word = s.toList := by
    intro s
    rw [← String.toList_inj, String.toList_ofList, eq_comm]
  constructor
  · intro h
    have hfound := List.find?_some h
    rw [Bool.or_eq_true, beq_iff_eq, beq_iff_eq, hname, hname] at hfound
    exact hfound
  · have hlong : ∀ v ∈ all, ofName? v.name = some v := by decide
    have hshort : ∀ v ∈ all, ofName? v.shortName = some v := by decide
    rintro (rfl | rfl)
    · rw [String.ofList_toList, hlong v v.mem_all]
    · rw [String.ofList_toList, hshort v v.mem_all]

theorem ofName?_eq_none : ofName? (String.ofList word) = none ↔ ∀ v : Verb, ¬ v.Named word := by
  simp only [Option.eq_none_iff_forall_ne_some, ne_eq, ofName?_eq_some]

theorem Named.ofName? (h : v.Named word) : Verb.ofName? (String.ofList word) = some v :=
  ofName?_eq_some.2 h

/-- Names are words. -/
theorem Named.isWord (h : v.Named word) : Blank.IsWord word := by
  have all : ∀ v ∈ Verb.all, ∀ w ∈ [v.name.toList, v.shortName.toList],
      w ≠ [] ∧ (w.all fun c => !Blank.isBlank c) = true := by decide
  obtain ⟨hne, hblank⟩ := all v v.mem_all word (by simpa [Named] using h)
  exact ⟨hne, fun c hc => by simpa using List.all_eq_true.1 hblank c hc⟩

end Verb

/-! ## Arguments -/

namespace Form

variable {f : Form} {args : List Nat} {r : Except CommandError Command}

/-- Reading the arguments of a form. -/
def read : Form → List Nat → Except CommandError Command
  | .bare c => Command.bare c
  | .ranged c => Command.ranged c
  | .counted c => Command.counted c
  | .keyed c => Command.keyed c

theorem takes_read (f : Form) (args : List Nat) : f.Takes args (f.read args) := by
  cases f with
  | bare c =>
    match args with
    | [] => exact .bare c
    | _ :: _ => exact .noArguments nofun
  | ranged c =>
    match args with
    | [] => exact .noRange nofun nofun
    | [address] => exact .address c address
    | [address, count] => exact .range c address count
    | _ :: _ :: _ :: _ => exact .noRange nofun nofun
  | counted c =>
    match args with
    | [] => exact .once c
    | [count] => exact .times c count
    | _ :: _ :: _ => exact .noCount nofun nofun
  | keyed c =>
    match args with
    | [] => exact .noKey nofun
    | [key] =>
      rw [read, Command.keyed]
      split
      · next h => exact .key c h
      · next h => exact .noSuchKey (Nat.le_of_not_lt h)
    | _ :: _ :: _ => exact .noKey nofun

/-- Nothing else comes of them. -/
theorem Takes.read_eq (h : f.Takes args r) : f.read args = r := by
  cases h with
  | bare c | address c address | range c address count | once c | times c count => rfl
  | key c h => exact if_pos h
  | noSuchKey h => exact if_neg (Nat.not_lt.2 h)
  | noArguments h =>
    match args with
    | [] => exact absurd rfl h
    | _ :: _ => rfl
  | noRange h h' =>
    match args with
    | [] => rfl
    | [_] => exact absurd rfl h
    | [_, _] => exact absurd rfl h'
    | _ :: _ :: _ :: _ => rfl
  | noCount h h' =>
    match args with
    | [] => exact absurd rfl h
    | [_] => exact absurd rfl h'
    | _ :: _ :: _ => rfl
  | noKey h =>
    match args with
    | [] => rfl
    | [_] => exact absurd rfl h
    | _ :: _ :: _ => rfl

end Form

namespace Command

variable {v : Verb} {args : List Nat} {words : List (List Char)} {name : List Char}
  {e : CommandError} {r : Except CommandError Command}

theorem ofVerb_eq_read (args : List Nat) (v : Verb) : ofVerb args v = v.form.read args := by
  cases v <;> rfl

/-- Words that all denote numbers are read as these. -/
theorem numbers_eq_ok : numbers words = .ok args ↔ List.Forall₂ Denotes words args := by
  induction words generalizing args with
  | nil =>
    rw [List.forall₂_nil_left_iff]
    exact ⟨fun h => (Except.ok.inj h).symm, fun h => h ▸ rfl⟩
  | cons word words ih =>
    rw [numbers, List.forall₂_cons_left_iff]
    constructor
    · intro h
      split at h
      · cases h
      · next n hn =>
        cases hrest : numbers words with
        | error e => rw [hrest] at h; cases h
        | ok ns =>
          rw [hrest] at h
          obtain rfl := Except.ok.inj h
          exact ⟨n, ns, number?_eq_some.1 hn, ih.1 hrest, rfl⟩
    · rintro ⟨n, ns, hn, hns, rfl⟩
      rw [number?_eq_some.2 hn, ih.2 hns]
      rfl

/-- The first word that denotes no number is the mistake. -/
theorem numbers_eq_error : numbers words = .error e ↔
    ∃ before word after, words = before ++ word :: after ∧ (∀ w ∈ before, ∃ n, Denotes w n) ∧
      (∀ n, ¬ Denotes word n) ∧ e = .notANumber (String.ofList word) := by
  induction words with
  | nil => exact iff_of_false nofun (by simp)
  | cons first words ih =>
    rw [numbers]
    split
    · next hnone =>
      have hfirst : ∀ n, ¬ Denotes first n := by
        intro n hn
        cases hnone.symm.trans (number?_eq_some.2 hn)
      constructor
      · intro h
        exact ⟨[], first, words, rfl, List.forall_mem_nil _, hfirst, (Except.error.inj h).symm⟩
      · rintro ⟨before, word, after, hwords, hbefore, -, rfl⟩
        cases before with
        | nil => rw [(List.cons.inj hwords).1]
        | cons w before =>
          obtain ⟨n, hn⟩ := hbefore w (List.mem_cons_self ..)
          exact absurd ((List.cons.inj hwords).1 ▸ hn) (hfirst n)
    · next n hn =>
      have hfirst : Denotes first n := number?_eq_some.1 hn
      have hmap : (numbers words).map (n :: ·) = .error e ↔ numbers words = .error e := by
        cases numbers words <;> simp [Except.map]
      rw [hmap, ih]
      constructor
      · rintro ⟨before, word, after, rfl, hbefore, hword, he⟩
        refine ⟨first :: before, word, after, rfl, ?_, hword, he⟩
        exact List.forall_mem_cons.2 ⟨⟨n, hfirst⟩, hbefore⟩
      · rintro ⟨before, word, after, hwords, hbefore, hword, he⟩
        cases before with
        | nil => exact absurd ((List.cons.inj hwords).1 ▸ hfirst) (hword n)
        | cons w before =>
          obtain ⟨-, hbefore⟩ := List.forall_mem_cons.1 hbefore
          exact ⟨before, word, after, (List.cons.inj hwords).2, hbefore, hword, he⟩

/-! ## Lines -/

/-- A list of words is read somehow. -/
theorem reads_ofWords (words : List (List Char)) : Reads words (ofWords words) := by
  cases words with
  | nil => exact .empty
  | cons name words =>
    rw [ofWords]
    cases hnumbers : numbers words with
    | error e =>
      obtain ⟨before, word, after, rfl, hbefore, hword, rfl⟩ := numbers_eq_error.1 hnumbers
      exact .notANumber hbefore hword
    | ok args =>
      have hargs := numbers_eq_ok.1 hnumbers
      cases hname : Verb.ofName? (String.ofList name) with
      | none => exact .unknown hargs (Verb.ofName?_eq_none.1 hname)
      | some v =>
        have htakes := v.form.takes_read args
        rw [← ofVerb_eq_read] at htakes
        exact .verb hargs (Verb.ofName?_eq_some.1 hname) htakes

/-- It is read in no other way. -/
theorem Reads.ofWords_eq (h : Reads words r) : ofWords words = r := by
  cases h with
  | empty => rfl
  | notANumber hbefore hword =>
    rw [ofWords, numbers_eq_error.2 ⟨_, _, _, rfl, hbefore, hword, rfl⟩]
  | unknown hargs hname =>
    rw [ofWords, numbers_eq_ok.2 hargs]
    simp only [Verb.ofName?_eq_none.2 hname]
  | verb hargs hname h =>
    rw [ofWords, numbers_eq_ok.2 hargs]
    simp only [hname.ofName?, ofVerb_eq_read, h.read_eq]

theorem reads_iff : Reads words r ↔ ofWords words = r := by
  constructor
  · exact Reads.ofWords_eq
  · rintro rfl
    exact reads_ofWords words

/-- The names of a verb are read alike. -/
theorem ofWords_congr_name {name' : List Char} (h : v.Named name) (h' : v.Named name') :
    ofWords (name :: words) = ofWords (name' :: words) := by
  rw [ofWords, ofWords]
  cases numbers words with
  | error e => rfl
  | ok args => simp only [h.ofName?, h'.ofName?]

/-- A line that begins with a name goes on with its arguments. -/
theorem parse_name_append {name text : String} (h : v.Named name.toList)
    (hend : Blank.EndsWord text.toList) :
    parse (name ++ text) = ofWords (name.toList :: Blank.words text.toList) := by
  rw [parse, String.toList_append, Blank.words_append h.isWord hend]

/-- **The grammar of commands.** A line is read as the grammar reads its words, which are the longest
stretches in it without a character of `White_Space`; so nothing but these words matters. There are
twenty names, and the two names of a verb give the same with whatever follows. -/
theorem parse_grammar :
    (∀ line r, parse line = r ↔ ∃ words, Blank.Spaced line.toList words ∧ Reads words r) ∧
    (∀ line line' words, Blank.Spaced line.toList words → Blank.Spaced line'.toList words →
      parse line = parse line') ∧
    (∀ c, Blank.isBlank c = true ↔ c.toNat ∈ Blank.codePoints) ∧
    (Verb.all.map fun v => (v.name, v.shortName)) =
      [("disassemble", "di"), ("registers", "r"), ("step", "s"), ("video", "v"), ("dump", "du"),
        ("press", "p"), ("release", "re"), ("tick", "t"), ("help", "h"), ("quit", "q")] ∧
    (Verb.all.flatMap fun v => [v.name, v.shortName]).Nodup ∧
    ∀ (v : Verb) (text : String), Blank.EndsWord text.toList →
      parse (v.name ++ text) = parse (v.shortName ++ text) := by
  have hparse : ∀ line words, Blank.Spaced line.toList words → parse line = ofWords words := by
    intro line words hwords
    rw [parse, hwords.words_eq]
  refine ⟨fun line r => ⟨?_, ?_⟩, ?_, fun c => Blank.isBlank_iff, rfl, by decide, ?_⟩
  · rintro rfl
    exact ⟨_, Blank.spaced_words _, reads_ofWords _⟩
  · rintro ⟨words, hwords, hreads⟩
    rw [hparse line words hwords, hreads.ofWords_eq]
  · intro line line' words hwords hwords'
    rw [hparse line words hwords, hparse line' words hwords']
  · intro v text hend
    rw [parse_name_append (.inl rfl : v.Named v.name.toList) hend,
      parse_name_append (.inr rfl : v.Named v.shortName.toList) hend]
    exact ofWords_congr_name (.inl rfl) (.inr rfl)

/-- Between unusual blanks stands an unknown name with two words that are no numbers, the first of
which is the mistake. A prefix of a name is unknown, and so is a name in another case. The two names
of a verb share their mistakes. -/
theorem parse_grammar_mistakes :
    parse "\u2003leap\t0x1\u00A0+zz\x0B3q " = .error (.notANumber "+zz") ∧
      parse "regi 1" = .error (.unknown "regi") ∧ parse "Quit" = .error (.unknown "Quit") ∧
      (Blank.EndsWord " +0x10".toList ∧ parse "press +0x10" = parse "p +0x10") ∧
      parse "p\n0x10" = .error (.noSuchKey 16) := by
  obtain ⟨hparse, -, -, -, -, hnames⟩ := parse_grammar
  have hnumber : ∀ (w : String) n, number? w.toList = some n → Denotes w.toList n :=
    fun _ _ => number?_eq_some.1
  have hnone : ∀ w : String, number? w.toList = none → ∀ n, ¬ Denotes w.toList n :=
    fun w hw n hn => nomatch hw.symm.trans (number?_eq_some.2 hn)
  have hname : ∀ w : String, Verb.ofName? w = none → ∀ v : Verb, ¬ v.Named w.toList :=
    fun w hw => Verb.ofName?_eq_none.1 (by rwa [String.ofList_toList])
  have hends : Blank.EndsWord " +0x10".toList := Blank.endsWord_cons (by decide) _
  refine ⟨(hparse _ _).2 ⟨["leap".toList, "0x1".toList, "+zz".toList, "3q".toList], ?_, ?_⟩,
    (hparse _ _).2 ⟨["regi".toList, "1".toList], ?_, ?_⟩, (hparse _ _).2 ⟨["Quit".toList], ?_, ?_⟩,
    ⟨hends, hnames .press " +0x10" hends⟩, (hparse _ _).2 ⟨["p".toList, "0x10".toList], ?_, ?_⟩⟩
  · exact Blank.spaced_iff.2 (by decide)
  · refine @Reads.notANumber _ _ ["0x1".toList] _ ?_ (hnone "+zz" (by decide))
    exact List.forall_mem_singleton.2 ⟨1, hnumber "0x1" 1 (by decide)⟩
  · exact Blank.spaced_iff.2 (by decide)
  · exact .unknown (.cons (hnumber "1" 1 (by decide)) .nil) (hname "regi" (by decide))
  · exact Blank.spaced_iff.2 (by decide)
  · exact .unknown .nil (hname "Quit" (by decide))
  · exact Blank.spaced_iff.2 (by decide)
  · refine .verb (v := .press) (.cons (hnumber "0x10" 16 (by decide)) .nil) (.inr rfl) ?_
    exact .noSuchKey (by decide)

end Command

end SpriteVM
